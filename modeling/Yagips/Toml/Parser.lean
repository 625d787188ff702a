import Yagips.Toml.Tables

/-!
# The parser

`toml_parse` reads a text token by token: entries `key = value`, whose values are texts, arrays and inline
tables, and selections `[x.y.z]` and `[[x.y.z]]` of the table that the entries behind them go to.
-/
namespace Yagips.Toml

open Yagips.Lib

/-- The loop over ends of lines, in `n` turns at most. -/
def skipNewlines : Nat → Token → Bool → Except Stop Token
  | 0, _, _ => .error .turns
  | n + 1, tok, isdotspecial =>
    if tok.tok = .newline then do
      let tok ← nextToken tok isdotspecial
      if tok.eof then return tok else skipNewlines n tok isdotspecial
    else return tok

def eatToken (tok : Token) (typ : TokenType) (isdotspecial : Bool) : Except Stop Token :=
  if tok.tok ≠ typ then .error .internal else nextToken tok isdotspecial

/-- The text of a token. -/
def Token.text (tok : Token) : Bytes := tok.ptr.take tok.len

/-- The kind of an array that gets an element. -/
def Kind.next (kind new : Kind) : Kind := if kind = .unset then new else if kind ≠ new then .mixed else kind

/-- The table of a key before a dot, which is made if it is not there. -/
def dottedTable (tab : Table) (key : Token) : Except Stop (Nat × Table) := do
  let subtabstr ← normalizeKey key
  match tomlTableTable tab subtabstr with
  | some i => return (i, tab)
  | none => createKeytableInTable tab key

def Arr.push (arr : Arr) (kind : Kind) (item : Item) : Arr :=
  { arr with kind := arr.kind.next kind, item := arr.item ++ [item] }

/-- An element of an array, by what parses arrays and inline tables. -/
def arrayElement (array : Token → Arr → Except Stop (Token × Arr)) (table : Token → Table → Except Stop (Token × Table))
    (tok : Token) (arr : Arr) : Except Stop (Token × Arr) :=
  match tok.tok with
  | .string => do
    let next ← eatToken tok tok.tok false
    return (next, arr.push .value (.val tok.text))
  | .lbracket => do
    let (tok, subarr) ← array tok {}
    return (tok, arr.push .array (.arr subarr))
  | .lbrace => do
    let (tok, subtab) ← table tok {}
    return (tok, arr.push .table (.tab subtab))
  | _ => eSyntax tok.lineno (ascii "syntax error")

mutual

/-- The first argument is the number of turns that are left, here and in the functions below. -/
def parseKeyval : Nat → Token → Table → Except Stop (Token × Table)
  | 0, _, _ => .error .turns
  | n + 1, key, tab =>
    if tab.readonly then eForbid key.lineno (ascii "cannot insert new entry into existing table")
    else do
      let tok ← eatToken key .string true
      if tok.tok = .dot then
        let (i, tab) ← dottedTable tab key
        let tok ← nextToken tok true
        tab.onTab i fun subtab => parseKeyval n tok subtab
      else if tok.tok ≠ .equal then eSyntax tok.lineno (ascii "missing =")
      else
        let tok ← nextToken tok false
        match tok.tok with
        | .string =>
          let tab ← createKeyvalInTable tab key tok.text
          let tok ← nextToken tok true
          return (tok, tab)
        | .lbracket =>
          let (i, tab) ← createKeyarrayInTable tab key .unset
          tab.onArr i fun arr => parseArray n tok arr
        | .lbrace =>
          let (i, tab) ← createKeytableInTable tab key
          tab.onTab i fun nxttab => parseInlineTable n tok nxttab
        | _ => eSyntax tok.lineno (ascii "syntax error")

def parseArray : Nat → Token → Arr → Except Stop (Token × Arr)
  | 0, _, _ => .error .turns
  | n + 1, tok, arr => do
    let tok ← eatToken tok .lbracket false
    arrayLoop n tok arr

def arrayLoop : Nat → Token → Arr → Except Stop (Token × Arr)
  | 0, _, _ => .error .turns
  | n + 1, tok, arr => do
    let tok ← skipNewlines (tok.ptr.length + 2) tok false
    if tok.tok = .rbracket then
      let tok ← eatToken tok .rbracket true
      return (tok, arr)
    else
      let (tok, arr) ← arrayElement (parseArray n) (parseInlineTable n) tok arr
      let tok ← skipNewlines (tok.ptr.length + 2) tok false
      if tok.tok = .comma then
        let tok ← eatToken tok .comma false
        arrayLoop n tok arr
      else
        let tok ← eatToken tok .rbracket true
        return (tok, arr)

def parseInlineTable : Nat → Token → Table → Except Stop (Token × Table)
  | 0, _, _ => .error .turns
  | n + 1, tok, tab => do
    let tok ← eatToken tok .lbrace true
    inlineLoop n tok tab

def inlineLoop : Nat → Token → Table → Except Stop (Token × Table)
  | 0, _, _ => .error .turns
  | n + 1, tok, tab =>
    if tok.tok = .newline then eSyntax tok.lineno (ascii "newline not allowed in inline table")
    else if tok.tok = .rbrace then do
      let tok ← eatToken tok .rbrace true
      return (tok, { tab with readonly := true })
    else if tok.tok ≠ .string then eSyntax tok.lineno (ascii "expect a string")
    else do
      let (tok, tab) ← parseKeyval n tok tab
      if tok.tok = .newline then eSyntax tok.lineno (ascii "newline not allowed in inline table")
      else if tok.tok = .comma then
        let tok ← eatToken tok .comma true
        inlineLoop n tok tab
      else
        let tok ← eatToken tok .rbrace true
        return (tok, { tab with readonly := true })

end

/-! ## Selections -/

/-- The keys up to the closing bracket, with room for so many more. -/
def fillTabpath : Nat → Token → List (Token × Bytes) → Except Stop (Token × List (Token × Bytes))
  | 0, tok, _ => eSyntax tok.lineno (ascii "table path is too deep; max allowed is 10.")
  | room + 1, tok, tpath =>
    if tok.tok ≠ .string then eSyntax tok.lineno (ascii "invalid or missing key")
    else do
      let key ← normalizeKey tok
      let tpath := tpath ++ [(tok, key)]
      let tok ← nextToken tok true
      if tok.tok = .rbracket then return (tok, tpath)
      else if tok.tok ≠ .dot then eSyntax tok.lineno (ascii "invalid key")
      else
        let tok ← nextToken tok true
        fillTabpath room tok tpath

/-- Down from a table along keys, making tables on the way: the steps taken, and the table after it. The
key of a table that is made is a copy up to its first NUL. -/
def walkTabpath : List (Token × Bytes) → Table → Except Stop (List Step × Table)
  | [], curtab => return ([], curtab)
  | (tok, key) :: tpath, curtab =>
    match checkKey curtab key with
    | some (.tab i) => do
      let (path, curtab) ← curtab.onTab i (walkTabpath tpath)
      return (.tab i :: path, curtab)
    | some (.arr i) => do
      let ((j, path), curtab) ← curtab.onArr i fun nextarr =>
        if nextarr.kind ≠ .table then .error .internal
        else if nextarr.item = [] then .error .internal
        else do
          let j := nextarr.item.length - 1
          let (path, nextarr) ← nextarr.onItem j (walkTabpath tpath)
          return ((j, path), nextarr)
      return (.item i j :: path, curtab)
    | some (.kval _) => eKeyexists tok.lineno
    | none => do
      let i := curtab.tab.length
      let curtab : Table := { curtab with tab := curtab.tab ++ [{ key := cstr key, implicit := true }] }
      let (path, curtab) ← curtab.onTab i (walkTabpath tpath)
      return (.tab i :: path, curtab)

structure Ctx where
  tok : Token
  root : Table
  curtab : List Step

/-- The array of a last key `z`, which is made if it is not there. -/
def selectedArray (curtab : Table) (z : Token) : Except Stop (Nat × Table) := do
  let zstr ← normalizeKey z
  match tomlTableArray curtab zstr with
  | some i => return (i, curtab)
  | none => createKeyarrayInTable curtab z .table

/-- The array gets one more table. -/
def selectArray (z : Token) (curtab : Table) : Except Stop (Step × Table) := do
  let (i, curtab) ← selectedArray curtab z
  curtab.onArr i fun arr =>
    if arr.kind ≠ .table then eSyntax z.lineno (ascii "array mismatch")
    else return (.item i arr.item.length, { arr with item := arr.item ++ [.tab { key := ascii "__anon__" }] })

def selectTable (z : Token) (curtab : Table) : Except Stop (Step × Table) := do
  let (i, curtab) ← createKeytableInTable curtab z
  return (.tab i, curtab)

def parseSelect (ctx : Ctx) : Except Stop Ctx := do
  -- `[[` is one bracket right behind another
  let llb : Bool := ctx.tok.ptr.getD 1 0 = 0x5b
  let tok ← eatToken ctx.tok .lbracket true
  let opening : Except Stop Token := if llb then eatToken tok .lbracket true else return tok
  let tok ← opening
  let (tok, tpath) ← fillTabpath 10 tok []
  match tpath.getLast? with
  | none => .error .null
  | some (z, _) =>
    let (path, root) ← walkTabpath tpath.dropLast ctx.root
    let (last, root) ← root.onPath path (if llb then selectArray z else selectTable z)
    if tok.tok ≠ .rbracket then eSyntax tok.lineno (ascii "expects ]")
    else
      let closing : Except Stop Token :=
        if llb then
          if tok.ptr.getD 1 0 ≠ 0x5d then eSyntax tok.lineno (ascii "expects ]]") else eatToken tok .rbracket true
        else return tok
      let tok ← closing
      let tok ← eatToken tok .rbracket true
      if tok.tok ≠ .newline then eSyntax tok.lineno (ascii "extra chars after ] or ]]")
      else return { tok, root, curtab := path ++ [last] }

/-! ## The text -/

/-- The loop of `toml_parse`, in `n` turns at most. -/
def parseLoop : Nat → Ctx → Except Stop Table
  | 0, _ => .error .turns
  | n + 1, ctx =>
    if ctx.tok.eof then return ctx.root
    else
      match ctx.tok.tok with
      | .newline => do
        let tok ← nextToken ctx.tok true
        parseLoop n { ctx with tok }
      | .string => do
        let (tok, root) ← ctx.root.onPath ctx.curtab (parseKeyval (2 * ctx.tok.ptr.length + 1) ctx.tok)
        if tok.tok ≠ .newline then eSyntax tok.lineno (ascii "extra chars after value")
        else
          let tok ← eatToken tok .newline true
          parseLoop n { ctx with tok, root }
      | .lbracket => do
        let ctx ← parseSelect ctx
        parseLoop n ctx
      | _ => eSyntax ctx.tok.lineno (ascii "syntax error")

/-- The text starts behind an end of a line that is not there. -/
def tomlParse (toml : Bytes) : Except Stop Table :=
  parseLoop (toml.length + 2) { tok := { tok := .newline, lineno := 1, ptr := toml, len := 0 }, root := {}, curtab := [] }

/-- A file is read up to its first NUL. -/
def tomlParseFile (file : Bytes) : Except Stop Table := tomlParse (cstr file)

end Yagips.Toml
