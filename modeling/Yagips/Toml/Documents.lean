import Yagips.Toml.Parser

/-!
# Documents

What a configuration file says: entries of strings, integers, booleans, arrays and inline tables, and behind
them the tables `[x.y.z]` and `[[x.y.z]]`. It is written line by line, and stands for a table.
-/
namespace Yagips.Toml

open Yagips.Lib

/-- What a string or a key may be. -/
def Text : Type := { s : Bytes // Grouped s }

inductive Scalar where
  | string (s : Text)
  | int (i : Int64)
  | bool (b : Bool)

inductive Value where
  | scalar (s : Scalar)
  | array (elems : List Value)
  | table (entries : List (Text × Value))

mutual

/-- The entries of a table, and the tables in it that have lines of their own. -/
inductive Body where
  | mk (entries : List (Text × Value)) (parts : List Part)

/-- Either one table of a key, or an array of tables. -/
inductive Part where
  | table (key : Text) (body : Body)
  | tables (key : Text) (bodies : List Body)

end

def Part.key : Part → Text
  | .table key _ => key
  | .tables key _ => key

/-! ## Writing -/

def Scalar.print : Scalar → Bytes
  | .string s => quote s.val
  | .int i => ascii (toString i.toInt)
  | .bool true => ascii "true"
  | .bool false => ascii "false"

/-- A key that needs no quotes. One that starts with a digit could look like a date. -/
def isWord : Bytes → Bool
  | [] => false
  | c :: s => ¬ isDigit c ∧ isBare c ∧ s.all isBare

def Text.printKey (key : Text) : Bytes := if isWord key.val then key.val else quote key.val

mutual

def Value.print : Value → Bytes
  | .scalar s => s.print
  | .array elems => ascii "[" ++ firstElems elems
  | .table entries => ascii "\x7b" ++ firstEntries entries

/-- The elements up to the closing bracket. -/
def firstElems : List Value → Bytes
  | [] => ascii "]"
  | v :: elems => v.print ++ moreElems elems

def moreElems : List Value → Bytes
  | [] => ascii "]"
  | v :: elems => ascii ", " ++ (v.print ++ moreElems elems)

def firstEntries : List (Text × Value) → Bytes
  | [] => ascii "\x7d"
  | (key, v) :: entries => key.printKey ++ (ascii " = " ++ (v.print ++ moreEntries entries))

def moreEntries : List (Text × Value) → Bytes
  | [] => ascii "\x7d"
  | (key, v) :: entries => ascii ", " ++ (key.printKey ++ (ascii " = " ++ (v.print ++ moreEntries entries)))

end

def printLines (entries : List (Text × Value)) : Bytes :=
  entries.flatMap fun e => e.1.printKey ++ (ascii " = " ++ (e.2.print ++ ascii "\n"))

def morePath (path : List Text) : Bytes := path.flatMap fun key => ascii "." ++ key.printKey

def printPath : List Text → Bytes
  | [] => []
  | key :: path => key.printKey ++ morePath path

mutual

/-- The path is that of the table the body is of. -/
def Body.print (path : List Text) : Body → Bytes
  | .mk entries parts => printLines entries ++ printParts path parts

def Part.print (path : List Text) : Part → Bytes
  | .table key body => ascii "[" ++ (printPath (path ++ [key]) ++ (ascii "]\n" ++ body.print (path ++ [key])))
  | .tables key bodies => printBodies (path ++ [key]) bodies

def printBodies (path : List Text) : List Body → Bytes
  | [] => []
  | body :: bodies => ascii "[[" ++ (printPath path ++ (ascii "]]\n" ++ (body.print path ++ printBodies path bodies)))

def printParts (path : List Text) : List Part → Bytes
  | [] => []
  | part :: parts => part.print path ++ printParts path parts

end

/-! ## The table that is meant -/

def Value.kind : Value → Kind
  | .scalar _ => .value
  | .array _ => .array
  | .table _ => .table

mutual

def Value.item : Value → Item
  | .scalar s => .val s.print
  | .array elems => .arr (Arr.pushAll {} elems)
  | .table entries => .tab { Table.putAll {} entries with readonly := true }

def Arr.pushAll : Arr → List Value → Arr
  | arr, [] => arr
  | arr, v :: elems => (arr.push v.kind v.item).pushAll elems

def Table.put (t : Table) (key : Bytes) : Value → Table
  | .scalar s => { t with kval := t.kval ++ [{ key, val := s.print }] }
  | .array elems => { t with arr := t.arr ++ [Arr.pushAll { key } elems] }
  | .table entries => { t with tab := t.tab ++ [{ Table.putAll { key } entries with readonly := true }] }

def Table.putAll : Table → List (Text × Value) → Table
  | t, [] => t
  | t, (key, v) :: entries => (t.put key.val v).putAll entries

end

mutual

def Body.build : Body → Table → Table
  | .mk entries parts, t => buildParts parts (t.putAll entries)

def Part.build : Part → Table → Table
  | .table key body, t => { t with tab := t.tab ++ [body.build { key := key.val }] }
  | .tables key bodies, t => { t with arr := t.arr ++ [{ key := key.val, kind := .table, item := buildBodies bodies }] }

def buildBodies : List Body → List Item
  | [] => []
  | body :: bodies => .tab (body.build { key := ascii "__anon__" }) :: buildBodies bodies

def buildParts : List Part → Table → Table
  | [], t => t
  | part :: parts, t => buildParts parts (part.build t)

end

/-! ## Documents that can be written -/

/-- A key is in a table once. -/
inductive Value.Unique : Value → Prop where
  | scalar (s : Scalar) : Unique (.scalar s)
  | array {elems : List Value} (h : ∀ v ∈ elems, Unique v) : Unique (.array elems)
  | table {entries : List (Text × Value)} (keys : (entries.map fun e => cstr e.1.val).Nodup) (h : ∀ e ∈ entries, Unique e.2) :
      Unique (.table entries)

/-- Tables with lines of their own are not more than 10 deep, and an array of tables has one. -/
inductive Body.Fits : Nat → Body → Prop where
  | mk {depth : Nat} {entries : List (Text × Value)} {parts : List Part}
      (keys : (entries.map (fun e => cstr e.1.val) ++ parts.map fun p => cstr p.key.val).Nodup)
      (values : ∀ e ∈ entries, e.2.Unique)
      (room : parts ≠ [] → depth < 10)
      (filled : ∀ key, Part.tables key [] ∉ parts)
      (table : ∀ key body, Part.table key body ∈ parts → Fits (depth + 1) body)
      (tables : ∀ key bodies, Part.tables key bodies ∈ parts → ∀ body ∈ bodies, Fits (depth + 1) body) :
      Fits depth (.mk entries parts)

end Yagips.Toml
