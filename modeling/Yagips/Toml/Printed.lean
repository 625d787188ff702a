import Yagips.Toml.Lexemes

/-!
# Values are read as they are written

Arrays and inline tables nest: what is read of a value rests on what is read of those in it. An entry that
is read is the one that is meant.
-/
namespace Yagips.Toml

open Yagips.Lib

/-! ## New entries -/

theorem Arr.pushAll_key (elems : List Value) (arr : Arr) : (arr.pushAll elems).key = arr.key := by
  induction elems generalizing arr with
  | nil => rw [Arr.pushAll]
  | cons v elems ih => rw [Arr.pushAll, ih, Arr.push]

theorem Table.put_key (t : Table) (key : Bytes) (v : Value) : (t.put key v).key = t.key := by
  cases v <;> rw [Table.put]

theorem Table.putAll_key (entries : List (Text × Value)) (t : Table) : (t.putAll entries).key = t.key := by
  induction entries generalizing t with
  | nil => rw [Table.putAll]
  | cons e entries ih =>
    obtain ⟨key, v⟩ := e
    rw [Table.putAll, ih, Table.put_key]

theorem Table.put_readonly (t : Table) (key : Bytes) (v : Value) : (t.put key v).readonly = t.readonly := by
  cases v <;> rw [Table.put]

theorem Table.mem_put_keys {t : Table} {key x : Bytes} {v : Value} : x ∈ (t.put key v).keys ↔ x ∈ t.keys ∨ x = cstr key := by
  cases v with
  | scalar s => simp only [Table.put, Table.keys, List.map_append, List.map_singleton, List.mem_append, List.mem_singleton]; tauto
  | array elems =>
    simp only [Table.put, Table.keys, List.map_append, List.map_singleton, List.mem_append, List.mem_singleton, Arr.pushAll_key]; tauto
  | table entries =>
    simp only [Table.put, Table.keys, List.map_append, List.map_singleton, List.mem_append, List.mem_singleton, Table.putAll_key]; tauto

/-- Entries that a table has room for: their keys are new, and each is there once. -/
structure Table.Takes (t : Table) (entries : List (Text × Value)) : Prop where
  open_ : t.readonly = false
  new : ∀ e ∈ entries, cstr e.1.val ∉ t.keys
  keys : (entries.map fun e => cstr e.1.val).Nodup

theorem Table.Takes.tail {t : Table} {key : Text} {v : Value} {entries : List (Text × Value)} (h : t.Takes ((key, v) :: entries)) :
    (t.put key.val v).Takes entries := by
  have hkeys := List.nodup_cons.mp h.keys
  refine ⟨(Table.put_readonly t key.val v).trans h.open_, fun e he hin => ?_, hkeys.2⟩
  rcases Table.mem_put_keys.mp hin with hold | heq
  · exact h.new e (List.mem_cons_of_mem _ he) hold
  · exact hkeys.1 (List.mem_map.mpr ⟨e, he, heq⟩)

theorem Table.Takes.head {t : Table} {key : Text} {v : Value} {entries : List (Text × Value)} (h : t.Takes ((key, v) :: entries)) :
    checkKey t key.val = none :=
  checkKey_none_iff.mpr (h.new (key, v) List.mem_cons_self)

/-! ## Tokens of values -/

/-- The token that a value starts with, and what stands behind the value. -/
def Value.Here (rest : Bytes) (tok : Token) : Value → Prop
  | .scalar s => tok.Has .string s.print rest
  | .array elems => tok.Has .lbracket (ascii "[") (firstElems elems ++ rest)
  | .table entries => tok.Has .lbrace (ascii "\x7b") (firstEntries entries ++ rest)

theorem Value.Here.ptr {v : Value} {rest : Bytes} {tok : Token} (h : v.Here rest tok) : tok.ptr = v.print ++ rest := by
  cases v with
  | scalar s => rw [Token.Has.ptr h, Value.print]
  | array elems => rw [Token.Has.ptr h, Value.print, List.append_assoc]
  | table entries => rw [Token.Has.ptr h, Value.print, List.append_assoc]

theorem Value.Here.ne {v : Value} {rest : Bytes} {tok : Token} (h : v.Here rest tok) : tok.tok ≠ .newline ∧ tok.tok ≠ .rbracket := by
  cases v with
  | scalar s => rw [Token.Has.typ h]; decide
  | array elems => rw [Token.Has.typ h]; decide
  | table entries => rw [Token.Has.typ h]; decide

section Tokens

variable {typ typ' : TokenType} {lexeme rest : Bytes} {tok : Token} {c : UInt8}

/-- The first token of a value is found. -/
theorem Value.found (v : Value) (hc : Ends c typ') (rest : Bytes) (lineno : Nat) :
    Meets Never (fun tok => v.Here (c :: rest) tok) (tokenAt false lineno (skipBlank false (v.print ++ c :: rest))) := by
  cases v with
  | scalar s => exact scalar_lexeme s hc rest lineno
  | array elems =>
    rw [Value.print, List.append_assoc]
    have hbyte : byteToken false 0x5b = some .lbracket := rfl
    exact byte_lexeme hbyte (fun _ => rfl) (firstElems elems ++ c :: rest) lineno
  | table entries =>
    rw [Value.print, List.append_assoc]
    have hbyte : byteToken false 0x7b = some .lbrace := rfl
    exact byte_lexeme hbyte (fun _ => rfl) (firstEntries entries ++ c :: rest) lineno

theorem Token.Has.next_value {v : Value} (h : tok.Has typ lexeme (v.print ++ c :: rest)) (hc : Ends c typ') :
    Meets Never (fun tok => v.Here (c :: rest) tok) (nextToken tok false) := by
  rw [nextToken, h.ptr, h.len, List.drop_left]
  exact v.found hc rest _

theorem Token.Has.next_value_blank {v : Value} (h : tok.Has typ lexeme (ascii " " ++ (v.print ++ c :: rest))) (hc : Ends c typ') :
    Meets Never (fun tok => v.Here (c :: rest) tok) (nextToken tok false) := by
  have hblank : skipBlank false (ascii " " ++ (v.print ++ c :: rest)) = skipBlank false (v.print ++ c :: rest) := rfl
  rw [nextToken, h.ptr, h.len, List.drop_left, hblank]
  exact v.found hc rest _

theorem Token.Has.next_key {key : Text} (h : tok.Has typ lexeme (key.printKey ++ (ascii " = " ++ rest))) :
    Meets Never (Token.Has .string key.printKey (ascii " = " ++ rest)) (nextToken tok true) :=
  h.next (key_lexeme key (c := 0x20) (by decide) (by decide) (ascii "= " ++ rest))

theorem Token.Has.next_key_blank {key : Text} (h : tok.Has typ lexeme (ascii " " ++ (key.printKey ++ (ascii " = " ++ rest)))) :
    Meets Never (Token.Has .string key.printKey (ascii " = " ++ rest)) (nextToken tok true) :=
  h.next_blank (key_lexeme key (c := 0x20) (by decide) (by decide) (ascii "= " ++ rest))

theorem Token.Has.next_end (h : tok.Has typ lexeme (c :: rest)) (hc : Ends c typ') (dotisspecial : Bool) :
    Meets Never (Token.Has typ' [c] rest) (nextToken tok dotisspecial) := by
  have hhere : tok.Has typ lexeme ([c] ++ rest) := h
  exact hhere.next (hc.lexeme dotisspecial rest)

theorem skipNewlines_other (h : tok.tok ≠ .newline) (n : Nat) (isdotspecial : Bool) : skipNewlines (n + 1) tok isdotspecial = .ok tok := by
  rw [skipNewlines, if_neg h]
  rfl

end Tokens

/-! ## Values -/

/-- A value is read where it was written: as an entry of a table, and as an element of an array. -/
structure Value.Reads (v : Value) : Prop where
  keyval : ∀ {n : Nat} {key : Text} {tok : Token} {tab : Table} {c : UInt8} {typ : TokenType} {rest : Bytes}, Ends c typ →
    tok.Has .string key.printKey (ascii " = " ++ (v.print ++ c :: rest)) → 2 * tok.ptr.length < n → tab.readonly = false →
    checkKey tab key.val = none →
    Meets Never (fun p => p.1.Has typ [c] rest ∧ p.2 = tab.put key.val v) (parseKeyval n tok tab)
  element : ∀ {n : Nat} {tok : Token} {arr : Arr} {c : UInt8} {typ : TokenType} {rest : Bytes}, Ends c typ →
    v.Here (c :: rest) tok → 2 * tok.ptr.length < n →
    Meets Never (fun p => p.1.Has typ [c] rest ∧ p.2 = arr.push v.kind v.item) (arrayElement (parseArray n) (parseInlineTable n) tok arr)

section Values

variable {n : Nat} {tok : Token} {c : UInt8} {typ : TokenType} {rest : Bytes}

/-- What stands behind an element or an entry ends it. -/
theorem moreElems_ends (elems : List Value) (rest : Bytes) : ∃ c typ p, Ends c typ ∧ moreElems elems ++ rest = c :: p := by
  cases elems with
  | nil => exact ⟨0x5d, .rbracket, rest, ends_rbracket, by rw [moreElems]; rfl⟩
  | cons v elems => exact ⟨0x2c, .comma, _, ends_comma, by rw [moreElems]; rfl⟩

/-- The elements of an array, from the first on. -/
theorem arrayLoop_reads {v : Value} {elems : List Value} {arr : Arr} (hc : Ends c typ) (hv : v.Reads) (helems : ∀ w ∈ elems, w.Reads)
    (htok : v.Here (moreElems elems ++ c :: rest) tok) (hn : 2 * tok.ptr.length + 1 < n) :
    Meets Never (fun p => p.1.Has typ [c] rest ∧ p.2 = arr.pushAll (v :: elems)) (arrayLoop n tok arr) := by
  induction elems generalizing v n tok arr with
  | nil =>
    obtain ⟨n, rfl⟩ : ∃ m, n = m + 1 := ⟨n - 1, by omega⟩
    rw [arrayLoop, skipNewlines_other htok.ne.1, ok_bind, if_neg htok.ne.2]
    rw [moreElems] at htok
    refine (hv.element ends_rbracket htok (by omega)).bind fun p hp => ?_
    obtain ⟨tok', arr'⟩ := p
    obtain ⟨htok', rfl⟩ := hp
    dsimp only
    rw [skipNewlines_other (by rw [htok'.typ]; decide), ok_bind, if_neg (by rw [htok'.typ]; decide), htok'.eat]
    exact (htok'.next_end hc true).ret fun next hnext => ⟨hnext, by rw [Arr.pushAll, Arr.pushAll]⟩
  | cons w elems ih =>
    obtain ⟨n, rfl⟩ : ∃ m, n = m + 1 := ⟨n - 1, by omega⟩
    have hw := helems w List.mem_cons_self
    have hlen := congrArg List.length htok.ptr
    rw [arrayLoop, skipNewlines_other htok.ne.1, ok_bind, if_neg htok.ne.2]
    rw [moreElems] at htok hlen
    refine (hv.element ends_comma htok (by omega)).bind fun p hp => ?_
    obtain ⟨tok', arr'⟩ := p
    obtain ⟨htok', rfl⟩ := hp
    dsimp only
    rw [skipNewlines_other (by rw [htok'.typ]; decide), ok_bind, if_pos htok'.typ, htok'.eat]
    have hblank : tok'.Has .comma [0x2c] (ascii " " ++ (w.print ++ (moreElems elems ++ c :: rest))) := by
      have hrest : ascii " " ++ (w.print ++ (moreElems elems ++ c :: rest)) = ascii " " ++ (w.print ++ moreElems elems) ++ c :: rest := by
        simp only [List.append_assoc]
      rw [hrest]
      exact htok'
    obtain ⟨c', typ', p, hc', hmore⟩ := moreElems_ends elems (c :: rest)
    rw [hmore] at hblank
    refine (hblank.next_value_blank hc').bind fun next hnext => ?_
    have hshort := congrArg List.length hnext.ptr
    rw [← hmore] at hnext hshort
    rw [Arr.pushAll]
    refine ih hw (fun u hu => helems u (List.mem_cons_of_mem w hu)) hnext ?_
    simp only [List.length_append] at hlen hshort
    have hcomma : (ascii ", ").length = 2 := rfl
    omega

/-- An array from its bracket on. -/
theorem parseArray_reads {elems : List Value} {arr : Arr} (hc : Ends c typ) (helems : ∀ v ∈ elems, v.Reads)
    (htok : tok.Has .lbracket (ascii "[") (firstElems elems ++ c :: rest)) (hn : 2 * tok.ptr.length < n) :
    Meets Never (fun p => p.1.Has typ [c] rest ∧ p.2 = arr.pushAll elems) (parseArray n tok arr) := by
  obtain ⟨n, rfl⟩ : ∃ m, n = m + 1 := ⟨n - 1, by omega⟩
  have hlen := congrArg List.length htok.ptr
  have hopen : (ascii "[").length = 1 := rfl
  rw [List.length_append] at hlen
  rw [parseArray, htok.eat]
  cases elems with
  | nil =>
    rw [firstElems] at htok
    refine (htok.next_end ends_rbracket false).bind fun tok' htok' => ?_
    obtain ⟨n, rfl⟩ : ∃ m, n = m + 1 := ⟨n - 1, by omega⟩
    rw [arrayLoop, skipNewlines_other (by rw [htok'.typ]; decide), ok_bind, if_pos htok'.typ, htok'.eat]
    exact (htok'.next_end hc true).ret fun next hnext => ⟨hnext, by rw [Arr.pushAll]⟩
  | cons v elems =>
    rw [firstElems, List.append_assoc] at htok hlen
    obtain ⟨c', typ', p, hc', hmore⟩ := moreElems_ends elems (c :: rest)
    rw [hmore] at htok hlen
    refine (htok.next_value hc').bind fun next hnext => ?_
    have hshort := congrArg List.length hnext.ptr
    rw [← hmore] at hnext
    exact arrayLoop_reads hc (helems v List.mem_cons_self) (fun u hu => helems u (List.mem_cons_of_mem v hu)) hnext (by omega)

/-- The entries of an inline table, from the first key on. -/
theorem inlineLoop_reads {key : Text} {v : Value} {entries : List (Text × Value)} {tab : Table} (hc : Ends c typ)
    (htakes : tab.Takes ((key, v) :: entries)) (hv : v.Reads) (hentries : ∀ e ∈ entries, e.2.Reads)
    (htok : tok.Has .string key.printKey (ascii " = " ++ (v.print ++ (moreEntries entries ++ c :: rest))))
    (hn : 2 * tok.ptr.length + 1 < n) :
    Meets Never (fun p => p.1.Has typ [c] rest ∧ p.2 = { tab.putAll ((key, v) :: entries) with readonly := true })
      (inlineLoop n tok tab) := by
  induction entries generalizing key v n tok tab with
  | nil =>
    obtain ⟨n, rfl⟩ : ∃ m, n = m + 1 := ⟨n - 1, by omega⟩
    rw [inlineLoop, if_neg (by rw [htok.typ]; decide), if_neg (by rw [htok.typ]; decide), if_neg (fun h => h htok.typ)]
    rw [moreEntries] at htok
    refine (hv.keyval ends_rbrace htok (by omega) htakes.open_ htakes.head).bind fun p hp => ?_
    obtain ⟨tok', tab'⟩ := p
    obtain ⟨htok', rfl⟩ := hp
    dsimp only
    rw [if_neg (by rw [htok'.typ]; decide), if_neg (by rw [htok'.typ]; decide), htok'.eat]
    exact (htok'.next_end hc true).ret fun next hnext => ⟨hnext, by rw [Table.putAll, Table.putAll]⟩
  | cons e entries ih =>
    obtain ⟨key', w⟩ := e
    obtain ⟨n, rfl⟩ : ∃ m, n = m + 1 := ⟨n - 1, by omega⟩
    have hlen := congrArg List.length htok.ptr
    rw [inlineLoop, if_neg (by rw [htok.typ]; decide), if_neg (by rw [htok.typ]; decide), if_neg (fun h => h htok.typ)]
    rw [moreEntries] at htok hlen
    refine (hv.keyval ends_comma htok (by omega) htakes.open_ htakes.head).bind fun p hp => ?_
    obtain ⟨tok', tab'⟩ := p
    obtain ⟨htok', rfl⟩ := hp
    dsimp only
    rw [if_neg (by rw [htok'.typ]; decide), if_pos htok'.typ, htok'.eat]
    have hblank : tok'.Has .comma [0x2c]
        (ascii " " ++ (key'.printKey ++ (ascii " = " ++ (w.print ++ (moreEntries entries ++ c :: rest))))) := by
      have hrest : ascii " " ++ (key'.printKey ++ (ascii " = " ++ (w.print ++ (moreEntries entries ++ c :: rest)))) =
          ascii " " ++ (key'.printKey ++ (ascii " = " ++ (w.print ++ moreEntries entries))) ++ c :: rest := by
        simp only [List.append_assoc]
      rw [hrest]
      exact htok'
    refine hblank.next_key_blank.bind fun next hnext => ?_
    have hshort := congrArg List.length hnext.ptr
    rw [Table.putAll]
    refine ih htakes.tail (hentries _ List.mem_cons_self) (fun u hu => hentries u (List.mem_cons_of_mem _ hu)) hnext ?_
    simp only [List.length_append] at hlen hshort
    have hcomma : (ascii ", ").length = 2 := rfl
    omega

theorem parseInlineTable_reads {entries : List (Text × Value)} {tab : Table} (hc : Ends c typ) (htakes : tab.Takes entries)
    (hentries : ∀ e ∈ entries, e.2.Reads) (htok : tok.Has .lbrace (ascii "\x7b") (firstEntries entries ++ c :: rest))
    (hn : 2 * tok.ptr.length < n) :
    Meets Never (fun p => p.1.Has typ [c] rest ∧ p.2 = { tab.putAll entries with readonly := true }) (parseInlineTable n tok tab) := by
  obtain ⟨n, rfl⟩ : ∃ m, n = m + 1 := ⟨n - 1, by omega⟩
  have hlen := congrArg List.length htok.ptr
  have hopen : (ascii "\x7b").length = 1 := rfl
  rw [List.length_append] at hlen
  rw [parseInlineTable, htok.eat]
  cases entries with
  | nil =>
    rw [firstEntries] at htok
    refine (htok.next_end ends_rbrace true).bind fun tok' htok' => ?_
    obtain ⟨n, rfl⟩ : ∃ m, n = m + 1 := ⟨n - 1, by omega⟩
    rw [inlineLoop, if_neg (by rw [htok'.typ]; decide), if_pos htok'.typ, htok'.eat]
    exact (htok'.next_end hc true).ret fun next hnext => ⟨hnext, by rw [Table.putAll]⟩
  | cons e entries =>
    obtain ⟨key, v⟩ := e
    rw [firstEntries] at htok hlen
    simp only [List.append_assoc] at htok
    refine htok.next_key.bind fun next hnext => ?_
    have hshort := congrArg List.length hnext.ptr
    refine inlineLoop_reads hc htakes (hentries _ List.mem_cons_self) (fun u hu => hentries u (List.mem_cons_of_mem _ hu)) hnext ?_
    simp only [List.length_append] at hlen hshort
    omega

/-- The head of an entry, up to the first token of its value. -/
theorem parseKeyval_reads {key : Text} {v : Value} {tab : Table} {Q : Token × Table → Prop} (hc : Ends c typ)
    (htok : tok.Has .string key.printKey (ascii " = " ++ (v.print ++ c :: rest))) (hopen : tab.readonly = false)
    (hvalue : ∀ val : Token, v.Here (c :: rest) val → val.ptr.length < tok.ptr.length → Meets Never Q
      (match val.tok with
        | .string => do
          let tab ← createKeyvalInTable tab tok val.text
          let tok ← nextToken val true
          return (tok, tab)
        | .lbracket => do
          let (i, tab) ← createKeyarrayInTable tab tok .unset
          tab.onArr i fun arr => parseArray n val arr
        | .lbrace => do
          let (i, tab) ← createKeytableInTable tab tok
          tab.onTab i fun nxttab => parseInlineTable n val nxttab
        | _ => eSyntax val.lineno (ascii "syntax error"))) :
    Meets Never Q (parseKeyval (n + 1) tok tab) := by
  have hlen := congrArg List.length htok.ptr
  have hequal : tok.Has .string key.printKey (ascii " " ++ ([0x3d] ++ (ascii " " ++ (v.print ++ c :: rest)))) := htok
  have hbyte : byteToken true 0x3d = some .equal := rfl
  rw [parseKeyval, if_neg (by rw [hopen]; decide), htok.eat]
  refine (hequal.next_blank (byte_lexeme hbyte (fun _ => rfl) _)).bind fun eq heq => ?_
  rw [if_neg (by rw [heq.typ]; decide), if_neg (fun h => h heq.typ)]
  refine (heq.next_value_blank hc).bind fun val hval => hvalue val hval ?_
  have hshort := congrArg List.length hval.ptr
  simp only [List.length_append] at hlen hshort
  have hthree : (ascii " = ").length = 3 := rfl
  omega

theorem createKeyvalInTable_new {key : Text} {tab : Table} (hkey : normalizeKey tok = .ok key.val)
    (hnew : checkKey tab key.val = none) (val : Bytes) :
    createKeyvalInTable tab tok val = .ok { tab with kval := tab.kval ++ [{ key := key.val, val }] } := by
  rw [createKeyvalInTable, hkey, ok_bind, hnew]
  rfl

theorem createKeyarrayInTable_new {key : Text} {tab : Table} (hkey : normalizeKey tok = .ok key.val)
    (hnew : checkKey tab key.val = none) (kind : Kind) :
    createKeyarrayInTable tab tok kind = .ok (tab.arr.length, { tab with arr := tab.arr ++ [{ key := key.val, kind }] }) := by
  rw [createKeyarrayInTable, hkey, ok_bind, hnew]
  rfl

theorem createKeytableInTable_new {key : Text} {tab : Table} (hkey : normalizeKey tok = .ok key.val) (hnew : checkKey tab key.val = none) :
    createKeytableInTable tab tok = .ok (tab.tab.length, { tab with tab := tab.tab ++ [{ key := key.val }] }) := by
  rw [createKeytableInTable, hkey, ok_bind, hnew]
  rfl

/-- Work on the last of a list of tables. -/
theorem Table.onTab_last {α : Type} {t s : Table} {l : List Table} (ht : t.tab = l ++ [s]) (f : Table → Except Stop (α × Table)) :
    t.onTab l.length f = (f s >>= fun p => pure (p.1, { t with tab := l ++ [p.2] })) := by
  rw [Table.onTab, ht, List.getElem?_concat_length]
  simp

theorem Table.onArr_last {α : Type} {t : Table} {a : Arr} {l : List Arr} (ht : t.arr = l ++ [a]) (f : Arr → Except Stop (α × Arr)) :
    t.onArr l.length f = (f a >>= fun p => pure (p.1, { t with arr := l ++ [p.2] })) := by
  rw [Table.onArr, ht, List.getElem?_concat_length]
  simp

theorem Table.takes_empty {key : Bytes} {entries : List (Text × Value)} (h : (entries.map fun e => cstr e.1.val).Nodup) :
    Table.Takes { key } entries :=
  ⟨rfl, fun _ _ hin => absurd hin List.not_mem_nil, h⟩

/-- By the way values nest: what stands between brackets is read first. -/
theorem Value.Unique.reads {v : Value} (h : v.Unique) : v.Reads := by
  induction h with
  | scalar s =>
    refine ⟨@fun n key tok tab c typ rest hc htok hn hopen hnew => ?_, @fun n tok arr c typ rest hc htok hn => ?_⟩
    · obtain ⟨n, rfl⟩ : ∃ m, n = m + 1 := ⟨n - 1, by omega⟩
      have hkey := normalizeKey_printKey (c := 0x20) htok (by decide)
      refine parseKeyval_reads hc htok hopen fun val hval _ => ?_
      rw [Token.Has.typ hval]
      dsimp only
      rw [createKeyvalInTable_new hkey hnew, ok_bind, Token.Has.text hval]
      exact (Token.Has.next_end hval hc true).ret fun next hnext => ⟨hnext, by rw [Table.put]⟩
    · have hval : tok.Has .string s.print (c :: rest) := htok
      rw [arrayElement, hval.typ]
      dsimp only
      rw [hval.eat, hval.text]
      exact (hval.next_end hc false).ret fun next hnext => ⟨hnext, by rw [Value.item, Value.kind]⟩
  | @array elems _ ih =>
    refine ⟨@fun n key tok tab c typ rest hc htok hn hopen hnew => ?_, @fun n tok arr c typ rest hc htok hn => ?_⟩
    · obtain ⟨n, rfl⟩ : ∃ m, n = m + 1 := ⟨n - 1, by omega⟩
      have hkey := normalizeKey_printKey (c := 0x20) htok (by decide)
      refine parseKeyval_reads hc htok hopen fun val hval hshort => ?_
      rw [Token.Has.typ hval]
      dsimp only
      rw [createKeyarrayInTable_new hkey hnew, ok_bind]
      dsimp only
      rw [Table.onArr_last rfl]
      refine (parseArray_reads hc ih hval (by omega)).ret fun p hp => ⟨hp.1, ?_⟩
      rw [hp.2, Table.put]
    · have hval : tok.Has .lbracket (ascii "[") (firstElems elems ++ c :: rest) := htok
      rw [arrayElement, hval.typ]
      refine (parseArray_reads hc ih hval (by omega)).ret fun p hp => ⟨hp.1, ?_⟩
      rw [hp.2, Value.item, Value.kind]
  | @table entries keys _ ih =>
    refine ⟨@fun n key tok tab c typ rest hc htok hn hopen hnew => ?_, @fun n tok arr c typ rest hc htok hn => ?_⟩
    · obtain ⟨n, rfl⟩ : ∃ m, n = m + 1 := ⟨n - 1, by omega⟩
      have hkey := normalizeKey_printKey (c := 0x20) htok (by decide)
      refine parseKeyval_reads hc htok hopen fun val hval hshort => ?_
      rw [Token.Has.typ hval]
      dsimp only
      rw [createKeytableInTable_new hkey hnew, ok_bind]
      dsimp only
      rw [Table.onTab_last rfl]
      refine (parseInlineTable_reads hc (Table.takes_empty keys) ih hval (by omega)).ret fun p hp => ⟨hp.1, ?_⟩
      rw [hp.2, Table.put]
    · have hval : tok.Has .lbrace (ascii "\x7b") (firstEntries entries ++ c :: rest) := htok
      rw [arrayElement, hval.typ]
      refine (parseInlineTable_reads hc (Table.takes_empty keys) ih hval (by omega)).ret fun p hp => ⟨hp.1, ?_⟩
      rw [hp.2, Value.item, Value.kind]

end Values

end Yagips.Toml
