import Yagips.Toml.Printed

/-!
# Documents are read as they are written

A header leads to the table it names, the lines behind it go there, and the rest of the tables stays as it
is. By the way tables nest, a whole document is read as the table it stands for.
-/
namespace Yagips.Toml

open Yagips.Lib

/-! ## Along keys -/

/-- Keys lead along pointers from one table to another; in an array of tables, to the last. -/
inductive Table.Leads : Table → List Bytes → List Step → Table → Prop where
  | here (t : Table) : Leads t [] [] t
  | tab {t u s : Table} {key : Bytes} {keys : List Bytes} {i : Nat} {path : List Step} (hkey : checkKey t key = some (.tab i))
      (hu : t.tab[i]? = some u) (h : Leads u keys path s) : Leads t (key :: keys) (.tab i :: path) s
  | item {t u s : Table} {a : Arr} {key : Bytes} {keys : List Bytes} {i j : Nat} {path : List Step}
      (hkey : checkKey t key = some (.arr i)) (ha : t.arr[i]? = some a) (hkind : a.kind = .table) (hlast : a.item.length = j + 1)
      (hu : a.item[j]? = some (.tab u)) (h : Leads u keys path s) : Leads t (key :: keys) (.item i j :: path) s

/-- Another table in the place that a pointer points to. -/
def Table.replace : List Step → Table → Table → Table
  | [], s, _ => s
  | .tab i :: path, s, t =>
    match t.tab[i]? with
    | none => t
    | some u => { t with tab := t.tab.set i (Table.replace path s u) }
  | .item i j :: path, s, t =>
    match t.arr[i]? with
    | none => t
    | some a =>
      match a.item[j]? with
      | some (.tab u) => { t with arr := t.arr.set i { a with item := a.item.set j (.tab (Table.replace path s u)) } }
      | _ => t

theorem set_same {α : Type} {l : List α} {i : Nat} {x : α} (h : l[i]? = some x) : l.set i x = l := by
  obtain ⟨hi, rfl⟩ := List.getElem?_eq_some_iff.mp h
  exact List.set_getElem_self hi

theorem getElem?_set_same {α : Type} {l : List α} {i : Nat} {x y : α} (h : l[i]? = some x) : (l.set i y)[i]? = some y :=
  List.getElem?_set_self (List.getElem?_eq_some_iff.mp h).1

theorem Table.eta (t : Table) : Table.mk t.key t.implicit t.readonly t.kval t.arr t.tab = t := by
  cases t
  rfl

theorem Arr.eta (a : Arr) : Arr.mk a.key a.kind a.item = a := by
  cases a
  rfl

theorem Table.replace_tab {t u : Table} {i : Nat} (hu : t.tab[i]? = some u) (path : List Step) (s : Table) :
    Table.replace (.tab i :: path) s t = { t with tab := t.tab.set i (Table.replace path s u) } := by
  rw [Table.replace, hu]

theorem Table.replace_item {t u : Table} {a : Arr} {i j : Nat} (ha : t.arr[i]? = some a) (hu : a.item[j]? = some (.tab u))
    (path : List Step)
    (s : Table) : Table.replace (.item i j :: path) s t =
      { t with arr := t.arr.set i { a with item := a.item.set j (.tab (Table.replace path s u)) } } := by
  rw [Table.replace, ha]
  dsimp only
  rw [hu]

/-- What is found under a key depends on the keys only. -/
theorem checkKey_congr {t t' : Table} (hkval : t'.kval = t.kval) (harr : t'.arr.map (·.key) = t.arr.map (·.key))
    (htab : t'.tab.map (·.key) = t.tab.map (·.key)) (key : Bytes) : checkKey t' key = checkKey t key := by
  have hfind : ∀ {α : Type} (l : List α) (f : α → Bytes), (l.findIdx? fun x => sameKey key (f x)) = (l.map f).findIdx? (sameKey key) := by
    intro α l f
    rw [List.findIdx?_map]
    rfl
  have harr' : tomlTableArray t' key = tomlTableArray t key :=
    (hfind t'.arr (·.key)).trans ((congrArg (List.findIdx? (sameKey key)) harr).trans (hfind t.arr (·.key)).symm)
  have htab' : tomlTableTable t' key = tomlTableTable t key :=
    (hfind t'.tab (·.key)).trans ((congrArg (List.findIdx? (sameKey key)) htab).trans (hfind t.tab (·.key)).symm)
  rw [checkKey, checkKey, hkval, harr', htab']

section Along

variable {t s s' : Table} {keys : List Bytes} {path : List Step}

theorem Table.Leads.self (h : t.Leads keys path s) : Table.replace path s t = t := by
  induction h with
  | here t => rfl
  | tab _ hu _ ih => rw [Table.replace_tab hu, ih, set_same hu, Table.eta]
  | item _ ha _ _ hu _ ih => rw [Table.replace_item ha hu, ih, set_same hu, Arr.eta, set_same ha, Table.eta]

theorem Table.Leads.twice (h : t.Leads keys path s) (s₁ s₂ : Table) :
    Table.replace path s₂ (Table.replace path s₁ t) = Table.replace path s₂ t := by
  induction h with
  | here t => rfl
  | tab _ hu _ ih =>
    rw [Table.replace_tab hu, Table.replace_tab hu, Table.replace_tab (getElem?_set_same hu), ih]
    simp only [List.set_set]
  | item _ ha _ _ hu _ ih =>
    rw [Table.replace_item ha hu, Table.replace_item ha hu]
    rw [Table.replace_item (getElem?_set_same ha) (getElem?_set_same hu), ih]
    simp only [List.set_set]

theorem Table.Leads.replace_key (h : t.Leads keys path s) (hkey : s'.key = s.key) : (Table.replace path s' t).key = t.key := by
  cases h with
  | here => exact hkey
  | tab _ hu _ => rw [Table.replace_tab hu]
  | item _ ha _ _ hu _ => rw [Table.replace_item ha hu]

/-- The keys lead to the new table as they led to the old. -/
theorem Table.Leads.replace (h : t.Leads keys path s) (hkey : s'.key = s.key) : (Table.replace path s' t).Leads keys path s' := by
  induction h with
  | here t => exact .here s'
  | @tab t u s key keys i path hfound hu h ih =>
    rw [Table.replace_tab hu]
    refine .tab ?_ (getElem?_set_same hu) (ih hkey)
    rw [← hfound]
    refine checkKey_congr ?_ ?_ ?_ key
    · rfl
    · rfl
    · exact map_set _ hu (h.replace_key hkey)
  | @item t u s a key keys i j path hfound ha hkind hlast hu h ih =>
    rw [Table.replace_item ha hu]
    refine .item ?_ (getElem?_set_same ha) hkind ?_ (getElem?_set_same hu) (ih hkey)
    · rw [← hfound]
      refine checkKey_congr ?_ ?_ ?_ key
      · rfl
      · exact map_set _ ha rfl
      · rfl
    · rw [List.length_set]
      exact hlast

theorem Table.Leads.append {keys' : List Bytes} {path' : List Step} {u : Table} (h : t.Leads keys path s) (h' : s.Leads keys' path' u) :
    t.Leads (keys ++ keys') (path ++ path') u := by
  induction h with
  | here t => exact h'
  | tab hkey hu _ ih => exact .tab hkey hu (ih h')
  | item hkey ha hkind hlast hu _ ih => exact .item hkey ha hkind hlast hu (ih h')

theorem Table.Leads.replace_append (h : t.Leads keys path s) (path' : List Step) (x : Table) :
    Table.replace (path ++ path') x t = Table.replace path (Table.replace path' x s) t := by
  induction h with
  | here t => rfl
  | tab _ hu _ ih => rw [List.cons_append, Table.replace_tab hu, Table.replace_tab hu, ih]
  | item _ ha _ _ hu _ ih => rw [List.cons_append, Table.replace_item ha hu, Table.replace_item ha hu, ih]

/-- Work on the table that is led to. -/
theorem Table.Leads.onPath {α : Type} (h : t.Leads keys path s) (f : Table → Except Stop (α × Table)) :
    Table.onPath path f t = f s >>= fun p => pure (p.1, Table.replace path p.2 t) := by
  induction h with
  | here t =>
    rw [Table.onPath]
    cases f t <;> rfl
  | @tab t u s key keys i path _ hu _ ih =>
    rw [Table.onPath, Table.onTab, hu]
    dsimp only
    rw [ih]
    cases f s with
    | error e => rfl
    | ok p =>
      rw [ok_bind, ok_bind, Table.replace_tab hu]
      rfl
  | @item t u s a key keys i j path _ ha _ _ hu _ ih =>
    rw [Table.onPath, Table.onArr, ha]
    dsimp only
    rw [Arr.onItem, hu]
    dsimp only
    rw [ih]
    cases f s with
    | error e => rfl
    | ok p =>
      rw [ok_bind, ok_bind, Table.replace_item ha hu]
      rfl

/-- The way along keys that are there changes nothing. -/
theorem Table.Leads.walk (h : t.Leads keys path s) {tpath : List (Token × Bytes)} (htpath : tpath.map Prod.snd = keys) :
    walkTabpath tpath t = .ok (path, t) := by
  induction h generalizing tpath with
  | here t =>
    rw [List.map_eq_nil_iff.mp htpath]
    rfl
  | @tab t u s key keys i path hkey hu _ ih =>
    obtain ⟨⟨tok, k⟩, rest, rfl, rfl, hrest⟩ := List.map_eq_cons_iff.mp htpath
    rw [walkTabpath, hkey]
    dsimp only
    rw [Table.onTab, hu]
    dsimp only
    rw [ih hrest, ok_bind]
    dsimp only
    rw [set_same hu, Table.eta]
    rfl
  | @item t u s a key keys i j path hkey ha hkind hlast hu _ ih =>
    obtain ⟨⟨tok, k⟩, rest, rfl, rfl, hrest⟩ := List.map_eq_cons_iff.mp htpath
    have hne : a.item ≠ [] := by
      intro hnil
      rw [hnil] at hlast
      cases hlast
    rw [walkTabpath, hkey]
    dsimp only
    rw [Table.onArr, ha]
    dsimp only
    rw [if_neg (fun h => h hkind), if_neg hne, hlast, Nat.add_sub_cancel, Arr.onItem, hu]
    dsimp only
    rw [ih hrest, ok_bind]
    dsimp only
    rw [set_same hu, Arr.eta]
    simp only [pure_bind]
    rw [set_same ha, Table.eta]
    rfl

end Along

/-! ## Lines -/

theorem returns {α : Type} {Q : α → Prop} {r : Except Stop α} (h : Meets Never Q r) : ∃ a, r = .ok a ∧ Q a := by
  cases r with
  | ok a => exact ⟨a, rfl, h⟩
  | error e => exact absurd h id

/-- The token at the start of lines. -/
def Token.Starts (p : Bytes) (tok : Token) : Prop := ∃ lineno, tokenAt true lineno (skipBlank false p) = .ok tok

/-- Lines that a token can be found at the start of. -/
def Readable (p : Bytes) : Prop := ∀ lineno, ∃ tok, tokenAt true lineno (skipBlank false p) = .ok tok

theorem readable_nil : Readable [] := fun _ => ⟨_, rfl⟩

section Lines

variable {typ : TokenType} {lexeme rest : Bytes} {tok : Token}

theorem Lexeme.readable (h : Lexeme true typ lexeme rest) : Readable (lexeme ++ rest) := by
  intro lineno
  obtain ⟨tok, htok, -⟩ := returns (h lineno)
  exact ⟨tok, htok⟩

theorem Lexeme.starts (h : Lexeme true typ lexeme rest) (htok : tok.Starts (lexeme ++ rest)) : tok.Has typ lexeme rest := by
  obtain ⟨lineno, htok⟩ := htok
  exact (h lineno).result htok

theorem bracket_lexeme (rest : Bytes) : Lexeme true .lbracket (ascii "[") rest := by
  have hbyte : byteToken true 0x5b = some .lbracket := rfl
  exact byte_lexeme hbyte (fun _ => rfl) rest

theorem entry_lexeme (key : Text) (rest : Bytes) : Lexeme true .string key.printKey (ascii " = " ++ rest) :=
  key_lexeme key (c := 0x20) (by decide) (by decide) (ascii "= " ++ rest)

/-- Behind the end of a line starts the next. -/
theorem Token.Has.next_line {p : Bytes} (h : tok.Has .newline [0x0a] p) (hp : Readable p) :
    ∃ next, nextToken tok true = .ok next ∧ next.Starts p := by
  rw [nextToken, h.ptr, h.len, List.drop_left]
  obtain ⟨next, hnext⟩ := hp (tok.lineno + (([0x0a] ++ p).take [0x0a].length).count 0x0a)
  exact ⟨next, hnext, _, hnext⟩

theorem printLines_cons (key : Text) (v : Value) (entries : List (Text × Value)) (rest : Bytes) :
    printLines ((key, v) :: entries) ++ rest = key.printKey ++ (ascii " = " ++ (v.print ++ 0x0a :: (printLines entries ++ rest))) := by
  simp only [printLines, List.flatMap_cons, List.append_assoc]
  rfl

theorem printLines_readable (entries : List (Text × Value)) (hrest : Readable rest) : Readable (printLines entries ++ rest) := by
  cases entries with
  | nil => exact hrest
  | cons e entries =>
    obtain ⟨key, v⟩ := e
    rw [printLines_cons]
    exact (entry_lexeme key _).readable

/-- Entries, line by line, go to the table that the pointer points to. -/
theorem printLines_read {entries : List (Text × Value)} {n : Nat} {root s : Table} {keys : List Bytes} {path : List Step}
    (hlead : root.Leads keys path s) (htakes : s.Takes entries) (hreads : ∀ e ∈ entries, e.2.Reads) (hrest : Readable rest)
    (htok : tok.Starts (printLines entries ++ rest)) (hn : (printLines entries ++ rest).length < n) :
    ∃ n' tok', tok'.Starts rest ∧ rest.length < n' ∧ parseLoop n { tok, root, curtab := path } =
      parseLoop n' { tok := tok', root := Table.replace path (s.putAll entries) root, curtab := path } := by
  induction entries generalizing n tok root s with
  | nil => exact ⟨n, tok, htok, hn, by rw [Table.putAll, hlead.self]⟩
  | cons e entries ih =>
    obtain ⟨key, v⟩ := e
    obtain ⟨n, rfl⟩ : ∃ m, n = m + 1 := ⟨n - 1, by omega⟩
    rw [printLines_cons] at htok hn
    have hkey := (entry_lexeme key _).starts htok
    have hv := hreads _ List.mem_cons_self
    obtain ⟨⟨line, s'⟩, hkeyval, hline, rfl⟩ :=
      returns (hv.keyval ends_newline hkey (Nat.lt_succ_self _) htakes.open_ htakes.head)
    obtain ⟨next, hnext, hstarts⟩ := hline.next_line (printLines_readable entries hrest)
    have hshort : (printLines entries ++ rest).length < n := by
      simp only [List.length_append, List.length_cons] at hn ⊢
      omega
    have hlead' := hlead.replace (Table.put_key s key.val v)
    obtain ⟨n', tok', htok', hn', hloop⟩ := ih hlead' htakes.tail (fun e he => hreads e (List.mem_cons_of_mem _ he)) hstarts hshort
    refine ⟨n', tok', htok', hn', ?_⟩
    rw [hlead.twice] at hloop
    rw [Table.putAll, ← hloop, parseLoop]
    dsimp only
    rw [hkey.eof, hkey.typ, if_neg (by decide)]
    dsimp only
    rw [hlead.onPath, hkeyval, ok_bind]
    dsimp only
    rw [pure_bind]
    dsimp only
    rw [if_neg (fun h => h hline.typ), hline.eat, hnext, ok_bind]

end Lines

/-! ## Headers -/

section Headers

variable {rest : Bytes} {tok : Token}

/-- A byte that can stand behind a key of a path. -/
theorem path_lexeme (key : Text) (keys : List Text) (rest : Bytes) :
    Lexeme true .string key.printKey (morePath keys ++ 0x5d :: rest) := by
  cases keys with
  | nil => exact key_lexeme key (by decide) (by decide) rest
  | cons k keys => exact key_lexeme key (c := 0x2e) (by decide) (by decide) _

theorem path_key {key : Text} {keys : List Text} (h : tok.Has .string key.printKey (morePath keys ++ 0x5d :: rest)) :
    normalizeKey tok = .ok key.val := by
  cases keys with
  | nil => exact normalizeKey_printKey (c := 0x5d) h (by decide)
  | cons k keys => exact normalizeKey_printKey (c := 0x2e) h (by decide)

/-- The path of a header, from its first key on. -/
theorem fillTabpath_reads {key : Text} {keys : List Text} {room : Nat} {tpath : List (Token × Bytes)}
    (htok : tok.Has .string key.printKey (morePath keys ++ 0x5d :: rest)) (hroom : keys.length < room)
    (hpath : ∀ e ∈ tpath, normalizeKey e.1 = .ok e.2) :
    Meets Never (fun p => p.1.Has .rbracket [0x5d] rest ∧ p.2.map Prod.snd = tpath.map Prod.snd ++ (key :: keys).map (·.val) ∧
      ∀ e ∈ p.2, normalizeKey e.1 = .ok e.2) (fillTabpath room tok tpath) := by
  induction keys generalizing key room tok tpath with
  | nil =>
    obtain ⟨room, rfl⟩ : ∃ m, room = m + 1 := ⟨room - 1, by omega⟩
    have hkey := path_key htok
    rw [fillTabpath, if_neg (fun h => h htok.typ), hkey, ok_bind]
    have hend : tok.Has .string key.printKey (0x5d :: rest) := htok
    refine (hend.next_end ends_rbracket true).bind fun close hclose => ?_
    rw [if_pos hclose.typ]
    refine ⟨hclose, by simp, fun e he => ?_⟩
    rcases List.mem_append.mp he with hold | hone
    · exact hpath e hold
    · rw [List.mem_singleton.mp hone]
      exact hkey
  | cons k keys ih =>
    obtain ⟨room, rfl⟩ : ∃ m, room = m + 1 := ⟨room - 1, by omega⟩
    have hkey := path_key htok
    rw [fillTabpath, if_neg (fun h => h htok.typ), hkey, ok_bind]
    have hdot : tok.Has .string key.printKey ([0x2e] ++ (k.printKey ++ (morePath keys ++ 0x5d :: rest))) := by
      have hmore : morePath (k :: keys) ++ 0x5d :: rest = [0x2e] ++ (k.printKey ++ (morePath keys ++ 0x5d :: rest)) := by
        simp only [morePath, List.flatMap_cons, List.append_assoc]
        rfl
      rwa [← hmore]
    have hbyte : byteToken true 0x2e = some .dot := rfl
    refine (hdot.next (byte_lexeme hbyte (fun _ => rfl) _)).bind fun dot hdot => ?_
    rw [if_neg (by rw [hdot.typ]; decide), if_neg (fun h => h hdot.typ)]
    refine (hdot.next (path_lexeme k keys rest)).bind fun next hnext => ?_
    have hmore : ∀ e ∈ tpath ++ [(tok, key.val)], normalizeKey e.1 = .ok e.2 := by
      intro e he
      rcases List.mem_append.mp he with hold | hone
      · exact hpath e hold
      · rw [List.mem_singleton.mp hone]
        exact hkey
    refine (ih hnext (Nat.lt_of_succ_lt_succ hroom) hmore).post fun p hp => ⟨hp.1, ?_, hp.2.2⟩
    rw [hp.2.1]
    simp

/-- No key is written with a bracket first. -/
theorem printKey_head (key : Text) (p : Bytes) : (key.printKey ++ p).getD 0 0 ≠ 0x5b := by
  rw [Text.printKey]
  split
  case isTrue hword =>
    obtain ⟨x, q, hkey, -, hbare⟩ := isWord_spec hword
    rw [hkey]
    rintro rfl
    exact absurd (hbare 0x5b List.mem_cons_self) (by decide)
  case isFalse => exact (by decide : (0x22 : UInt8) ≠ 0x5b)

/-- A path with one more key, printed from its first key on. -/
theorem printPath_snoc (keys : List Text) (key : Text) :
    ∃ first more, keys ++ [key] = first :: more ∧ printPath (keys ++ [key]) = first.printKey ++ morePath more := by
  cases keys with
  | nil => exact ⟨key, [], rfl, rfl⟩
  | cons first keys => exact ⟨first, keys ++ [key], rfl, rfl⟩

/-- The keys of a path but the last lead on, and the last is the key. -/
theorem tpath_snoc {tpath : List (Token × Bytes)} {keys : List Text} {key : Text}
    (hkeys : tpath.map Prod.snd = (keys ++ [key]).map (·.val)) (hpath : ∀ e ∈ tpath, normalizeKey e.1 = .ok e.2) :
    ∃ z, tpath.getLast? = some (z, key.val) ∧ normalizeKey z = .ok key.val ∧ tpath.dropLast.map Prod.snd = keys.map (·.val) := by
  rw [List.map_append] at hkeys
  obtain ⟨init, last, rfl, hinit, hlast⟩ := List.map_eq_append_iff.mp hkeys
  obtain ⟨⟨z, zstr⟩, rfl, hz⟩ := List.map_eq_singleton_iff.mp hlast
  cases hz
  refine ⟨z, List.getLast?_concat, hpath (z, key.val) (by simp), ?_⟩
  rw [List.dropLast_concat, hinit]

/-- `[path.key]` makes a table in the one that the path leads to. -/
theorem parseSelect_table {root s : Table} {keys : List Text} {key : Text} {path : List Step}
    (cur : List Step) (hlead : root.Leads (keys.map (·.val)) path s) (hdepth : keys.length < 10) (hnew : checkKey s key.val = none)
    (htok : tok.Has .lbracket (ascii "[") (printPath (keys ++ [key]) ++ (ascii "]\n" ++ rest))) :
    ∃ line, line.Has .newline [0x0a] rest ∧ parseSelect { tok, root, curtab := cur } =
      .ok { tok := line, root := Table.replace path { s with tab := s.tab ++ [{ key := key.val }] } root,
            curtab := path ++ [.tab s.tab.length] } := by
  obtain ⟨first, more, hsnoc, hprint⟩ := printPath_snoc keys key
  have hlen := congrArg List.length hsnoc
  rw [List.length_append, List.length_singleton, List.length_cons] at hlen
  rw [hprint, List.append_assoc] at htok
  have hllb : decide (tok.ptr.getD 1 0 = 0x5b) = false := by
    rw [decide_eq_false_iff_not, htok.ptr]
    exact printKey_head first _
  have hfirst : tok.Has .lbracket (ascii "[") (first.printKey ++ (morePath more ++ 0x5d :: 0x0a :: rest)) := htok
  obtain ⟨tok₁, hnext₁, htok₁⟩ := returns (hfirst.next (path_lexeme first more (0x0a :: rest)))
  obtain ⟨⟨tok₂, tpath⟩, hfill, htok₂, hkeys, hpath⟩ :=
    returns (fillTabpath_reads htok₁ (show more.length < 10 by omega) (fun e (he : e ∈ []) => absurd he List.not_mem_nil))
  rw [List.map_nil, List.nil_append, ← hsnoc] at hkeys
  obtain ⟨z, hlast, hz, hinit⟩ := tpath_snoc hkeys hpath
  obtain ⟨line, hclose, hline⟩ := returns (htok₂.next_end ends_newline true)
  refine ⟨line, hline, ?_⟩
  have hselect : selectTable z s = .ok (.tab s.tab.length, { s with tab := s.tab ++ [{ key := key.val }] }) := by
    rw [selectTable, createKeytableInTable_new hz hnew, ok_bind]
    rfl
  rw [parseSelect]
  dsimp only
  rw [hllb, htok.eat, hnext₁, ok_bind]
  simp only [Bool.false_eq_true, if_false, pure_bind]
  rw [hfill, ok_bind]
  dsimp only
  rw [hlast]
  dsimp only
  rw [hlead.walk hinit, ok_bind]
  dsimp only
  rw [hlead.onPath, hselect, ok_bind]
  simp only [pure_bind]
  rw [if_neg (fun h => h htok₂.typ), htok₂.eat, hclose, ok_bind, if_neg (fun h => h hline.typ)]
  rfl

/-- `[[path.key]]` adds a table to the array of the key. -/
theorem parseSelect_tables {root s s' : Table} {keys : List Text} {key : Text} {path : List Step} {step : Step}
    (cur : List Step) (hlead : root.Leads (keys.map (·.val)) path s) (hdepth : keys.length < 10)
    (hselect : ∀ z, normalizeKey z = .ok key.val → selectArray z s = .ok (step, s'))
    (htok : tok.Has .lbracket (ascii "[") (ascii "[" ++ (printPath (keys ++ [key]) ++ (ascii "]]\n" ++ rest)))) :
    ∃ line, line.Has .newline [0x0a] rest ∧ parseSelect { tok, root, curtab := cur } =
      .ok { tok := line, root := Table.replace path s' root, curtab := path ++ [step] } := by
  obtain ⟨first, more, hsnoc, hprint⟩ := printPath_snoc keys key
  have hlen := congrArg List.length hsnoc
  rw [List.length_append, List.length_singleton, List.length_cons] at hlen
  rw [hprint, List.append_assoc] at htok
  have hllb : decide (tok.ptr.getD 1 0 = 0x5b) = true := by
    rw [decide_eq_true_eq, htok.ptr]
    rfl
  obtain ⟨tok₀, hnext₀, htok₀⟩ := returns (htok.next (bracket_lexeme _))
  have hfirst : tok₀.Has .lbracket (ascii "[") (first.printKey ++ (morePath more ++ 0x5d :: 0x5d :: 0x0a :: rest)) := htok₀
  obtain ⟨tok₁, hnext₁, htok₁⟩ := returns (hfirst.next (path_lexeme first more (0x5d :: 0x0a :: rest)))
  obtain ⟨⟨tok₂, tpath⟩, hfill, htok₂, hkeys, hpath⟩ :=
    returns (fillTabpath_reads htok₁ (show more.length < 10 by omega) (fun e (he : e ∈ []) => absurd he List.not_mem_nil))
  rw [List.map_nil, List.nil_append, ← hsnoc] at hkeys
  obtain ⟨z, hlast, hz, hinit⟩ := tpath_snoc hkeys hpath
  obtain ⟨tok₃, hnext₃, htok₃⟩ := returns (htok₂.next_end ends_rbracket true)
  obtain ⟨line, hclose, hline⟩ := returns (htok₃.next_end ends_newline true)
  refine ⟨line, hline, ?_⟩
  have hrrb : tok₂.ptr.getD 1 0 = 0x5d := by
    rw [htok₂.ptr]
    rfl
  rw [parseSelect]
  dsimp only
  rw [hllb, htok.eat, hnext₀, ok_bind]
  simp only [if_true]
  rw [htok₀.eat, hnext₁, ok_bind, hfill, ok_bind]
  dsimp only
  rw [hlast]
  dsimp only
  rw [hlead.walk hinit, ok_bind]
  dsimp only
  rw [hlead.onPath, hselect z hz, ok_bind]
  simp only [pure_bind]
  rw [if_neg (fun h => h htok₂.typ), if_neg (fun h => h hrrb), htok₂.eat, hnext₃, ok_bind, htok₃.eat, hclose, ok_bind,
    if_neg (fun h => h hline.typ)]
  rfl

/-- The table that `[[z]]` adds. -/
def anonymous : Table := { key := ascii "__anon__" }

theorem selectArray_new {z : Token} {key : Text} {s : Table} (hz : normalizeKey z = .ok key.val) (hnew : checkKey s key.val = none) :
    selectArray z s = .ok (.item s.arr.length 0,
      { s with arr := s.arr ++ [{ key := key.val, kind := .table, item := [.tab anonymous] }] }) := by
  have hnone : tomlTableArray s key.val = none := by
    cases hfound : tomlTableArray s key.val with
    | none => rfl
    | some i =>
      have hkeys := checkKey_none_iff.mp hnew
      obtain ⟨hi, hsame, -⟩ := List.findIdx?_eq_some_iff_getElem.mp hfound
      refine absurd ?_ hkeys
      rw [sameKey, decide_eq_true_eq] at hsame
      rw [Table.keys, List.mem_append, List.mem_append]
      exact .inl (.inr (List.mem_map.mpr ⟨s.arr[i], List.getElem_mem hi, hsame.symm⟩))
  rw [selectArray, selectedArray, hz, ok_bind, hnone]
  dsimp only
  rw [createKeyarrayInTable_new hz hnew, ok_bind]
  dsimp only
  rw [Table.onArr_last rfl]
  rfl

theorem selectArray_more {z : Token} {key : Text} {s : Table} {l : List Arr} {done : List Item} (hz : normalizeKey z = .ok key.val)
    (hfound : checkKey s key.val = some (.arr l.length)) (hs : s.arr = l ++ [{ key := key.val, kind := .table, item := done }]) :
    selectArray z s = .ok (.item l.length done.length,
      { s with arr := l ++ [{ key := key.val, kind := .table, item := done ++ [.tab anonymous] }] }) := by
  rw [selectArray, selectedArray, hz, ok_bind, checkKey_arr hfound]
  dsimp only
  rw [pure_bind]
  dsimp only
  rw [Table.onArr_last hs]
  rfl

end Headers

/-! ## Tables with lines of their own -/

section Add

variable {t : Table} {key : Bytes}

theorem checkKey_add_tab {u : Table} (hnew : checkKey t key = none) (hu : u.key = key) :
    checkKey { t with tab := t.tab ++ [u] } key = some (.tab t.tab.length) := by
  obtain ⟨hkval, harr, htab⟩ := checkKey_eq_none_iff.mp hnew
  have harr' : tomlTableArray { t with tab := t.tab ++ [u] } key = none := harr
  have htab' : tomlTableTable { t with tab := t.tab ++ [u] } key = some t.tab.length := find_append_new htab hu
  rw [checkKey, hkval, harr', htab']
  rfl

theorem checkKey_add_arr {a : Arr} (hnew : checkKey t key = none) (ha : a.key = key) :
    checkKey { t with arr := t.arr ++ [a] } key = some (.arr t.arr.length) := by
  obtain ⟨hkval, harr, -⟩ := checkKey_eq_none_iff.mp hnew
  have harr' : tomlTableArray { t with arr := t.arr ++ [a] } key = some t.arr.length := find_append_new harr ha
  rw [checkKey, hkval, harr']

end Add

theorem Part.build_key (part : Part) (t : Table) : (part.build t).key = t.key := by
  cases part <;> rw [Part.build]

theorem buildParts_key (parts : List Part) (t : Table) : (buildParts parts t).key = t.key := by
  induction parts generalizing t with
  | nil => rw [buildParts]
  | cons part parts ih => rw [buildParts, ih, Part.build_key]

theorem Body.build_key (body : Body) (t : Table) : (body.build t).key = t.key := by
  cases body with
  | mk entries parts => rw [Body.build, buildParts_key, Table.putAll_key]

theorem Table.mem_putAll_keys {entries : List (Text × Value)} {t : Table} {x : Bytes} :
    x ∈ (t.putAll entries).keys ↔ x ∈ t.keys ∨ x ∈ entries.map fun e => cstr e.1.val := by
  induction entries generalizing t with
  | nil => simp [Table.putAll]
  | cons e entries ih =>
    obtain ⟨key, v⟩ := e
    rw [Table.putAll, ih, Table.mem_put_keys, List.map_cons, List.mem_cons, or_assoc]

theorem Part.mem_build_keys {part : Part} {t : Table} {x : Bytes} :
    x ∈ (part.build t).keys ↔ x ∈ t.keys ∨ x = cstr part.key.val := by
  cases part with
  | table key body =>
    simp only [Part.build, Part.key, Table.keys, List.map_append, List.map_singleton, List.mem_append, List.mem_singleton, Body.build_key]
    tauto
  | tables key bodies =>
    simp only [Part.build, Part.key, Table.keys, List.map_append, List.map_singleton, List.mem_append, List.mem_singleton]
    tauto

/-- Lines are read: from where they start to where others do, and into the table that is led to. -/
structure Body.Reads (depth : Nat) (body : Body) : Prop where
  readable : ∀ keys {rest}, Readable rest → Readable (body.print keys ++ rest)
  read : ∀ {n : Nat} {tok : Token} {root s : Table} {keys : List Text} {path : List Step} {rest : Bytes}, keys.length = depth →
    root.Leads (keys.map (·.val)) path s → s.readonly = false → s.keys = [] → Readable rest → tok.Starts (body.print keys ++ rest) →
    (body.print keys ++ rest).length < n → ∃ n' tok' cur, tok'.Starts rest ∧ rest.length < n' ∧
      parseLoop n { tok, root, curtab := path } =
        parseLoop n' { tok := tok', root := Table.replace path (body.build s) root, curtab := cur }

structure Part.Reads (depth : Nat) (part : Part) : Prop where
  lines : ∀ keys, ∃ p, part.print keys = ascii "[" ++ p
  read : ∀ {n : Nat} {tok : Token} {root s : Table} {keys : List Text} {path cur : List Step} {rest : Bytes}, keys.length = depth →
    root.Leads (keys.map (·.val)) path s → checkKey s part.key.val = none → Readable rest → tok.Starts (part.print keys ++ rest) →
    (part.print keys ++ rest).length < n → ∃ n' tok' cur', tok'.Starts rest ∧ rest.length < n' ∧
      parseLoop n { tok, root, curtab := cur } =
        parseLoop n' { tok := tok', root := Table.replace path (part.build s) root, curtab := cur' }

section Parts

variable {depth n : Nat} {tok : Token} {rest : Bytes}

/-- A header takes two turns: one for itself and one for the end of its line. -/
theorem header_read {ctx ctx' : Ctx} {r p : Bytes} (htok : ctx.tok.Has .lbracket (ascii "[") r) (hselect : parseSelect ctx = .ok ctx')
    (hline : ctx'.tok.Has .newline [0x0a] p) (hp : Readable p) (n : Nat) :
    ∃ next, next.Starts p ∧ parseLoop (n + 2) ctx = parseLoop n { ctx' with tok := next } := by
  obtain ⟨next, hnext, hstarts⟩ := hline.next_line hp
  refine ⟨next, hstarts, ?_⟩
  rw [parseLoop, htok.eof, htok.typ, if_neg (by decide)]
  dsimp only
  rw [hselect, ok_bind, parseLoop, hline.eof, hline.typ, if_neg (by decide)]
  dsimp only
  rw [hnext, ok_bind]

theorem Part.Reads.readable {part : Part} (h : part.Reads depth) (keys : List Text) (rest : Bytes) :
    Readable (part.print keys ++ rest) := by
  obtain ⟨p, hp⟩ := h.lines keys
  rw [hp, List.append_assoc]
  exact (bracket_lexeme _).readable

theorem printParts_readable {parts : List Part} (h : ∀ part ∈ parts, part.Reads depth) (keys : List Text) (hrest : Readable rest) :
    Readable (printParts keys parts ++ rest) := by
  cases parts with
  | nil =>
    rw [printParts]
    exact hrest
  | cons part parts =>
    rw [printParts, List.append_assoc]
    exact (h part List.mem_cons_self).readable keys _

/-- One part after the other. -/
theorem printParts_read {parts : List Part} {root s : Table} {keys : List Text} {path cur : List Step}
    (hreads : ∀ part ∈ parts, part.Reads depth) (hdepth : keys.length = depth) (hlead : root.Leads (keys.map (·.val)) path s)
    (hnew : ∀ part ∈ parts, cstr part.key.val ∉ s.keys) (hkeys : (parts.map fun part => cstr part.key.val).Nodup) (hrest : Readable rest)
    (htok : tok.Starts (printParts keys parts ++ rest)) (hn : (printParts keys parts ++ rest).length < n) :
    ∃ n' tok' cur', tok'.Starts rest ∧ rest.length < n' ∧ parseLoop n { tok, root, curtab := cur } =
      parseLoop n' { tok := tok', root := Table.replace path (buildParts parts s) root, curtab := cur' } := by
  induction parts generalizing n tok root s cur with
  | nil =>
    rw [printParts] at htok hn
    exact ⟨n, tok, cur, htok, hn, by rw [buildParts, hlead.self]⟩
  | cons part parts ih =>
    rw [printParts, List.append_assoc] at htok hn
    have hpart := hreads part List.mem_cons_self
    have htail : ∀ q ∈ parts, q.Reads depth := fun q hq => hreads q (List.mem_cons_of_mem part hq)
    obtain ⟨n₁, tok₁, cur₁, htok₁, hn₁, hloop₁⟩ := hpart.read hdepth hlead (checkKey_none_iff.mpr (hnew part List.mem_cons_self))
      (printParts_readable htail keys hrest) htok hn
    have hnodup := List.nodup_cons.mp hkeys
    have hnew' : ∀ q ∈ parts, cstr q.key.val ∉ (part.build s).keys := by
      intro q hq hin
      rcases Part.mem_build_keys.mp hin with hold | heq
      · exact hnew q (List.mem_cons_of_mem part hq) hold
      · exact hnodup.1 (List.mem_map.mpr ⟨q, hq, heq⟩)
    obtain ⟨n₂, tok₂, cur₂, htok₂, hn₂, hloop₂⟩ :=
      ih htail (hlead.replace (part.build_key s)) hnew' hnodup.2 htok₁ hn₁
    refine ⟨n₂, tok₂, cur₂, htok₂, hn₂, ?_⟩
    rw [hloop₁, hloop₂, hlead.twice, buildParts]

/-- The lines of one table and of those in it. -/
theorem Body.reads {entries : List (Text × Value)} {parts : List Part}
    (hkeys : (entries.map (fun e => cstr e.1.val) ++ parts.map fun p => cstr p.key.val).Nodup) (hvalues : ∀ e ∈ entries, e.2.Unique)
    (hparts : ∀ part ∈ parts, part.Reads depth) : (Body.mk entries parts).Reads depth := by
  refine ⟨fun keys rest hrest => ?_, @fun n tok root s keys path rest hdepth hlead hopen hempty hrest htok hn => ?_⟩
  · rw [Body.print, List.append_assoc]
    exact printLines_readable entries (printParts_readable hparts keys hrest)
  rw [Body.print, List.append_assoc] at htok hn
  obtain ⟨hentries, hpartKeys, hdisjoint⟩ := List.nodup_append.mp hkeys
  have hnone : ∀ x, x ∉ s.keys := fun x hx => absurd (hempty ▸ hx) List.not_mem_nil
  obtain ⟨n₁, tok₁, htok₁, hn₁, hloop₁⟩ := printLines_read hlead ⟨hopen, fun e _ => hnone _, hentries⟩
    (fun e he => (hvalues e he).reads) (printParts_readable hparts keys hrest) htok hn
  have hnew : ∀ part ∈ parts, cstr part.key.val ∉ (s.putAll entries).keys := by
    intro part hpart hin
    rcases Table.mem_putAll_keys.mp hin with hold | hentry
    · exact hnone _ hold
    · exact hdisjoint _ hentry _ (List.mem_map.mpr ⟨part, hpart, rfl⟩) rfl
  obtain ⟨n₂, tok₂, cur₂, htok₂, hn₂, hloop₂⟩ :=
    printParts_read hparts hdepth (hlead.replace (Table.putAll_key entries s)) hnew hpartKeys hrest htok₁ hn₁
  refine ⟨n₂, tok₂, cur₂, htok₂, hn₂, ?_⟩
  rw [hloop₁, hloop₂, hlead.twice, Body.build]

theorem keys_snoc (keys : List Text) (key : Text) : (keys ++ [key]).map (·.val) = keys.map (·.val) ++ [key.val] := by
  rw [List.map_append, List.map_singleton]

theorem Part.table_reads {key : Text} {body : Body} (hroom : depth < 10) (hbody : body.Reads (depth + 1)) :
    (Part.table key body).Reads depth := by
  refine ⟨fun keys => ⟨_, by rw [Part.print]⟩, @fun n tok root s keys path cur rest hdepth hlead hfresh hrest htok hn => ?_⟩
  have hnew : checkKey s key.val = none := hfresh
  rw [Part.print] at htok hn
  simp only [List.append_assoc] at htok
  have hbracket := (bracket_lexeme _).starts htok
  obtain ⟨line, hline, hselect⟩ := parseSelect_table cur hlead (hdepth ▸ hroom) hnew hbracket
  have hlen : (ascii "[").length = 1 ∧ (ascii "]\n").length = 2 := ⟨rfl, rfl⟩
  simp only [List.length_append] at hn
  obtain ⟨n, rfl⟩ : ∃ m, n = m + 2 := ⟨n - 2, by omega⟩
  obtain ⟨next, hnext, hheader⟩ := header_read hbracket hselect hline (hbody.readable (keys ++ [key]) hrest) n
  have hhere := Table.Leads.tab (checkKey_add_tab (u := { key := key.val }) hnew rfl) List.getElem?_concat_length (.here _)
  have hlead₁ : (Table.replace path { s with tab := s.tab ++ [{ key := key.val }] } root).Leads (keys.map (·.val)) path
      { s with tab := s.tab ++ [{ key := key.val }] } := hlead.replace rfl
  have hlead₂ := hlead₁.append hhere
  rw [← keys_snoc] at hlead₂
  have hshort : (body.print (keys ++ [key]) ++ rest).length < n := by
    rw [List.length_append]
    omega
  obtain ⟨n', tok', cur', htok', hn', hloop⟩ := hbody.read (by simpa using hdepth) hlead₂ rfl rfl hrest hnext hshort
  refine ⟨n', tok', cur', htok', hn', ?_⟩
  rw [hheader, hloop, hlead₁.replace_append, hlead.twice, Table.replace_tab List.getElem?_concat_length, Part.build]
  simp [Table.replace]

/-- The array of a key with some of its tables. -/
def Table.withTables (s : Table) (l : List Arr) (key : Text) (item : List Item) : Table :=
  { s with arr := l ++ [{ key := key.val, kind := .table, item }] }

/-- One more table of an array, with its header. -/
theorem printBodies_step {body : Body} {root s : Table} {keys : List Text} {key : Text} {path : List Step} {l : List Arr} {done : List Item}
    (cur : List Step) (hroom : depth < 10) (hbody : body.Reads (depth + 1)) (hdepth : keys.length = depth)
    (hlead : root.Leads (keys.map (·.val)) path s)
    (hselect : ∀ z, normalizeKey z = .ok key.val →
      selectArray z s = .ok (.item l.length done.length, s.withTables l key (done ++ [.tab anonymous])))
    (hfound : checkKey (s.withTables l key (done ++ [.tab anonymous])) key.val = some (.arr l.length)) (hrest : Readable rest)
    (htok : tok.Starts (ascii "[[" ++ (printPath (keys ++ [key]) ++ (ascii "]]\n" ++ (body.print (keys ++ [key]) ++ rest)))))
    (hn : (ascii "[[" ++ (printPath (keys ++ [key]) ++ (ascii "]]\n" ++ (body.print (keys ++ [key]) ++ rest)))).length < n) :
    ∃ n' tok' cur', tok'.Starts rest ∧ rest.length < n' ∧ parseLoop n { tok, root, curtab := cur } =
      parseLoop n' {
        tok := tok', root := Table.replace path (s.withTables l key (done ++ [.tab (body.build anonymous)])) root, curtab := cur' } := by
  have hbracket : tok.Has .lbracket (ascii "[")
      (ascii "[" ++ (printPath (keys ++ [key]) ++ (ascii "]]\n" ++ (body.print (keys ++ [key]) ++ rest)))) :=
    (bracket_lexeme _).starts htok
  obtain ⟨line, hline, hheaderline⟩ := parseSelect_tables cur hlead (hdepth ▸ hroom) hselect hbracket
  have hlen : (ascii "[[").length = 2 ∧ (ascii "]]\n").length = 3 := ⟨rfl, rfl⟩
  simp only [List.length_append] at hn
  obtain ⟨n, rfl⟩ : ∃ m, n = m + 2 := ⟨n - 2, by omega⟩
  obtain ⟨next, hnext, hheader⟩ := header_read hbracket hheaderline hline (hbody.readable (keys ++ [key]) hrest) n
  have hhere : (s.withTables l key (done ++ [.tab anonymous])).Leads [key.val] [.item l.length done.length] anonymous :=
    .item hfound List.getElem?_concat_length rfl (by rw [List.length_append]; rfl) List.getElem?_concat_length (.here _)
  have hlead₁ : (Table.replace path (s.withTables l key (done ++ [.tab anonymous])) root).Leads (keys.map (·.val)) path
      (s.withTables l key (done ++ [.tab anonymous])) := hlead.replace rfl
  have hlead₂ := hlead₁.append hhere
  rw [← keys_snoc] at hlead₂
  have hshort : (body.print (keys ++ [key]) ++ rest).length < n := by
    rw [List.length_append]
    omega
  obtain ⟨n', tok', cur', htok', hn', hloop⟩ := hbody.read (by simpa using hdepth) hlead₂ rfl rfl hrest hnext hshort
  refine ⟨n', tok', cur', htok', hn', ?_⟩
  rw [hheader, hloop, hlead₁.replace_append, hlead.twice,
    Table.replace_item List.getElem?_concat_length List.getElem?_concat_length]
  simp [Table.replace, Table.withTables]

theorem checkKey_withTables (s : Table) (l : List Arr) (key : Text) (item item' : List Item) (k : Bytes) :
    checkKey (s.withTables l key item') k = checkKey (s.withTables l key item) k := by
  refine checkKey_congr ?_ ?_ ?_ k
  · rfl
  · simp [Table.withTables]
  · rfl

theorem printBodies_readable (keys : List Text) (bodies : List Body) (hrest : Readable rest) :
    Readable (printBodies keys bodies ++ rest) := by
  cases bodies with
  | nil =>
    rw [printBodies]
    exact hrest
  | cons body bodies =>
    have hlines := (bracket_lexeme
      (ascii "[" ++ (printPath keys ++ (ascii "]]\n" ++ (body.print keys ++ (printBodies keys bodies ++ rest)))))).readable
    rw [printBodies]
    simp only [List.append_assoc]
    exact hlines

/-- The tables of an array behind those that are there. -/
theorem printBodies_read {bodies : List Body} {root s : Table} {keys : List Text} {key : Text} {path cur : List Step} {l : List Arr}
    {done : List Item}
    (hroom : depth < 10) (hbodies : ∀ body ∈ bodies, body.Reads (depth + 1)) (hdepth : keys.length = depth)
    (hlead : root.Leads (keys.map (·.val)) path (s.withTables l key done))
    (hfound : checkKey (s.withTables l key done) key.val = some (.arr l.length)) (hrest : Readable rest)
    (htok : tok.Starts (printBodies (keys ++ [key]) bodies ++ rest)) (hn : (printBodies (keys ++ [key]) bodies ++ rest).length < n) :
    ∃ n' tok' cur', tok'.Starts rest ∧ rest.length < n' ∧ parseLoop n { tok, root, curtab := cur } =
      parseLoop n' { tok := tok', root := Table.replace path (s.withTables l key (done ++ buildBodies bodies)) root, curtab := cur' } := by
  induction bodies generalizing n tok root done cur with
  | nil =>
    rw [printBodies] at htok hn
    exact ⟨n, tok, cur, htok, hn, by rw [buildBodies, List.append_nil, hlead.self]⟩
  | cons body bodies ih =>
    rw [printBodies] at htok hn
    simp only [List.append_assoc] at htok hn
    have hbody := hbodies body List.mem_cons_self
    have hmore : ∀ z, normalizeKey z = .ok key.val → selectArray z (s.withTables l key done) =
        .ok (.item l.length done.length, (s.withTables l key done).withTables l key (done ++ [.tab anonymous])) :=
      fun z hz => selectArray_more hz hfound rfl
    have hfound' : ∀ item, checkKey (s.withTables l key item) key.val = some (.arr l.length) :=
      fun item => (checkKey_withTables s l key done item key.val).trans hfound
    obtain ⟨n₁, tok₁, cur₁, htok₁, hn₁, hloop₁⟩ := printBodies_step cur hroom hbody hdepth hlead hmore (hfound' _)
      (printBodies_readable (keys ++ [key]) bodies hrest) htok hn
    have hlead₁ : (Table.replace path (s.withTables l key (done ++ [.tab (body.build anonymous)])) root).Leads (keys.map (·.val)) path
        (s.withTables l key (done ++ [.tab (body.build anonymous)])) := hlead.replace rfl
    obtain ⟨n₂, tok₂, cur₂, htok₂, hn₂, hloop₂⟩ :=
      ih (fun b hb => hbodies b (List.mem_cons_of_mem body hb)) hlead₁ (hfound' _) htok₁ hn₁
    refine ⟨n₂, tok₂, cur₂, htok₂, hn₂, ?_⟩
    rw [hlead.twice, List.append_assoc] at hloop₂
    rw [hloop₁, buildBodies]
    exact hloop₂

theorem Part.tables_reads {key : Text} {bodies : List Body} (hroom : depth < 10) (hfilled : bodies ≠ [])
    (hbodies : ∀ body ∈ bodies, body.Reads (depth + 1)) : (Part.tables key bodies).Reads depth := by
  obtain ⟨body, bodies, rfl⟩ := List.exists_cons_of_ne_nil hfilled
  refine ⟨fun keys => ?_, @fun n tok root s keys path cur rest hdepth hlead hfresh hrest htok hn => ?_⟩
  · rw [Part.print, printBodies]
    exact ⟨_, rfl⟩
  have hnew : checkKey s key.val = none := hfresh
  have hbody := hbodies body List.mem_cons_self
  rw [Part.print, printBodies] at htok hn
  simp only [List.append_assoc] at htok hn
  have hfirst : ∀ z, normalizeKey z = .ok key.val →
      selectArray z s = .ok (.item s.arr.length ([] : List Item).length, s.withTables s.arr key ([] ++ [.tab anonymous])) :=
    fun z hz => selectArray_new hz hnew
  have hfound : ∀ item, checkKey (s.withTables s.arr key item) key.val = some (.arr s.arr.length) :=
    fun item => checkKey_add_arr hnew rfl
  obtain ⟨n₁, tok₁, cur₁, htok₁, hn₁, hloop₁⟩ := printBodies_step cur hroom hbody hdepth hlead hfirst (hfound _)
    (printBodies_readable (keys ++ [key]) bodies hrest) htok hn
  have hlead₁ : (Table.replace path (s.withTables s.arr key ([] ++ [.tab (body.build anonymous)])) root).Leads (keys.map (·.val)) path
      (s.withTables s.arr key ([] ++ [.tab (body.build anonymous)])) := hlead.replace rfl
  obtain ⟨n₂, tok₂, cur₂, htok₂, hn₂, hloop₂⟩ :=
    printBodies_read hroom (fun b hb => hbodies b (List.mem_cons_of_mem body hb)) hdepth hlead₁ (hfound _) hrest htok₁ hn₁
  refine ⟨n₂, tok₂, cur₂, htok₂, hn₂, ?_⟩
  rw [hlead.twice] at hloop₂
  rw [hloop₁, hloop₂, Part.build, buildBodies]
  rfl

end Parts

/-! ## Documents -/

/-- By the way the tables of a document nest. -/
theorem Body.Fits.reads {depth : Nat} {body : Body} (h : body.Fits depth) : body.Reads depth := by
  induction h with
  | @mk depth entries parts keys values room filled _ _ table tables =>
    refine Body.reads keys values fun part hpart => ?_
    have hroom := room (List.ne_nil_of_mem hpart)
    cases part with
    | table key body => exact Part.table_reads hroom (table key body hpart)
    | tables key bodies =>
      refine Part.tables_reads hroom ?_ (tables key bodies hpart)
      rintro rfl
      exact filled key hpart

/-- A document is parsed to the table that it stands for. -/
theorem tomlParse_print {document : Body} (h : document.Fits 0) : tomlParse (document.print []) = .ok (document.build {}) := by
  have hreads := h.reads
  have hreadable := hreads.readable [] readable_nil
  rw [List.append_nil] at hreadable
  obtain ⟨tok, htok⟩ := hreadable 1
  have hfirst : nextToken { tok := .newline, lineno := 1, ptr := document.print [], len := 0 } true = .ok tok := htok
  have hstarts : tok.Starts (document.print [] ++ []) := ⟨1, by rw [List.append_nil]; exact htok⟩
  obtain ⟨n, tok', cur, ⟨lineno, htok'⟩, hn, hloop⟩ := hreads.read rfl (.here {}) rfl rfl readable_nil hstarts
    (show (document.print [] ++ []).length < (document.print []).length + 1 by rw [List.append_nil]; exact Nat.lt_succ_self _)
  have hend : tok' = { tok := .newline, lineno, ptr := [], len := 0, eof := true } := (Except.ok.inj htok').symm
  obtain ⟨n, rfl⟩ : ∃ m, n = m + 1 := ⟨n - 1, by rw [List.length_nil] at hn; omega⟩
  rw [tomlParse, parseLoop]
  dsimp only
  rw [if_neg (by decide), hfirst, ok_bind, hloop, parseLoop, hend]
  rfl

end Yagips.Toml
