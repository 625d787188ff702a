import Yagips.Toml.Parser

/-!
# How parsing ends

Every text is parsed to its end: to a table in which no key is twice, or to a message that names a line of
the text. Each turn of a loop goes past a byte at least, so that no loop stays where it is.
-/
namespace Yagips.Toml

open Yagips.Lib

variable {text : Bytes} {k : Nat} {tok : Token}

/-- Behind the end of the text, there is the end of the text. -/
theorem nextToken_end (h : tok.ptr = []) (dotisspecial : Bool) :
    nextToken tok dotisspecial = .ok { tok := .newline, lineno := tok.lineno, ptr := [], len := 0, eof := true } := by
  rw [nextToken, h, List.take_nil, List.drop_nil]
  rfl

theorem skipNewlines_meets {n : Nat} (h : tok.Within text k) (hn : tok.ptr.length + 1 < n) (isdotspecial : Bool) :
    Meets (Stop.Names text) (Token.Within text k) (skipNewlines n tok isdotspecial) := by
  induction n generalizing tok k with
  | zero => cases hn
  | succ n ih =>
    rw [skipNewlines]
    split
    case isFalse => exact h
    case isTrue hline =>
      rcases h.kind with hstring | hone | ⟨hend, -⟩
      · rw [hstring] at hline
        cases hline
      · refine (nextToken_within h.here isdotspecial).bind fun next hnext => ?_
        have hle := h.here.len_le
        have hk := h.le
        have hnk := hnext.le
        have hwithin : next.Within text k := ⟨hnext.here, hnext.kind, by omega⟩
        split
        · exact hwithin
        · exact ih hwithin (by omega)
      · have hnext := h.next isdotspecial
        rw [nextToken_end hend] at hnext ⊢
        exact hnext

theorem eatToken_meets (h : tok.Within text k) (typ : TokenType) (isdotspecial : Bool) :
    Meets (Stop.Names text) (Token.Within text k) (eatToken tok typ isdotspecial) := by
  rw [eatToken]
  split
  · trivial
  · exact h.next isdotspecial

/-- Past a byte there is less. -/
theorem Token.Within.next_byte (h : tok.Within text k) {typ : TokenType} (htyp : tok.tok = typ) (hstring : typ ≠ .string)
    (hline : typ ≠ .newline) (isdotspecial : Bool) :
    Meets (Stop.Names text) (fun next => 0 < k ∧ next.Within text (k - 1)) (nextToken tok isdotspecial) := by
  subst htyp
  exact h.next_lt (h.one hstring (.inl hline)) isdotspecial

theorem eatToken_lt (h : tok.Within text k) {typ : TokenType} (hstring : typ ≠ .string) (hline : typ ≠ .newline)
    (isdotspecial : Bool) :
    Meets (Stop.Names text) (fun next => 0 < k ∧ next.Within text (k - 1)) (eatToken tok typ isdotspecial) := by
  rw [eatToken]
  split
  case isTrue => trivial
  case isFalse htyp => exact h.next_byte (not_ne_iff.mp htyp) hstring hline isdotspecial

theorem Token.Within.mono {k' : Nat} (h : tok.Within text k) (hk : k ≤ k') : tok.Within text k' :=
  ⟨h.here, h.kind, h.le.trans hk⟩

/-! ## Values -/

theorem dottedTable_meets {tab : Table} (htab : tab.Valid) {key : Token} (hkey : key.In text) :
    Meets (Stop.Names text) (fun p => p.1 < p.2.tab.length ∧ tab.Keeps p.2) (dottedTable tab key) := by
  refine (normalizeKey_meets hkey).bind fun subtabstr _ => ?_
  split
  case h_1 i hfound => exact ⟨tomlTableTable_lt hfound, htab, rfl⟩
  case h_2 => exact createKeytableInTable_meets htab hkey

theorem Kind.next_unset {kind new : Kind} (hnew : new ≠ .unset) : kind.next new ≠ .unset := by
  rw [Kind.next]
  split_ifs with h1 h2
  · exact hnew
  · decide
  · exact h1

/-- An array of tables stays one only with tables. -/
theorem Kind.next_table {kind new : Kind} (h : kind.next new = .table) : new = .table ∧ (kind = .unset ∨ kind = .table) := by
  rw [Kind.next] at h
  split_ifs at h with h1 h2
  · exact ⟨h, .inl h1⟩
  · rw [← not_ne_iff.mp h2]
    exact ⟨h, .inr h⟩

theorem Arr.Valid.push {arr : Arr} (harr : arr.Valid) {kind : Kind} (hkind : kind ≠ .unset) {item : Item}
    (htable : kind = .table → ∃ t, item = .tab t) (hitem : item.Valid) : arr.Keeps (arr.push kind item) := by
  have hmem : ∀ {P : Item → Prop}, (∀ i ∈ arr.item, P i) → P item → ∀ i ∈ arr.item ++ [item], P i := by
    intro P hold hone i hi
    rcases List.mem_append.mp hi with hi | hi
    · exact hold i hi
    · rwa [List.mem_singleton.mp hi]
  refine ⟨⟨fun h => absurd h (Kind.next_unset hkind), fun h => ?_, hmem harr.item hitem⟩, rfl⟩
  obtain ⟨hnew, hold⟩ := Kind.next_table h
  refine hmem (fun i hi => ?_) (htable hnew)
  rcases hold with hunset | htables
  · rw [harr.unset hunset] at hi
    cases hi
  · exact harr.tables htables i hi

/-- What parsing a value comes to from any token with room for it: to a token behind it, and to a valid
table or array. -/
structure ParseMeets (text : Bytes) (n : Nat) : Prop where
  keyval : ∀ {k tok tab}, Token.Within text k tok → 2 * k < n → Table.Valid tab →
    Meets (Stop.Names text) (fun p => 0 < k ∧ p.1.Within text (k - 1) ∧ tab.Keeps p.2) (parseKeyval n tok tab)
  array : ∀ {k tok arr}, Token.Within text k tok → 2 * k < n → Arr.Valid arr →
    Meets (Stop.Names text) (fun p => p.1.Within text k ∧ arr.Keeps p.2) (parseArray n tok arr)
  arrayLoop : ∀ {k tok arr}, Token.Within text k tok → 2 * k + 1 < n → Arr.Valid arr →
    Meets (Stop.Names text) (fun p => p.1.Within text k ∧ arr.Keeps p.2) (arrayLoop n tok arr)
  inlineTable : ∀ {k tok tab}, Token.Within text k tok → 2 * k < n → Table.Valid tab →
    Meets (Stop.Names text) (fun p => p.1.Within text k ∧ tab.Keeps p.2) (parseInlineTable n tok tab)
  inlineLoop : ∀ {k tok tab}, Token.Within text k tok → 2 * k + 1 < n → Table.Valid tab →
    Meets (Stop.Names text) (fun p => p.1.Within text k ∧ tab.Keeps p.2) (inlineLoop n tok tab)

theorem Table.Keeps.trans {t t' t'' : Table} (h : t.Keeps t') (h' : t'.Keeps t'') : t.Keeps t'' :=
  ⟨h'.valid, h'.key.trans h.key⟩

theorem Arr.Keeps.trans {a a' a'' : Arr} (h : a.Keeps a') (h' : a'.Keeps a'') : a.Keeps a'' :=
  ⟨h'.valid, h'.key.trans h.key⟩

section Values

variable {n : Nat} {tab : Table} {arr : Arr}

theorem parseKeyval_meets (ih : ParseMeets text n) (htok : tok.Within text k) (hn : 2 * k < n + 1) (htab : tab.Valid) :
    Meets (Stop.Names text) (fun p => 0 < k ∧ p.1.Within text (k - 1) ∧ tab.Keeps p.2) (parseKeyval (n + 1) tok tab) := by
  rw [parseKeyval]
  split
  case isTrue => exact htok.here.stops _
  case isFalse =>
    refine (eatToken_meets htok .string true).bind fun tok' htok' => ?_
    split
    case isTrue hdot =>
      refine (dottedTable_meets htab htok.here).bind fun p hp => ?_
      refine (htok'.next_byte hdot (by decide) (by decide) true).bind fun sub hsub => ?_
      refine (hp.2.valid.onTab (Q := fun tok _ => tok.Within text (k - 1)) (List.getElem?_eq_getElem hp.1) fun hvalid => ?_).post ?_
      · refine (ih.keyval hsub.2 (by omega) hvalid).post fun q hq => ⟨hq.2.2, hq.2.1.mono (Nat.sub_le _ _)⟩
      · rintro q ⟨hkeeps, s, -, hin⟩
        exact ⟨hsub.1, hin, hp.2.trans hkeeps⟩
    case isFalse =>
      split
      case isTrue => exact htok'.here.stops _
      case isFalse hequal =>
        refine (htok'.next_byte (not_ne_iff.mp hequal) (by decide) (by decide) false).bind fun val hval => ?_
        split
        · refine (createKeyvalInTable_meets htab htok.here val.text).bind fun tab' htab' => ?_
          exact (hval.2.next true).ret fun tok'' htok'' => ⟨hval.1, htok'', htab'⟩
        · refine (createKeyarrayInTable_meets htab htok.here .unset).bind fun p hp => ?_
          refine (hp.2.valid.onArr (R := fun tok _ => tok.Within text (k - 1)) (List.getElem?_eq_getElem hp.1) fun hvalid => ?_).post ?_
          · exact (ih.array hval.2 (by omega) hvalid).post fun q hq => ⟨hq.2, hq.1⟩
          · rintro q ⟨hkeeps, a, -, hin⟩
            exact ⟨hval.1, hin, hp.2.trans hkeeps⟩
        · refine (createKeytableInTable_meets htab htok.here).bind fun p hp => ?_
          refine (hp.2.valid.onTab (Q := fun tok _ => tok.Within text (k - 1)) (List.getElem?_eq_getElem hp.1) fun hvalid => ?_).post ?_
          · exact (ih.inlineTable hval.2 (by omega) hvalid).post fun q hq => ⟨hq.2, hq.1⟩
          · rintro q ⟨hkeeps, s, -, hin⟩
            exact ⟨hval.1, hin, hp.2.trans hkeeps⟩
        · exact hval.2.here.stops _

theorem parseArray_meets (ih : ParseMeets text n) (htok : tok.Within text k) (hn : 2 * k < n + 1) (harr : arr.Valid) :
    Meets (Stop.Names text) (fun p => p.1.Within text k ∧ arr.Keeps p.2) (parseArray (n + 1) tok arr) := by
  rw [parseArray]
  refine (eatToken_lt htok (by decide) (by decide) false).bind fun tok' htok' => ?_
  exact (ih.arrayLoop htok'.2 (by omega) harr).post fun p hp => ⟨hp.1.mono (Nat.sub_le _ _), hp.2⟩

theorem arrayElement_meets (ih : ParseMeets text n) (htok : tok.Within text k) (hn : 2 * k < n) (harr : arr.Valid) :
    Meets (Stop.Names text) (fun p => p.1.Within text k ∧ arr.Keeps p.2)
      (arrayElement (parseArray n) (parseInlineTable n) tok arr) := by
  rw [arrayElement]
  split
  · exact (eatToken_meets htok tok.tok false).ret fun next hnext => ⟨hnext, harr.push (by decide) nofun (.val _)⟩
  · refine (ih.array htok hn (Arr.valid_empty [] .unset)).ret fun p hp => ?_
    exact ⟨hp.1, harr.push (by decide) nofun (.arr hp.2.valid)⟩
  · refine (ih.inlineTable htok hn (Table.valid_empty [] false)).ret fun p hp => ?_
    exact ⟨hp.1, harr.push (by decide) (fun _ => ⟨p.2, rfl⟩) (.tab hp.2.valid)⟩
  · exact htok.here.stops _

theorem arrayLoop_meets (ih : ParseMeets text n) (htok : tok.Within text k) (hn : 2 * k + 1 < n + 1) (harr : arr.Valid) :
    Meets (Stop.Names text) (fun p => p.1.Within text k ∧ arr.Keeps p.2) (arrayLoop (n + 1) tok arr) := by
  rw [arrayLoop]
  refine (skipNewlines_meets htok (Nat.lt_succ_self _) false).bind fun tok₁ htok₁ => ?_
  split
  case isTrue => exact (eatToken_meets htok₁ .rbracket true).ret fun tok' htok' => ⟨htok', harr, rfl⟩
  case isFalse =>
    refine (arrayElement_meets ih htok₁ (by omega) harr).bind fun p hp => ?_
    refine (skipNewlines_meets hp.1 (Nat.lt_succ_self _) false).bind fun tok₂ htok₂ => ?_
    split
    case isTrue =>
      refine (eatToken_lt htok₂ (by decide) (by decide) false).bind fun tok₃ htok₃ => ?_
      refine (ih.arrayLoop htok₃.2 (by omega) hp.2.valid).post fun q hq => ⟨hq.1.mono (Nat.sub_le _ _), hp.2.trans hq.2⟩
    case isFalse => exact (eatToken_meets htok₂ .rbracket true).ret fun tok' htok' => ⟨htok', hp.2⟩

theorem parseInlineTable_meets (ih : ParseMeets text n) (htok : tok.Within text k) (hn : 2 * k < n + 1) (htab : tab.Valid) :
    Meets (Stop.Names text) (fun p => p.1.Within text k ∧ tab.Keeps p.2) (parseInlineTable (n + 1) tok tab) := by
  rw [parseInlineTable]
  refine (eatToken_lt htok (by decide) (by decide) true).bind fun tok' htok' => ?_
  exact (ih.inlineLoop htok'.2 (by omega) htab).post fun p hp => ⟨hp.1.mono (Nat.sub_le _ _), hp.2⟩

theorem Table.Keeps.close {t t' : Table} (h : t.Keeps t') : t.Keeps { t' with readonly := true } :=
  ⟨⟨h.valid.keys, h.valid.arr, h.valid.tab⟩, h.key⟩

theorem inlineLoop_meets (ih : ParseMeets text n) (htok : tok.Within text k) (hn : 2 * k + 1 < n + 1) (htab : tab.Valid) :
    Meets (Stop.Names text) (fun p => p.1.Within text k ∧ tab.Keeps p.2) (inlineLoop (n + 1) tok tab) := by
  have hself : tab.Keeps tab := ⟨htab, rfl⟩
  rw [inlineLoop]
  split
  · exact htok.here.stops _
  · split
    · exact (eatToken_meets htok .rbrace true).ret fun tok' htok' => ⟨htok', hself.close⟩
    · split
      · exact htok.here.stops _
      · refine (ih.keyval htok (by omega) htab).bind fun p hp => ?_
        have hin := hp.2.1.mono (Nat.sub_le k 1)
        dsimp only
        split
        · exact hin.here.stops _
        · split
          · refine (eatToken_lt hin (by decide) (by decide) true).bind fun tok' htok' => ?_
            refine (ih.inlineLoop htok'.2 (by omega) hp.2.2.valid).post fun q hq => ?_
            exact ⟨hq.1.mono (Nat.sub_le _ _), hp.2.2.trans hq.2⟩
          · exact (eatToken_meets hin .rbrace true).ret fun tok' htok' => ⟨htok', hp.2.2.close⟩

/-- By induction on the turns that are left. -/
theorem parse_meets (text : Bytes) (n : Nat) : ParseMeets text n := by
  induction n with
  | zero => exact ⟨fun _ h => absurd h (Nat.not_lt_zero _), fun _ h => absurd h (Nat.not_lt_zero _),
      fun _ h => absurd h (Nat.not_lt_zero _), fun _ h => absurd h (Nat.not_lt_zero _), fun _ h => absurd h (Nat.not_lt_zero _)⟩
  | succ n ih => exact ⟨parseKeyval_meets ih, parseArray_meets ih, arrayLoop_meets ih, parseInlineTable_meets ih, inlineLoop_meets ih⟩

end Values

/-! ## Selections -/

/-- The keys of a path stand in the text. -/
theorem fillTabpath_meets {room : Nat} {tpath : List (Token × Bytes)} (htok : tok.Within text k)
    (hpath : ∀ e ∈ tpath, Token.In text e.1) :
    Meets (Stop.Names text) (fun p => p.1.Within text k ∧ p.2 ≠ [] ∧ ∀ e ∈ p.2, Token.In text e.1) (fillTabpath room tok tpath) := by
  induction room generalizing tok tpath with
  | zero => exact htok.here.stops _
  | succ room ih =>
    rw [fillTabpath]
    split
    · exact htok.here.stops _
    · refine (normalizeKey_meets htok.here).bind fun key _ => ?_
      have hmore : ∀ e ∈ tpath ++ [(tok, key)], Token.In text e.1 := by
        intro e he
        rcases List.mem_append.mp he with hold | hone
        · exact hpath e hold
        · rw [List.mem_singleton.mp hone]
          exact htok.here
      refine (htok.next true).bind fun tok' htok' => ?_
      split
      · exact ⟨htok', by simp, hmore⟩
      · split
        · exact htok'.here.stops _
        · exact (htok'.next true).bind fun tok'' htok'' => ih htok'' hmore

theorem walkTabpath_meets {tpath : List (Token × Bytes)} (hpath : ∀ e ∈ tpath, Token.In text e.1) {curtab : Table}
    (hcurtab : curtab.Valid) :
    Meets (Stop.Names text) (fun p => curtab.Keeps p.2 ∧ p.2.At p.1 fun _ => True) (walkTabpath tpath curtab) := by
  induction tpath generalizing curtab with
  | nil => exact ⟨⟨hcurtab, rfl⟩, trivial⟩
  | cons e tpath ih =>
    obtain ⟨tok, key⟩ := e
    obtain ⟨htok, hpath⟩ := List.forall_mem_cons.mp hpath
    have hwalk : ∀ {t : Table} {i : Nat} {s : Table}, t.Valid → t.tab[i]? = some s →
        Meets (Stop.Names text) (fun p => t.Keeps p.2 ∧ p.2.At (.tab i :: p.1) fun _ => True) (t.onTab i (walkTabpath tpath)) :=
      fun ht hs => ht.onTab (Q := fun path s => s.At path fun _ => True) hs fun hvalid => ih hpath hvalid
    rw [walkTabpath]
    split
    case h_1 i hfound =>
      exact (hwalk hcurtab (List.getElem?_eq_getElem (tomlTableTable_lt (checkKey_tab hfound)))).ret fun p hp => hp
    case h_2 i hfound =>
      refine (hcurtab.onArr (R := fun q a => ∃ s, a.item[q.1]? = some (.tab s) ∧ s.At q.2 fun _ => True)
        (List.getElem?_eq_getElem (tomlTableArray_lt (checkKey_arr hfound))) fun harr => ?_).ret fun p hp => ?_
      · split
        · trivial
        · split
          · trivial
          · rename_i hkind hitem
            obtain ⟨s, hs⟩ := harr.tables (not_ne_iff.mp hkind) _ (List.getLast_mem hitem)
            rw [List.getLast_eq_getElem] at hs
            have hlast := List.getElem?_eq_some_iff.mpr ⟨_, hs⟩
            refine (harr.onItem (Q := fun path s => s.At path fun _ => True) hlast fun hvalid => ?_).ret fun p hp => hp
            exact ih hpath hvalid
      · obtain ⟨hkeeps, a, ha, s, hs, hat⟩ := hp
        exact ⟨hkeeps, a, s, ha, hs, hat⟩
    case h_3 => exact htok.stops _
    case h_4 hnone =>
      have hmore := hcurtab.add_tab hnone (s := { key := cstr key, implicit := true }) (Table.valid_empty _ _) List.takeWhile_idem
      refine (hwalk (t := { curtab with tab := _ }) hmore List.getElem?_concat_length).ret fun p hp => ⟨⟨hp.1.valid, hp.1.key⟩, hp.2⟩

section Select

variable {z : Token} {curtab : Table}

theorem selectTable_meets (hz : z.In text) (hcurtab : curtab.Valid) :
    Meets (Stop.Names text) (fun p => curtab.Keeps p.2 ∧ p.2.At [p.1] fun _ => True) (selectTable z curtab) :=
  (createKeytableInTable_meets hcurtab hz).ret fun _ hp => ⟨hp.2, _, List.getElem?_eq_getElem hp.1, trivial⟩

/-- One more table in an array of tables. -/
theorem Arr.Valid.push_table {arr : Arr} (harr : arr.Valid) (hkind : arr.kind = .table) {t : Table} (ht : t.Valid) :
    arr.Keeps { arr with item := arr.item ++ [.tab t] } := by
  have hpush : arr.Keeps (arr.push .table (.tab t)) := harr.push (by decide) (fun _ => ⟨t, rfl⟩) (.tab ht)
  rwa [Arr.push, Kind.next, hkind, if_neg (by decide), if_neg (fun h => h rfl), ← hkind] at hpush

theorem selectedArray_meets (hz : z.In text) (hcurtab : curtab.Valid) :
    Meets (Stop.Names text) (fun p => p.1 < p.2.arr.length ∧ curtab.Keeps p.2) (selectedArray curtab z) := by
  refine (normalizeKey_meets hz).bind fun zstr _ => ?_
  split
  case h_1 i hfound => exact ⟨tomlTableArray_lt hfound, hcurtab, rfl⟩
  case h_2 => exact createKeyarrayInTable_meets hcurtab hz .table

theorem selectArray_meets (hz : z.In text) (hcurtab : curtab.Valid) :
    Meets (Stop.Names text) (fun p => curtab.Keeps p.2 ∧ p.2.At [p.1] fun _ => True) (selectArray z curtab) := by
  refine (selectedArray_meets hz hcurtab).bind fun p hp => ?_
  refine (hp.2.valid.onArr (R := fun step a => ∃ j s, step = .item p.1 j ∧ a.item[j]? = some (.tab s))
    (List.getElem?_eq_getElem hp.1) fun harr => ?_).post ?_
  · split
    case isTrue => exact hz.stops _
    case isFalse hkind =>
      exact ⟨harr.push_table (not_ne_iff.mp hkind) (Table.valid_empty _ _), _, _, rfl, List.getElem?_concat_length⟩
  · rintro ⟨step, tab⟩ ⟨hkeeps, a, ha, j, s, rfl, hs⟩
    exact ⟨hp.2.trans hkeeps, a, s, ha, hs, trivial⟩

end Select

/-- The parser between two lines: its token stands in the text, and the table that entries go to is there. -/
structure Ctx.Good (text : Bytes) (k : Nat) (ctx : Ctx) : Prop where
  tok : ctx.tok.Within text k
  root : ctx.root.Valid
  curtab : ctx.root.At ctx.curtab fun _ => True

theorem parseSelect_meets {ctx : Ctx} (h : ctx.Good text k) :
    Meets (Stop.Names text) (fun ctx' => 0 < k ∧ ctx'.Good text (k - 1)) (parseSelect ctx) := by
  rw [parseSelect]
  dsimp only
  refine (eatToken_lt h.tok (by decide) (by decide) true).bind fun tok₁ htok₁ => ?_
  refine Meets.bind (Q := Token.Within text (k - 1)) ?_ fun tok₂ htok₂ => ?_
  · split
    · exact eatToken_meets htok₁.2 .lbracket true
    · exact htok₁.2
  · refine (fillTabpath_meets htok₂ (by simp)).bind fun p hp => ?_
    obtain ⟨tok₃, tpath⟩ := p
    obtain ⟨htok₃, hne, hpath⟩ := hp
    dsimp only
    rw [List.getLast?_eq_some_getLast hne]
    have hz := hpath _ (List.getLast_mem hne)
    have hinit : ∀ e ∈ tpath.dropLast, Token.In text e.1 := fun e he => hpath e (List.dropLast_subset tpath he)
    generalize tpath.getLast hne = last at hz ⊢
    obtain ⟨z, zstr⟩ := last
    dsimp only
    refine (walkTabpath_meets hinit h.root).bind fun q hq => ?_
    have hselect : ∀ s : Table, s.Valid → Meets (Stop.Names text) (fun p => s.Keeps p.2 ∧ p.2.At [p.1] fun _ => True)
        ((if (decide (ctx.tok.ptr.getD 1 0 = 0x5b)) = true then selectArray z else selectTable z) s) := by
      intro s hs
      split
      · exact selectArray_meets hz hs
      · exact selectTable_meets hz hs
    refine (hq.1.valid.onPath (Q := fun step s => s.At [step] fun _ => True) hselect hq.2).bind fun r hr => ?_
    split
    · exact htok₃.here.stops _
    · refine Meets.bind (Q := Token.Within text (k - 1)) ?_ fun tok₄ htok₄ => ?_
      · split
        · split
          · exact htok₃.here.stops _
          · exact eatToken_meets htok₃ .rbracket true
        · exact htok₃
      · refine (eatToken_meets htok₄ .rbracket true).bind fun tok₅ htok₅ => ?_
        split
        · exact htok₅.here.stops _
        · exact ⟨htok₁.1, htok₅, hr.1.valid, hr.2.append⟩

/-! ## The text -/

theorem Token.In.start (text : Bytes) : Token.In text { tok := .newline, lineno := 1, ptr := text, len := 0 } :=
  ⟨⟨[], rfl, rfl⟩, Nat.zero_le _⟩

/-- Each turn goes past a byte, or finds the end. -/
theorem parseLoop_meets {n : Nat} {ctx : Ctx} (h : ctx.Good text k) (hn : k < n) :
    Meets (Stop.Names text) Table.Valid (parseLoop n ctx) := by
  induction n generalizing ctx k with
  | zero => cases hn
  | succ n ih =>
    rw [parseLoop]
    split
    case isTrue => exact h.root
    case isFalse hend =>
      have hend := Bool.eq_false_iff.mpr hend
      split
      case h_1 hline =>
        refine (h.tok.next_lt (h.tok.one (by rw [hline]; decide) (.inr hend)) true).bind fun tok htok => ?_
        exact ih ⟨htok.2, h.root, h.curtab⟩ (by omega)
      case h_2 =>
        have hle := h.tok.le
        have hkeyval : ∀ s : Table, s.Valid → Meets (Stop.Names text)
            (fun p => s.Keeps p.2 ∧ 0 < ctx.tok.ptr.length ∧ p.1.Within text (ctx.tok.ptr.length - 1))
            (parseKeyval (2 * ctx.tok.ptr.length + 1) ctx.tok s) :=
          fun s hs => ((parse_meets text _).keyval ⟨h.tok.here, h.tok.kind, le_rfl⟩ (Nat.lt_succ_self _) hs).post
            fun p hp => ⟨hp.2.2, hp.1, hp.2.1⟩
        refine (h.root.onPath (Q := fun tok _ => 0 < ctx.tok.ptr.length ∧ tok.Within text (ctx.tok.ptr.length - 1)) hkeyval h.curtab).bind
          fun p hp => ?_
        obtain ⟨hpos, htok⟩ := hp.2.reached
        dsimp only
        split
        · exact htok.here.stops _
        · refine (eatToken_meets htok .newline true).bind fun tok htok => ?_
          exact ih ⟨htok, hp.1.valid, hp.2.imp fun _ _ => trivial⟩ (by omega)
      case h_3 => exact (parseSelect_meets h).bind fun ctx' hctx' => ih hctx'.2 (by omega)
      case h_4 => exact h.tok.here.stops _

/-- Every text is parsed to its end: to a valid table, or to a message about one of its lines. No null
pointer is followed on the way. -/
theorem tomlParse_ends (toml : Bytes) : Meets (Stop.Names toml) Table.Valid (tomlParse toml) := by
  -- the first turn goes past the end of a line that is not there
  rw [tomlParse, parseLoop]
  refine (nextToken_within (Token.In.start toml) true).bind fun tok htok => ?_
  exact parseLoop_meets ⟨htok, Table.valid_empty [] false, trivial⟩ (Nat.lt_succ_self _)

theorem tomlParseFile_ends (file : Bytes) : Meets (Stop.Names (cstr file)) Table.Valid (tomlParseFile file) :=
  tomlParse_ends (cstr file)

end Yagips.Toml
