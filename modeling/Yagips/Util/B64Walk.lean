import Yagips.Util.B64Digits

/-!
# The accesses of `b64dec`

The loop as a machine that goes from label to label, with the position in the string and the
count of what is left apart. A visit to a label reads a character, looks it up unless it is out
of range, and counts down. Past the NUL behind the string, and past the table, it reads what
happens to be there.
-/
namespace Yagips.Util.B64Walk

open Yagips.Lib
open Yagips.Util.B64
open Yagips.Util.B64Digits

/-! ## The machine -/

inductive Access where
  | input (j : Nat)
  | table (t : UInt8)
  | count (isz : Nat)

/-- Within the string, within the table, and not below zero. -/
def Access.Sound (s : Bytes) : Access → Prop
  | .input j => j < s.length
  | .table t => t < 128
  | .count isz => 0 < isz

structure State where
  isz : Nat
  i : UInt32
  label : Label
  e : UInt8
  ret : Bytes

/-- Where a visit leaves the loop: at a label, behind its end, or nowhere that the source says. -/
inductive Next where
  | goto (st : State)
  | done (ret : Bytes)
  | wild

/-- `isz--` of a `size_t`. -/
def countDown (isz : Nat) : Nat := if isz = 0 then 2 ^ 64 - 1 else isz - 1

/-- `in[j]`, which is NUL behind the last character. -/
def charOf (s : Bytes) (j : Nat) : Option UInt8 := if j = s.length then some 0 else s[j]?

/-- A character without a value. The skip of one that is in range does not test the count at
`idx1`. -/
def skip (tests : Prop) [Decidable tests] (st : State) : Next :=
  let isz := countDown st.isz
  if tests ∧ isz = 0 then .done st.ret else .goto { st with i := st.i + 1, isz }

/-- A character with the value `v`. -/
def take (v : UInt8) (st : State) : Next :=
  let isz := countDown st.isz
  match st.label with
  | .idx0 =>
    if isz = 0 then .done (st.ret ++ [v <<< 2])
    else .goto { st with isz, label := .idx1, e := v <<< 2 }
  | .idx1 =>
    if isz = 0 then .done (st.ret ++ [st.e ||| v >>> 4, v <<< 4])
    else .goto { st with isz, label := .idx2, e := v <<< 4, ret := st.ret ++ [st.e ||| v >>> 4] }
  | .idx2 =>
    if isz = 0 then .done (st.ret ++ [st.e ||| v >>> 2, v <<< 6])
    else .goto { st with isz, label := .idx3, e := v <<< 6, ret := st.ret ++ [st.e ||| v >>> 2] }
  | .idx3 =>
    -- the condition of the `while`
    if isz = 0 then .done (st.ret ++ [st.e ||| v])
    else .goto { st with isz, i := st.i + 4, label := .idx0, ret := st.ret ++ [st.e ||| v] }

/-- One visit to a label. -/
def visit (s : Bytes) (st : State) : List Access × Next :=
  let j := (st.i + st.label.offset).toNat
  match charOf s j with
  | none => ([.input j], .wild)
  | some t =>
    if t > 128 then ([.input j, .count st.isz], skip True st)
    else match b64itbl[t.toNat]? with
      | none => ([.input j, .table t], .wild)
      | some v =>
        if v = -1 then ([.input j, .table t, .count st.isz], skip (st.label ≠ .idx1) st)
        else ([.input j, .table t, .count st.isz], take (v.toUInt8 &&& 0x3f) st)

/-- The first `n` visits. -/
def walk (s : Bytes) : Nat → Next → List Access × Next
  | n + 1, .goto st => ((visit s st).1 ++ (walk s n (visit s st).2).1, (walk s n (visit s st).2).2)
  | _, next => ([], next)

def start (s : Bytes) : Next :=
  if s.length = 0 then .done []
  else .goto { isz := s.length, i := 0, label := .idx0, e := 0, ret := [] }

/-- The loop ends with a result, and every access until then is sound. -/
def Ends (s : Bytes) (next : Next) (ret : Bytes) : Prop :=
  ∃ n, (walk s n next).2 = .done ret ∧ ∀ a ∈ (walk s n next).1, a.Sound s

def Safe (s : Bytes) : Prop := ∃ ret, Ends s (start s) ret

/-! ## Against the decoder that faults -/

theorem Ends.done (s ret : Bytes) : Ends s (.done ret) ret := ⟨0, rfl, by simp [walk]⟩

theorem Ends.visit {s : Bytes} {st : State} {ret : Bytes} (hsound : ∀ a ∈ (visit s st).1, a.Sound s)
    (hends : Ends s (visit s st).2 ret) : Ends s (.goto st) ret := by
  obtain ⟨n, hdone, hrest⟩ := hends
  refine ⟨n + 1, ?_, fun a ha => ?_⟩
  · simp only [walk, hdone]
  · simp only [walk] at ha
    exact (List.mem_append.mp ha).elim (hsound a) (hrest a)

/-- A looked up character is within the table. -/
theorem look_table {t : UInt8} {r : Look} (h : look t = .ok r) (hr : r ≠ .foreign) : t < 128 := by
  rw [(look_eq t).1] at h
  split at h
  case isTrue => cases h
  case isFalse hne =>
    split at h
    case isTrue =>
      cases h
      exact absurd rfl hr
    case isFalse hle =>
      rw [UInt8.lt_iff_toNat_lt] at hle ⊢
      rw [← UInt8.toNat_inj] at hne
      omega

/-- What a visit does to a character that is in the string, by what the character is. -/
theorem visit_read {s : Bytes} (st : State) {t : UInt8}
    (h : byteAt s (st.i + st.label.offset).toNat = .ok t) :
    (st.i + st.label.offset).toNat < s.length ∧
    visit s st = match look t with
      | .error _ => ([.input (st.i + st.label.offset).toNat, .table t], .wild)
      | .ok .foreign => ([.input (st.i + st.label.offset).toNat, .count st.isz], skip True st)
      | .ok .unlisted => ([.input (st.i + st.label.offset).toNat, .table t, .count st.isz],
          skip (st.label ≠ .idx1) st)
      | .ok (.six v) => ([.input (st.i + st.label.offset).toNat, .table t, .count st.isz], take v st) := by
  have hlt : (st.i + st.label.offset).toNat < s.length := by
    by_contra hge
    rw [byteAt_fault (by omega)] at h
    cases h
  refine ⟨hlt, ?_⟩
  have hchar : charOf s (st.i + st.label.offset).toNat = some t := by
    rw [byteAt_ok hlt] at h
    rw [charOf, if_neg (by omega), List.getElem?_eq_getElem hlt, Except.ok.inj h]
  unfold visit look
  simp only [hchar]
  split
  case isTrue => rfl
  case isFalse =>
    cases b64itbl[t.toNat]? with
    | none => rfl
    | some v =>
      simp only
      split <;> rfl

/-- Where a visit leads the machine, the decoder gives what the machine writes there. Nothing is
left to go on with only at the skip that does not test for it. -/
def Follows (s : Bytes) (isz : Nat) (ret : Bytes) (next : Next) (given : Except Fault Bytes) : Prop :=
  (∃ out, next = .done (ret ++ out) ∧ given = .ok out) ∨
  ∃ i l e out, (isz = 0 → l = .idx1) ∧ next = .goto ⟨isz, i, l, e, ret ++ out⟩ ∧
    given = (decLoop s isz i l e).map (out ++ ·)

theorem countDown_succ (isz : Nat) : countDown (isz + 1) = isz := if_neg (Nat.succ_ne_zero isz)

theorem Follows.goes {s : Bytes} {isz : Nat} {ret : Bytes} {i : UInt32} {l : Label} {e : UInt8}
    (hleft : isz = 0 → l = .idx1) :
    Follows s isz ret (.goto ⟨isz, i, l, e, ret⟩) (decLoop s isz i l e) := by
  refine .inr ⟨i, l, e, [], hleft, by rw [List.append_nil], ?_⟩
  cases decLoop s isz i l e <;> rfl

/-- A skip goes on at the same label, where there is something left. -/
theorem skip_follows (s : Bytes) {tests : Prop} [Decidable tests] (isz : Nat) (i : UInt32) {l : Label}
    (e : UInt8) (ret : Bytes) (htests : ¬ tests → l = .idx1) :
    Follows s isz ret (skip tests ⟨isz + 1, i, l, e, ret⟩)
      (if isz = 0 ∧ tests then return [] else decLoop s isz (i + 1) l e) := by
  unfold skip
  dsimp only
  rw [countDown_succ]
  split
  case isTrue hlast =>
    rw [if_pos hlast.symm]
    exact .inl ⟨[], by rw [List.append_nil], rfl⟩
  case isFalse hmore =>
    rw [if_neg fun hlast => hmore hlast.symm]
    exact .goes fun hzero => htests fun ht => hmore ⟨ht, hzero⟩

/-- A byte is written before what the rest gives, where there is a rest. -/
theorem writes_follows (s : Bytes) (isz : Nat) (i : UInt32) (l : Label) (e : UInt8) (ret last : Bytes)
    (byte : UInt8) : Follows s isz ret
      (if isz = 0 then .done (ret ++ last) else .goto ⟨isz, i, l, e, ret ++ [byte]⟩)
      (if isz = 0 then .ok last else do return byte :: (← decLoop s isz i l e)) := by
  split
  case isTrue => exact .inl ⟨last, rfl, rfl⟩
  case isFalse hmore =>
    refine .inr ⟨i, l, e, [byte], fun hzero => absurd hzero hmore, rfl, ?_⟩
    cases decLoop s isz i l e <;> rfl

/-- A visit to a character that can be looked up goes on as the decoder does. -/
theorem visit_follows {s : Bytes} (isz : Nat) {i : UInt32} {l : Label} (e : UInt8) (ret : Bytes)
    {t : UInt8} {c : Look} (hread : byteAt s (i + l.offset).toNat = .ok t) (hlook : look t = .ok c) :
    Follows s isz ret (visit s ⟨isz + 1, i, l, e, ret⟩).2 (decLoop s (isz + 1) i l e) := by
  obtain ⟨-, hvisit⟩ := visit_read ⟨isz + 1, i, l, e, ret⟩ hread
  rw [hvisit, hlook, decLoop, hread, ok_bind, hlook, ok_bind]
  cases c with
  | foreign =>
    have h := skip_follows (l := l) s isz i e ret fun hnot : ¬ True => absurd trivial hnot
    simpa only [and_true] using h
  | unlisted => exact skip_follows s isz i e ret fun hl => not_not.mp hl
  | six v =>
    unfold take
    simp only [countDown_succ]
    cases l with
    | idx0 =>
      dsimp only
      split
      case isTrue => exact .inl ⟨_, rfl, rfl⟩
      case isFalse hmore => exact .goes fun hzero => absurd hzero hmore
    | idx1 => exact writes_follows s isz i .idx2 _ ret _ _
    | idx2 => exact writes_follows s isz i .idx3 _ ret _ _
    | idx3 =>
      have h := writes_follows s isz (i + 4) .idx0 e ret [e ||| v] (e ||| v)
      -- with nothing left the decoder writes the byte before an empty rest
      cases isz with
      | zero => exact h
      | succ isz => exact h

theorem visit_sound {s : Bytes} (isz : Nat) {i : UInt32} {l : Label} (e : UInt8) (ret : Bytes)
    {t : UInt8} {c : Look} (hread : byteAt s (i + l.offset).toNat = .ok t) (hlook : look t = .ok c) :
    ∀ a ∈ (visit s ⟨isz + 1, i, l, e, ret⟩).1, a.Sound s := by
  obtain ⟨hin, hvisit⟩ := visit_read ⟨isz + 1, i, l, e, ret⟩ hread
  have hleft : ∀ a ∈ [Access.count (isz + 1)], a.Sound s := List.forall_mem_singleton.mpr (Nat.succ_pos isz)
  have hlooked : c ≠ .foreign → ∀ a ∈ [Access.table t, .count (isz + 1)], a.Sound s :=
    fun hc => List.forall_mem_cons.mpr ⟨look_table hlook hc, hleft⟩
  rw [hvisit, hlook]
  cases c with
  | foreign => exact List.forall_mem_cons.mpr ⟨hin, hleft⟩
  | unlisted => exact List.forall_mem_cons.mpr ⟨hin, hlooked (by simp)⟩
  | six v => exact List.forall_mem_cons.mpr ⟨hin, hlooked (by simp)⟩

/-- Where the decoder gives a result, the loop ends with it, by sound accesses only. -/
theorem ends_of_ok {s : Bytes} {st : State} {r : Bytes} (hpos : 0 < st.isz)
    (h : decLoop s st.isz st.i st.label st.e = .ok r) : Ends s (.goto st) (st.ret ++ r) := by
  obtain ⟨isz, i, l, e, ret⟩ := st
  dsimp only at hpos h ⊢
  induction isz generalizing i l e ret r with
  | zero => exact absurd hpos (Nat.lt_irrefl 0)
  | succ isz ih =>
    obtain ⟨t, hread, hlooked⟩ := bind_eq_ok.mp h
    obtain ⟨c, hlook, -⟩ := bind_eq_ok.mp hlooked
    refine .visit (visit_sound isz e ret hread hlook) ?_
    obtain ⟨out, hnext, hgiven⟩ | ⟨i', l', e', out, hleft, hnext, hgiven⟩ :=
      visit_follows isz e ret hread hlook
    · rw [h] at hgiven
      cases hgiven
      rw [hnext]
      exact .done s _
    · obtain ⟨rest, hrest, rfl⟩ := map_eq_ok.mp (hgiven.symm.trans h)
      have hmore : 0 < isz := by
        -- at the skip without a test, the decoder faults where nothing is left
        refine Nat.pos_of_ne_zero fun hzero => ?_
        subst hzero
        rw [hleft rfl] at hrest
        cases hrest
      rw [hnext, ← List.append_assoc]
      exact ih i' l' e' (ret ++ out) hmore hrest

theorem walk_wild (s : Bytes) (n : Nat) : walk s n .wild = ([], .wild) := by cases n <;> rfl

theorem visit_reads (s : Bytes) (st : State) :
    Access.input (st.i + st.label.offset).toNat ∈ (visit s st).1 := by
  simp only [visit]
  split
  · exact List.mem_singleton_self _
  · split
    · exact List.mem_cons_self
    · split
      · exact List.mem_cons_self
      · split <;> exact List.mem_cons_self

/-- A visit that knows where to go on has counted down. -/
theorem visit_counts (s : Bytes) (st : State) :
    (visit s st).2 = .wild ∨ Access.count st.isz ∈ (visit s st).1 := by
  simp only [visit]
  split
  · exact .inl rfl
  · split
    · exact .inr (by simp)
    · split
      · exact .inl rfl
      · split <;> exact .inr (by simp)

/-- Where the decoder faults, the loop does not end by sound accesses. -/
theorem walk_of_error {s : Bytes} (st : State) {f : Fault} {n : Nat} {ret : Bytes}
    (h : decLoop s st.isz st.i st.label st.e = .error f)
    (hdone : (walk s n (.goto st)).2 = .done ret) : ∃ a ∈ (walk s n (.goto st)).1, ¬ a.Sound s := by
  obtain ⟨isz, i, l, e, ret'⟩ := st
  dsimp only at h
  induction isz generalizing i l e ret' n with
  | zero =>
    cases n with
    | zero => cases hdone
    | succ n =>
      -- nothing is left, and the count goes below zero
      rcases visit_counts s ⟨0, i, l, e, ret'⟩ with hwild | hcount
      · simp only [walk, hwild, walk_wild] at hdone
        cases hdone
      · exact ⟨_, List.mem_append_left _ hcount, Nat.lt_irrefl 0⟩
  | succ isz ih =>
    cases n with
    | zero => cases hdone
    | succ n =>
      cases hread : byteAt s (i + l.offset).toNat with
      | error g =>
        refine ⟨_, List.mem_append_left _ (visit_reads s ⟨isz + 1, i, l, e, ret'⟩), fun hlt => ?_⟩
        rw [byteAt_ok hlt] at hread
        cases hread
      | ok t =>
        cases hlook : look t with
        | error g =>
          obtain ⟨-, hvisit⟩ := visit_read ⟨isz + 1, i, l, e, ret'⟩ hread
          rw [hlook] at hvisit
          simp only [walk, hvisit, walk_wild] at hdone
          cases hdone
        | ok c =>
          obtain ⟨out, -, hgiven⟩ | ⟨i', l', e', out, -, hnext, hgiven⟩ :=
            visit_follows isz e ret' hread hlook
          · rw [h] at hgiven
            cases hgiven
          · have herr : decLoop s isz i' l' e' = .error f := by
              rw [h] at hgiven
              cases hrest : decLoop s isz i' l' e' with
              | ok rest =>
                rw [hrest] at hgiven
                cases hgiven
              | error g =>
                rw [hrest] at hgiven
                cases hgiven
                rfl
            simp only [walk, hnext] at hdone ⊢
            obtain ⟨a, ha, hnot⟩ := ih i' l' e' (ret' ++ out) herr hdone
            exact ⟨a, List.mem_append_right _ ha, hnot⟩

theorem not_safe_of_error {s : Bytes} {f : Fault} (h : b64dec s = .error f) : ¬ Safe s := by
  intro ⟨ret, n, hdone, hsound⟩
  unfold start at hdone hsound
  split at hdone
  case isTrue hnil =>
    obtain rfl := List.length_eq_zero_iff.mp hnil
    cases h
  case isFalse hne =>
    rw [if_neg hne] at hsound
    obtain ⟨a, ha, hnot⟩ := walk_of_error ⟨s.length, 0, .idx0, 0, []⟩ h hdone
    exact hnot (hsound a ha)

/-- Exactly the strings on which the loop stays where it may. -/
theorem b64dec_safe_iff (s : Bytes) :
    Safe s ↔ 128 ∉ indexed s ∧ ¬ Overruns .idx0 (indexed s) := by
  rw [← b64dec_ok_iff]
  constructor
  · intro hsafe
    cases hdec : b64dec s with
    | ok r => exact ⟨r, rfl⟩
    | error f => exact absurd hsafe (not_safe_of_error hdec)
  · intro ⟨r, hr⟩
    unfold Safe start
    split
    case isTrue => exact ⟨[], .done s []⟩
    case isFalse hne => exact ⟨_, ends_of_ok (Nat.pos_of_ne_zero hne) hr⟩

/-- A lone digit before padding, and the character behind the table. -/
theorem padded_digit_unsafe : ¬ Safe (ascii "A=") ∧ ¬ Safe [0x80] := by
  have hpadded : b64dec (ascii "A=") = .error (.read 3) := by decide +kernel
  exact ⟨not_safe_of_error hpadded, not_safe_of_error rfl⟩

end Yagips.Util.B64Walk
