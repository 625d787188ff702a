import Yagips.Lib.Bytes

/-!
# Scanners

A scanner reads a buffer from its start and ends with a value and the rest, with an error,
or with the want of more bytes. `Reads` says how much of the buffer a success looked at:
any buffer that starts the same gives the same, and a byte that stops the scanner, put
anywhere in that part, stops it. Scanners in sequence keep this.
-/
namespace Yagips.Lib

inductive Scanned (α : Type) where
  | done (a : α) (rest : Bytes)
  | bad
  | more

def Scanned.map {α β : Type} (f : α → β) : Scanned α → Scanned β
  | .done a rest => .done (f a) rest
  | .bad => .bad
  | .more => .more

theorem Scanned.map_eq_done {α β : Type} {f : α → β} {r : Scanned α} {b : β} {rest : Bytes}
    (h : r.map f = .done b rest) : ∃ a, r = .done a rest ∧ b = f a := by
  cases r with
  | done a rest' =>
    cases h
    exact ⟨a, rfl, rfl⟩
  | bad => cases h
  | more => cases h

def Scanned.value {α : Type} : Scanned α → Option α
  | .done a _ => some a
  | .bad => none
  | .more => none

def Scan (α : Type) := Bytes → Scanned α

namespace Scan

variable {α β : Type}

def pure (a : α) : Scan α := fun s => .done a s

def bind (p : Scan α) (q : α → Scan β) : Scan β := fun s =>
  match p s with
  | .done a rest => q a rest
  | .bad => .bad
  | .more => .more

instance : Monad Scan where
  pure := Scan.pure
  bind := Scan.bind

def fail : Scan α := fun _ => .bad

/-- The next byte, which has to be the given one. -/
def expect (c : UInt8) : Scan Unit
  | [] => .more
  | b :: rest => if b = c then .done () rest else .bad

/-- The bytes of a text, one by one. -/
def literal : Bytes → Scan Unit
  | [] => Scan.pure ()
  | c :: cs => expect c >>= fun _ => literal cs

theorem bind_done {p : Scan α} {s rest : Bytes} {a : α} (h : p s = .done a rest) (q : α → Scan β) :
    (p >>= q) s = q a rest := by
  show (match p s with
    | .done a rest => q a rest
    | .bad => .bad
    | .more => .more) = _
  rw [h]

theorem bind_bad {p : Scan α} {s : Bytes} (h : p s = .bad) (q : α → Scan β) : (p >>= q) s = .bad := by
  show (match p s with
    | .done a rest => q a rest
    | .bad => .bad
    | .more => .more) = _
  rw [h]

/-- A sequence succeeds where both parts do, one after the other. -/
theorem bind_eq_done {p : Scan α} {q : α → Scan β} {s rest : Bytes} {b : β}
    (h : (p >>= q) s = .done b rest) : ∃ a mid, p s = .done a mid ∧ q a mid = .done b rest := by
  cases hp : p s with
  | done a mid =>
    rw [bind_done hp] at h
    exact ⟨a, mid, rfl, h⟩
  | bad =>
    rw [bind_bad hp] at h
    cases h
  | more =>
    have hmore : (p >>= q) s = .more := by
      show (match p s with
        | .done a rest => q a rest
        | .bad => .bad
        | .more => .more) = _
      rw [hp]
    cases hmore.symm.trans h

theorem map_eq_bind (p : Scan α) (f : α → β) (s : Bytes) :
    (p s).map f = (p >>= fun a => Scan.pure (f a)) s := by
  show _ = (match p s with
    | .done a rest => Scanned.done (f a) rest
    | .bad => .bad
    | .more => .more)
  cases p s <;> rfl

/-- What becomes of a scanner at the byte `z`: it fails, or, where it is soft, ends before
it. -/
def Stopped (soft : Bool) (z : UInt8) (r : Scanned α) (x : Bytes) : Prop :=
  r = .bad ∨ (soft = true ∧ ∃ a, r = .done a (z :: x))

/-- A success on `s` with value `a` that took `m` bytes and looked at `k`. -/
structure Reads (soft : Bool) (z : UInt8) (p : Scan α) (s : Bytes) (a : α) (m k : Nat) : Prop where
  least : 1 ≤ k
  taken : m ≤ k
  ahead : k ≤ m + 1
  within : k ≤ s.length
  agrees : ∀ s', s'.take k = s.take k → p s' = .done a (s'.drop m)
  stops : ∀ n, n < k → ∀ x, k ≤ n + 1 + x.length → Stopped soft z (p (s.take n ++ z :: x)) x

/-- Every success reads, looking at `least` bytes or more and at most `ahead` behind those
it takes. -/
def Streams (soft : Bool) (z : UInt8) (least ahead : Nat) (p : Scan α) : Prop :=
  ∀ s a rest, p s = .done a rest → ∃ m k, rest = s.drop m ∧ least ≤ k ∧ k ≤ m + ahead ∧
    Reads soft z p s a m k

/-! ## One byte -/

theorem Reads.peek {soft : Bool} {z b : UInt8} {p : Scan α} {a : α}
    (hb : ∀ t, p (b :: t) = .done a (b :: t)) (hz : ∀ x, Stopped soft z (p (z :: x)) x) (t : Bytes) :
    Reads soft z p (b :: t) a 0 1 where
  least := le_rfl
  taken := Nat.zero_le _
  ahead := le_rfl
  within := by simp
  agrees := by
    intro s' h
    cases s' with
    | nil => simp at h
    | cons c t' =>
      simp only [List.take_succ_cons, List.take_zero, List.cons.injEq, and_true] at h
      rw [h, List.drop_zero]
      exact hb t'
  stops := by
    intro n hn x _
    have h0 : n = 0 := by omega
    rw [h0]
    exact hz x

/-- Taking one byte and going on with another scanner. -/
theorem Reads.cons {soft : Bool} {z b : UInt8} {p : Scan α} {p' : Scan β} {f : β → α} {t : Bytes}
    {a : β} {m k : Nat} (hr : Reads soft z p' t a m k) (hb : ∀ t', p (b :: t') = (p' t').map f)
    (hz : ∀ x, Stopped soft z (p (z :: x)) x) : Reads soft z p (b :: t) (f a) (m + 1) (k + 1) where
  least := by omega
  taken := by
    have h := hr.taken
    omega
  ahead := by
    have h := hr.ahead
    omega
  within := by
    have h := hr.within
    rw [List.length_cons]
    omega
  agrees := by
    intro s' h
    cases s' with
    | nil => simp at h
    | cons c t' =>
      rw [List.take_succ_cons, List.take_succ_cons, List.cons.injEq] at h
      rw [h.1, List.drop_succ_cons, hb, hr.agrees t' h.2]
      rfl
  stops := by
    intro n hn x hlen
    cases n with
    | zero => exact hz x
    | succ n =>
      rw [List.take_succ_cons, List.cons_append, hb]
      rcases hr.stops n (by omega) x (by omega) with h | ⟨hs, a', h⟩
      · rw [h]
        exact Or.inl rfl
      · rw [h]
        exact Or.inr ⟨hs, f a', rfl⟩

/-- Taking one byte and ending. -/
theorem Reads.last {soft : Bool} {z b : UInt8} {p : Scan α} {a : α}
    (hb : ∀ t, p (b :: t) = .done a t) (hz : ∀ x, Stopped soft z (p (z :: x)) x) (t : Bytes) :
    Reads soft z p (b :: t) a 1 1 where
  least := le_rfl
  taken := le_rfl
  ahead := by omega
  within := by simp
  agrees := by
    intro s' h
    cases s' with
    | nil => simp at h
    | cons c t' =>
      simp only [List.take_succ_cons, List.take_zero, List.cons.injEq, and_true] at h
      rw [h]
      exact hb t'
  stops := by
    intro n hn x _
    have h0 : n = 0 := by omega
    rw [h0]
    exact hz x

/-- A scanner that goes on as another one by what its first byte is. -/
theorem Reads.branch {soft : Bool} {z b : UInt8} {p p' : Scan α} {t : Bytes} {a : α} {m k : Nat}
    (hr : Reads soft z p' (b :: t) a m k) (hb : ∀ t', p (b :: t') = p' (b :: t'))
    (hz : ∀ x, Stopped soft z (p (z :: x)) x) : Reads soft z p (b :: t) a m k where
  least := hr.least
  taken := hr.taken
  ahead := hr.ahead
  within := hr.within
  agrees := by
    intro s' h
    have hagrees := hr.agrees s' h
    have hk := hr.least
    cases s' with
    | nil =>
      cases k with
      | zero => omega
      | succ k => simp at h
    | cons c t' =>
      cases k with
      | zero => omega
      | succ k =>
        rw [List.take_succ_cons, List.take_succ_cons, List.cons.injEq] at h
        rw [h.1] at hagrees ⊢
        rw [hb]
        exact hagrees
  stops := by
    intro n hn x hlen
    cases n with
    | zero => exact hz x
    | succ n =>
      have hstops := hr.stops (n + 1) hn x hlen
      rw [List.take_succ_cons, List.cons_append] at hstops ⊢
      rw [hb]
      exact hstops

/-- A scanner that wants one byte more than it takes before it starts. Put there, a byte
that stops others ends this one. -/
theorem Reads.wants {z : UInt8} {p p' : Scan α} {s : Bytes} {a : α} {m : Nat}
    (hr : Reads false z p' s a m m) (hs : m < s.length)
    (hp : ∀ s', p s' = if s'.length < m + 1 then .more else p' s') :
    Reads true z p s a m (m + 1) where
  least := by omega
  taken := by omega
  ahead := le_rfl
  within := hs
  agrees := by
    intro s' h
    have hlen := congrArg List.length h
    rw [List.length_take, List.length_take] at hlen
    have hfirst : s'.take m = s.take m := by
      have htake := congrArg (List.take m) h
      rwa [List.take_take, List.take_take, Nat.min_eq_left (by omega)] at htake
    rw [hp, if_neg (by omega)]
    exact hr.agrees s' hfirst
  stops := by
    intro n hn x hlen
    have htaken : (s.take n).length = n := by
      rw [List.length_take]
      omega
    have htotal : (s.take n ++ z :: x).length = n + 1 + x.length := by
      rw [List.length_append, List.length_cons, htaken]
      omega
    rw [hp, if_neg (by omega)]
    by_cases hlt : n < m
    · rcases hr.stops n hlt x (by omega) with hbad | ⟨hsoft, -⟩
      · exact Or.inl hbad
      · cases hsoft
    · have hn' : n = m := by omega
      subst hn'
      have hsame : (s.take n ++ z :: x).take n = s.take n := by
        rw [List.take_append_of_le_length (by omega), List.take_take, Nat.min_self]
      refine Or.inr ⟨rfl, a, ?_⟩
      rw [hr.agrees _ hsame, List.drop_append_of_le_length (by omega),
        List.drop_eq_nil_of_le (by omega), List.nil_append]

/-! ## Texts -/

theorem expect_done {c : UInt8} {s rest : Bytes} (h : expect c s = .done () rest) :
    s = c :: rest := by
  cases s with
  | nil => cases h
  | cons b t =>
    rw [expect] at h
    split at h
    · next hb =>
      cases h
      rw [hb]
    · cases h

theorem expect_self (c : UInt8) (t : Bytes) : expect c (c :: t) = .done () t := if_pos rfl

theorem expect_stops {z c : UInt8} (hc : c ≠ z) (soft : Bool) (x : Bytes) :
    Stopped soft z (expect c (z :: x)) x := Or.inl (if_neg hc.symm)

theorem expect_streams {z c : UInt8} (hc : c ≠ z) : Streams false z 1 0 (expect c) := by
  intro s a rest h
  obtain rfl := expect_done h
  exact ⟨1, 1, rfl, le_rfl, le_rfl, Reads.last (expect_self c) (expect_stops hc false) rest⟩

/-- A text is found where the buffer starts with it. -/
theorem literal_done {cs s rest : Bytes} (h : literal cs s = .done () rest) : s = cs ++ rest := by
  induction cs generalizing s with
  | nil =>
    cases h
    rfl
  | cons c cs ih =>
    obtain ⟨u, mid, hfirst, hnext⟩ := bind_eq_done h
    rw [expect_done hfirst, ih hnext, List.cons_append]

theorem literal_reads {z c : UInt8} {cs : Bytes} (hz : z ∉ c :: cs) (rest : Bytes) :
    Reads false z (literal (c :: cs)) (c :: cs ++ rest) () (cs.length + 1) (cs.length + 1) := by
  have hc : c ≠ z := fun h => hz (h ▸ List.mem_cons_self)
  have hfirst : ∀ (cs t : Bytes), literal (c :: cs) (c :: t) = literal cs t := fun cs t =>
    bind_done (expect_self c t) _
  have hstops : ∀ x, Stopped false z (literal (c :: cs) (z :: x)) x := by
    intro x
    exact Or.inl (bind_bad (if_neg hc.symm) _)
  induction cs generalizing c with
  | nil => exact Reads.last (fun t => hfirst [] t) hstops _
  | cons d cs ih =>
    have hd : d ≠ z := fun h => hz (h ▸ List.mem_cons_of_mem _ List.mem_cons_self)
    have hrest := ih (c := d) (fun h => hz (List.mem_cons_of_mem _ h)) hd
      (fun cs t => bind_done (expect_self d t) _) (fun x => Or.inl (bind_bad (if_neg hd.symm) _))
    refine hrest.cons (f := id) (fun t => ?_) hstops
    rw [hfirst]
    cases literal (d :: cs) t <;> rfl

/-! ## Loops -/

/-- A loop that takes the byte before it and goes on, or else ends there. -/
theorem Streams.loop {soft : Bool} {z : UInt8} {ahead : Nat} {p : Scan α} (hnil : p [] = .more)
    (hz : ∀ x, Stopped soft z (p (z :: x)) x)
    (hstep : ∀ b, (∃ f : α → α, ∀ t, p (b :: t) = (p t).map f) ∨
      ∀ t a rest, p (b :: t) = .done a rest → ∃ m k, rest = (b :: t).drop m ∧ k ≤ m + ahead ∧
        Reads soft z p (b :: t) a m k) : Streams soft z 1 ahead p := by
  intro s
  induction s with
  | nil =>
    intro a rest h
    rw [hnil] at h
    cases h
  | cons b t ih =>
    intro a rest h
    rcases hstep b with ⟨f, hb⟩ | hend
    · rw [hb] at h
      obtain ⟨a', hdone, rfl⟩ := Scanned.map_eq_done h
      obtain ⟨m, k, rfl, hleast, hahead, hr⟩ := ih a' rest hdone
      exact ⟨m + 1, k + 1, rfl, by omega, by omega, hr.cons hb hz⟩
    · obtain ⟨m, k, hrest, hahead, hr⟩ := hend t a rest h
      exact ⟨m, k, hrest, hr.least, hahead, hr⟩

/-! ## Sequences -/

/-- Where the first scanner may end before `z`, the second one has to fail at it. -/
theorem Reads.bind {soft soft' : Bool} {z : UInt8} {p : Scan α} {q : α → Scan β} {s : Bytes} {a : α}
    {b : β} {m k m' k' : Nat} (hp : Reads soft z p s a m k)
    (hq : Reads soft' z (q a) (s.drop m) b m' k')
    (hz : soft = true → ∀ a' x, k' ≤ x.length + 1 → q a' (z :: x) = .bad) :
    Reads soft' z (p >>= q) s b (m + m') (m + k') where
  least := by
    have h := hq.least
    omega
  taken := by
    have h := hq.taken
    omega
  ahead := by
    have h := hq.ahead
    omega
  within := by
    have h := hq.within
    have h1 := hp.within
    have h2 := hp.taken
    rw [List.length_drop] at h
    omega
  agrees := by
    intro s' h
    have h1 := hq.least
    have h2 := hp.ahead
    have hfirst : s'.take k = s.take k := by
      have htake := congrArg (List.take k) h
      rwa [List.take_take, List.take_take, Nat.min_eq_left (by omega)] at htake
    have hsecond : (s'.drop m).take k' = (s.drop m).take k' := by
      have hdrop := congrArg (List.drop m) h
      rwa [List.drop_take, List.drop_take, Nat.add_sub_cancel_left] at hdrop
    rw [bind_done (hp.agrees s' hfirst), hq.agrees _ hsecond, List.drop_drop]
  stops := by
    intro n hn x hlen
    have h1 := hq.least
    have h2 := hp.ahead
    have h3 := hp.taken
    have h4 := hp.within
    have h5 := hq.within
    rw [List.length_drop] at h5
    by_cases hnk : n < k
    · rcases hp.stops n hnk x (by omega) with hbad | ⟨hs, a', hdone⟩
      · exact Or.inl (bind_bad hbad q)
      · rw [bind_done hdone]
        exact Or.inl (hz hs a' x (by omega))
    · have hsame : (s.take n ++ z :: x).take k = s.take k := by
        rw [List.take_append_of_le_length (by rw [List.length_take]; omega), List.take_take,
          Nat.min_eq_left (by omega)]
      have hrest : (s.take n ++ z :: x).drop m = (s.drop m).take (n - m) ++ z :: x := by
        rw [List.drop_append_of_le_length (by rw [List.length_take]; omega), List.drop_take]
      rw [bind_done (hp.agrees _ hsame), hrest]
      exact hq.stops (n - m) (by omega) x (by omega)

theorem Streams.bind {soft soft' : Bool} {z : UInt8} {l a least ahead : Nat} {p : Scan α}
    {q : α → Scan β} (hp : Streams soft z l a p) (hq : ∀ a, Streams soft' z least ahead (q a))
    (hz : soft = true → ∀ a' x, least ≤ x.length + 1 → q a' (z :: x) = .bad) :
    Streams soft' z (l - a + least) ahead (p >>= q) := by
  intro s b rest h
  obtain ⟨v, mid, hdone, hnext⟩ := bind_eq_done h
  obtain ⟨m, k, rfl, hl, ha, hr⟩ := hp s v mid hdone
  obtain ⟨m', k', rfl, hleast, hahead, hr'⟩ := hq v _ b rest hnext
  refine ⟨m + m', m + k', by rw [List.drop_drop], by omega, by omega, ?_⟩
  exact hr.bind hr' fun hs a' x hx => hz hs a' x (by omega)

theorem Streams.fail {soft : Bool} {z : UInt8} {least ahead : Nat} :
    Streams soft z least ahead (Scan.fail : Scan α) := by
  intro s a rest h
  cases h

theorem Streams.weaken {soft : Bool} {z : UInt8} {least least' ahead ahead' : Nat} {p : Scan α}
    (hp : Streams soft z least ahead p) (hl : least' ≤ least) (ha : ahead ≤ ahead') :
    Streams soft z least' ahead' p := by
  intro s a rest h
  obtain ⟨m, k, hrest, hleast, hahead, hr⟩ := hp s a rest h
  exact ⟨m, k, hrest, by omega, by omega, hr⟩

/-- Making a value of the result changes nothing. -/
theorem Streams.map {soft : Bool} {z : UInt8} {least ahead : Nat} {p : Scan α} (f : α → β)
    (hp : Streams soft z least ahead p) :
    Streams soft z least ahead (p >>= fun a => Scan.pure (f a)) := by
  intro s b rest h
  obtain ⟨a, mid, hdone, hnext⟩ := bind_eq_done h
  cases hnext
  obtain ⟨m, k, rfl, hleast, hahead, hr⟩ := hp s a _ hdone
  refine ⟨m, k, rfl, hleast, hahead, hr.least, hr.taken, hr.ahead, hr.within, ?_, ?_⟩
  · intro s' hs'
    rw [bind_done (hr.agrees s' hs')]
    rfl
  · intro n hn x hx
    rcases hr.stops n hn x hx with hbad | ⟨hs, a', h'⟩
    · exact Or.inl (bind_bad hbad _)
    · exact Or.inr ⟨hs, f a', by rw [bind_done h']; rfl⟩

end Scan

end Yagips.Lib
