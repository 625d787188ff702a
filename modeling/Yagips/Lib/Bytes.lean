import Mathlib.Data.List.TakeWhile
import Mathlib.Data.Nat.Bitwise
import Mathlib.Tactic.Ring

/-!
# Byte strings as numerals and as bounded memory

A byte string spells a natural number from either end, and a buffer is a byte
string of which only the positions below its length may be read. A read outside
those positions is a `Fault`, so a program that never faults never left its buffer.
-/
namespace Yagips.Lib

abbrev Bytes := List UInt8

/-- The number a byte string spells with its first byte most significant. -/
def beNat (bs : Bytes) : Nat := bs.foldl (fun n b => n * 256 + b.toNat) 0

/-- The number a byte string spells with its first byte least significant. -/
def leNat : Bytes → Nat
  | [] => 0
  | b :: bs => b.toNat + 256 * leNat bs

@[simp] theorem beNat_nil : beNat [] = 0 := rfl

theorem beNat_two (a b : UInt8) : beNat [a, b] = a.toNat * 2 ^ 8 + b.toNat := by
  simp [beNat]

theorem beNat_four (a b c d : UInt8) :
    beNat [a, b, c, d] = beNat [a, b] * 2 ^ 16 + beNat [c, d] := by
  simp only [beNat, List.foldl_cons, List.foldl_nil]
  ring

theorem beNat_two_lt (a b : UInt8) : beNat [a, b] < 2 ^ 16 := by
  have ha := a.toNat_lt
  have hb := b.toNat_lt
  rw [beNat_two]
  omega

theorem beNat_two_inj {a b c d : UInt8} : beNat [a, b] = beNat [c, d] ↔ [a, b] = [c, d] := by
  have hb := b.toNat_lt
  have hd := d.toNat_lt
  rw [beNat_two, beNat_two]
  simp only [List.cons.injEq, and_true, ← UInt8.toNat_inj]
  omega

/-- Joining a high and a low half by shift and OR is joining the numerals. -/
theorem shift_or_eq (hi lo k : Nat) (hlo : lo < 2 ^ k) : hi <<< k ||| lo = hi * 2 ^ k + lo := by
  rw [← Nat.shiftLeft_add_eq_or_of_lt hlo, Nat.shiftLeft_eq]

theorem join16_toNat (a b : UInt8) :
    ((a.toUInt16 <<< 8) ||| b.toUInt16).toNat = beNat [a, b] := by
  have ha := a.toNat_lt
  have hb := b.toNat_lt
  have hs : a.toNat <<< 8 % 2 ^ 16 = a.toNat <<< 8 := by
    rw [Nat.shiftLeft_eq]
    exact Nat.mod_eq_of_lt (by omega)
  rw [UInt16.toNat_or, UInt16.toNat_shiftLeft, UInt8.toNat_toUInt16, UInt8.toNat_toUInt16]
  change a.toNat <<< 8 % 2 ^ 16 ||| b.toNat = _
  rw [hs, shift_or_eq _ _ 8 hb, beNat_two]

theorem join32_toNat (hi lo : UInt16) :
    ((hi.toUInt32 <<< 16) ||| lo.toUInt32).toNat = hi.toNat * 2 ^ 16 + lo.toNat := by
  have hh := hi.toNat_lt
  have hl := lo.toNat_lt
  have hs : hi.toNat <<< 16 % 2 ^ 32 = hi.toNat <<< 16 := by
    rw [Nat.shiftLeft_eq]
    exact Nat.mod_eq_of_lt (by omega)
  rw [UInt32.toNat_or, UInt32.toNat_shiftLeft, UInt16.toNat_toUInt32, UInt16.toNat_toUInt32]
  change hi.toNat <<< 16 % 2 ^ 32 ||| lo.toNat = _
  rw [hs, shift_or_eq _ _ 16 hl]

/-- The low `n` digits of a number, least significant first. -/
def leBytes : Nat → Nat → Bytes
  | 0, _ => []
  | n + 1, v => UInt8.ofNat (v % 256) :: leBytes n (v / 256)

@[simp] theorem leBytes_length (n v : Nat) : (leBytes n v).length = n := by
  induction n generalizing v with
  | zero => rfl
  | succ n ih => simp only [leBytes, List.length_cons, ih]

theorem leNat_leBytes (n v : Nat) : leNat (leBytes n v) = v % 256 ^ n := by
  induction n generalizing v with
  | zero => simp [leBytes, leNat, Nat.mod_one]
  | succ n ih =>
    have hdigit : (UInt8.ofNat (v % 256)).toNat = v % 256 := by
      rw [UInt8.toNat_ofNat']
      omega
    rw [leBytes, leNat, ih, hdigit, Nat.pow_succ', Nat.mod_mul]

/-- What holds of the bytes of all numerals below 256 holds of every byte. -/
theorem forall_byte {Q : UInt8 → Prop} (h : ∀ n < 256, Q (UInt8.ofNat n)) (b : UInt8) : Q b := by
  have hb := h b.toNat b.toNat_lt
  rwa [UInt8.ofNat_toNat] at hb

/-- Joining a byte shifted left and the bits below keeps what the shift keeps. -/
theorem join8_toNat {x y : UInt8} {k : UInt8} (hk : k.toNat < 8) (hy : y.toNat < 2 ^ k.toNat) :
    ((x <<< k) ||| y).toNat = x.toNat * 2 ^ k.toNat % 2 ^ 8 + y.toNat := by
  have hmul : x.toNat * 2 ^ k.toNat % 2 ^ 8 = (x.toNat % 2 ^ (8 - k.toNat)) <<< k.toNat := by
    rw [Nat.shiftLeft_eq, ← Nat.mul_mod_mul_right, ← pow_add, Nat.sub_add_cancel hk.le]
  rw [UInt8.toNat_or, UInt8.toNat_shiftLeft, Nat.mod_eq_of_lt hk, Nat.shiftLeft_eq, hmul,
    shift_or_eq _ _ _ hy, Nat.shiftLeft_eq]

/-! ## Parts of a buffer -/

/-- The `n` bytes at an offset, cut off at the end of the buffer. -/
def field (buf : Bytes) (off n : Nat) : Bytes := (buf.drop off).take n

theorem field_length {buf : Bytes} {off n : Nat} (h : off + n ≤ buf.length) :
    (field buf off n).length = n := by
  simp only [field, List.length_take, List.length_drop]
  omega

theorem field_two {buf : Bytes} {off : Nat} (h : off + 2 ≤ buf.length) :
    field buf off 2 = [buf[off], buf[off + 1]] := by
  have h0 : off < buf.length := by omega
  have h1 : off + 1 < buf.length := by omega
  rw [field, List.drop_eq_getElem_cons h0, List.drop_eq_getElem_cons h1]
  rfl

theorem field_four {buf : Bytes} {off : Nat} (h : off + 4 ≤ buf.length) :
    field buf off 4 = [buf[off], buf[off + 1], buf[off + 2], buf[off + 3]] := by
  have h0 : off < buf.length := by omega
  have h1 : off + 1 < buf.length := by omega
  have h2 : off + 2 < buf.length := by omega
  have h3 : off + 3 < buf.length := by omega
  rw [field, List.drop_eq_getElem_cons h0, List.drop_eq_getElem_cons h1,
    List.drop_eq_getElem_cons h2, List.drop_eq_getElem_cons h3]
  rfl

theorem drop_tail {bs rest : Bytes} {p : Nat} {x : UInt8} (h : bs.drop p = x :: rest) :
    bs.drop (p + 1) = rest := by
  rw [← List.tail_drop, h, List.tail_cons]

/-- The first `n` bytes read at positions modulo `p`. -/
def cycle (p n : Nat) (bs : Bytes) : Bytes := (List.range n).map fun j => bs.getD (j % p) 0

@[simp] theorem cycle_length (p n : Nat) (bs : Bytes) : (cycle p n bs).length = n := by
  simp [cycle]

theorem cycle_take {p n : Nat} {bs : Bytes} (hp : n ≤ p) (hn : n ≤ bs.length) :
    cycle p n bs = bs.take n := by
  apply List.ext_getElem
  · simp [hn]
  · intro j hj hj'
    have hlt : j < n := by simpa using hj
    have hmod : j % p = j := Nat.mod_eq_of_lt (by omega)
    have hin : j < bs.length := by omega
    simp [cycle, hmod, hin]

theorem cycle_self {p : Nat} {bs : Bytes} (h : bs.length ≤ p) : cycle p bs.length bs = bs := by
  rw [cycle_take h le_rfl, List.take_length]

/-- Past `p` bytes the reading starts over. -/
theorem cycle_add (p n : Nat) (bs : Bytes) :
    cycle p (p + n) bs = cycle p p bs ++ cycle p n bs := by
  simp [cycle, List.range_add]

/-- Word `i` of a byte string of little-endian 64-bit words. -/
def word64 (bs : Bytes) (i : Nat) : UInt64 := UInt64.ofNat (leNat (field bs (8 * i) 8))

def wordBytes (w : UInt64) : Bytes := leBytes 8 w.toNat

@[simp] theorem wordBytes_length (w : UInt64) : (wordBytes w).length = 8 := leBytes_length _ _

theorem word64_zero_append (w : UInt64) (bs : Bytes) : word64 (wordBytes w ++ bs) 0 = w := by
  have hlen : (wordBytes w).length = 8 := wordBytes_length w
  have hlt := w.toNat_lt
  rw [word64, field, Nat.mul_zero, List.drop_zero, List.take_left' hlen, wordBytes, leNat_leBytes,
    Nat.mod_eq_of_lt (by omega), UInt64.ofNat_toNat]

theorem word64_succ_append {x : Bytes} (hx : x.length = 8) (bs : Bytes) (i : Nat) :
    word64 (x ++ bs) (i + 1) = word64 bs i := by
  have hoff : 8 * (i + 1) = x.length + 8 * i := by omega
  rw [word64, word64, field, field, hoff, List.drop_length_add_append]

theorem word64_drop (bs : Bytes) (i : Nat) : word64 (bs.drop 8) i = word64 bs (i + 1) := by
  have hoff : 8 + 8 * i = 8 * (i + 1) := by omega
  rw [word64, word64, field, field, List.drop_drop, hoff]

/-- A word within the first `n` bytes is read from them alone. -/
theorem word64_take {bs : Bytes} {i n : Nat} (h : 8 * i + 8 ≤ n) :
    word64 (bs.take n) i = word64 bs i := by
  rw [word64, word64, field, field, List.drop_take, List.take_take, Nat.min_eq_left (by omega)]

/-! ## C strings -/

/-- The bytes of a C string: those before the first NUL. -/
def cstr (s : Bytes) : Bytes := s.takeWhile (· ≠ 0)

theorem cstr_eq_self_iff {s : Bytes} : cstr s = s ↔ 0 ∉ s := by
  refine List.takeWhile_eq_self_iff.trans ⟨fun h hmem => ?_, fun h x hx => ?_⟩
  · exact of_decide_eq_true (h 0 hmem) rfl
  · have hne : x ≠ 0 := fun h0 => h (h0 ▸ hx)
    exact decide_eq_true hne

def ascii (s : String) : Bytes := s.toList.map fun ch => ch.toNat.toUInt8

/-- What follows a NUL is not part of the string. -/
theorem cstr_append_nul (s t : Bytes) : cstr (s ++ 0 :: t) = cstr s := by
  induction s with
  | nil => rfl
  | cons b s ih =>
    by_cases hb : b = 0
    · simp [cstr, hb]
    · have hcons : ∀ t : Bytes, cstr (b :: t) = b :: cstr t := by
        intro t
        simp [cstr, hb]
      rw [List.cons_append, hcons, hcons, ih]

/-- Whether `strncmp` of two strings is zero. -/
def strncmpEqual (s t : Bytes) (n : Nat) : Bool := (cstr s).take n = (cstr t).take n

/-- Compared over the whole of a text, a string has to start with it. -/
theorem strncmpEqual_iff_prefix {s t : Bytes} (ht : 0 ∉ t) :
    strncmpEqual s t t.length = true ↔ t <+: s := by
  have hself : (cstr t).take t.length = t := by rw [cstr_eq_self_iff.mpr ht, List.take_length]
  have hcut : (cstr s).take t.length = t ↔ t <+: cstr s := by
    rw [eq_comm, List.prefix_iff_eq_take]
  rw [strncmpEqual, decide_eq_true_iff, hself, hcut]
  constructor
  · intro h
    exact h.trans (List.takeWhile_prefix _)
  · rintro ⟨r, rfl⟩
    have hall : ∀ b ∈ t, decide (b ≠ 0) = true := fun b hb => decide_eq_true fun h0 => ht (h0 ▸ hb)
    rw [cstr, List.takeWhile_append_of_pos hall]
    exact List.prefix_append _ _

/-- A text that has a byte at most as its last starts a string or not by what the string
has up to that byte. -/
theorem prefix_delim {t u x : Bytes} {d : UInt8} (hd : d ∉ t.dropLast) :
    t <+: u ++ d :: x ↔ t <+: u ++ [d] := by
  have hword : u ++ [d] <+: u ++ d :: x := ⟨x, by simp⟩
  constructor
  · intro h
    rcases List.prefix_or_prefix_of_prefix h hword with hshort | ⟨r, rfl⟩
    · exact hshort
    · cases r with
      | nil => simp
      | cons b r =>
        refine absurd ?_ hd
        rw [List.dropLast_append_of_ne_nil (by simp)]
        simp
  · intro h
    exact h.trans hword

/-! ## Bounded memory -/

/-- What stops a program: an access that leaves its buffer, a pointer followed that is null
or was never set, a loop without an end. -/
inductive Fault where
  | read (index : Nat)
  | slice (offset length : Nat)
  | pointer
  | endless
  deriving DecidableEq, Repr

theorem ok_bind {ε α β : Type} (a : α) (f : α → Except ε β) : Except.ok a >>= f = f a := rfl

/-- A computation in two steps ends where both do. -/
theorem bind_eq_ok {ε α β : Type} {x : Except ε α} {f : α → Except ε β} {b : β} :
    x >>= f = .ok b ↔ ∃ a, x = .ok a ∧ f a = .ok b := by
  cases x with
  | error e => exact ⟨fun h => (nomatch h), fun ⟨_, h, _⟩ => (nomatch h)⟩
  | ok a => exact ⟨fun h => ⟨a, rfl, h⟩, fun ⟨_, h, hf⟩ => Except.ok.inj h ▸ hf⟩

theorem bind_eq_error {ε α β : Type} {x : Except ε α} {f : α → Except ε β} {e : ε}
    (h : x >>= f = .error e) : x = .error e ∨ ∃ a, x = .ok a ∧ f a = .error e := by
  cases x with
  | error e' =>
    have herror : Except.error e' = (Except.error e : Except ε β) := h
    cases herror
    exact .inl rfl
  | ok a => exact .inr ⟨a, rfl, h⟩

theorem mapM_ok {ε α β : Type} {f : α → Except ε β} {g : α → β} {l : List α} (h : ∀ x ∈ l, f x = .ok (g x)) :
    l.mapM f = .ok (l.map g) := by
  induction l with
  | nil => rfl
  | cons x l ih =>
    rw [List.mapM_cons, h x List.mem_cons_self, ok_bind, ih fun y hy => h y (List.mem_cons_of_mem x hy)]
    rfl

/-- Where a list is not gone through, it is for one of its elements. -/
theorem mapM_error {ε α β : Type} {f : α → Except ε β} {l : List α} {e : ε} (h : l.mapM f = .error e) :
    ∃ x ∈ l, f x = .error e := by
  induction l with
  | nil => cases h
  | cons x l ih =>
    rw [List.mapM_cons] at h
    rcases bind_eq_error h with hx | ⟨y, -, h⟩
    · exact ⟨x, List.mem_cons_self, hx⟩
    · rcases bind_eq_error h with hl | ⟨ys, -, h⟩
      · obtain ⟨z, hz, hfz⟩ := ih hl
        exact ⟨z, List.mem_cons_of_mem x hz, hfz⟩
      · cases h

theorem exists_bind_ok {ε α β : Type} {x : Except ε α} {f : α → Except ε β} :
    (∃ b, x >>= f = .ok b) ↔ ∃ a, x = .ok a ∧ ∃ b, f a = .ok b := by
  constructor
  · intro ⟨b, h⟩
    obtain ⟨a, ha, hf⟩ := bind_eq_ok.mp h
    exact ⟨a, ha, b, hf⟩
  · intro ⟨a, ha, b, hf⟩
    exact ⟨b, bind_eq_ok.mpr ⟨a, ha, hf⟩⟩

/-- A second step that always ends does not matter. -/
theorem exists_bind_pure {ε α β : Type} {x : Except ε α} {f : α → Except ε β}
    (hf : ∀ a, ∃ b, f a = .ok b) : (∃ b, x >>= f = .ok b) ↔ ∃ a, x = .ok a := by
  rw [exists_bind_ok]
  exact exists_congr fun a => and_iff_left (hf a)

theorem map_eq_ok {ε α β : Type} {x : Except ε α} {f : α → β} {b : β} :
    x.map f = .ok b ↔ ∃ a, x = .ok a ∧ f a = b := by
  cases x with
  | error e => exact ⟨fun h => (nomatch h), fun ⟨_, h, _⟩ => (nomatch h)⟩
  | ok a => exact ⟨fun h => ⟨a, rfl, Except.ok.inj h⟩, fun ⟨_, h, hf⟩ => Except.ok.inj h ▸ congrArg _ hf⟩

theorem pure_eq_ok {α : Type} (a : α) : (pure a : Except Fault α) = .ok a := rfl

def byteAt (buf : Bytes) (i : Nat) : Except Fault UInt8 :=
  match buf[i]? with
  | some b => .ok b
  | none => .error (.read i)

/-- The two bytes at an offset as one big-endian 16-bit word. -/
def be16At (buf : Bytes) (off : Nat) : Except Fault UInt16 := do
  let hi ← byteAt buf off
  let lo ← byteAt buf (off + 1)
  return (hi.toUInt16 <<< 8) ||| lo.toUInt16

def sliceAt (buf : Bytes) (off n : Nat) : Except Fault Bytes :=
  if off + n ≤ buf.length then .ok (field buf off n) else .error (.slice off n)

/-- Writing bytes into a buffer at an offset. -/
def storeAt (buf : Bytes) (off : Nat) (bs : Bytes) : Except Fault Bytes :=
  if off + bs.length ≤ buf.length then .ok (buf.take off ++ bs ++ buf.drop (off + bs.length))
  else .error (.slice off bs.length)

/-- Fields written one behind the other. -/
def storeAll (buf : Bytes) (pos : Nat) : List Bytes → Except Fault Bytes
  | [] => return buf
  | bs :: rest => do
    let buf ← storeAt buf pos bs
    storeAll buf (pos + bs.length) rest

/-- Writing one element of an array. -/
def setAt {α : Type} (xs : List α) (i : Nat) (x : α) : Except Fault (List α) :=
  if i < xs.length then .ok (xs.set i x) else .error (.slice i 1)

theorem setAt_ok {α : Type} {xs : List α} {i : Nat} (h : i < xs.length) (x : α) :
    setAt xs i x = .ok (xs.set i x) := if_pos h

/-- Changing one element of an array. -/
def modifyAt {α : Type} (xs : List α) (i : Nat) (f : α → α) : Except Fault (List α) :=
  if i < xs.length then .ok (xs.modify i f) else .error (.slice i 1)

/-- An array filled from the front grows by what is written behind the filled part. -/
theorem take_succ_set {α : Type} {xs : List α} {i : Nat} (h : i < xs.length) (x : α) :
    (xs.set i x).take (i + 1) = xs.take i ++ [x] := by
  have hlen : i < (xs.set i x).length := by rwa [List.length_set]
  rw [List.take_succ_eq_append_getElem hlen, List.getElem_set_self, List.take_set_of_le le_rfl]

theorem byteAt_ok {buf : Bytes} {i : Nat} (h : i < buf.length) : byteAt buf i = .ok buf[i] := by
  simp [byteAt, h]

theorem byteAt_fault {buf : Bytes} {i : Nat} (h : buf.length ≤ i) :
    byteAt buf i = .error (.read i) := by
  simp [byteAt, h]

theorem be16At_ok (buf : Bytes) (off : Nat) (h : off + 2 ≤ buf.length) :
    ∃ w, be16At buf off = .ok w ∧ w.toNat = beNat (field buf off 2) := by
  refine ⟨_, ?_, (join16_toNat buf[off] buf[off + 1]).trans ?_⟩
  · have h0 : off < buf.length := by omega
    have h1 : off + 1 < buf.length := by omega
    rw [be16At, byteAt_ok h0, byteAt_ok h1]
    rfl
  · rw [field_two h]

/-- Comparing the word read at an offset with a constant compares the two bytes. -/
theorem be16At_eq_iff {buf : Bytes} {off : Nat} {w c : UInt16} {a b : UInt8}
    (h : off + 2 ≤ buf.length) (hw : w.toNat = beNat (field buf off 2))
    (hc : c.toNat = beNat [a, b]) : w = c ↔ field buf off 2 = [a, b] := by
  rw [← UInt16.toNat_inj, hw, hc, field_two h]
  exact beNat_two_inj

theorem sliceAt_ok {buf : Bytes} {off n : Nat} (h : off + n ≤ buf.length) :
    sliceAt buf off n = .ok (field buf off n) := if_pos h

theorem sliceAt_length {buf slice : Bytes} {off n : Nat} (h : sliceAt buf off n = .ok slice) :
    slice.length = n := by
  unfold sliceAt at h
  split at h
  · cases h
    exact field_length ‹_›
  · cases h

/-- What was written stays in front of the next write. -/
theorem storeAt_append {a b c : Bytes} (h : c.length ≤ b.length) :
    storeAt (a ++ b) a.length c = .ok ((a ++ c) ++ b.drop c.length) := by
  rw [storeAt, if_pos (by rw [List.length_append]; omega), List.take_left, List.drop_append]
  simp

theorem storeAll_append {a b : Bytes} {fields : List Bytes} (h : fields.flatten.length ≤ b.length) :
    storeAll (a ++ b) a.length fields =
      .ok (a ++ fields.flatten ++ b.drop fields.flatten.length) := by
  induction fields generalizing a b with
  | nil => simp [storeAll, pure_eq_ok]
  | cons bs rest ih =>
    rw [List.flatten_cons, List.length_append] at h
    have hrest : rest.flatten.length ≤ (b.drop bs.length).length := by
      rw [List.length_drop]
      omega
    have hnext := ih (a := a ++ bs) hrest
    rw [List.length_append] at hnext
    rw [storeAll, storeAt_append (by omega), ok_bind, hnext]
    simp

theorem sliceAt_fault {buf : Bytes} {off n : Nat} (h : buf.length < off + n) :
    sliceAt buf off n = .error (.slice off n) := if_neg (by omega)

end Yagips.Lib
