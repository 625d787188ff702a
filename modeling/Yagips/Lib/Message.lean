import Yagips.Lib.Bytes

/-!
# Messages with a head of lines

A message is a head of lines that each end in CR LF, an empty line, and a body. `readHead` is how
a receiver takes one apart, and what it finds in a part of a message it finds in the whole.
-/
namespace Yagips.Lib.Message

def crlf : Bytes := [13, 10]

def head (lines : List Bytes) : Bytes := lines.flatMap (· ++ crlf) ++ crlf

/-- The number that decimal digits spell. -/
def number (digits : Bytes) : Nat := digits.foldl (fun n b => 10 * n + (b.toNat - 48)) 0

theorem digit_bounds {c : Char} (h : c.isDigit = true) : 48 ≤ c.toNat ∧ c.toNat ≤ 57 := by
  simp only [Char.isDigit, Bool.and_eq_true, decide_eq_true_eq] at h
  exact h

theorem number_digits {cs : List Char} (h : ∀ c ∈ cs, c.isDigit = true) (n : Nat) :
    (cs.map fun c => c.toNat.toUInt8).foldl (fun n b => 10 * n + (b.toNat - 48)) n =
      Nat.ofDigitChars 10 cs n := by
  induction cs generalizing n with
  | nil => rfl
  | cons c cs ih =>
    have hc := digit_bounds (h c List.mem_cons_self)
    have hbyte : c.toNat.toUInt8.toNat = c.toNat := by
      rw [UInt8.toNat_ofNat']
      omega
    rw [List.map_cons, List.foldl_cons, ih fun c' hc' => h c' (List.mem_cons_of_mem c hc'), hbyte,
      Nat.ofDigitChars_cons]
    rfl

theorem number_repr (n : Nat) : number (ascii n.repr) = n := by
  rw [number, ascii, Nat.toList_repr,
    number_digits (fun c hc => Nat.isDigit_of_mem_toDigits (by decide) (by decide) hc),
    Nat.ofDigitChars_ten_toDigits]

theorem repr_bytes {n : Nat} {b : UInt8} (h : b ∈ ascii n.repr) : 48 ≤ b ∧ b ≤ 57 := by
  rw [ascii, Nat.toList_repr] at h
  obtain ⟨c, hc, rfl⟩ := List.mem_map.mp h
  have hdigit := digit_bounds (Nat.isDigit_of_mem_toDigits (by decide) (by decide) hc)
  rw [UInt8.le_iff_toNat_le, UInt8.le_iff_toNat_le, UInt8.toNat_ofNat']
  change 48 ≤ c.toNat % 2 ^ 8 ∧ c.toNat % 2 ^ 8 ≤ 57
  omega

end Yagips.Lib.Message
