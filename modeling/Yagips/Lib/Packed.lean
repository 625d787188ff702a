import Yagips.Lib.Codec

/-!
# Packed values

A packing writes a value so that it can be read back in front of anything. Words have a
fixed width, lists start with their length, and a record is written as the tuple of its
fields. A packed message type has a codec.
-/
namespace Yagips.Lib

class Packed (α : Type) where
  pack : α → Bytes
  unpack : Bytes → Option (α × Bytes)
  unpack_pack : ∀ a rest, unpack (pack a ++ rest) = some (a, rest)

namespace Packed

variable {α β : Type}

/-- Values that are numbers of a fixed width. -/
@[reducible] def word (width : Nat) (f : α → Nat) (g : Nat → α) (hf : ∀ a, f a < 256 ^ width)
    (hg : ∀ a, g (f a) = a) : Packed α where
  pack a := leBytes width (f a)
  unpack bs := if bs.length < width then none else some (g (leNat (bs.take width)), bs.drop width)
  unpack_pack a rest := by
    have hlen := leBytes_length width (f a)
    have hlt : ¬ (leBytes width (f a) ++ rest).length < width := by
      rw [List.length_append, hlen]
      omega
    rw [if_neg hlt, List.take_left' hlen, List.drop_left' hlen, leNat_leBytes, Nat.mod_eq_of_lt (hf a), hg]

instance : Packed UInt8 := word 1 UInt8.toNat UInt8.ofNat UInt8.toNat_lt fun _ => UInt8.ofNat_toNat

instance : Packed UInt32 := word 4 UInt32.toNat UInt32.ofNat UInt32.toNat_lt fun _ => UInt32.ofNat_toNat

instance : Packed UInt64 := word 8 UInt64.toNat UInt64.ofNat UInt64.toNat_lt fun _ => UInt64.ofNat_toNat

/-- Values kept as others, of which some are none. -/
@[reducible] def ofLeftInjection [Packed β] (f : α → β) (g : β → Option α) (h : ∀ a, g (f a) = some a) :
    Packed α where
  pack a := pack (f a)
  unpack bs := do
    let (b, rest) ← unpack bs
    return (← g b, rest)
  unpack_pack a rest := by
    rw [unpack_pack]
    show (g (f a) >>= fun a' => some (a', rest)) = some (a, rest)
    rw [h]
    rfl

@[reducible] def ofLeftInverse [Packed β] (f : α → β) (g : β → α) (h : ∀ a, g (f a) = a) : Packed α :=
  ofLeftInjection f (fun b => some (g b)) fun a => congrArg some (h a)

instance : Packed Int64 :=
  ofLeftInverse Int64.toUInt64 UInt64.toInt64 fun _ => Int64.toInt64_toUInt64 _

instance : Packed Bool :=
  ofLeftInverse (fun b => if b then (1 : UInt8) else 0) (fun b => b = 1) (by decide)

instance [Packed α] [Packed β] : Packed (α × β) where
  pack x := pack x.1 ++ pack x.2
  unpack bs := do
    let (a, bs) ← unpack bs
    let (b, bs) ← unpack bs
    return ((a, b), bs)
  unpack_pack x rest := by
    rw [List.append_assoc, unpack_pack]
    show (unpack (pack x.2 ++ rest) >>= fun y => some ((x.1, y.1), y.2)) = some (x, rest)
    rw [unpack_pack]
    rfl

/-- As many values as are asked for. -/
def unpackMany [Packed α] : Nat → Bytes → Option (List α × Bytes)
  | 0, bs => some ([], bs)
  | n + 1, bs => do
    let (a, bs) ← unpack bs
    let (as, bs) ← unpackMany n bs
    return (a :: as, bs)

theorem unpackMany_pack [Packed α] (as : List α) (rest : Bytes) :
    unpackMany as.length (as.flatMap pack ++ rest) = some (as, rest) := by
  induction as with
  | nil => rfl
  | cons a as ih =>
    rw [List.flatMap_cons, List.append_assoc, List.length_cons, unpackMany, unpack_pack]
    show (unpackMany as.length (as.flatMap pack ++ rest) >>= fun y => some (a :: y.1, y.2)) = _
    rw [ih]
    rfl

/-- The length is written in ones. -/
instance [Packed α] : Packed (List α) where
  pack as := List.replicate as.length 1 ++ 0 :: as.flatMap pack
  unpack bs :=
    let n := (bs.takeWhile (· = 1)).length
    unpackMany n (bs.drop (n + 1))
  unpack_pack as rest := by
    have hcount : ((List.replicate as.length (1 : UInt8) ++ 0 :: as.flatMap pack ++ rest).takeWhile
        (· = 1)).length = as.length := by
      rw [List.append_assoc, List.takeWhile_append_of_pos (by simp)]
      simp
    have hrest : (List.replicate as.length (1 : UInt8) ++ 0 :: as.flatMap pack ++ rest).drop
        (as.length + 1) = as.flatMap pack ++ rest := by
      rw [List.append_assoc, List.cons_append, ← List.drop_drop, List.drop_left' (by simp)]
      rfl
    simp only [hcount, hrest, unpackMany_pack]

instance [Packed α] : Packed (Option α) :=
  ofLeftInverse Option.toList List.head? fun a => by cases a <;> rfl

instance {K V : Type} [Ord K] [Packed K] [Packed V] : Packed (OrderedStore K V) :=
  ofLeftInjection OrderedStore.entries
    (fun entries =>
      if h : entries.Pairwise fun a b => compare a.1 b.1 = .lt then some ⟨entries, h⟩ else none)
    OrderedStore.of_entries

end Packed

/-- The codec of a packed message, which is written behind one byte. -/
def Codec.packed (M : Type) [Inhabited M] [DecidableEq M] [Packed M] : Codec M where
  serialize m := if m = default then [] else 0 :: Packed.pack m
  parse
    | [] => some default
    | _ :: bs => (Packed.unpack bs).map Prod.fst
  parse_serialize m := by
    by_cases hm : m = default
    · rw [if_pos hm, hm]
    · have hread := Packed.unpack_pack m []
      rw [List.append_nil] at hread
      rw [if_neg hm]
      show (Packed.unpack (Packed.pack m)).map Prod.fst = some m
      rw [hread]
      rfl
  serialize_nil m := by
    split
    case isTrue hm => exact iff_of_true rfl hm
    case isFalse hm => exact iff_of_false (List.cons_ne_nil _ _) hm

end Yagips.Lib
