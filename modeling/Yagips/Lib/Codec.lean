import Mathlib.Logic.Equiv.List
import Yagips.Lib.Bytes
import Yagips.Lib.OrderedStore

/-!
# Message codecs

A codec writes a message as a byte string and reads it back. Only the message with all
fields at their defaults is written as the empty string.
-/
namespace Yagips.Lib

structure Codec (M : Type) [Inhabited M] where
  serialize : M → Bytes
  parse : Bytes → Option M
  parse_serialize : ∀ m, parse (serialize m) = some m
  serialize_nil : ∀ m, serialize m = [] ↔ m = default

/-- A codec that counts: any numbering of the messages gives one. -/
def Codec.unary (M : Type) [Inhabited M] [DecidableEq M] [Encodable M] : Codec M where
  serialize m := if m = default then [] else 1 :: List.replicate (Encodable.encode m) 0
  parse
    | [] => some default
    | _ :: rest => Encodable.decode rest.length
  parse_serialize m := by
    split
    case h_1 h =>
      split at h
      case isTrue hm => rw [hm]
      case isFalse => cases h
    case h_2 b rest h =>
      split at h
      case isTrue => cases h
      case isFalse =>
        cases h
        rw [List.length_replicate, Encodable.encodek]
  serialize_nil m := by
    split
    case isTrue hm => exact iff_of_true rfl hm
    case isFalse hm => exact iff_of_false (List.cons_ne_nil _ _) hm

instance encodableUInt8 : Encodable UInt8 :=
  Encodable.ofLeftInverse UInt8.toNat UInt8.ofNat fun _ => UInt8.ofNat_toNat

instance encodableUInt32 : Encodable UInt32 :=
  Encodable.ofLeftInverse UInt32.toNat UInt32.ofNat fun _ => UInt32.ofNat_toNat

instance encodableUInt64 : Encodable UInt64 :=
  Encodable.ofLeftInverse UInt64.toNat UInt64.ofNat fun _ => UInt64.ofNat_toNat

instance encodableInt64 : Encodable Int64 :=
  Encodable.ofLeftInverse Int64.toUInt64 UInt64.toInt64 fun _ => Int64.toInt64_toUInt64 _

instance {K V : Type} [Ord K] [Encodable K] [Encodable V] : Encodable (OrderedStore K V) :=
  Encodable.ofLeftInjection OrderedStore.entries
    (fun entries =>
      if h : entries.Pairwise fun a b => compare a.1 b.1 = .lt then some ⟨entries, h⟩ else none)
    OrderedStore.of_entries

end Yagips.Lib
