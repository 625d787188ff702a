import Yagips.Crypto.Ec2bObject

/-!
# An object and its serialized form

Deriving seed and pad again from an object's key and data changes nothing. Every
operation keeps this, and a client derives from the same bytes, so it gets the same pad.
-/
namespace Yagips.Crypto.Ec2bAgrees

open Yagips.Lib
open Yagips.Lib.Gf256 (xor_left_comm)
open Yagips.Crypto.KeyScramble
open Yagips.Crypto.Mt19937
open Yagips.Crypto.Ec2bObject

/-! ## The seed of a key and data -/

def seedOf (k : Key) (d : Bytes) : UInt64 :=
  let k := scrambleKey k
  xorWords (~~~0xceac3b5a867837ac ^^^ word64 k.toList 0 ^^^ word64 k.toList 1) d

theorem xorWords_start (s : UInt64) (d : Bytes) : xorWords s d = s ^^^ xorWords 0 d := by
  have h : ∀ (is : List Nat) (s : UInt64), is.foldl (fun s i => s ^^^ word64 d i) s =
      s ^^^ is.foldl (fun s i => s ^^^ word64 d i) 0 := by
    intro is
    induction is with
    | nil =>
      intro s
      exact UInt64.xor_zero.symm
    | cons i is ih =>
      intro s
      rw [List.foldl_cons, List.foldl_cons, ih, ih (0 ^^^ _), UInt64.zero_xor, UInt64.xor_assoc]
  exact h _ s

/-- Only the 256 words of the first 2048 bytes count. -/
theorem xorWords_take (s : UInt64) (d : Bytes) : xorWords s (d.take 2048) = xorWords s d := by
  apply List.foldl_ext
  intro s i hi
  have hlt := List.mem_range.mp hi
  rw [word64_take (by omega)]

theorem word64_storeWord (k : Key) (w : UInt64) :
    word64 (storeWord k w).toList 0 = w ∧
      word64 (storeWord k w).toList 1 = word64 k.toList 1 := by
  have hlist : (storeWord k w).toList = wordBytes w ++ k.toList.drop 8 := rfl
  rw [hlist]
  constructor
  · exact word64_zero_append w _
  · rw [word64_succ_append (wordBytes_length w), word64_drop]

theorem xor_solved (n c x k s : UInt64) :
    n ^^^ c ^^^ (n ^^^ x ^^^ k ^^^ c ^^^ s) ^^^ k ^^^ x = s := by
  calc n ^^^ c ^^^ (n ^^^ x ^^^ k ^^^ c ^^^ s) ^^^ k ^^^ x =
        (n ^^^ n) ^^^ (c ^^^ c) ^^^ (x ^^^ x) ^^^ (k ^^^ k) ^^^ s := by ac_rfl
    _ = s := by simp only [UInt64.xor_self, UInt64.zero_xor]

/-- The key word `getFromSeed` solves for is the one `deriveXor` needs. -/
theorem seedOf_solved (k : Key) (d : Bytes) (s : UInt64) :
    seedOf (unscrambleKey (storeWord k
      (xorWords (~~~0) d ^^^ word64 k.toList 1 ^^^ 0xceac3b5a867837ac ^^^ s))) d = s := by
  have hnot : ~~~(0xceac3b5a867837ac : UInt64) = ~~~0 ^^^ 0xceac3b5a867837ac := by decide
  obtain ⟨hw0, hw1⟩ := word64_storeWord k
    (xorWords (~~~0) d ^^^ word64 k.toList 1 ^^^ 0xceac3b5a867837ac ^^^ s)
  simp only [seedOf, scrambleKey_unscrambleKey, hw0, hw1]
  rw [xorWords_start, xorWords_start (~~~0), hnot]
  exact xor_solved _ _ _ _ _

/-! ## Consistent objects -/

structure Consistent (o : Ec2b) : Prop where
  keySize : 16 ≤ o.key.length
  dataSize : 2048 ≤ o.data.length
  derived : deriveXor o = some o

theorem copyOut_eq {n : Nat} {s : Bytes} (h : n ≤ s.length) :
    ∃ v, copyOut n s = some v ∧ v.toList = s.take n := by
  have hn : n ≤ (s ++ [0]).length := by
    rw [List.length_append]
    omega
  refine ⟨_, dif_pos hn, ?_⟩
  show (s ++ [0]).take n = s.take n
  exact List.take_append_of_le_length h

theorem copyOut_toList {n : Nat} (v : Vector UInt8 n) : copyOut n v.toList = some v := by
  have hlen : v.toList.length = n := Vector.length_toList
  obtain ⟨w, hw, hlist⟩ := copyOut_eq hlen.ge
  rw [List.take_of_length_le hlen.le] at hlist
  rw [hw, Vector.toList_inj.mp hlist]

theorem deriveXor_eq {o : Ec2b} {k : Key} (hk : copyOut 16 o.key = some k)
    (hd : 2048 ≤ o.data.length) : deriveXor o =
      some { o with
        seed := seedOf k o.data
        xorpad := genXorpadFromSeed (seedOf k o.data) 4096 false false } := by
  obtain ⟨d, hcopy, hlist⟩ := copyOut_eq hd
  simp only [deriveXor, hk, hcopy, Option.bind_eq_bind, Option.bind_some, Option.pure_def, hlist,
    xorWords_take, seedOf]

theorem consistent_derive {o o' : Ec2b} (hk : 16 ≤ o.key.length) (hd : 2048 ≤ o.data.length)
    (h : deriveXor o = some o') : Consistent o' := by
  obtain ⟨k, hcopy, -⟩ := copyOut_eq hk
  rw [deriveXor_eq hcopy hd] at h
  cases h
  exact ⟨hk, hd, deriveXor_eq hcopy hd⟩

theorem splitWords_data {ws : List UInt64} (hws : ws.length = 258) {k : Key} {d data : Bytes}
    (h : splitWords ws = some (k, d, data)) : 2048 ≤ data.length ∧ data.take 2048 = d := by
  unfold splitWords at h
  split at h
  case h_1 w0 w1 ws =>
    cases h
    have hbytes : (ws.flatMap wordBytes).length = 8 * ws.length := @flatMap_wordBytes_length id ws
    have hlen : (ws.flatMap wordBytes).length = 2048 := by
      simp only [List.length_cons] at hws
      omega
    exact ⟨hlen.ge, List.take_of_length_le hlen.le⟩
  case h_2 => cases h

theorem drawn_replicate (v : UInt8) : 2048 ≤ (List.replicate 2048 v).length ∧
    (List.replicate 2048 v).take 2048 = List.replicate 2048 v := by
  have hlen : (List.replicate 2048 v).length = 2048 := List.length_replicate
  exact ⟨hlen.ge, List.take_of_length_le hlen.le⟩

/-- With a documented method, the data drawn from is what the object then holds. -/
theorem drawBuffers_data {o : Ec2b} {filled : Filled} {m : Method} {k : Key} {d data : Bytes}
    (hm : m ≠ .other) (h : drawBuffers o filled m = some (k, d, data)) :
    2048 ≤ data.length ∧ data.take 2048 = d := by
  cases m with
  | object =>
    by_cases hsize : 16 ≤ o.key.length ∧ 2048 ≤ o.data.length
    · rw [drawBuffers, if_pos hsize] at h
      obtain ⟨v, hv, h⟩ := Option.bind_eq_some_iff.mp h
      obtain ⟨w, hw, h⟩ := Option.bind_eq_some_iff.mp h
      obtain ⟨w', hw', hlist⟩ := copyOut_eq hsize.2
      cases hw.symm.trans hw'
      cases h
      exact ⟨hsize.2, hlist.symm⟩
    · rw [drawBuffers, if_neg hsize] at h
      cases h
  | rand =>
    cases h
    have hlen : filled.data.toList.length = 2048 := Vector.length_toList
    exact ⟨hlen.ge, List.take_of_length_le hlen.le⟩
  | seed =>
    rw [drawBuffers] at h
    exact splitWords_data (genrand64Words_length _ _) h
  | seedMt =>
    rw [drawBuffers] at h
    exact splitWords_data (genrand64Words_length _ _) h
  | seedXor =>
    rw [drawBuffers] at h
    obtain ⟨ws, hws, h⟩ := Option.bind_eq_some_iff.mp h
    exact splitWords_data (xoshiroWords_length hws) h
  | zero =>
    rw [drawBuffers] at h
    obtain ⟨-, rfl, rfl⟩ : _ ∧ List.replicate 2048 0 = d ∧ List.replicate 2048 0 = data := by
      simpa only [Option.some.injEq, Prod.mk.injEq] using h
    exact drawn_replicate 0
  | constHighByte v =>
    rw [drawBuffers] at h
    obtain ⟨-, rfl, rfl⟩ : _ ∧ List.replicate 2048 v = d ∧ List.replicate 2048 v = data := by
      simpa only [Option.some.injEq, Prod.mk.injEq] using h
    exact drawn_replicate v
  | other => exact absurd rfl hm

theorem setSeedBy_spec {o o' : Ec2b} {s : UInt64} {m : Int32} {filled : Filled}
    (hm : Method.ofInt m ≠ .other) (h : setSeedBy o s m filled = some o') :
    Consistent o' ∧ o'.seed = s := by
  obtain ⟨⟨k, d, data⟩, hdraw, h⟩ := Option.bind_eq_some_iff.mp h
  obtain ⟨hlen, hd⟩ := drawBuffers_data hm hdraw
  have hkey : ∀ k : Key, k.toList.length = 16 := fun k => Vector.length_toList
  rw [← hd] at h
  simp only [xorWords_take] at h
  cases h
  refine ⟨⟨(hkey _).ge, hlen, ?_⟩, rfl⟩
  rw [deriveXor_eq (copyOut_toList _) hlen, seedOf_solved]

/-! ## Constructors and operations -/

theorem ofStruct_spec {stale : UInt64} {t : Ec2bT} {o : Ec2b} (h : ofStruct stale t = some o) :
    Consistent o := by
  have hkey : t.key.toList.length = 16 := Vector.length_toList
  have hdata : t.data.toList.length = 2048 := Vector.length_toList
  unfold ofStruct at h
  split at h
  case isTrue => exact consistent_derive hkey.ge hdata.ge h
  case isFalse => cases h

theorem deriveXor_keeps {o o' : Ec2b} (h : deriveXor o = some o') :
    o'.key = o.key ∧ o'.data = o.data := by
  obtain ⟨k, -, h⟩ := Option.bind_eq_some_iff.mp h
  obtain ⟨d, -, h⟩ := Option.bind_eq_some_iff.mp h
  cases h
  exact ⟨rfl, rfl⟩

theorem derived_consistent {o o' : Ec2b} (h : deriveXor o = some o') (hk : 16 ≤ o'.key.length)
    (hd : 2048 ≤ o'.data.length) : Consistent o' := by
  obtain ⟨hkey, hdata⟩ := deriveXor_keeps h
  rw [hkey] at hk
  rw [hdata] at hd
  exact consistent_derive hk hd h

/-- A constructor that leaves a full key and data derives seed and pad from them. -/
theorem construct_consistent {stale : UInt64} {c : Ctor} {o : Ec2b} (h : construct stale c = some o)
    (hk : 16 ≤ o.key.length) (hd : 2048 ≤ o.data.length) : Consistent o := by
  cases c with
  | method m filled =>
    rw [construct] at h
    split at h
    case h_1 => exact derived_consistent h hk hd
    case h_2 v => exact derived_consistent h hk hd
    case h_3 => exact derived_consistent h hk hd
  | absent =>
    cases h
    exact absurd (show 16 ≤ 0 from hk) (by decide)
  | file content =>
    obtain ⟨t, -, h⟩ := Option.bind_eq_some_iff.mp h
    exact ofStruct_spec h
  | buffer buf =>
    obtain ⟨t, -, h⟩ := Option.bind_eq_some_iff.mp h
    exact ofStruct_spec h
  | struct t => exact ofStruct_spec h
  | parts key data =>
    rw [construct] at h
    split at h
    case isTrue => exact derived_consistent h hk hd
    case isFalse => cases h
  | seeded s m filled =>
    by_cases hm : Method.ofInt m = .other
    · -- an unknown method leaves the data of the new object empty
      obtain ⟨⟨k, d, data⟩, hdraw, h⟩ := Option.bind_eq_some_iff.mp h
      rw [hm] at hdraw
      cases hdraw
      cases h
      exact absurd (show 2048 ≤ 0 from hd) (by decide)
    · exact (setSeedBy_spec hm h).1

/-- The values of the class's enumeration, the last one with any high byte. -/
def Op.Documented : Op → Prop
  | .setSeedBy _ m _ => m ∈ [0, 1, 2, 3, 4, 5] ∨ m &&& 0xff = 6
  | _ => True

theorem ofInt_documented {m : Int32} (h : m ∈ [0, 1, 2, 3, 4, 5] ∨ m &&& 0xff = 6) :
    Method.ofInt m ≠ .other := by
  unfold Method.ofInt
  rcases h with h | h
  · simp only [List.mem_cons, List.not_mem_nil, or_false] at h
    rcases h with rfl | rfl | rfl | rfl | rfl | rfl <;> decide
  · rw [if_pos h]
    split_ifs <;> simp

theorem step_consistent {o o' : Ec2b} {op : Op} (hop : Op.Documented op) (ho : Consistent o)
    (h : step o op = some o') : Consistent o' := by
  cases op with
  | setKey k =>
    simp only [step, setKey] at h
    split at h
    case isTrue hk => exact consistent_derive (o := { o with key := k }) hk ho.dataSize h
    case isFalse => cases h
  | setData d =>
    simp only [step, setData] at h
    split at h
    case isTrue hd => exact consistent_derive (o := { o with data := d }) ho.keySize hd h
    case isFalse => cases h
  | setSeed s filled => exact (setSeedBy_spec (by decide) h).1
  | setSeedBy s m filled => exact (setSeedBy_spec (ofInt_documented hop) h).1

theorem run_consistent {o o' : Ec2b} {ops : List Op} (hops : ∀ op ∈ ops, Op.Documented op)
    (ho : Consistent o) (h : run o ops = some o') : Consistent o' := by
  induction ops generalizing o with
  | nil =>
    cases h
    exact ho
  | cons op ops ih =>
    obtain ⟨o1, hstep, hrest⟩ := Option.bind_eq_some_iff.mp h
    have ho1 := step_consistent (hops op List.mem_cons_self) ho hstep
    exact ih (fun op hop => hops op (List.mem_cons_of_mem _ hop)) ho1 hrest

theorem run_append {o o' : Ec2b} {ops : List Op} {op : Op} (h : run o (ops ++ [op]) = some o') :
    ∃ o1, run o ops = some o1 ∧ step o1 op = some o' := by
  rw [run, List.foldlM_append] at h
  obtain ⟨o1, hops, h⟩ := Option.bind_eq_some_iff.mp h
  obtain ⟨o2, hstep, h⟩ := Option.bind_eq_some_iff.mp h
  cases h
  exact ⟨o1, hops, hstep⟩

theorem run_seed {o o' : Ec2b} {ops : List Op} {s : UInt64} {m : Int32} {filled : Filled}
    (hops : ∀ op ∈ ops, Op.Documented op) (h : run o ops = some o')
    (hlast : ops.getLast? = some (.setSeed s filled) ∨
      ops.getLast? = some (.setSeedBy s m filled)) : o'.seed = s := by
  rcases hlast with hlast | hlast
  · obtain ⟨before, rfl⟩ := List.getLast?_eq_some_iff.mp hlast
    obtain ⟨o1, -, hstep⟩ := run_append h
    exact (setSeedBy_spec (by decide) hstep).2
  · obtain ⟨before, rfl⟩ := List.getLast?_eq_some_iff.mp hlast
    obtain ⟨o1, -, hstep⟩ := run_append h
    have hm : Op.Documented (.setSeedBy s m filled) := hops _ (by simp)
    exact (setSeedBy_spec (ofInt_documented hm) hstep).2

theorem Consistent.members {o : Ec2b} (ho : Consistent o) :
    ∃ k, copyOut 16 o.key = some k ∧ seedOf k o.data = o.seed ∧
      genXorpadFromSeed o.seed 4096 false false = o.xorpad := by
  obtain ⟨k, hk, -⟩ := copyOut_eq ho.keySize
  have hderived := ho.derived
  rw [deriveXor_eq hk ho.dataSize] at hderived
  have hseed := congrArg Ec2b.seed (Option.some.inj hderived)
  have hpad := congrArg Ec2b.xorpad (Option.some.inj hderived)
  simp only at hseed hpad
  rw [hseed] at hpad
  exact ⟨k, hk, hseed, hpad⟩

/-- What a client reads from the published struct. -/
theorem reparse {o : Ec2b} (ho : Consistent o) (stale : UInt64) :
    ∃ t p, toStruct o = some t ∧ ofStruct stale t = some p ∧ p.seed = o.seed ∧
      p.xorpad = o.xorpad := by
  obtain ⟨k, hk, hseed, hpad⟩ := ho.members
  obtain ⟨d, hd, hdlist⟩ := copyOut_eq ho.dataSize
  have hd2048 : 2048 ≤ d.toList.length := Vector.length_toList.ge
  have hread : seedOf k d.toList = o.seed := by
    rw [← hseed, hdlist]
    simp only [seedOf, xorWords_take]
  refine ⟨{ magic := swap32 0x45633262, keyLen := 16, key := k, dataLen := 2048, data := d },
    { key := k.toList, data := d.toList, xorpad := o.xorpad, seed := o.seed }, ?_, ?_, rfl, rfl⟩
  · simp only [toStruct, hk, hd, Option.bind_eq_bind, Option.bind_some, Option.pure_def]
  · rw [ofStruct, if_pos ⟨rfl, rfl, rfl⟩, deriveXor_eq (copyOut_toList k) hd2048]
    simp only [hread, hpad]

/-- After every sequence of operations the seed is the one last set, and parsing the
object's struct gives its seed and its pad of 4096 bytes. -/
theorem published_agrees {stale : UInt64} {c : Ctor} {o o' : Ec2b} {ops : List Op}
    (hc : construct stale c = some o) (hk : 16 ≤ o.key.length) (hd : 2048 ≤ o.data.length)
    (hops : ∀ op ∈ ops, Op.Documented op) (hrun : run o ops = some o') :
    (∀ s m filled, ops.getLast? = some (.setSeed s filled) ∨
      ops.getLast? = some (.setSeedBy s m filled) → o'.seed = s) ∧
    o'.xorpad.length = 4096 ∧
    ∀ stale', ∃ t p, toStruct o' = some t ∧ ofStruct stale' t = some p ∧ p.seed = o'.seed ∧
      p.xorpad = o'.xorpad := by
  have ho' := run_consistent hops (construct_consistent hc hk hd) hrun
  refine ⟨fun s m filled hlast => ?_, ?_, fun stale' => reparse ho' stale'⟩
  · exact run_seed hops hrun hlast
  · obtain ⟨k, -, -, hpad⟩ := ho'.members
    rw [← hpad, genXorpadFromSeed_length]

/-- A zero-filled object whose seed is set with zero-filled key and data. -/
theorem published_agrees_zero :
    let filled : Filled := ⟨Vector.replicate 16 0, Vector.replicate 2048 0⟩
    ∃ o o', construct 0 (.method 5 filled) = some o ∧
    run o [.setSeedBy 7 5 filled] = some o' ∧ o'.seed = 7 ∧ o'.xorpad.length = 4096 ∧
    ∀ stale', ∃ t p, toStruct o' = some t ∧ ofStruct stale' t = some p ∧ p.seed = o'.seed ∧
      p.xorpad = o'.xorpad := by
  intro filled
  have hkeySize : 16 ≤ (List.replicate 16 (0 : UInt8)).length := by decide
  obtain ⟨k, hk, -⟩ := copyOut_eq hkeySize
  obtain ⟨o, hc, hkey, hdata⟩ : ∃ o, construct 0 (.method 5 filled) = some o ∧
      o.key = List.replicate 16 0 ∧ o.data = List.replicate 2048 0 :=
    ⟨_, deriveXor_eq (o := { blank 0 with key := _, data := _ }) hk (drawn_replicate 0).1, rfl, rfl⟩
  obtain ⟨o', hrun⟩ : ∃ o', run o [.setSeedBy 7 5 filled] = some o' := ⟨_, rfl⟩
  have hdoc : ∀ op ∈ [Op.setSeedBy 7 5 filled], Op.Documented op := by
    intro op hop
    cases List.mem_singleton.mp hop
    exact Or.inl (by decide)
  have h := published_agrees hc (hkey ▸ hkeySize) (hdata ▸ (drawn_replicate 0).1) hdoc hrun
  exact ⟨o, o', hc, hrun, h.1 7 5 filled (Or.inr rfl), h.2⟩

end Yagips.Crypto.Ec2bAgrees
