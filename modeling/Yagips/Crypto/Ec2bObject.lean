import Yagips.Crypto.KeyScramble
import Yagips.Crypto.Mt19937

/-!
# The `Ec2b` class

An object holds a key, a block of data, and the seed and XOR pad that `deriveXor`
computes from them. Setting the seed goes the other way: `getFromSeed` keeps or draws
the data and solves for the first word of the key. `none` is a run that does not return:
an assertion fails, or a copy leaves its string.
-/
namespace Yagips.Crypto.Ec2bObject

open Yagips.Lib
open Yagips.Crypto.KeyScramble
open Yagips.Crypto.Mt19937

structure Ec2b where
  key : Bytes
  data : Bytes
  xorpad : Bytes
  seed : UInt64

/-- The struct `ec2b_t`. -/
structure Ec2bT where
  magic : UInt32
  keyLen : UInt32
  key : Key
  dataLen : UInt32
  data : Vector UInt8 2048

/-- `htobe32` and `be32toh`. -/
def swap32 (x : UInt32) : UInt32 := UInt32.ofNat (beNat (leBytes 4 x.toNat))

/-- The first `n` bytes at `c_str()`, which ends in a NUL. -/
def copyOut (n : Nat) (s : Bytes) : Option (Vector UInt8 n) :=
  if h : n ≤ (s ++ [0]).length then
    some ⟨((s ++ [0]).take n).toArray, by rw [List.size_toArray, List.length_take, Nat.min_eq_left h]⟩
  else none

/-- The assignment `k[0] = w`. -/
def storeWord (k : Key) (w : UInt64) : Key where
  toArray := (wordBytes w ++ k.toList.drop 8).toArray
  size_toArray := by simp

def xorWords (seed : UInt64) (d : Bytes) : UInt64 :=
  (List.range 256).foldl (fun seed i => seed ^^^ word64 d i) seed

def deriveXor (o : Ec2b) : Option Ec2b := do
  let k := scrambleKey (← copyOut 16 o.key)
  let d ← copyOut 2048 o.data
  let seed := ~~~0xceac3b5a867837ac ^^^ word64 k.toList 0 ^^^ word64 k.toList 1
  let seed := xorWords seed d.toList
  return { o with seed, xorpad := genXorpadFromSeed seed 4096 false false }

/-! ## Setting the seed -/

/-- What the `switch` over the methods distinguishes. -/
inductive Method where
  | object | rand | seed | seedMt | seedXor | zero
  | constHighByte (v : UInt8)
  | other
  deriving DecidableEq

def Method.ofInt (method : Int32) : Method :=
  if method = 0 then .object
  else if method = 1 then .rand
  else if method = 2 then .seed
  else if method = 3 then .seedMt
  else if method = 4 then .seedXor
  else if method = 5 then .zero
  else if method &&& 0xff = 6 then .constHighByte ((method >>> 8) &&& 0xff).toUInt32.toUInt8
  else .other

/-- What `getrandom` writes to the two local buffers, or what they hold where nothing
writes to them. -/
structure Filled where
  key : Key
  data : Vector UInt8 2048

def keyOfWords (w0 w1 : UInt64) : Key where
  toArray := (wordBytes w0 ++ wordBytes w1).toArray
  size_toArray := by simp

/-- `_k` from the first two words of a generator, `_d` and `data` from the others. -/
def splitWords : List UInt64 → Option (Key × Bytes × Bytes)
  | w0 :: w1 :: ws => some (keyOfWords w0 w1, ws.flatMap wordBytes, ws.flatMap wordBytes)
  | _ => none

/-- The buffers `_k` and `_d` of `getFromSeed` and the member `data` after its `switch`. -/
def drawBuffers (o : Ec2b) (filled : Filled) : Method → Option (Key × Bytes × Bytes)
  | .object =>
    if 16 ≤ o.key.length ∧ 2048 ≤ o.data.length then do
      let k ← copyOut 16 o.key
      let d ← copyOut 2048 o.data
      return (k, d.toList, o.data)
    else none
  | .rand => some (filled.key, filled.data.toList, filled.data.toList)
  | .seed | .seedMt => splitWords (genrand64Words 258 (initGenrand64 o.seed))
  | .seedXor => do splitWords (← xoshiroWords 258 ⟨o.seed, 0, 0, 0⟩)
  | .zero => some (Vector.replicate 16 0, List.replicate 2048 0, List.replicate 2048 0)
  | .constHighByte v => some (Vector.replicate 16 v, List.replicate 2048 v, List.replicate 2048 v)
  -- the method is set to the random one here, but after the choice was made
  | .other => some (filled.key, filled.data.toList, o.data)

def getFromSeed (o : Ec2b) (method : Int32) (filled : Filled) : Option Ec2b := do
  let (k, d, data) ← drawBuffers o filled (Method.ofInt method)
  let seed := xorWords (~~~0) d
  let seed := seed ^^^ word64 k.toList 1 ^^^ 0xceac3b5a867837ac ^^^ o.seed
  let k := unscrambleKey (storeWord k seed)
  return { o with key := k.toList, data }

def setSeedBy (o : Ec2b) (s : UInt64) (m : Int32) (filled : Filled) : Option Ec2b :=
  getFromSeed { o with seed := s, xorpad := genXorpadFromSeed s 4096 false false } m filled

def setSeed (o : Ec2b) (s : UInt64) (filled : Filled) : Option Ec2b := setSeedBy o s 0 filled

def setKey (o : Ec2b) (k : Bytes) : Option Ec2b :=
  if 16 ≤ k.length then deriveXor { o with key := k } else none

def setData (o : Ec2b) (d : Bytes) : Option Ec2b :=
  if 2048 ≤ d.length then deriveXor { o with data := d } else none

/-! ## The serialized form -/

def toStruct (o : Ec2b) : Option Ec2bT := do
  let key ← copyOut 16 o.key
  let data ← copyOut 2048 o.data
  return { magic := swap32 0x45633262, keyLen := 16, key, dataLen := 2048, data }

/-- The `ec2b_t` at the start of a buffer. -/
def readStruct (buf : Bytes) : Option Ec2bT := do
  if buf.length < 0x81c then none
  let key ← copyOut 16 (buf.drop 8)
  let data ← copyOut 2048 (buf.drop 28)
  return { magic := UInt32.ofNat (leNat (field buf 0 4)), keyLen := UInt32.ofNat (leNat (field buf 4 4))
           key, dataLen := UInt32.ofNat (leNat (field buf 24 4)), data }

/-- The members before a constructor's body, of which the seed is not initialized. -/
def blank (stale : UInt64) : Ec2b := { key := [], data := [], xorpad := [], seed := stale }

def ofStruct (stale : UInt64) (t : Ec2bT) : Option Ec2b :=
  if t.magic = swap32 0x45633262 ∧ t.keyLen = 16 ∧ t.dataLen = 2048 then
    deriveXor { blank stale with key := t.key.toList, data := t.data.toList }
  else none

/-! ## The constructors -/

/-- The constructors with what they find: the bytes of a file, of a buffer or of a
struct, or a pointer or file that is not there. -/
inductive Ctor where
  | method (method : Int32) (filled : Filled)
  | absent
  | file (content : Bytes)
  | buffer (buf : Bytes)
  | struct (t : Ec2bT)
  | parts (key data : Bytes)
  | seeded (seed : UInt64) (method : Int32) (filled : Filled)

/-- The zero-filled buffer of `0x81c` bytes after `fread`. -/
def fileBuffer (content : Bytes) : Bytes :=
  content.take 0x81c ++ List.replicate (0x81c - content.length) 0

def construct (stale : UInt64) : Ctor → Option Ec2b
  | .method m filled =>
    match Method.ofInt m with
    | .zero => deriveXor
      { blank stale with key := List.replicate 16 0, data := List.replicate 2048 0 }
    | .constHighByte v => deriveXor
      { blank stale with key := List.replicate 16 v, data := List.replicate 2048 v }
    | _ => deriveXor { blank stale with key := filled.key.toList, data := filled.data.toList }
  | .absent => some (blank stale)
  | .file content => do ofStruct stale (← readStruct (fileBuffer content))
  | .buffer buf => do ofStruct stale (← readStruct buf)
  | .struct t => ofStruct stale t
  | .parts key data =>
    if 16 ≤ key.length ∧ 2048 ≤ data.length then deriveXor { blank stale with key, data } else none
  | .seeded s m filled => setSeedBy (blank stale) s m filled

/-! ## Runs -/

inductive Op where
  | setKey (k : Bytes)
  | setData (d : Bytes)
  | setSeed (s : UInt64) (filled : Filled)
  | setSeedBy (s : UInt64) (m : Int32) (filled : Filled)

def step (o : Ec2b) : Op → Option Ec2b
  | .setKey k => setKey o k
  | .setData d => setData o d
  | .setSeed s filled => setSeed o s filled
  | .setSeedBy s m filled => setSeedBy o s m filled

def run (o : Ec2b) (ops : List Op) : Option Ec2b := ops.foldlM step o

end Yagips.Crypto.Ec2bObject
