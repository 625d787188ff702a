import Yagips.Game.Holdings

/-!
# The overloads that create what they add

Four overloads make an object, append it and give it back through a pointer. Each looks the
new node up through `end()`, which is the position behind it, and reads there.
-/
namespace Yagips.Game.CreatingOverloads

open Yagips.Lib
open Yagips.Store.Inventory
open Yagips.Game.Players
open Yagips.Game.PlayerStore
open Yagips.Game.Holdings

/-! ## Lists and guids -/

/-- `end()`, where an iterator is a position. -/
def endOf (list : List Holding) : Nat := list.length

def deref (list : List Holding) (i : Nat) : Except Fault Holding :=
  match list[i]? with
  | some h => .ok h
  | none => .error .pointer

/-- `Avatar::setUid`. -/
def setUid (guid : UInt64) (uid : UInt32) : UInt64 := (guid &&& (0xffffffff : UInt64)) ||| (uid.toUInt64 <<< 32)

/-- `setGuid` with the counter, then `setUid`. -/
def avatarGuid (p : Player) : UInt64 := setUid p.nextGuid.toUInt64 p.uid

def itemGuid (p : Player) : UInt64 := p.uid.toUInt64 <<< 32 ||| p.nextGuid.toUInt64

/-- Both ways to compose a guid come to the same. -/
theorem avatarGuid_eq (p : Player) : avatarGuid p = itemGuid p := by
  have hlow : p.nextGuid.toUInt64 &&& 0xffffffff = p.nextGuid.toUInt64 := by
    have hlt := p.nextGuid.toNat_lt
    rw [← UInt64.toNat_inj, UInt64.toNat_and, UInt32.toNat_toUInt64]
    change p.nextGuid.toNat &&& (2 ^ 32 - 1) = p.nextGuid.toNat
    rw [Nat.and_two_pow_sub_one_eq_mod, Nat.mod_eq_of_lt hlt]
  rw [avatarGuid, setUid, hlow, itemGuid, UInt64.or_comm]

/-! ## The overloads -/

/-- Members that a constructor leaves or fills, beside the id. -/
structure Members where
  guid : UInt64
  fields : Bytes

/-- What the constructors make. `Avatar()` sets no id, and `Avatar(id)` follows the pointers of the
avatar's game data. -/
structure Constructors where
  avatar : Holding
  avatarOf : UInt32 → Except Fault Members
  itemOf : UInt32 → Members

/-- The player, what `*out` holds, and what is returned. -/
structure Created where
  player : Player
  out : Option Nat
  ret : Int

/-- `push_back`, the iterator and its assertion, which is `none` where it fails. -/
def appendAndFind (list : List Holding) (n : Holding) : Except Fault (Option (List Holding × Nat)) := do
  let list := list ++ [n]
  let i := endOf list
  let found ← deref list i
  return if found.guid = n.guid then some (list, i) else none

def createAvatar (p : Player) (n : Holding) : Except Fault (Option Created) := do
  return (← appendAndFind p.avatars n).map fun x =>
    { player := { p with avatars := x.1 }, out := some x.2, ret := 0 }

def createItem (p : Player) (n : Holding) : Except Fault (Option Created) := do
  return (← appendAndFind p.inventory n).map fun x =>
    { player := { p with inventory := x.1 }, out := some x.2, ret := 0 }

def Player.tookGuid (p : Player) : Player := { p with nextGuid := p.nextGuid + 1 }

def nullOut (p : Player) : Created where
  player := p
  out := none
  ret := -1

variable (o : Constructors)

/-- `addAvatar(Avatar**)`. -/
def addAvatarOut (p : Player) (isOut : Bool) : Except Fault (Option Created) :=
  if !isOut then return some (nullOut p)
  else createAvatar (Player.tookGuid p) { o.avatar with guid := avatarGuid p }

/-- `addAvatar(unsigned int, Avatar**, unsigned int)`. -/
def addAvatarIdOut (p : Player) (id : UInt32) (isOut : Bool) (isTrial : UInt32) :
    Except Fault (Option Created) :=
  if !isOut then return some (nullOut p)
  else do
    let members ← o.avatarOf id
    if isTrial = 0 then
      createAvatar (Player.tookGuid p) { id, guid := avatarGuid p, fields := members.fields }
    else createAvatar p { id, guid := members.guid, fields := members.fields }

/-- `addItem(unsigned int, Item**)`. -/
def addItemIdOut (p : Player) (id : UInt32) (isOut : Bool) : Except Fault (Option Created) :=
  if !isOut then return some (nullOut p)
  else createItem (Player.tookGuid p) { id, guid := itemGuid p, fields := (o.itemOf id).fields }

/-- `addItem(Item**)`, whose `Item()` is `Item(0)`. -/
def addItemOut (p : Player) (isOut : Bool) : Except Fault (Option Created) := addItemIdOut o p 0 isOut

/-! ## What they come to -/

/-- The call appends one entry, refers to it, and gives it the next guid. -/
def Creates (list : Player → List Holding) (p : Player) (isTrial : Bool)
    (res : Except Fault (Option Created)) : Prop :=
  ∃ c n, res = .ok (some c) ∧ list c.player = list p ++ [n] ∧ c.out = some (list p).length ∧
    (isTrial = false → n.guid = itemGuid p ∧ c.player.nextGuid = p.nextGuid + 1)

theorem appendAndFind_fault (list : List Holding) (n : Holding) :
    appendAndFind list n = .error .pointer := by
  have hend : (list ++ [n])[(list ++ [n]).length]? = none := List.getElem?_eq_none le_rfl
  unfold appendAndFind deref endOf
  simp only [hend]
  rfl

theorem createAvatar_fault (p : Player) (n : Holding) : createAvatar p n = .error .pointer := by
  rw [createAvatar, appendAndFind_fault]
  rfl

theorem createItem_fault (p : Player) (n : Holding) : createItem p n = .error .pointer := by
  rw [createItem, appendAndFind_fault]
  rfl

theorem addAvatarIdOut_fault (p : Player) (id isTrial : UInt32) :
    ∃ f, addAvatarIdOut o p id true isTrial = .error f := by
  unfold addAvatarIdOut
  simp only [Bool.not_true, Bool.false_eq_true, if_false]
  cases o.avatarOf id with
  | error f => exact ⟨f, rfl⟩
  | ok members =>
    refine ⟨.pointer, ?_⟩
    simp only [ok_bind, createAvatar_fault, ite_self]

theorem not_creates {list : Player → List Holding} {p : Player} {isTrial : Bool} {f : Fault} :
    ¬ Creates list p isTrial (.error f) := fun ⟨_, _, h, _⟩ => nomatch h

/-- With a pointer to return through, none of them ever does what it is for. -/
theorem creates_never (p : Player) (id isTrial : UInt32) :
    ¬ Creates (·.avatars) p false (addAvatarOut o p true) ∧
    ¬ Creates (·.avatars) p (isTrial ≠ 0) (addAvatarIdOut o p id true isTrial) ∧
    ¬ Creates (·.inventory) p false (addItemOut o p true) ∧
    ¬ Creates (·.inventory) p false (addItemIdOut o p id true) := by
  have havatar : addAvatarOut o p true = .error .pointer := createAvatar_fault _ _
  have hitem : ∀ id, addItemIdOut o p id true = .error .pointer := fun _ => createItem_fault _ _
  obtain ⟨f, hid⟩ := addAvatarIdOut_fault o p id isTrial
  refine ⟨?_, ?_, ?_, ?_⟩
  · rw [havatar]
    exact not_creates
  · rw [hid]
    exact not_creates
  · rw [addItemOut, hitem]
    exact not_creates
  · rw [hitem]
    exact not_creates

def anyObjects : Constructors where
  avatar := { id := 0, guid := 0, fields := [] }
  avatarOf := fun _ => .ok { guid := 0, fields := [] }
  itemOf := fun _ => { guid := 0, fields := [] }

/-- The first item of a new player is read behind the list. -/
theorem first_item_read_past : addItemIdOut anyObjects (Player.fresh packedEnv 1) 14502 true =
      .error .pointer ∧
    ¬ Creates (·.inventory) (Player.fresh packedEnv 1) false
      (addItemIdOut anyObjects (Player.fresh packedEnv 1) 14502 true) := by
  have hfault : addItemIdOut anyObjects (Player.fresh packedEnv 1) 14502 true = .error .pointer :=
    createItem_fault _ _
  refine ⟨hfault, ?_⟩
  rw [hfault]
  exact not_creates

end Yagips.Game.CreatingOverloads
