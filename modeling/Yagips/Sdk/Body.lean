import Yagips.Store.Gate

/-!
# JSON bodies

The values json-c builds, its accessors, and the stage every handler of the dispatch
server starts with: the POST body must parse to an object.
-/
namespace Yagips.Sdk.Body

open Yagips.Lib
open Yagips.Store.Gate

/-- A `struct json_object *`, of which JSON's `null` is the null pointer. -/
inductive Json where
  | null
  | boolean (b : Bool)
  | double (text : Bytes)
  | int (i : Int)
  | string (s : Bytes)
  | array (xs : List Json)
  | object (fields : List (String × Json))

abbrev Fields := List (String × Json)

/-- The library: its parser, which may return no object, and its conversions. `text` is
the serialization of a value, which `json_object_get_string` returns for what is
neither a string nor null. -/
structure JsonC where
  parse : Bytes → Option Json
  text : Json → Bytes
  getInt : Json → Int32
  getBoolean : Json → Bool

/-- `json_object_object_get_ex`. -/
def getEx (jobj : Fields) (key : String) : Option Json := jobj.lookup key

def JsonC.getString (json : JsonC) : Json → Option Bytes
  | .null => none
  | .string s => some s
  | j => some (json.text j)

/-- `json_object_get_int` of a field, assigned to an unsigned id. -/
def JsonC.getAid (json : JsonC) (j : Json) : UInt32 := (json.getInt j).toUInt32

/-- Which allocations of a request succeed. -/
structure Heap where
  tokener : Bool
  innerTokener : Bool
  reply : Bool

inductive Reply where
  | error (retcode : Int) (message : String)
  | guestLogin (uid : UInt32)
  | login (uid : UInt32) (name email token : Bytes)
  | combo (token : Bytes) (openId : UInt32) (isGuest : Bool)
  | ticket (token : Bytes)
  | bound (name email realname identityCard : Bytes)

def noTokener : Reply := .error (-103) "Login failure: unable to allocate JSON tokener"

def noReplyObject : Reply := .error (-103) "Login failure: unable to allocate JSON object"

/-- The document `null` parses to the null pointer, which reads as an error. -/
def JsonC.object (json : JsonC) (text : Bytes) : Except Reply Fields :=
  match json.parse text with
  | none | some .null => .error (.error (-101) "Login failure: error parsing JSON data")
  | some (.object fields) => .ok fields
  | some _ => .error (.error (-101) "Login failure: JSON data is not an object")

/-- The POST body as every handler reads it first. -/
def JsonC.body (json : JsonC) (heap : Heap) (post : Option Bytes) : Except Reply Fields :=
  match post with
  | none => .error (.error (-103) "Login failure: `post` is NULL")
  | some post => if heap.tokener then json.object (cstr post) else .error noTokener

/-! ## Refusals -/

def Reply.Refuses (r : Reply) : Prop := ∃ retcode message, r = .error retcode message

theorem object_refuses (json : JsonC) {text : Bytes} {r : Reply}
    (h : json.object text = .error r) : r.Refuses := by
  unfold JsonC.object at h
  split at h <;> cases h <;> exact ⟨_, _, rfl⟩

theorem body_refuses (json : JsonC) {heap : Heap} {post : Option Bytes} {r : Reply}
    (h : json.body heap post = .error r) : r.Refuses := by
  unfold JsonC.body at h
  split at h
  case h_1 =>
    cases h
    exact ⟨_, _, rfl⟩
  case h_2 =>
    split at h
    case isTrue => exact object_refuses json h
    case isFalse =>
      cases h
      exact ⟨_, _, rfl⟩

end Yagips.Sdk.Body
