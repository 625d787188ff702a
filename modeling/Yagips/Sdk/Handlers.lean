import Yagips.Sdk.Body

/-!
# The account handlers of the dispatch server

Login, combo token, action ticket and realname binding, each from the body of one POST
request. What `getrandom` and `time` return are arguments.
-/
namespace Yagips.Sdk.Handlers

open Yagips.Lib
open Yagips.Store.Accounts
open Yagips.Store.Gate
open Yagips.Sdk.Body
open Yagips.Util.B64

/-- What a handler leaves: the store, the account it acted for, and its reply, which is
missing where building it dereferences a null pointer. -/
structure Handled where
  gate : DbGate
  account : Option UInt32
  reply : Option Reply

def refuse (g : DbGate) (reply : Reply) : Handled := { gate := g, account := none, reply }

def refusal (message : String) : Reply := .error (-101) message

variable (c : Codecs) (json : JsonC)

/-! ## `/session/new` -/

/-- The account `handleLogin` finds by device id or by username. -/
def loginAccount (g : DbGate) (jobj : Fields) (isGuest : Bool) (deviceId : Option Bytes) :
    Except Fault (Except Reply Account) :=
  if isGuest then
    match deviceId with
    | none => return .error (refusal "Device ID is null")
    | some deviceId =>
      if cstr deviceId = [] then return .error (refusal "Device ID is empty")
      else do
        match ← g.getAccountByDeviceId c deviceId with
        | none => return .error (refusal "Device ID does not exist")
        | some account => return .ok account
  else
    match getEx jobj "account" with
    | none => return .error (refusal "Username is not set")
    | some dobj =>
      match json.getString dobj with
      | none => return .error (refusal "Username is null")
      | some username =>
        if cstr username = [] then return .error (refusal "Username is empty")
        else do
          match ← g.getAccountByUsername c username with
          | none => return .error (refusal "Username does not exist")
          | some account => return .ok account

/-- The password has to be there, and is not compared with anything. -/
def passwordError (jobj : Fields) : Option Reply :=
  match getEx jobj "password" with
  | none => some (refusal "Password is not set")
  | some dobj =>
    match json.getString dobj with
    | none => some (refusal "Password is null")
    | some _ => none

def handleLogin (heap : Heap) (g : DbGate) (post : Option Bytes) (rawtoken : Vector UInt8 24)
    (now : Int64) : Except Fault Handled :=
  match json.body heap post with
  | .error reply => return refuse g reply
  | .ok jobj => do
    let isGuest := ((getEx jobj "is_guest").map json.getBoolean).getD false
    let deviceId := (getEx jobj "device_id").bind json.getString
    match ← loginAccount c json g jobj isGuest deviceId with
    | .error reply => return refuse g reply
    | .ok account =>
      match passwordError json jobj with
      | some reply => return refuse g reply
      | none =>
        let account ← account.getNewAuthToken rawtoken now
        let account := match deviceId with
          | some deviceId => { account with deviceId := cstr deviceId }
          | none => account
        let g ← g.saveAccount c account
        let reply :=
          if !heap.reply then noReplyObject
          else if isGuest then .guestLogin account.aid
          else .login account.aid (cstr account.username) (cstr account.email)
            (cstr account.authToken)
        return { gate := g, account := some account.aid, reply }

/-! ## `/session/combo` -/

structure ComboRequest where
  jobj : Fields
  data : Fields
  aid : UInt32
  isGuest : Bool
  deviceId : Option Bytes
  token : Option Bytes

/-- The object in the field `data`, given as a string. The length of what is not a
string reads as zero. -/
def comboData (heap : Heap) (jobj : Fields) : Except Reply Fields :=
  match getEx jobj "data" with
  | none => .error (refusal "Account data is not set")
  | some dobj2 =>
    match json.getString dobj2 with
    | none => .error (refusal "Account data is not set")
    | some _ =>
      if !heap.innerTokener then .error noTokener
      else match dobj2 with
        | .string s => json.object s
        | _ => json.object []

def comboFields (jobj data : Fields) (uid : Json) : ComboRequest where
  jobj := jobj
  data := data
  aid := json.getAid uid
  isGuest := ((getEx data "guest").map json.getBoolean).getD false
  -- the string is taken of the data object, not of the field that was looked up
  deviceId := if (getEx jobj "device").isSome then json.getString (.object data) else none
  token := (getEx data "token").bind json.getString

/-- A field that must be there and not be empty. -/
def requireText (text : Option Bytes) (nullMessage emptyMessage : String) : Option Reply :=
  match text with
  | none => some (refusal nullMessage)
  | some text => if cstr text = [] then some (refusal emptyMessage) else none

def comboRequest (heap : Heap) (post : Option Bytes) : Except Reply ComboRequest := do
  let jobj ← json.body heap post
  let data ← comboData json heap jobj
  match getEx data "uid" with
  | none => .error (refusal "Account ID is not set")
  | some uid =>
    let req := comboFields json jobj data uid
    let missing :=
      if req.isGuest then requireText req.deviceId "Device ID is null" "Device ID is empty"
      else requireText req.token "Token is null" "Token is empty"
    match missing with
    | some reply => .error reply
    | none => .ok req

/-- `strcmp` of a token that is not null with an account's auth token. -/
def tokenMatches (token : Option Bytes) (account : Account) : Bool :=
  token.map cstr = some (cstr account.authToken)

def handleCombo (heap : Heap) (g : DbGate) (post : Option Bytes) (rawtoken : Vector UInt8 16) :
    Except Fault Handled :=
  match comboRequest json heap post with
  | .error reply => return refuse g reply
  | .ok req => do
    match ← g.getAccountByAid c req.aid with
    | none => return refuse g (refusal "Account ID does not exist")
    | some account =>
      if !req.isGuest && !tokenMatches req.token account then
        return refuse g (refusal "Cached token does not match")
      else
        let account ← account.getNewComboToken rawtoken
        let g ← g.saveAccount c account
        let reply :=
          if heap.reply then .combo (cstr account.comboToken) req.aid req.isGuest
          else noReplyObject
        return { gate := g, account := some account.aid, reply }

/-! ## `/binder/ticket` -/

structure TicketRequest where
  aid : UInt32
  token : Option Bytes

def ticketRequest (heap : Heap) (post : Option Bytes) : Except Reply TicketRequest := do
  let jobj ← json.body heap post
  match getEx jobj "account_id" with
  | none => .error (refusal "Account ID is not set")
  | some uid =>
    match getEx jobj "game_token" with
    | none => .error (refusal "Token is not set")
    | some dobj =>
      let token := json.getString dobj
      match requireText token "Token is null" "Token is empty" with
      | some reply => .error reply
      | none => .ok { aid := json.getAid uid, token }

def handleActionTicket (heap : Heap) (g : DbGate) (post : Option Bytes)
    (rawtoken : Vector UInt8 6) (now : Int64) : Except Fault Handled :=
  match ticketRequest json heap post with
  | .error reply => return refuse g reply
  | .ok req => do
    match ← g.getAccountByAid c req.aid with
    | none => return refuse g (refusal "Account ID does not exist")
    | some account =>
      if !tokenMatches req.token account then
        return refuse g (refusal "Cached token does not match")
      else
        let account ← account.getNewBinderToken rawtoken now
        let g ← g.saveAccount c account
        return { gate := g, account := some account.aid, reply := some (.ticket account.binderToken) }

/-! ## `/binder/verify` -/

/-- The account of a binder token given as a C string. -/
def ticketAccount (g : DbGate) (binderToken : Bytes) : Except Fault (Option Account) := do
  g.getAccountByBinderToken c (← b64dec (cstr binderToken))

/-- `handleBindRealname` from the body's object on. -/
def bindRealname (heap : Heap) (g : DbGate) (jobj : Fields) : Except Fault Handled :=
  match getEx jobj "action_ticket" with
  | none => return refuse g (refusal "Binder token is not set")
  | some dobj =>
    let token := json.getString dobj
    match requireText token "Binder token is null" "Binder token is empty" with
    | some reply => return refuse g reply
    | none => do
      match ← ticketAccount c g (token.getD []) with
      | none => return refuse g (refusal "Binder token is invalid or account does not exist")
      | some account =>
        let realname := (getEx jobj "realname").bind json.getString
        let idNumber := (getEx jobj "identity_card").bind json.getString
        let account := { account with binderTokenTimestamp := 0 }
        let g ← g.saveAccount c account
        let reply : Option Reply :=
          if !heap.reply then some noReplyObject
          -- both texts are replaced by empty ones, and a missing one is copied as a null string
          else if realname.isSome && idNumber.isSome then
            some (.bound (cstr account.username) (cstr account.email) [] [])
          else none
        return { gate := g, account := some account.aid, reply }

def handleBindRealname (heap : Heap) (g : DbGate) (post : Option Bytes) : Except Fault Handled :=
  match json.body heap post with
  | .error reply => return refuse g reply
  | .ok jobj => bindRealname c json heap g jobj

end Yagips.Sdk.Handlers
