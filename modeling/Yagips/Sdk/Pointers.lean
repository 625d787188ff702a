import Yagips.Sdk.Credentials

/-!
# The SDK handlers by their pointers

A field that is absent, or is JSON's `null`, reads as the null pointer. Here the handlers hand
pointers to `strlen`, `strcmp`, the constructors of strings, `json_object_new_string` and `%s`,
none of which may be given a null one. The handlers of the account calls come out of this as those
that match on what is there, except where a reply is missing.
-/
namespace Yagips.Sdk.Pointers

open Yagips.Lib
open Yagips.Store.Accounts
open Yagips.Store.Gate
open Yagips.Sdk.Body
open Yagips.Sdk.Handlers
open Yagips.Sdk.Credentials
open Yagips.Util.B64
open Yagips.Util.B64RoundTrip
open Yagips.Util.Hex

/-- The C string behind a pointer, as all that take one read it. -/
def chars : Option Bytes → Except Fault Bytes
  | none => .error .pointer
  | some s => .ok (cstr s)

/-! ## The stages -/

/-- The replies a handler refuses a body with. -/
structure Refusals (R : Type) where
  noPost : R
  noTokener : R
  unparsed : R
  notObject : R

def loginRefusals : Refusals Reply where
  noPost := .error (-103) "Login failure: `post` is NULL"
  noTokener := noTokener
  unparsed := .error (-101) "Login failure: error parsing JSON data"
  notObject := .error (-101) "Login failure: JSON data is not an object"

variable (c : Codecs) (json : JsonC)

def readBody {R : Type} (refusals : Refusals R) (heap : Heap) (post : Option Bytes) :
    Except Fault (Except R Fields) :=
  if post = none then return .error refusals.noPost
  else do
    let post ← chars post
    if !heap.tokener then return .error refusals.noTokener
    else match json.parse post with
      | none | some .null => return .error refusals.unparsed
      | some (.object fields) => return .ok fields
      | some _ => return .error refusals.notObject

/-- The tests of a text: not null, and then of a length. -/
def checkText (text : Option Bytes) (nullMessage emptyMessage : String) :
    Except Fault (Option Reply) :=
  if text = none then return some (refusal nullMessage)
  else do
    let text ← chars text
    return if text = [] then some (refusal emptyMessage) else none

/-- `strcmp` with an account's auth token. -/
def sameToken (token : Option Bytes) (account : Account) : Except Fault Bool := do
  return (← chars token) = cstr account.authToken

/-! ## `/session/new` -/

def loginAccount (g : DbGate) (jobj : Fields) (isGuest : Bool) (deviceId : Option Bytes) :
    Except Fault (Except Reply Account) :=
  if isGuest then do
    match ← checkText deviceId "Device ID is null" "Device ID is empty" with
    | some reply => return .error reply
    | none =>
      match ← g.getAccountByDeviceId c (← chars deviceId) with
      | none => return .error (refusal "Device ID does not exist")
      | some account => return .ok account
  else
    match getEx jobj "account" with
    | none => return .error (refusal "Username is not set")
    | some dobj => do
      let username := json.getString dobj
      match ← checkText username "Username is null" "Username is empty" with
      | some reply => return .error reply
      | none =>
        match ← g.getAccountByUsername c (← chars username) with
        | none => return .error (refusal "Username does not exist")
        | some account => return .ok account

def setDevice (account : Account) (deviceId : Option Bytes) : Except Fault Account :=
  if deviceId = none then return account
  else do return { account with deviceId := ← chars deviceId }

def handleLogin (heap : Heap) (g : DbGate) (post : Option Bytes) (rawtoken : Vector UInt8 24)
    (now : Int64) : Except Fault (DbGate × Reply) := do
  match ← readBody json loginRefusals heap post with
  | .error reply => return (g, reply)
  | .ok jobj =>
    let isGuest := ((getEx jobj "is_guest").map json.getBoolean).getD false
    let deviceId := (getEx jobj "device_id").bind json.getString
    match ← loginAccount c json g jobj isGuest deviceId with
    | .error reply => return (g, reply)
    | .ok account =>
      match passwordError json jobj with
      | some reply => return (g, reply)
      | none =>
        let account ← account.getNewAuthToken rawtoken now
        let account ← setDevice account deviceId
        let g ← g.saveAccount c account
        if !heap.reply then return (g, noReplyObject)
        else if isGuest then return (g, .guestLogin account.aid)
        else return (g, .login account.aid (cstr account.username) (cstr account.email)
          (cstr account.authToken))

/-! ## `/session/combo` -/

def comboRequest (heap : Heap) (post : Option Bytes) : Except Fault (Except Reply ComboRequest) := do
  match ← readBody json loginRefusals heap post with
  | .error reply => return .error reply
  | .ok jobj =>
    match comboData json heap jobj with
    | .error reply => return .error reply
    | .ok data =>
      match getEx data "uid" with
      | none => return .error (refusal "Account ID is not set")
      | some uid =>
        let req := comboFields json jobj data uid
        let missing ←
          if req.isGuest then checkText req.deviceId "Device ID is null" "Device ID is empty"
          else checkText req.token "Token is null" "Token is empty"
        match missing with
        | some reply => return .error reply
        | none => return .ok req

/-- A guest's token is not compared. -/
def comboAllowed (req : ComboRequest) (account : Account) : Except Fault Bool :=
  if req.isGuest then return true else sameToken req.token account

def handleCombo (heap : Heap) (g : DbGate) (post : Option Bytes) (rawtoken : Vector UInt8 16) :
    Except Fault (DbGate × Reply) := do
  match ← comboRequest json heap post with
  | .error reply => return (g, reply)
  | .ok req =>
    match ← g.getAccountByAid c req.aid with
    | none => return (g, refusal "Account ID does not exist")
    | some account =>
      if !(← comboAllowed req account) then return (g, refusal "Cached token does not match")
      else
        let account ← account.getNewComboToken rawtoken
        let g ← g.saveAccount c account
        if heap.reply then return (g, .combo (cstr account.comboToken) req.aid req.isGuest)
        else return (g, noReplyObject)

/-! ## `/session/verify` and `/binder/ticket` -/

/-- The account that a request names and whose auth token it has, and that token. -/
def tokenAccount (heap : Heap) (g : DbGate) (post : Option Bytes) (uidKey tokenKey : String) :
    Except Fault (Except Reply (TicketRequest × Account)) := do
  match ← readBody json loginRefusals heap post with
  | .error reply => return .error reply
  | .ok jobj =>
    match getEx jobj uidKey with
    | none => return .error (refusal "Account ID is not set")
    | some uid =>
      match getEx jobj tokenKey with
      | none => return .error (refusal "Token is not set")
      | some dobj =>
        let token := json.getString dobj
        match ← checkText token "Token is null" "Token is empty" with
        | some reply => return .error reply
        | none =>
          let aid := json.getAid uid
          match ← g.getAccountByAid c aid with
          | none => return .error (refusal "Account ID does not exist")
          | some account =>
            if !(← sameToken token account) then
              return .error (refusal "Cached token does not match")
            else return .ok ({ aid, token }, account)

/-- `handleVerify`, which changes nothing. -/
def handleVerify (heap : Heap) (g : DbGate) (post : Option Bytes) : Except Fault (DbGate × Reply) := do
  match ← tokenAccount c json heap g post "uid" "token" with
  | .error reply => return (g, reply)
  | .ok (req, account) =>
    if !heap.reply then return (g, noReplyObject)
    else return (g, .login req.aid (cstr account.username) (cstr account.email) (← chars req.token))

def handleActionTicket (heap : Heap) (g : DbGate) (post : Option Bytes)
    (rawtoken : Vector UInt8 6) (now : Int64) : Except Fault (DbGate × Reply) := do
  match ← tokenAccount c json heap g post "account_id" "game_token" with
  | .error reply => return (g, reply)
  | .ok (_, account) =>
    let account ← account.getNewBinderToken rawtoken now
    let g ← g.saveAccount c account
    return (g, .ticket account.binderToken)

/-! ## `/binder/verify` -/

/-- A text that is there is replaced by an empty one. -/
def blanked (text : Option Bytes) : Option Bytes := text.map fun _ => []

/-- The reply for an account that was bound, in which neither text is tested. -/
def boundReply (heap : Heap) (jobj : Fields) (account : Account) : Except Fault Reply :=
  let realname := blanked ((getEx jobj "realname").bind json.getString)
  let idNumber := blanked ((getEx jobj "identity_card").bind json.getString)
  if !heap.reply then return noReplyObject
  else do
    return .bound (cstr account.username) (cstr account.email) (← chars realname) (← chars idNumber)

def bindRealname (heap : Heap) (g : DbGate) (jobj : Fields) : Except Fault (DbGate × Reply) :=
  match getEx jobj "action_ticket" with
  | none => return (g, refusal "Binder token is not set")
  | some dobj => do
    let binderToken := json.getString dobj
    match ← checkText binderToken "Binder token is null" "Binder token is empty" with
    | some reply => return (g, reply)
    | none =>
      match ← ticketAccount c g (← chars binderToken) with
      | none => return (g, refusal "Binder token is invalid or account does not exist")
      | some account =>
        let account := { account with binderTokenTimestamp := 0 }
        let g ← g.saveAccount c account
        return (g, ← boundReply json heap jobj account)

def handleBindRealname (heap : Heap) (g : DbGate) (post : Option Bytes) :
    Except Fault (DbGate × Reply) := do
  match ← readBody json loginRefusals heap post with
  | .error reply => return (g, reply)
  | .ok jobj => bindRealname c json heap g jobj

/-! ## `/log` -/

/-- What is printed of a client's log, the numbers as `%d` shows them. -/
structure LogLine where
  clientIp : Bytes
  msg : Bytes
  ec : Int32
  ecSub : Int32
  uid : Int32
  errorType : Bytes

structure LogReply where
  retcode : Int
  message : String
  line : Option LogLine

def logError (message : String) : LogReply := { retcode := -1, message, line := none }

def logRefusals : Refusals LogReply where
  noPost := logError "Error: `post` is NULL"
  noTokener := logError "Error: unable to allocate JSON tokener"
  unparsed := logError "Error parsing JSON data"
  notObject := logError "Error: JSON data is not an object"

/-- `json_object_get_int` of a field, zero where it is absent. -/
def getNumber (jobj : Fields) (key : String) : UInt32 := ((getEx jobj key).map json.getAid).getD 0

/-- Without an error code, a log needs a text that is not empty. -/
def logStrError (jobj : Fields) : Except Fault (Option LogReply) :=
  if getNumber json jobj "errorCodeToPlatform" ≠ 0 then return none
  else match getEx jobj "logStr" with
    | none => return some (logError "Error: logStr is not set")
    | some dobj =>
      let msg := json.getString dobj
      if msg = none then return some (logError "Error: logStr is null")
      else do return if (← chars msg) = [] then some (logError "Error: logStr is empty") else none

/-- The pointer, or one to a text that stands for it where it is null. -/
def orText (text : Option Bytes) (shown : String) : Option Bytes :=
  if text = none then some (ascii shown) else text

def logLine (jobj : Fields) : Except Fault LogLine := do
  let errorType := (getEx jobj "logType").bind json.getString
  let msg := orText ((getEx jobj "logStr").bind json.getString) "<null>"
  let clientIp := orText ((getEx jobj "clientIp").bind json.getString) "<null>"
  -- the address is set, not the type
  let clientIp := if errorType = none then some (ascii "Unspecified") else clientIp
  return { clientIp := ← chars clientIp
           msg := ← chars msg
           ec := (-getNumber json jobj "errorCodeToPlatform").toInt32
           ecSub := (getNumber json jobj "subErrorCode").toInt32
           uid := (getNumber json jobj "uid").toInt32
           errorType := ← chars errorType }

def clientLog (jobj : Fields) : Except Fault LogReply := do
  match ← logStrError json jobj with
  | some reply => return reply
  | none => return { retcode := 0, message := "ok", line := some (← logLine json jobj) }

def handleClientLog (heap : Heap) (post : Option Bytes) : Except Fault LogReply := do
  match ← readBody json logRefusals heap post with
  | .error reply => return reply
  | .ok jobj => clientLog json jobj

/-! ## The tests -/

@[simp] theorem chars_some (s : Bytes) : chars (some s) = .ok (cstr s) := rfl

theorem cstr_cstr (s : Bytes) : cstr (cstr s) = cstr s := List.takeWhile_idem

/-- What a handler ends with where a null pointer is not read past. -/
def told (h : Handled) : Except Fault (DbGate × Reply) :=
  match h.reply with
  | none => .error .pointer
  | some reply => .ok (h.gate, reply)

theorem body_some (heap : Heap) (post : Bytes) : json.body heap (some post) =
    if heap.tokener then json.object (cstr post) else .error noTokener := rfl

theorem readBody_eq (heap : Heap) (post : Option Bytes) :
    readBody json loginRefusals heap post = .ok (json.body heap post) := by
  cases post with
  | none => rfl
  | some post =>
    rw [readBody, if_neg (Option.some_ne_none post), chars_some, ok_bind, body_some, JsonC.object]
    cases heap.tokener with
    | false => rfl
    | true =>
      cases json.parse (cstr post) with
      | none => rfl
      | some j => cases j <;> rfl

/-- Whatever it refuses a body with, a handler goes on with the same objects. -/
theorem readBody_ok {R : Type} (refusals : Refusals R) (heap : Heap) (post : Option Bytes) :
    (∃ reply, readBody json refusals heap post = .ok (.error reply) ∧
      ∀ jobj, json.body heap post ≠ .ok jobj) ∨
    ∃ jobj, readBody json refusals heap post = .ok (.ok jobj) ∧ json.body heap post = .ok jobj := by
  cases post with
  | none => exact Or.inl ⟨_, rfl, nofun⟩
  | some post =>
    rw [readBody, if_neg (Option.some_ne_none post), chars_some, ok_bind, body_some, JsonC.object]
    cases heap.tokener with
    | false => exact Or.inl ⟨_, rfl, nofun⟩
    | true =>
      cases json.parse (cstr post) with
      | none => exact Or.inl ⟨_, rfl, nofun⟩
      | some j =>
        cases j with
        | object fields => exact Or.inr ⟨fields, rfl, rfl⟩
        | _ => exact Or.inl ⟨_, rfl, nofun⟩

theorem checkText_eq (text : Option Bytes) (nullMessage emptyMessage : String) :
    checkText text nullMessage emptyMessage = .ok (requireText text nullMessage emptyMessage) := by
  cases text with
  | none => rfl
  | some text => rfl

theorem requireText_none {text : Option Bytes} {nullMessage emptyMessage : String}
    (h : requireText text nullMessage emptyMessage = none) : ∃ s, text = some s ∧ cstr s ≠ [] := by
  cases text with
  | none => cases h
  | some s =>
    refine ⟨s, rfl, fun hempty => ?_⟩
    rw [requireText, if_pos hempty] at h
    cases h

theorem sameToken_some (s : Bytes) (account : Account) :
    sameToken (some s) account = .ok (tokenMatches (some s) account) := by
  simp [sameToken, tokenMatches, ok_bind, pure, Except.pure]

/-! ## The handlers that test their pointers -/

theorem byDeviceId_cstr (g : DbGate) (s : Bytes) :
    g.getAccountByDeviceId c (cstr s) = g.getAccountByDeviceId c s := by
  rw [DbGate.getAccountByDeviceId, cstr_cstr, DbGate.getAccountByDeviceId]

theorem byUsername_cstr (g : DbGate) (s : Bytes) :
    g.getAccountByUsername c (cstr s) = g.getAccountByUsername c s := by
  rw [DbGate.getAccountByUsername, cstr_cstr, DbGate.getAccountByUsername]

theorem loginAccount_eq (g : DbGate) (jobj : Fields) (isGuest : Bool) (deviceId : Option Bytes) :
    loginAccount c json g jobj isGuest deviceId =
      Handlers.loginAccount c json g jobj isGuest deviceId := by
  unfold loginAccount Handlers.loginAccount
  cases isGuest with
  | true =>
    cases deviceId with
    | none => rfl
    | some d =>
      simp only [if_true, checkText_eq, requireText, ok_bind]
      by_cases hempty : cstr d = []
      · rw [if_pos hempty, if_pos hempty]
      · rw [if_neg hempty, if_neg hempty]
        rw [← byDeviceId_cstr]
        rfl
  | false =>
    simp only [Bool.false_eq_true, if_false]
    cases getEx jobj "account" with
    | none => rfl
    | some dobj =>
      simp only [checkText_eq, ok_bind]
      cases json.getString dobj with
      | none => rfl
      | some username =>
        simp only [requireText]
        by_cases hempty : cstr username = []
        · rw [if_pos hempty, if_pos hempty]
        · rw [if_neg hempty, if_neg hempty]
          rw [← byUsername_cstr]
          rfl

/-- Setting a device id is as setting the one that is there. -/
theorem setDevice_eq (account : Account) (deviceId : Option Bytes) :
    setDevice account deviceId = .ok (match deviceId with
      | some deviceId => { account with deviceId := cstr deviceId }
      | none => account) := by
  cases deviceId with
  | none => rfl
  | some d => rfl

theorem login_eq (heap : Heap) (g : DbGate) (post : Option Bytes) (rawtoken : Vector UInt8 24)
    (now : Int64) : handleLogin c json heap g post rawtoken now =
      Handlers.handleLogin c json heap g post rawtoken now >>= told := by
  rw [handleLogin, readBody_eq, ok_bind, Handlers.handleLogin]
  cases json.body heap post with
  | error reply => rfl
  | ok jobj =>
    simp only [loginAccount_eq, setDevice_eq, ok_bind]
    cases Handlers.loginAccount c json g jobj _ _ with
    | error fault => rfl
    | ok found =>
      cases found with
      | error reply => rfl
      | ok account =>
        simp only [ok_bind]
        cases passwordError json jobj with
        | some reply => rfl
        | none =>
          cases account.getNewAuthToken rawtoken now with
          | error fault => rfl
          | ok account =>
            simp only [ok_bind]
            cases DbGate.saveAccount c g _ with
            | error fault => rfl
            | ok g =>
              cases heap.reply with
              | false => rfl
              | true => cases ((getEx jobj "is_guest").map json.getBoolean).getD false <;> rfl

theorem comboRequest_eq (heap : Heap) (post : Option Bytes) :
    comboRequest json heap post = .ok (Handlers.comboRequest json heap post) := by
  rw [comboRequest, readBody_eq, ok_bind, Handlers.comboRequest]
  cases json.body heap post with
  | error reply => rfl
  | ok jobj =>
    cases hdata : comboData json heap jobj with
    | error reply =>
      simp only [ok_bind, hdata]
      rfl
    | ok data =>
      simp only [ok_bind, hdata, checkText_eq]
      cases getEx data "uid" with
      | none => rfl
      | some uid =>
        dsimp only
        cases (comboFields json jobj data uid).isGuest with
        | true =>
          simp only [if_true]
          cases requireText (comboFields json jobj data uid).deviceId _ _ <;> rfl
        | false =>
          simp only [Bool.false_eq_true, if_false]
          cases requireText (comboFields json jobj data uid).token _ _ <;> rfl

theorem comboAllowed_eq {req : ComboRequest} (account : Account)
    (hkind : req.isGuest = true ∨ requireText req.token "Token is null" "Token is empty" = none) :
    comboAllowed req account = .ok (req.isGuest || tokenMatches req.token account) := by
  rw [comboAllowed]
  cases hguest : req.isGuest with
  | true => rfl
  | false =>
    obtain ⟨s, hs, -⟩ := requireText_none (hkind.resolve_left (ne_true_of_eq_false hguest))
    rw [hs, if_neg Bool.false_ne_true, sameToken_some, Bool.false_or]

theorem combo_eq (heap : Heap) (g : DbGate) (post : Option Bytes) (rawtoken : Vector UInt8 16) :
    handleCombo c json heap g post rawtoken =
      Handlers.handleCombo c json heap g post rawtoken >>= told := by
  rw [handleCombo, comboRequest_eq, ok_bind, Handlers.handleCombo]
  rcases comboRequest_cases json heap post with ⟨reply, hreq, -⟩ | ⟨req, hreq, hkind⟩
  · rw [hreq]
    rfl
  · rw [hreq]
    simp only []
    cases g.getAccountByAid c req.aid with
    | error fault => rfl
    | ok found =>
      cases found with
      | none => rfl
      | some account =>
        simp only [ok_bind, comboAllowed_eq account hkind, Bool.not_or]
        cases !req.isGuest && !tokenMatches req.token account with
        | true => rfl
        | false =>
          cases account.getNewComboToken rawtoken with
          | error fault => rfl
          | ok account =>
            simp only [ok_bind]
            cases DbGate.saveAccount c g _ with
            | error fault => rfl
            | ok g => cases heap.reply <;> rfl

/-! ## `/session/verify` and `/binder/ticket` by their stages -/

/-- Where the account exists and the token is its own, all the tests are passed. -/
theorem tokenAccount_cases (heap : Heap) (g : DbGate) (post : Option Bytes)
    (uidKey tokenKey : String) :
    (∃ reply, tokenAccount c json heap g post uidKey tokenKey = .ok (.error reply)) ∨
    ∃ req account p s, tokenAccount c json heap g post uidKey tokenKey = .ok (.ok (req, account)) ∧
      Loaded p account ∧ req.token = some s := by
  rw [tokenAccount, readBody_eq, ok_bind]
  cases json.body heap post with
  | error reply => exact Or.inl ⟨_, rfl⟩
  | ok jobj =>
    dsimp only
    cases getEx jobj uidKey with
    | none => exact Or.inl ⟨_, rfl⟩
    | some uid =>
      cases getEx jobj tokenKey with
      | none => exact Or.inl ⟨_, rfl⟩
      | some dobj =>
        simp only [checkText_eq, ok_bind]
        cases htext : requireText (json.getString dobj) "Token is null" "Token is empty" with
        | some reply => exact Or.inl ⟨_, rfl⟩
        | none =>
          obtain ⟨s, hs, -⟩ := requireText_none htext
          rcases byAid_cases c g (json.getAid uid) with ⟨p, a, -, hload, ha⟩ | hnone
          · simp only [ha, hs, ok_bind, sameToken_some]
            cases tokenMatches (some s) a with
            | false => exact Or.inl ⟨_, rfl⟩
            | true => exact Or.inr ⟨_, a, p, s, rfl, hload, rfl⟩
          · simp only [hnone, ok_bind]
            exact Or.inl ⟨_, rfl⟩

theorem ticket_eq (heap : Heap) (g : DbGate) (post : Option Bytes) (rawtoken : Vector UInt8 6)
    (now : Int64) : handleActionTicket c json heap g post rawtoken now =
      Handlers.handleActionTicket c json heap g post rawtoken now >>= told := by
  rw [handleActionTicket, tokenAccount, readBody_eq, ok_bind, Handlers.handleActionTicket,
    ticketRequest]
  cases json.body heap post with
  | error reply => rfl
  | ok jobj =>
    simp only [ok_bind]
    cases getEx jobj "account_id" with
    | none => rfl
    | some uid =>
      cases getEx jobj "game_token" with
      | none => rfl
      | some dobj =>
        simp only [checkText_eq, ok_bind]
        cases htext : requireText (json.getString dobj) "Token is null" "Token is empty" with
        | some reply => rfl
        | none =>
          obtain ⟨s, hs, -⟩ := requireText_none htext
          simp only [hs, sameToken_some, ok_bind]
          cases g.getAccountByAid c (json.getAid uid) with
          | error fault => rfl
          | ok found =>
            cases found with
            | none => rfl
            | some account =>
              simp only [ok_bind]
              cases tokenMatches (some s) account with
              | false => rfl
              | true =>
                simp only [Bool.not_true, Bool.false_eq_true, if_false, pure_eq_ok, ok_bind]
                cases account.getNewBinderToken rawtoken now with
                | error fault => rfl
                | ok account =>
                  simp only [ok_bind]
                  cases DbGate.saveAccount c g _ <;> rfl

theorem ticketAccount_cstr (g : DbGate) (s : Bytes) :
    ticketAccount c g (cstr s) = ticketAccount c g s := by
  rw [ticketAccount, cstr_cstr, ticketAccount]

theorem bind_eq (heap : Heap) (g : DbGate) (post : Option Bytes) :
    handleBindRealname c json heap g post =
      Handlers.handleBindRealname c json heap g post >>= told := by
  rw [handleBindRealname, readBody_eq, ok_bind, Handlers.handleBindRealname]
  cases json.body heap post with
  | error reply => rfl
  | ok jobj =>
    simp only [bindRealname, Handlers.bindRealname]
    cases getEx jobj "action_ticket" with
    | none => rfl
    | some dobj =>
      simp only [checkText_eq, ok_bind]
      cases htext : requireText (json.getString dobj) "Binder token is null" "Binder token is empty" with
      | some reply => rfl
      | none =>
        obtain ⟨s, hs, -⟩ := requireText_none htext
        simp only [hs, chars_some, ok_bind, ticketAccount_cstr, Option.getD_some]
        cases ticketAccount c g s with
        | error fault => rfl
        | ok found =>
          cases found with
          | none => rfl
          | some account =>
            simp only [ok_bind]
            cases DbGate.saveAccount c g _ with
            | error fault => rfl
            | ok g' =>
              rw [ok_bind, ok_bind, boundReply]
              cases heap.reply with
              | false => rfl
              | true =>
                cases (getEx jobj "realname").bind json.getString with
                | none => rfl
                | some realname => cases (getEx jobj "identity_card").bind json.getString <;> rfl

end Yagips.Sdk.Pointers
