import Yagips.Sdk.Pointers

/-!
# Null pointers in the SDK handlers

Four of the six handlers test every pointer before they use it, and answer every body. The binding
copies two texts it has not tested, and the log prints a type that it meant to replace.
-/
namespace Yagips.Sdk.NullSafety

open Yagips.Lib
open Yagips.Store.Accounts
open Yagips.Store.Gate
open Yagips.Sdk.Body
open Yagips.Sdk.Handlers (passwordError requireText ticketAccount tokenMatches)
open Yagips.Sdk.Credentials
open Yagips.Sdk.Pointers
open Yagips.Util.B64
open Yagips.Util.B64RoundTrip
open Yagips.Util.Hex

variable (c : Codecs) (json : JsonC)

/-! ## Handlers that always answer -/

theorem scan_loaded (g : DbGate) (test : AccountInfo → Bool) :
    (∃ p a, firstRecord c.account accountType test g.db.entries = some p ∧ Loaded p a ∧
      g.scanAccounts c test = .ok (some a)) ∨
    firstRecord c.account accountType test g.db.entries = none ∧ g.scanAccounts c test = .ok none := by
  unfold DbGate.scanAccounts
  cases h : firstRecord c.account accountType test g.db.entries with
  | none => exact Or.inr ⟨rfl, rfl⟩
  | some p =>
    obtain ⟨a, ha, hload⟩ := ofInfo_loaded p
    refine Or.inl ⟨p, a, rfl, hload, ?_⟩
    simp only [ha, ok_bind]
    rfl

theorem loginAccount_ok (g : DbGate) (jobj : Fields) (isGuest : Bool) (deviceId : Option Bytes) :
    (∃ reply, loginAccount c json g jobj isGuest deviceId = .ok (.error reply)) ∨
    ∃ p a, loginAccount c json g jobj isGuest deviceId = .ok (.ok a) ∧ Loaded p a := by
  unfold loginAccount
  cases isGuest with
  | true =>
    simp only [if_true, checkText_eq, ok_bind]
    cases htext : requireText deviceId "Device ID is null" "Device ID is empty" with
    | some reply => exact Or.inl ⟨_, rfl⟩
    | none =>
      obtain ⟨d, rfl, -⟩ := requireText_none htext
      simp only [chars_some, ok_bind, DbGate.getAccountByDeviceId]
      rcases scan_loaded c g fun p => p.deviceId = cstr (cstr d) with ⟨p, a, -, hload, ha⟩ | ⟨-, hnone⟩
      · simp only [ha, ok_bind]
        exact Or.inr ⟨p, a, rfl, hload⟩
      · simp only [hnone, ok_bind]
        exact Or.inl ⟨_, rfl⟩
  | false =>
    simp only [Bool.false_eq_true, if_false]
    cases getEx jobj "account" with
    | none => exact Or.inl ⟨_, rfl⟩
    | some dobj =>
      simp only [checkText_eq, ok_bind]
      cases htext : requireText (json.getString dobj) "Username is null" "Username is empty" with
      | some reply => exact Or.inl ⟨_, rfl⟩
      | none =>
        obtain ⟨u, hu, -⟩ := requireText_none htext
        simp only [hu, chars_some, ok_bind, DbGate.getAccountByUsername]
        rcases scan_loaded c g fun p => p.username = cstr (cstr u) with ⟨p, a, -, hload, ha⟩ | ⟨-, hnone⟩
        · simp only [ha, ok_bind]
          exact Or.inr ⟨p, a, rfl, hload⟩
        · simp only [hnone, ok_bind]
          exact Or.inl ⟨_, rfl⟩

theorem setDevice_ok (account : Account) (deviceId : Option Bytes) :
    ∃ account', setDevice account deviceId = .ok account' ∧ account'.authToken = account.authToken ∧
      account'.binderToken = account.binderToken := by
  cases deviceId with
  | none => exact ⟨_, rfl, rfl, rfl⟩
  | some d => exact ⟨_, rfl, rfl, rfl⟩

theorem login_answers (heap : Heap) (g : DbGate) (post : Option Bytes) (rawtoken : Vector UInt8 24)
    (now : Int64) : ∃ x, handleLogin c json heap g post rawtoken now = .ok x := by
  rw [handleLogin, readBody_eq, ok_bind]
  cases json.body heap post with
  | error reply => exact ⟨_, rfl⟩
  | ok jobj =>
    dsimp only
    rcases loginAccount_ok c json g jobj (((getEx jobj "is_guest").map json.getBoolean).getD false)
      ((getEx jobj "device_id").bind json.getString) with ⟨reply, h⟩ | ⟨p, a, h, hload⟩
    · rw [h]
      exact ⟨_, rfl⟩
    · rw [h, ok_bind]
      cases passwordError json jobj with
      | some reply => exact ⟨_, rfl⟩
      | none =>
        obtain ⟨t, ht⟩ := b64enc_ok rawtoken.toList
        obtain ⟨a', ha', hauth, hbind⟩ := setDevice_ok
          { a with authToken := t, authTokenTimestamp := now } ((getEx jobj "device_id").bind json.getString)
        obtain ⟨g', hsave⟩ : ∃ g', g.saveAccount c a' = .ok g' := by
          refine saveAccount_ok c g ?_ ?_
          · rw [hauth]
            exact readable_b64enc ht
          · rw [hbind]
            exact hload.readable.2
        simp only [Account.getNewAuthToken, ht, ok_bind, pure_eq_ok, ha', hsave]
        cases heap.reply with
        | false => exact ⟨_, rfl⟩
        | true => cases ((getEx jobj "is_guest").map json.getBoolean).getD false <;> exact ⟨_, rfl⟩

theorem combo_answers (heap : Heap) (g : DbGate) (post : Option Bytes) (rawtoken : Vector UInt8 16) :
    ∃ x, handleCombo c json heap g post rawtoken = .ok x := by
  rw [handleCombo, comboRequest_eq, ok_bind]
  rcases comboRequest_cases json heap post with ⟨reply, hreq, -⟩ | ⟨req, hreq, hkind⟩
  · rw [hreq]
    exact ⟨_, rfl⟩
  · rw [hreq]
    simp only []
    rcases byAid_cases c g req.aid with ⟨p, a, -, hload, ha⟩ | hnone
    · simp only [ha, ok_bind, comboAllowed_eq a hkind]
      cases req.isGuest || tokenMatches req.token a with
      | false => exact ⟨_, rfl⟩
      | true =>
        obtain ⟨t, ht⟩ := hexenc_ok rawtoken.toList
        obtain ⟨g', hsave⟩ := saveAccount_ok c g (a := { a with comboToken := t })
          hload.readable.1 hload.readable.2
        simp only [Bool.not_true, Bool.false_eq_true, if_false, Account.getNewComboToken, ht, hsave,
          pure_eq_ok, ok_bind]
        cases heap.reply <;> exact ⟨_, rfl⟩
    · simp only [hnone, ok_bind]
      exact ⟨_, rfl⟩

theorem verify_answers (heap : Heap) (g : DbGate) (post : Option Bytes) :
    ∃ x, handleVerify c json heap g post = .ok x := by
  rw [handleVerify]
  rcases tokenAccount_cases c json heap g post "uid" "token" with
    ⟨reply, h⟩ | ⟨req, a, p, s, h, hload, hs⟩
  · rw [h]
    exact ⟨_, rfl⟩
  · simp only [h, ok_bind, hs, chars_some]
    cases heap.reply <;> exact ⟨_, rfl⟩

theorem ticket_answers (heap : Heap) (g : DbGate) (post : Option Bytes) (rawtoken : Vector UInt8 6)
    (now : Int64) : ∃ x, handleActionTicket c json heap g post rawtoken now = .ok x := by
  rw [handleActionTicket]
  rcases tokenAccount_cases c json heap g post "account_id" "game_token" with
    ⟨reply, h⟩ | ⟨req, a, p, s, h, hload, -⟩
  · rw [h]
    exact ⟨_, rfl⟩
  · obtain ⟨t, ht⟩ := b64enc_ok rawtoken.toList
    obtain ⟨g', hsave⟩ := saveAccount_ok c g
      (a := { a with binderToken := t, binderTokenTimestamp := now }) hload.readable.1
      (readable_b64enc ht)
    simp only [h, ok_bind, Account.getNewBinderToken, ht, pure_eq_ok, hsave]
    exact ⟨_, rfl⟩

/-! ## Texts that are not tested -/

/-- A field is there, and not JSON's `null`. -/
def Present (jobj : Fields) (key : String) : Prop := ∃ j, getEx jobj key = some j ∧ j ≠ .null

theorem present_iff {jobj : Fields} {key : String} :
    Present jobj key ↔ (getEx jobj key).bind json.getString ≠ none := by
  rw [Present]
  cases getEx jobj key with
  | none => exact ⟨fun ⟨_, h, _⟩ => (nomatch h), fun h => absurd rfl h⟩
  | some j =>
    cases j with
    | null => exact ⟨fun ⟨_, h, hne⟩ => absurd (Option.some.inj h).symm hne, fun h => absurd rfl h⟩
    | _ => exact ⟨fun _ => Option.some_ne_none _, fun _ => ⟨_, rfl, nofun⟩⟩

/-- An account record of the store keeps what comes before the first NUL of these bytes. -/
def Kept (g : DbGate) (ticket : Bytes) : Prop :=
  ∃ key val p, g.db.get key = some val ∧ key.take 4 = accountType ∧
    c.account.parse val = some p ∧ p.bindToken = cstr ticket

/-- A ticket that is there and not empty can be decoded; and where it is kept for an account, and
the reply can be made, both texts are there. -/
def TextsGiven (heap : Heap) (g : DbGate) (jobj : Fields) : Prop :=
  ∀ t, (getEx jobj "action_ticket").bind json.getString = some t → cstr t ≠ [] →
    ∃ r, b64dec (cstr t) = .ok r ∧
      (Kept c g r → heap.reply = true → Present jobj "realname" ∧ Present jobj "identity_card")

/-- A log with an error code or a text that is not empty has a type. -/
def TypeGiven (jobj : Fields) : Prop :=
  (getNumber json jobj "errorCodeToPlatform" ≠ 0 ∨
    ∃ m, (getEx jobj "logStr").bind json.getString = some m ∧ cstr m ≠ []) → Present jobj "logType"

theorem boundReply_iff (heap : Heap) (jobj : Fields) (account : Account) :
    (∃ reply, boundReply json heap jobj account = .ok reply) ↔
      (heap.reply = true → Present jobj "realname" ∧ Present jobj "identity_card") := by
  rw [boundReply, present_iff json, present_iff json]
  cases heap.reply with
  | false => exact iff_of_true ⟨_, rfl⟩ fun h => absurd h Bool.false_ne_true
  | true =>
    cases (getEx jobj "realname").bind json.getString with
    | none =>
      refine iff_of_false ?_ fun h => absurd rfl (h rfl).1
      rintro ⟨reply, h⟩
      cases h
    | some realname =>
      cases (getEx jobj "identity_card").bind json.getString with
      | none =>
        refine iff_of_false ?_ fun h => absurd rfl (h rfl).2
        rintro ⟨reply, h⟩
        cases h
      | some idNumber =>
        exact iff_of_true ⟨_, rfl⟩ fun _ => ⟨Option.some_ne_none _, Option.some_ne_none _⟩

theorem kept_iff (g : DbGate) (ticket : Bytes) : Kept c g ticket ↔
    firstRecord c.account accountType (fun p => p.bindToken = cstr ticket) g.db.entries ≠ none := by
  constructor
  · intro ⟨key, val, p, hget, htype, hp, htoken⟩ hnone
    have htest := firstRecord_none hnone (g.db.mem_entries_iff.2 hget) htype hp
    exact absurd htoken (of_decide_eq_false htest)
  · intro hsome
    obtain ⟨p, hp⟩ := Option.ne_none_iff_exists'.1 hsome
    obtain ⟨key, val, hmem, htype, hparse, htest⟩ := firstRecord_some hp
    exact ⟨key, val, p, g.db.mem_entries_iff.1 hmem, htype, hparse, of_decide_eq_true htest⟩

theorem bind_answers_iff (heap : Heap) (g : DbGate) (jobj : Fields) :
    (∃ x, bindRealname c json heap g jobj = .ok x) ↔ TextsGiven c json heap g jobj := by
  rw [bindRealname, TextsGiven]
  cases getEx jobj "action_ticket" with
  | none =>
    refine iff_of_true ⟨_, rfl⟩ ?_
    intro s hs
    cases hs
  | some dobj =>
    simp only [checkText_eq, ok_bind, Option.bind_some]
    cases htext : requireText (json.getString dobj) "Binder token is null" "Binder token is empty" with
    | some reply =>
      refine iff_of_true ⟨_, rfl⟩ fun t ht hne => ?_
      rw [ht, requireText, if_neg hne] at htext
      cases htext
    | none =>
      obtain ⟨s, hs, hne⟩ := requireText_none htext
      simp only [hs, chars_some, ok_bind, ticketAccount, cstr_cstr, Option.some.injEq, forall_eq',
        DbGate.getAccountByBinderToken]
      cases hdec : b64dec (cstr s) with
      | error fault =>
        refine iff_of_false ?_ fun h => ?_
        · rintro ⟨x, h⟩
          cases h
        · obtain ⟨r, hr, -⟩ := h hne
          cases hr
      | ok r =>
        rcases scan_loaded c g fun p => p.bindToken = cstr r with ⟨p, a, hp, hload, ha⟩ | ⟨hp, hnone⟩
        · have hkept : Kept c g r := (kept_iff c g r).2 (by rw [hp]; exact Option.some_ne_none p)
          obtain ⟨g', hsave⟩ := saveAccount_ok c g (a := { a with binderTokenTimestamp := 0 })
            hload.readable.1 hload.readable.2
          simp only [ok_bind, ha, hsave]
          constructor
          · rintro ⟨x, hx⟩ -
            obtain ⟨reply, hreply, -⟩ := bind_eq_ok.1 hx
            exact ⟨r, rfl, fun _ => (boundReply_iff json heap jobj _).1 ⟨reply, hreply⟩⟩
          · intro h
            obtain ⟨r', hr, hgiven⟩ := h hne
            cases hr
            obtain ⟨reply, hreply⟩ := (boundReply_iff json heap jobj _).2 (hgiven hkept)
            exact ⟨(g', reply), bind_eq_ok.2 ⟨reply, hreply, rfl⟩⟩
        · have hkept : ¬ Kept c g r := fun h => (kept_iff c g r).1 h hp
          simp only [ok_bind, hnone]
          exact iff_of_true ⟨_, rfl⟩ fun _ => ⟨r, rfl, fun h => absurd h hkept⟩

theorem logStrError_ok (jobj : Fields) : ∃ refused, logStrError json jobj = .ok refused ∧
    (refused = none ↔ getNumber json jobj "errorCodeToPlatform" ≠ 0 ∨
      ∃ m, (getEx jobj "logStr").bind json.getString = some m ∧ cstr m ≠ []) := by
  rw [logStrError]
  by_cases hec : getNumber json jobj "errorCodeToPlatform" ≠ 0
  · rw [if_pos hec]
    exact ⟨none, rfl, iff_of_true rfl (Or.inl hec)⟩
  · rw [if_neg hec]
    simp only [hec, false_or]
    cases getEx jobj "logStr" with
    | none => exact ⟨_, rfl, iff_of_false nofun fun ⟨_, h, _⟩ => (nomatch h)⟩
    | some dobj =>
      simp only [Option.bind_some]
      cases json.getString dobj with
      | none => exact ⟨_, rfl, iff_of_false nofun fun ⟨_, h, _⟩ => (nomatch h)⟩
      | some m =>
        rw [if_neg (Option.some_ne_none m), chars_some, ok_bind]
        by_cases hempty : cstr m = []
        · rw [if_pos hempty]
          refine ⟨_, rfl, iff_of_false nofun ?_⟩
          intro ⟨m', hm', hne⟩
          cases hm'
          exact hne hempty
        · rw [if_neg hempty]
          exact ⟨none, rfl, iff_of_true rfl ⟨m, rfl, hempty⟩⟩

theorem orText_chars (text : Option Bytes) (shown : String) :
    ∃ s, chars (orText text shown) = .ok s := by
  cases text with
  | none => exact ⟨_, rfl⟩
  | some s => exact ⟨_, rfl⟩

theorem logLine_iff (jobj : Fields) : (∃ line, logLine json jobj = .ok line) ↔ Present jobj "logType" := by
  rw [logLine, present_iff json]
  obtain ⟨msg, hmsg⟩ := orText_chars ((getEx jobj "logStr").bind json.getString) "<null>"
  obtain ⟨clientIp, hip⟩ := orText_chars ((getEx jobj "clientIp").bind json.getString) "<null>"
  cases (getEx jobj "logType").bind json.getString with
  | none =>
    refine iff_of_false ?_ fun h => h rfl
    intro ⟨line, h⟩
    simp only [hmsg] at h
    cases h
  | some errorType =>
    simp only [hmsg, Option.some_ne_none errorType, if_false, hip, chars_some, ok_bind]
    exact iff_of_true ⟨_, rfl⟩ (Option.some_ne_none errorType)

theorem log_answers_iff (jobj : Fields) :
    (∃ x, clientLog json jobj = .ok x) ↔ TypeGiven json jobj := by
  rw [clientLog, TypeGiven]
  obtain ⟨refused, hrefused, hnone⟩ := logStrError_ok json jobj
  rw [hrefused, ok_bind, ← hnone, ← logLine_iff json]
  cases refused with
  | some reply => exact iff_of_true ⟨reply, rfl⟩ nofun
  | none =>
    constructor
    · intro ⟨x, hx⟩ _
      obtain ⟨line, hline, -⟩ := bind_eq_ok.1 hx
      exact ⟨line, hline⟩
    · intro h
      obtain ⟨line, hline⟩ := h rfl
      exact ⟨_, bind_eq_ok.2 ⟨line, hline, rfl⟩⟩

/-! ## The handlers -/

/-- A handler, with what it draws from `getrandom` and `time`. -/
inductive Handler where
  | login (rawtoken : Vector UInt8 24) (now : Int64)
  | verify
  | combo (rawtoken : Vector UInt8 16)
  | actionTicket (rawtoken : Vector UInt8 6) (now : Int64)
  | bindRealname
  | clientLog

/-- The handler replies, and has read past no null pointer. -/
def Handler.Answers (h : Handler) (heap : Heap) (g : DbGate) (post : Option Bytes) : Prop :=
  match h with
  | .login rawtoken now => ∃ x, handleLogin c json heap g post rawtoken now = .ok x
  | .verify => ∃ x, handleVerify c json heap g post = .ok x
  | .combo rawtoken => ∃ x, handleCombo c json heap g post rawtoken = .ok x
  | .actionTicket rawtoken now => ∃ x, handleActionTicket c json heap g post rawtoken now = .ok x
  | .bindRealname => ∃ x, handleBindRealname c json heap g post = .ok x
  | .clientLog => ∃ x, handleClientLog json heap post = .ok x

/-- What a handler has to be given where its body is an object. -/
def Handler.Given (h : Handler) (heap : Heap) (g : DbGate) (jobj : Fields) : Prop :=
  match h with
  | .bindRealname => TextsGiven c json heap g jobj
  | .clientLog => TypeGiven json jobj
  | _ => True

/-- Of the six handlers, the binding and the log answer just where the body, if it is read as an
object, gives the texts that are not tested. -/
theorem handler_answers_iff (h : Handler) (heap : Heap) (g : DbGate) (post : Option Bytes) :
    h.Answers c json heap g post ↔
      ∀ jobj, json.body heap post = .ok jobj → h.Given c json heap g jobj := by
  cases h with
  | login rawtoken now =>
    exact iff_of_true (login_answers c json heap g post rawtoken now) fun _ _ => trivial
  | verify => exact iff_of_true (verify_answers c json heap g post) fun _ _ => trivial
  | combo rawtoken => exact iff_of_true (combo_answers c json heap g post rawtoken) fun _ _ => trivial
  | actionTicket rawtoken now =>
    exact iff_of_true (ticket_answers c json heap g post rawtoken now) fun _ _ => trivial
  | bindRealname =>
    rw [Handler.Answers, handleBindRealname]
    rcases readBody_ok json loginRefusals heap post with ⟨reply, hread, hbody⟩ | ⟨jobj, hread, hbody⟩
    · rw [hread]
      exact iff_of_true ⟨_, rfl⟩ fun jobj h => absurd h (hbody jobj)
    · rw [hread, ok_bind, hbody]
      simp only [bind_answers_iff, Except.ok.injEq, forall_eq', Handler.Given]
  | clientLog =>
    rw [Handler.Answers, handleClientLog]
    rcases readBody_ok json logRefusals heap post with ⟨reply, hread, hbody⟩ | ⟨jobj, hread, hbody⟩
    · rw [hread]
      exact iff_of_true ⟨_, rfl⟩ fun jobj h => absurd h (hbody jobj)
    · rw [hread, ok_bind, hbody]
      simp only [log_answers_iff, Except.ok.injEq, forall_eq', Handler.Given]

/-! ## A log without a type, a binding without a name -/

def logBody : Bytes := ascii "\x7b\"logStr\":\"x\"\x7d"

def bindBody : Bytes := ascii "\x7b\"action_ticket\":\"YWJj\"\x7d"

/-- The library on the two bodies. -/
def bareJson : JsonC where
  parse t :=
    if t = logBody then some (.object [("logStr", .string (ascii "x"))])
    else if t = bindBody then some (.object [("action_ticket", .string (ascii "YWJj"))])
    else none
  text _ := []
  getInt
    | .int i => Int32.ofInt i
    | _ => 0
  getBoolean
    | .boolean b => b
    | _ => false

/-- The record of an account with the ticket of the second body. -/
def ticketedAccount : AccountInfo := { (default : AccountInfo) with id := 1, bindToken := ascii "abc" }

def ticketedStore : DbGate where
  db := OrderedStore.empty.put (accountKey 1) (c.account.serialize ticketedAccount)
  nextIds := default

theorem ticket_kept : Kept c (ticketedStore c) (ascii "abc") :=
  ⟨accountKey 1, c.account.serialize ticketedAccount, ticketedAccount, OrderedStore.get_put_self _ _ _,
    accountKey_type 1, c.account.parse_serialize _, rfl⟩

theorem bare_bodies_unanswered :
    ¬ Handler.Answers unaryCodecs bareJson .clientLog ⟨true, true, true⟩ (ticketedStore unaryCodecs)
      (some logBody) ∧
    ¬ Handler.Answers unaryCodecs bareJson .bindRealname ⟨true, true, true⟩
      (ticketedStore unaryCodecs) (some bindBody) := by
  constructor
  · intro ⟨x, hx⟩
    have hlog : clientLog bareJson [("logStr", .string (ascii "x"))] = .ok x := hx
    obtain ⟨j, hj, -⟩ := (log_answers_iff bareJson _).1 ⟨x, hlog⟩ (Or.inr ⟨ascii "x", rfl, by decide⟩)
    cases hj
  · intro ⟨x, hx⟩
    have hread : bareJson.body ⟨true, true, true⟩ (some bindBody) =
        .ok [("action_ticket", .string (ascii "YWJj"))] := by rfl
    rw [handleBindRealname, readBody_eq, hread, ok_bind] at hx
    obtain ⟨r, hr, hgiven⟩ := (bind_answers_iff unaryCodecs bareJson _ _ _).1 ⟨x, hx⟩
      (ascii "YWJj") rfl (by decide)
    have habc : b64dec (cstr (ascii "YWJj")) = .ok (ascii "abc") := by rfl
    cases habc.symm.trans hr
    obtain ⟨⟨j, hj, -⟩, -⟩ := hgiven (ticket_kept unaryCodecs) rfl
    cases hj

end Yagips.Sdk.NullSafety
