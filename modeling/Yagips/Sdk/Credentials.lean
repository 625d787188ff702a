import Yagips.Sdk.Handlers

/-!
# Who is given a token

An action ticket is only made for an account whose auth token the body carries. A combo
token is too, except on the guest path, where any account id does once the outer object
has a field `device`.
-/
namespace Yagips.Sdk.Credentials

open Yagips.Lib
open Yagips.Store.Accounts
open Yagips.Store.Gate
open Yagips.Sdk.Body
open Yagips.Sdk.Handlers
open Yagips.Util.B64
open Yagips.Util.Hex

variable (c : Codecs) (json : JsonC)

/-! ## Proof of identity -/

/-- The token of the body, as a C string, is the account's auth token, which is set. -/
def CarriesToken (token : Option Bytes) (a : Account) : Prop :=
  a.authToken ≠ [] ∧ token.map cstr = some a.authToken

/-- The account is a guest's, and the outer object names the device stored for it. -/
def CarriesDevice (req : ComboRequest) (a : Account) : Prop :=
  req.isGuest = true ∧ a.guest = true ∧
    ((getEx req.jobj "device").bind json.getString).map cstr = some a.deviceId

/-- Nothing was done: the store is as it was, no account was acted for, and the reply
holds no token. -/
def Untouched (g : DbGate) (r : Except Fault Handled) : Prop :=
  ∃ retcode message, r = .ok (refuse g (.error retcode message))

/-- The handler made a token for an account the lookup by id gives, and saved that
account, changed by nothing but the token. -/
def MadeFor (g : DbGate) (aid : UInt32) (a : Account) (withToken : Bytes → Account)
    (r : Except Fault Handled) : Prop :=
  g.getAccountByAid c aid = .ok (some a) ∧
    ∃ h t, r = .ok h ∧ h.account = some a.aid ∧ g.saveAccount c (withToken t) = .ok h.gate

def ComboGuarded (heap : Heap) (g : DbGate) (post : Option Bytes) (raw : Vector UInt8 16) : Prop :=
  let r := handleCombo c json heap g post raw
  Untouched g r ∨ ∃ req a, comboRequest json heap post = .ok req ∧
    MadeFor c g req.aid a (fun t => { a with comboToken := t }) r ∧
    (CarriesToken req.token a ∨ CarriesDevice json req a)

def TicketGuarded (heap : Heap) (g : DbGate) (post : Option Bytes) (raw : Vector UInt8 6)
    (now : Int64) : Prop :=
  let r := handleActionTicket c json heap g post raw now
  Untouched g r ∨ ∃ req a, ticketRequest json heap post = .ok req ∧
    MadeFor c g req.aid a (fun t => { a with binderToken := t, binderTokenTimestamp := now }) r ∧
    CarriesToken req.token a

/-- Whoever takes the guest path for an account that exists proves who they are. -/
def GuestsProve (heap : Heap) (g : DbGate) (post : Option Bytes) : Prop :=
  ∀ req a, comboRequest json heap post = .ok req → req.isGuest = true →
    g.getAccountByAid c req.aid = .ok (some a) →
    CarriesToken req.token a ∨ CarriesDevice json req a

/-! ## Requests -/

theorem requireText_refuses {text : Option Bytes} {nullMessage emptyMessage : String} {r : Reply}
    (h : requireText text nullMessage emptyMessage = some r) : r.Refuses := by
  unfold requireText at h
  split at h
  case h_1 =>
    cases h
    exact ⟨_, _, rfl⟩
  case h_2 =>
    split at h
    case isTrue =>
      cases h
      exact ⟨_, _, rfl⟩
    case isFalse => cases h

theorem comboData_refuses {heap : Heap} {jobj : Fields} {r : Reply}
    (h : comboData json heap jobj = .error r) : r.Refuses := by
  unfold comboData at h
  split at h
  case h_1 =>
    cases h
    exact ⟨_, _, rfl⟩
  case h_2 =>
    split at h
    case h_1 =>
      cases h
      exact ⟨_, _, rfl⟩
    case h_2 =>
      split at h
      case isTrue =>
        cases h
        exact ⟨_, _, rfl⟩
      case isFalse => split at h <;> exact object_refuses json h

/-- A combo request is refused, or it names an id and has what its kind of login needs. -/
theorem comboRequest_cases (heap : Heap) (post : Option Bytes) :
    (∃ r, comboRequest json heap post = .error r ∧ r.Refuses) ∨
    ∃ req, comboRequest json heap post = .ok req ∧
      (req.isGuest = true ∨ requireText req.token "Token is null" "Token is empty" = none) := by
  unfold comboRequest
  cases hbody : json.body heap post with
  | error r => exact Or.inl ⟨r, rfl, body_refuses json hbody⟩
  | ok jobj =>
    rw [ok_bind]
    cases hdata : comboData json heap jobj with
    | error r => exact Or.inl ⟨r, rfl, comboData_refuses json hdata⟩
    | ok data =>
      rw [ok_bind]
      split
      case h_1 => exact Or.inl ⟨_, rfl, _, _, rfl⟩
      case h_2 uid _ =>
        cases hguest : (comboFields json jobj data uid).isGuest with
        | true =>
          simp only [hguest, if_true]
          split
          case h_1 r hr => exact Or.inl ⟨r, rfl, requireText_refuses hr⟩
          case h_2 => exact Or.inr ⟨_, rfl, Or.inl hguest⟩
        | false =>
          simp only [hguest, Bool.false_eq_true, if_false]
          split
          case h_1 r hr => exact Or.inl ⟨r, rfl, requireText_refuses hr⟩
          case h_2 hnone => exact Or.inr ⟨_, rfl, Or.inr hnone⟩

theorem ticketRequest_cases (heap : Heap) (post : Option Bytes) :
    (∃ r, ticketRequest json heap post = .error r ∧ r.Refuses) ∨
    ∃ req, ticketRequest json heap post = .ok req ∧
      requireText req.token "Token is null" "Token is empty" = none := by
  unfold ticketRequest
  cases hbody : json.body heap post with
  | error r => exact Or.inl ⟨r, rfl, body_refuses json hbody⟩
  | ok jobj =>
    rw [ok_bind]
    split
    case h_1 => exact Or.inl ⟨_, rfl, _, _, rfl⟩
    case h_2 uid _ =>
      split
      case h_1 => exact Or.inl ⟨_, rfl, _, _, rfl⟩
      case h_2 dobj _ =>
        cases hset : requireText (json.getString dobj) "Token is null" "Token is empty" with
        | some r => exact Or.inl ⟨r, by simp only [hset], requireText_refuses hset⟩
        | none => exact Or.inr ⟨{ aid := json.getAid uid, token := json.getString dobj },
            by simp only [hset], hset⟩

/-! ## What the two handlers can do -/

theorem carries_of_matches {p : AccountInfo} {a : Account} (ha : Loaded p a) {token : Option Bytes}
    {nullMessage emptyMessage : String} (hset : requireText token nullMessage emptyMessage = none)
    (hm : tokenMatches token a = true) : CarriesToken token a := by
  have heq : token.map cstr = some (cstr a.authToken) := of_decide_eq_true hm
  rw [cstr_b64enc ha.authToken] at heq
  refine ⟨fun hempty => ?_, heq⟩
  cases token with
  | none => cases heq
  | some t =>
    have ht : cstr t = a.authToken := Option.some.inj heq
    simp [requireText, ht, hempty] at hset

theorem made_not_untouched {g : DbGate} {aid : UInt32} {a : Account} {withToken : Bytes → Account}
    {r : Except Fault Handled} (h : MadeFor c g aid a withToken r) : ¬ Untouched g r := by
  intro ⟨retcode, message, hr⟩
  obtain ⟨-, h', t, hr', hacc, -⟩ := h
  cases hr.symm.trans hr'
  cases hacc

/-- Saving an account loaded from a record, changed by nothing but its combo token. -/
theorem saveAccount_ok (g : DbGate) {a : Account} (hauth : Readable a.authToken)
    (hbind : Readable a.binderToken) : ∃ g', g.saveAccount c a = .ok g' := by
  obtain ⟨p, g', hg', -⟩ := saveAccount_spec c g hauth hbind
  exact ⟨g', hg'⟩

theorem combo_made {heap : Heap} {g : DbGate} {post : Option Bytes} (raw : Vector UInt8 16)
    {req : ComboRequest} (hreq : comboRequest json heap post = .ok req) {p : AccountInfo}
    {a : Account} (hload : Loaded p a) (ha : g.getAccountByAid c req.aid = .ok (some a))
    (hok : req.isGuest = true ∨ tokenMatches req.token a = true) :
    MadeFor c g req.aid a (fun t => { a with comboToken := t })
      (handleCombo c json heap g post raw) := by
  obtain ⟨t, ht⟩ := hexenc_ok raw.toList
  obtain ⟨g', hg'⟩ := saveAccount_ok c g (a := { a with comboToken := t }) hload.readable.1
    hload.readable.2
  refine ⟨ha, ?_⟩
  have hpass : (!req.isGuest && !tokenMatches req.token a) = false := by
    rcases hok with h | h <;> simp [h]
  simp only [handleCombo, hreq, ha, ok_bind, hpass, Account.getNewComboToken, ht, pure_eq_ok, hg']
  exact ⟨_, t, rfl, rfl, hg'⟩

theorem combo_cases (heap : Heap) (g : DbGate) (post : Option Bytes) (raw : Vector UInt8 16) :
    Untouched g (handleCombo c json heap g post raw) ∨
    ∃ req a, comboRequest json heap post = .ok req ∧
      MadeFor c g req.aid a (fun t => { a with comboToken := t })
        (handleCombo c json heap g post raw) ∧ (req.isGuest = true ∨ CarriesToken req.token a) := by
  rcases comboRequest_cases json heap post with ⟨r, hr, retcode, message, rfl⟩ | ⟨req, hreq, hkind⟩
  · exact Or.inl ⟨retcode, message, by rw [handleCombo, hr]; rfl⟩
  · rcases byAid_cases c g req.aid with ⟨p, a, -, hload, ha⟩ | hnone
    · by_cases hpass : req.isGuest = true ∨ tokenMatches req.token a = true
      · refine Or.inr ⟨req, a, hreq, combo_made c json raw hreq hload ha hpass, ?_⟩
        rcases hpass with h | h
        · exact Or.inl h
        · exact hkind.imp_right fun hset => carries_of_matches hload hset h
      · have hfail : (!req.isGuest && !tokenMatches req.token a) = true := by
          simpa [not_or] using hpass
        refine Or.inl ⟨-101, "Cached token does not match", ?_⟩
        simp only [handleCombo, hreq, ha, ok_bind, hfail, if_true]
        rfl
    · refine Or.inl ⟨-101, "Account ID does not exist", ?_⟩
      simp only [handleCombo, hreq, hnone, ok_bind]
      rfl

theorem ticket_guarded (heap : Heap) (g : DbGate) (post : Option Bytes) (raw : Vector UInt8 6)
    (now : Int64) : TicketGuarded c json heap g post raw now := by
  show Untouched g (handleActionTicket c json heap g post raw now) ∨ _
  rcases ticketRequest_cases json heap post with ⟨r, hr, retcode, message, rfl⟩ | ⟨req, hreq, hset⟩
  · exact Or.inl ⟨retcode, message, by rw [handleActionTicket, hr]; rfl⟩
  · rcases byAid_cases c g req.aid with ⟨p, a, -, hload, ha⟩ | hnone
    · cases hm : tokenMatches req.token a with
      | true =>
        obtain ⟨t, ht⟩ := b64enc_ok raw.toList
        obtain ⟨g', hg'⟩ := saveAccount_ok c g
          (a := { a with binderToken := t, binderTokenTimestamp := now })
          hload.readable.1 (readable_b64enc ht)
        refine Or.inr ⟨req, a, hreq, ⟨ha, ?_⟩, carries_of_matches hload hset hm⟩
        simp only [handleActionTicket, hreq, ha, ok_bind, hm, Account.getNewBinderToken, ht,
          pure_eq_ok, hg']
        exact ⟨_, t, rfl, rfl, hg'⟩
      | false =>
        refine Or.inl ⟨-101, "Cached token does not match", ?_⟩
        simp only [handleActionTicket, hreq, ha, ok_bind, hm]
        rfl
    · refine Or.inl ⟨-101, "Account ID does not exist", ?_⟩
      simp only [handleActionTicket, hreq, hnone, ok_bind]
      rfl

/-! ## Both directions -/

theorem combo_guarded_iff (heap : Heap) (g : DbGate) (post : Option Bytes) (raw : Vector UInt8 16) :
    ComboGuarded c json heap g post raw ↔ GuestsProve c json heap g post := by
  constructor
  · intro hguard req a hreq hguest ha
    rcases byAid_cases c g req.aid with ⟨p, a', -, hload, ha'⟩ | hnone
    · cases ha.symm.trans ha'
      have hmade := combo_made c json raw hreq hload ha (Or.inl hguest)
      rcases hguard with h | ⟨req', a', hreq', ⟨ha'', -⟩, hproof⟩
      · exact absurd h (made_not_untouched c hmade)
      · cases hreq.symm.trans hreq'
        cases ha.symm.trans ha''
        exact hproof
    · cases ha.symm.trans hnone
  · intro hproves
    rcases combo_cases c json heap g post raw with h | ⟨req, a, hreq, hmade, hproof⟩
    · exact Or.inl h
    · refine Or.inr ⟨req, a, hreq, hmade, ?_⟩
      rcases hproof with hguest | htoken
      · exact hproves req a hreq hguest hmade.1
      · exact Or.inl htoken

theorem no_credential_without_proof_iff (heap : Heap) (g : DbGate) (post : Option Bytes)
    (rawCombo : Vector UInt8 16) (rawTicket : Vector UInt8 6) (now : Int64) :
    (ComboGuarded c json heap g post rawCombo ∧ TicketGuarded c json heap g post rawTicket now) ↔
      GuestsProve c json heap g post := by
  constructor
  · intro h
    exact (combo_guarded_iff c json heap g post rawCombo).mp h.1
  · intro h
    exact ⟨(combo_guarded_iff c json heap g post rawCombo).mpr h,
      ticket_guarded c json heap g post rawTicket now⟩

/-! ## A guest without a device -/

def guestData : Bytes := ascii "\x7b\"uid\":1,\"guest\":true\x7d"

def guestBody : Bytes :=
  ascii "\x7b\"device\":\"x\",\"data\":\"\x7b\\\"uid\\\":1,\\\"guest\\\":true\x7d\"\x7d"

/-- The library on the two texts above. -/
def guestJson : JsonC where
  parse t :=
    if t = guestBody then some (.object [("device", .string (ascii "x")), ("data", .string guestData)])
    else if t = guestData then some (.object [("uid", .int 1), ("guest", .boolean true)])
    else none
  text _ := ascii "\x7b \"uid\": 1, \"guest\": true \x7d"
  getInt
    | .int i => Int32.ofInt i
    | _ => 0
  getBoolean
    | .boolean b => b
    | _ => false

/-- The record of an account that logged in with a name. -/
def namedAccount : AccountInfo :=
  { (default : AccountInfo) with id := 1, username := ascii "name", authToken := List.replicate 24 7 }

def namedStore (c : Codecs) : DbGate where
  db := OrderedStore.empty.put (accountKey 1) (c.account.serialize namedAccount)
  nextIds := default

theorem named_not_guarded (c : Codecs) (raw : Vector UInt8 16) :
    ¬ ComboGuarded c guestJson ⟨true, true, true⟩ (namedStore c) (some guestBody) raw := by
  intro hguard
  have hproves := (combo_guarded_iff c _ _ _ _ _).mp hguard
  have hrecord : (namedStore c).record c 1 = some namedAccount := by
    rw [namedStore, DbGate.record, OrderedStore.get_put_self]
    exact c.account.parse_serialize namedAccount
  obtain ⟨a, hload, ha⟩ := byAid_found c hrecord (by decide)
  have hreq : comboRequest guestJson ⟨true, true, true⟩ (some guestBody) =
      .ok (comboFields guestJson [("device", .string (ascii "x")), ("data", .string guestData)]
        [("uid", .int 1), ("guest", .boolean true)] (.int 1)) := by rfl
  rcases hproves _ a hreq rfl ha with ⟨-, htoken⟩ | ⟨-, hguest, -⟩
  · cases htoken
  · rw [hload.guest] at hguest
    cases hguest

theorem guest_takes_named_account : ¬ ComboGuarded unaryCodecs guestJson ⟨true, true, true⟩
    (namedStore unaryCodecs) (some guestBody) (Vector.replicate 16 5) :=
  named_not_guarded unaryCodecs _

end Yagips.Sdk.Credentials
