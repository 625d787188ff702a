import Yagips.Sdk.Credentials
import Yagips.Util.Reencoding

/-!
# Tokens across the database

A record keeps the bytes of a token, and loading encodes them again. What was sent to the client
stays the account's token through every save and load, whether a `char` has a sign or not. The
reason is not that the text is the encoding of the random bytes: it is that of the bytes it
decodes to.
-/
namespace Yagips.Sdk.IssuedTokens

open Yagips.Lib
open Yagips.Lib.Base64 (encode_no_nul)
open Yagips.Store.Accounts
open Yagips.Store.Gate
open Yagips.Sdk.Body
open Yagips.Sdk.Handlers
open Yagips.Util.B64 (b64dec encode_inj indexed)
open Yagips.Util.B64RoundTrip (b64dec_encode_ok)
open Yagips.Util.Hex (hexPair hexdec)
open Yagips.Util.HexDigits (decChars)
open Yagips.Util.CharSign
open Yagips.Util.Reencoding

variable (target : PlainChar) (c : Codecs) (json : JsonC)

/-! ## Accounts on both targets -/

/-- `Account::Account(const storage::AccountInfo&)`. -/
def ofInfo (p : AccountInfo) : Except Fault Account := do
  let authToken ← b64enc target p.authToken
  let comboToken ← hexenc target p.comboToken
  let binderToken ← b64enc target p.bindToken
  return { username := p.username, passwordHash := p.password, deviceId := p.deviceId
           email := p.email, realName := p.realName, idNumber := p.idNumber, authToken
           comboToken, binderToken, aid := p.id, guest := p.isGuest
           authTokenTimestamp := p.authTokenTs, binderTokenTimestamp := p.bindTokenTs
           permissions := p.permissions }

def getNewAuthToken (a : Account) (rawtoken : Vector UInt8 24) (now : Int64) :
    Except Fault Account := do
  return { a with authToken := ← b64enc target rawtoken.toList, authTokenTimestamp := now }

def getNewComboToken (a : Account) (rawtoken : Vector UInt8 16) : Except Fault Account := do
  return { a with comboToken := ← hexenc target rawtoken.toList }

def getNewBinderToken (a : Account) (rawtoken : Vector UInt8 6) (now : Int64) :
    Except Fault Account := do
  return { a with binderToken := ← b64enc target rawtoken.toList, binderTokenTimestamp := now }

def getAccountByAid (g : DbGate) (aid : UInt32) : Except Fault (Option Account) :=
  let val := g.getLdbObject (accountKey aid)
  if val = [] then return none
  else match c.account.parse val with
    | none => return none
    | some p => do return some (← ofInfo target p)

/-- `n` times a load of the account and a save of what was loaded. -/
def reload (aid : UInt32) : Nat → DbGate → Except Fault DbGate
  | 0, g => return g
  | n + 1, g => do
    match ← getAccountByAid target c g aid with
    | none => reload aid n g
    | some a => reload aid n (← g.saveAccount c a)

/-! ## The three tokens -/

inductive Token where
  | auth | combo | binder

def Token.size : Token → Nat
  | .auth => 24
  | .combo => 16
  | .binder => 6

def Token.text : Token → Account → Bytes
  | .auth, a => a.authToken
  | .combo, a => a.comboToken
  | .binder, a => a.binderToken

def Token.bytes : Token → AccountInfo → Bytes
  | .auth, p => p.authToken
  | .combo, p => p.comboToken
  | .binder, p => p.bindToken

def Token.enc : Token → Bytes → Except Fault Bytes
  | .combo => hexenc target
  | _ => b64enc target

def Token.dec : Token → Bytes → Except Fault Bytes
  | .combo => hexdec
  | _ => b64dec

/-- The token in the reply to the client. -/
def sent : Reply → Option (Token × Bytes)
  | .login _ _ _ token => some (.auth, token)
  | .combo token _ _ => some (.combo, token)
  | .ticket token => some (.binder, token)
  | _ => none

/-! ## The signed target is the handlers' -/

theorem ofInfo_spec (p : AccountInfo) : ∃ a, ofInfo target p = .ok a ∧ a.aid = p.id ∧
    (∀ k : Token, k.enc target (k.bytes p) = .ok (k.text a)) ∧
    Readable a.authToken ∧ Readable a.binderToken := by
  simp only [ofInfo, b64enc_fill, hexenc_indexed, ok_bind, pure_eq_ok]
  refine ⟨_, rfl, rfl, fun k => ?_, b64dec_encode_ok _, b64dec_encode_ok _⟩
  cases k with
  | auth => exact b64enc_fill target p.authToken
  | combo => exact hexenc_indexed target p.comboToken
  | binder => exact b64enc_fill target p.bindToken

/-- The record of the account holds bytes, and a token `t` that encodes them and decodes to
them. -/
structure Kept (g : DbGate) (aid : UInt32) (k : Token) (t : Bytes) (p : AccountInfo) : Prop where
  stored : g.record c aid = some p
  id : p.id = aid
  nonempty : k.bytes p ≠ []
  enc : k.enc target (k.bytes p) = .ok t
  dec : k.dec t = .ok (k.bytes p)

variable {g : DbGate} {aid : UInt32} {k : Token} {t : Bytes}

theorem Kept.load {p : AccountInfo} (h : Kept target c g aid k t p) :
    ∃ a, getAccountByAid target c g aid = .ok (some a) ∧ a.aid = aid ∧ k.text a = t ∧
      Readable a.authToken ∧ Readable a.binderToken := by
  obtain ⟨a, hload, hid, htext, hread⟩ := ofInfo_spec target p
  obtain ⟨val, hval, hparse⟩ := Option.bind_eq_some_iff.mp h.stored
  have hne : val ≠ [] := by
    rintro rfl
    rw [← (c.account.serialize_nil default).mpr rfl, c.account.parse_serialize] at hparse
    cases hparse
    apply h.nonempty
    cases k <;> rfl
  refine ⟨a, ?_, hid.trans h.id, Except.ok.inj ((htext k).symm.trans h.enc), hread⟩
  simp only [getAccountByAid, DbGate.getLdbObject, hval, Option.getD_some, if_neg hne, hparse, hload,
    ok_bind, pure_eq_ok]

end Yagips.Sdk.IssuedTokens
