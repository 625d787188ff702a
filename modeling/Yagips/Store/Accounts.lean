import Yagips.Lib.Packed
import Yagips.Util.B64RoundTrip
import Yagips.Util.Hex

/-!
# Accounts

The `Account` object keeps its tokens as text, the stored message keeps them as bytes.
Loading encodes, saving decodes. The conversion to the message leaves out the guest
flag.
-/
namespace Yagips.Store.Accounts

open Yagips.Lib
open Yagips.Util.B64
open Yagips.Util.B64RoundTrip
open Yagips.Util.Hex

/-- The message `storage::AccountInfo`. -/
structure AccountInfo where
  id : UInt32
  username : Bytes
  email : Bytes
  password : Bytes
  comboToken : Bytes
  authToken : Bytes
  authTokenTs : Int64
  deviceId : Bytes
  isGuest : Bool
  reservedUid : UInt32
  permissions : List UInt32
  realName : Bytes
  idNumber : Bytes
  bindToken : Bytes
  bindTokenTs : Int64
  deriving DecidableEq

instance : Inhabited AccountInfo where
  default :=
    { id := 0, username := [], email := [], password := [], comboToken := [], authToken := []
      authTokenTs := 0, deviceId := [], isGuest := false, reservedUid := 0, permissions := []
      realName := [], idNumber := [], bindToken := [], bindTokenTs := 0 }

/-- The class `Account` without its session pointer. -/
structure Account where
  username : Bytes
  passwordHash : Bytes
  deviceId : Bytes
  email : Bytes
  realName : Bytes
  idNumber : Bytes
  authToken : Bytes
  comboToken : Bytes
  binderToken : Bytes
  aid : UInt32
  guest : Bool
  authTokenTimestamp : Int64
  binderTokenTimestamp : Int64
  permissions : List UInt32
  deriving DecidableEq

/-- `Account::Account(const storage::AccountInfo&)`. -/
def Account.ofInfo (p : AccountInfo) : Except Fault Account := do
  let authToken ← b64enc p.authToken
  let comboToken ← hexenc p.comboToken
  let binderToken ← b64enc p.bindToken
  return { username := p.username, passwordHash := p.password, deviceId := p.deviceId
           email := p.email, realName := p.realName, idNumber := p.idNumber, authToken
           comboToken, binderToken, aid := p.id, guest := p.isGuest
           authTokenTimestamp := p.authTokenTs, binderTokenTimestamp := p.bindTokenTs
           permissions := p.permissions }

/-- `Account::operator storage::AccountInfo`, which sets neither `is_guest` nor
`reserved_uid`. -/
def Account.toInfo (a : Account) : Except Fault AccountInfo := do
  let authToken ← b64dec a.authToken
  let comboToken ← hexdec a.comboToken
  let bindToken ← b64dec a.binderToken
  return { id := a.aid, username := a.username, email := a.email, password := a.passwordHash
           comboToken, authToken, authTokenTs := a.authTokenTimestamp, deviceId := a.deviceId
           isGuest := false, reservedUid := 0, permissions := a.permissions
           realName := a.realName, idNumber := a.idNumber, bindToken
           bindTokenTs := a.binderTokenTimestamp }

/-! ## New tokens, from what `getrandom` and `time` return -/

def Account.getNewAuthToken (a : Account) (rawtoken : Vector UInt8 24) (now : Int64) :
    Except Fault Account := do
  return { a with authToken := ← b64enc rawtoken.toList, authTokenTimestamp := now }

def Account.getNewComboToken (a : Account) (rawtoken : Vector UInt8 16) : Except Fault Account := do
  return { a with comboToken := ← hexenc rawtoken.toList }

def Account.getNewBinderToken (a : Account) (rawtoken : Vector UInt8 6) (now : Int64) :
    Except Fault Account := do
  return { a with binderToken := ← b64enc rawtoken.toList, binderTokenTimestamp := now }

/-! ## What the conversions keep -/

/-- Token texts that `b64dec` reads without leaving them. -/
def Readable (t : Bytes) : Prop := ∃ r, b64dec t = .ok r

theorem readable_b64enc {s t : Bytes} (h : b64enc s = .ok t) : Readable t := by
  rw [b64enc_eq] at h
  cases h
  exact b64dec_encode_ok _

theorem cstr_b64enc {s t : Bytes} (h : b64enc s = .ok t) : cstr t = t := by
  rw [b64enc_eq] at h
  cases h
  exact cstr_eq_self_iff.mpr (Base64.encode_no_nul _)

structure Loaded (p : AccountInfo) (a : Account) : Prop where
  aid : a.aid = p.id
  username : a.username = p.username
  deviceId : a.deviceId = p.deviceId
  guest : a.guest = p.isGuest
  authToken : b64enc p.authToken = .ok a.authToken
  comboToken : hexenc p.comboToken = .ok a.comboToken
  binderToken : b64enc p.bindToken = .ok a.binderToken

theorem Loaded.readable {p : AccountInfo} {a : Account} (h : Loaded p a) :
    Readable a.authToken ∧ Readable a.binderToken :=
  ⟨readable_b64enc h.authToken, readable_b64enc h.binderToken⟩

theorem b64enc_ok (s : Bytes) : ∃ t, b64enc s = .ok t := ⟨_, b64enc_eq s⟩

theorem ofInfo_loaded (p : AccountInfo) : ∃ a, Account.ofInfo p = .ok a ∧ Loaded p a := by
  obtain ⟨auth, hauth⟩ := b64enc_ok p.authToken
  obtain ⟨combo, hcombo⟩ := hexenc_ok p.comboToken
  obtain ⟨bind, hbind⟩ := b64enc_ok p.bindToken
  simp only [Account.ofInfo, hauth, hcombo, hbind, ok_bind, pure_eq_ok]
  exact ⟨_, rfl, rfl, rfl, rfl, rfl, hauth, hcombo, hbind⟩

/-- Saving keeps the identity and stores the bytes of the binder token. -/
theorem toInfo_ok {a : Account} (hauth : Readable a.authToken) (hbind : Readable a.binderToken) :
    ∃ p, Account.toInfo a = .ok p ∧ p.id = a.aid ∧ b64dec a.binderToken = .ok p.bindToken := by
  obtain ⟨auth, hauth⟩ := hauth
  obtain ⟨combo, hcombo⟩ := hexdec_ok a.comboToken
  obtain ⟨bind, hbind⟩ := hbind
  simp only [Account.toInfo, hauth, hcombo, hbind, ok_bind, pure_eq_ok]
  exact ⟨_, rfl, rfl, rfl⟩

theorem toInfo_identity {a : Account} {p : AccountInfo} (h : a.toInfo = .ok p) :
    p.id = a.aid ∧ p.username = a.username := by
  obtain ⟨_, -, h⟩ := bind_eq_ok.mp h
  obtain ⟨_, -, h⟩ := bind_eq_ok.mp h
  obtain ⟨_, -, h⟩ := bind_eq_ok.mp h
  cases h
  exact ⟨rfl, rfl⟩

/-- The fields as one tuple. -/
def AccountInfo.fields (p : AccountInfo) :=
  (p.id, p.username, p.email, p.password, p.comboToken, p.authToken, p.authTokenTs, p.deviceId,
    p.isGuest, p.reservedUid, p.permissions, p.realName, p.idNumber, p.bindToken, p.bindTokenTs)

def AccountInfo.ofFields : UInt32 × Bytes × Bytes × Bytes × Bytes × Bytes × Int64 × Bytes × Bool ×
    UInt32 × List UInt32 × Bytes × Bytes × Bytes × Int64 → AccountInfo
  | (id, username, email, password, comboToken, authToken, authTokenTs, deviceId, isGuest,
      reservedUid, permissions, realName, idNumber, bindToken, bindTokenTs) =>
    { id, username, email, password, comboToken, authToken, authTokenTs, deviceId, isGuest
      reservedUid, permissions, realName, idNumber, bindToken, bindTokenTs }

instance : Encodable AccountInfo :=
  Encodable.ofLeftInverse AccountInfo.fields AccountInfo.ofFields fun _ => rfl

instance : Packed AccountInfo :=
  Packed.ofLeftInverse AccountInfo.fields AccountInfo.ofFields fun _ => rfl

end Yagips.Store.Accounts
