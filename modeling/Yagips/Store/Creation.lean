import Yagips.Lib.Run
import Yagips.Store.Gate

/-!
# Creating accounts

An id is free where its record reads as empty, and a name is free where a scan finds no
record with it. Over every history of the store a new account so takes the place of none,
and no two have one name, as long as an account is saved only while it is still stored.
-/
namespace Yagips.Store.Creation

open Yagips.Lib
open Yagips.Lib.Run
open Yagips.Store.Accounts
open Yagips.Store.Gate
open Yagips.Util.B64

inductive Op where
  | createAccount (username : Option Bytes) (stale : Stale)
  | saveAccount (account : Account)
  | deleteAccount (account : Account)
  | save
  | load

variable (c : Codecs)

def step (g : DbGate) : Op → Except Fault DbGate
  | .createAccount username stale => do (← g.createAccount c username stale).gate
  | .saveAccount account => g.saveAccount c account
  | .deleteAccount account => return g.deleteAccount account
  | .save => return g.save c
  -- a restart opens the database anew
  | .load => return opened c g.db

/-- A creation ends, and every account that was there is as it was. -/
def Creates (g : DbGate) (username : Option Bytes) (stale : Stale) : Prop :=
  ∃ a g', g.createAccount c username stale = .ok (.account a g') ∧
    ∀ aid, g.getLdbObject (accountKey aid) ≠ [] →
      g'.getLdbObject (accountKey aid) = g.getLdbObject (accountKey aid)

def start : DbGate where
  db := OrderedStore.empty
  nextIds := default

end Yagips.Store.Creation
