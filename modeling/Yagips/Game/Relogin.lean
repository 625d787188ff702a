import Yagips.Game.Login

/-!
# Logging in again

The new session's player is built from what the store held when the request came. The
old session's player is saved after that. So what was changed since it was last stored is
missing from the new copy, and from the store once the new copy is saved.
-/
namespace Yagips.Game.Relogin

open Yagips.Lib
open Yagips.Server.Sessions
open Yagips.Store.Accounts
open Yagips.Store.Gate
open Yagips.Store.Inventory
open Yagips.Game.Players
open Yagips.Game.PlayerStore
open Yagips.Game.Login

def tokenReq : GetPlayerTokenReq where
  accountUid := [0x31]
  accountToken := [0x61, 0x62]

end Yagips.Game.Relogin
