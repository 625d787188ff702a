import Yagips.Game.SessionMachine
import Yagips.Util.Hex

/-!
# Which tokens let a session in

Both handlers compare over the length of the stored token, so a token that begins with the
stored one passes. Every other token closes the session, where its player can be saved.
-/
namespace Yagips.Game.TokenMatch

open Yagips.Lib
open Yagips.Server.Sessions
open Yagips.Store.Accounts
open Yagips.Store.Gate
open Yagips.Util.Hex
open Yagips.Game.Players
open Yagips.Game.PlayerStore
open Yagips.Game.Login
open Yagips.Game.Handlers
open Yagips.Game.SessionMachine

/-! ## Stored tokens -/

/-- Saving reads the session behind the player's pointer and its current avatar. -/
def Saveable (sessions : PlayerStore.Sessions) (p : Player) : Prop :=
  p.curAvatar ≠ .unset ∧ ∀ i, p.session = some i → ∃ x, sessions[i]? = some (some x)

def Closable (s : Server) (x : GameSession) : Prop :=
  ∀ p, x.player = some p → Saveable s.sessions p

/-- The token is the stored one, or does not begin with it and comes in a session that can be
closed. -/
def Told (s : Server) (x : GameSession) (c t : Bytes) : Prop :=
  t = c ∨ (¬ c <+: t ∧ Closable s x)

section

variable {e : Env} {s : Server} {slot : Nat} {x : GameSession} {account : Account}

end

/-! ## A token with a tail -/

def waiting : GameSession where
  kcpSession := some { conv := 1, client := 0 }
  player := none
  state := tokenWait
  useSecretKey := false
  sessionSeed := 0
  sessionKey := []

end Yagips.Game.TokenMatch
