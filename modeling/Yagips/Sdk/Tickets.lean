import Mathlib.Logic.ExistsUnique
import Yagips.Sdk.Calls

/-!
# Whom an action ticket identifies

A ticket is found by its decoded bytes, as a C string, in the first record that stores
them. So the ticket of one account resolves to that account unless its bytes hold a NUL,
and a text that is no ticket resolves to an account that stores what it decodes to.
-/
namespace Yagips.Sdk.Tickets

open Yagips.Lib
open Yagips.Store.Accounts
open Yagips.Store.Gate
open Yagips.Sdk.Body
open Yagips.Sdk.Handlers
open Yagips.Sdk.Calls
open Yagips.Util.B64

variable (c : Codecs) (json : JsonC)

end Yagips.Sdk.Tickets
