import Yagips.Http.Refusing
import Yagips.Lib.Message

/-!
# The announced length

The head of a response and its body are printed into the buffer at once, and what is sent is the
string that stands there. The length in the head is that of the body before it was printed.
-/
namespace Yagips.Http.ContentLength

open Yagips.Lib
open Yagips.Lib.Message
open Yagips.Http.Request
open Yagips.Http.Serve
open Yagips.Http.Refusing

/-! ## What is printed for a request -/

/-- What the case of an endpoint sets: the text of the answer and its type. -/
structure Produced where
  body : Bytes
  json : Bool

def shown (meth : Text) (a : Answer) : Bytes := if isHead meth then [] else a.body

/-- Neither a terminator nor the start of a line end. -/
def Clean (s : Bytes) : Prop := 0 ∉ s ∧ 13 ∉ s

instance (s : Bytes) : Decidable (Clean s) := inferInstanceAs (Decidable (_ ∧ _))

theorem Clean.append {s t : Bytes} (hs : Clean s) (ht : Clean t) : Clean (s ++ t) := by
  simp only [Clean, List.mem_append, not_or]
  exact ⟨⟨hs.1, ht.1⟩, hs.2, ht.2⟩

/-- The configured texts are C strings on one line. -/
structure Configured (pkg : Package) : Prop where
  name : Clean pkg.name
  version : Clean pkg.version

def getMethod : Text where
  offset := 0
  bytes := ascii "GET"

/-- A request for the list of regions. -/
def regionList : Selection where
  status := 0
  meth := getMethod
  minorVersion := 1
  body := none

end Yagips.Http.ContentLength
