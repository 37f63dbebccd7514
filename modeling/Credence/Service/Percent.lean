import Credence.Json.Reader

/-!
# Percent-encoding

In the path of a request a percent sign with two hexadecimal digits stands for a byte.  A percent
sign without them stands for itself, and any other character for its bytes in UTF-8.
-/

namespace Credence.Percent

/-- The bytes that an encoded text stands for. -/
def bytes : List Char → List UInt8
  | [] => []
  | [c] => String.utf8EncodeChar c
  | [c, d] => String.utf8EncodeChar c ++ String.utf8EncodeChar d
  | c :: high :: low :: rest =>
    match c, Json.hexValue? high, Json.hexValue? low with
    | '%', some h, some l => UInt8.ofNat (16 * h + l) :: bytes rest
    | _, _, _ => String.utf8EncodeChar c ++ bytes (high :: low :: rest)

/-- The text that an encoded text stands for, none if its bytes are not UTF-8. -/
def decode? (encoded : String) : Option String := String.fromUTF8? ⟨(bytes encoded.toList).toArray⟩

end Credence.Percent
