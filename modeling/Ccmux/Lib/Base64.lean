/- Module: Ccmux/Lib/Base64
   digest: The base64url text of a text's bytes, and its length inside a JSON document. -/

import Ccmux.Lib.JsonText

namespace Ccmux.Lib.Base64

open Ccmux.Lib.JsonText

/-- Three bytes are four sextets; the last group is not padded. -/
def sextets : List Nat → List Nat
  | [] => []
  | [a] => [a / 4, a % 4 * 16]
  | [a, b] => [a / 4, a % 4 * 16 + b / 16, b % 16 * 4]
  | a :: b :: c :: rest =>
    a / 4 :: (a % 4 * 16 + b / 16) :: (b % 16 * 4 + c / 64) :: c % 64 :: sextets rest

def digit (n : Nat) : Char :=
  if n < 26 then Char.ofNat (65 + n)
  else if n < 52 then Char.ofNat (71 + n)
  else if n < 62 then Char.ofNat (n - 4)
  else if n = 62 then '-'
  else '_'

def bytesOf (text : String) : List Nat := text.toByteArray.data.toList.map UInt8.toNat

/-- `Buffer.from(text).toString('base64url')`. -/
def base64url (text : String) : String := String.ofList ((sextets (bytesOf text)).map digit)

/-- The characters that base64url takes for that many bytes. -/
def encodedLength (bytes : Nat) : Nat := (4 * bytes + 2) / 3

end Ccmux.Lib.Base64
