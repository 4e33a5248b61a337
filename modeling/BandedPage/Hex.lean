/-!
# Bytes as hexadecimal text

Two digits a byte, written in lower case and read in either case. An odd digit at the end of a text
is ignored.
-/

namespace BandedPage.Hex

/-- The value of a digit. -/
def digitValue (c : Char) : Nat :=
  if c.isDigit then c.toNat - '0'.toNat
  else if 'a' ≤ c && c ≤ 'f' then c.toNat - 'a'.toNat + 10
  else if 'A' ≤ c && c ≤ 'F' then c.toNat - 'A'.toNat + 10
  else 0

def ofByte (b : UInt8) : List Char :=
  [Nat.digitChar (b.toNat / 16), Nat.digitChar (b.toNat % 16)]

def encode (bytes : List UInt8) : String := String.ofList (bytes.flatMap ofByte)

def decodeChars : List Char → List UInt8
  | a :: b :: rest => UInt8.ofNat (digitValue a * 16 + digitValue b) :: decodeChars rest
  | _ => []

def decode (text : String) : List UInt8 := decodeChars text.toList

end BandedPage.Hex
