/-! # Hexadecimal texts

Numbers are written with lower-case digits, padded to a least width, and read from digits of either
case. -/

namespace ExprCode.Text

/-- Hexadecimal digits of a number, without padding. -/
def hexDigits (n : Nat) : String := String.ofList (Nat.toDigits 16 n)

/-- Hexadecimal digits of a number, padded with zeros to at least `width` places. -/
def hexPadded (width n : Nat) : String :=
  let digits := Nat.toDigits 16 n
  String.ofList (List.replicate (width - digits.length) '0' ++ digits)

/-- Hexadecimal digits of an integer in two's complement of eight bytes, padded to `width`
places. -/
def hexSigned (width : Nat) (n : Int) : String :=
  hexPadded width (n % Nat.pow 2 64).toNat

/-- A byte as two digits after `0x`. -/
def hexByte (byte : UInt8) : String := "0x" ++ hexPadded 2 byte.toNat

/-- The value of a hexadecimal digit of either case. -/
def hexDigit? (c : Char) : Option Nat :=
  if '0' ≤ c ∧ c ≤ '9' then some (c.toNat - '0'.toNat)
  else if 'a' ≤ c ∧ c ≤ 'f' then some (c.toNat - 'a'.toNat + 10)
  else if 'A' ≤ c ∧ c ≤ 'F' then some (c.toNat - 'A'.toNat + 10)
  else none

/-- The number that hexadecimal digits write. -/
def hexNumber? (digits : List Char) : Option Nat :=
  digits.foldlM (fun n c => (hexDigit? c).map (16 * n + ·)) 0

/-- The bytes that pairs of hexadecimal digits write. -/
def hexBytes? : List Char → Option (List UInt8)
  | [] => some []
  | [_] => none
  | high :: low :: rest => do
      let byte ← hexNumber? [high, low]
      return .ofNat byte :: (← hexBytes? rest)

end ExprCode.Text
