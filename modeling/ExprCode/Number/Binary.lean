import ExprCode.Number.Word

/-! # Binary floating point

Floating-point numbers as bit patterns, with an exact reading of every pattern and one rounding
function back. `FloatFormat.decode` turns a pattern into a sign, a significand and a power of two;
`FloatFormat.encode` rounds such a triple to the nearest pattern, ties to even. Conversions,
remainders and decimal texts are exact integer arithmetic between the two. Sums, products, quotients
and powers are those of the built-in numbers, reached through the bit patterns. -/

namespace ExprCode

/-- An interchange format: digits of the significand, the leading one included, and exponent
bits. -/
structure FloatFormat where
  /-- Binary digits of a normal significand. -/
  precision : Nat
  /-- Bits of the exponent field. -/
  exponentBits : Nat

/-- What a bit pattern denotes. -/
inductive FloatDatum where
  /-- Not a number. -/
  | nan
  /-- An infinity. -/
  | infinite (negative : Bool)
  /-- The number `± significand * 2 ^ exponent`, zero of either sign included. -/
  | finite (negative : Bool) (significand : Nat) (exponent : Int)

namespace FloatFormat

/-- Four-byte numbers. -/
def binary32 : FloatFormat := ⟨24, 8⟩

/-- Eight-byte numbers. -/
def binary64 : FloatFormat := ⟨53, 11⟩

/-- Exponent of the last place of the smallest numbers. -/
def minExponent (format : FloatFormat) : Int :=
  3 - Nat.pow 2 (format.exponentBits - 1) - format.precision

/-- Pattern of the positive infinity; larger magnitudes are no numbers. -/
def infinityBits (format : FloatFormat) : Nat :=
  (Nat.pow 2 format.exponentBits - 1) * Nat.pow 2 (format.precision - 1)

/-- Weight of the sign bit. -/
def signWeight (format : FloatFormat) : Nat :=
  Nat.pow 2 (format.precision - 1 + format.exponentBits)

/-- The number denoted by a bit pattern. -/
def decode (format : FloatFormat) (bits : Nat) : FloatDatum :=
  let negative := format.signWeight ≤ bits
  let magnitude := bits % format.signWeight
  let unit := Nat.pow 2 (format.precision - 1)
  if format.infinityBits < magnitude then .nan
  else if magnitude = format.infinityBits then .infinite negative
  else if magnitude < unit then .finite negative magnitude format.minExponent
  else .finite negative (unit + magnitude % unit)
    (format.minExponent + (magnitude / unit - 1 : Nat))

/-- `n / 2 ^ places` rounded to the nearest integer, a half going to the even neighbour. -/
def roundShift (n places : Nat) : Nat :=
  let unit := Nat.pow 2 places
  let quotient := n / unit
  let remainder := n % unit
  if unit < 2 * remainder ∨ (2 * remainder = unit ∧ quotient % 2 = 1) then quotient + 1
  else quotient

/-- The magnitude bits nearest to `significand * 2 ^ exponent`, a half going to the even neighbour.
A carry out of the significand runs into the exponent field, and past the last exponent lies
infinity. -/
def roundMagnitude (format : FloatFormat) (significand : Nat) (exponent : Int) : Nat :=
  if significand = 0 then 0
  else
    let lastPlace :=
      max format.minExponent (exponent + (significand.log2 + 1 : Nat) - format.precision)
    let digits :=
      if lastPlace ≤ exponent then significand * Nat.pow 2 (exponent - lastPlace).toNat
      else roundShift significand (lastPlace - exponent).toNat
    min format.infinityBits
      ((lastPlace - format.minExponent).toNat * Nat.pow 2 (format.precision - 1) + digits)

/-- The bit pattern nearest to a number. -/
def encode (format : FloatFormat) : FloatDatum → Nat
  | .nan => format.infinityBits + Nat.pow 2 (format.precision - 2)
  | .infinite negative => (if negative then format.signWeight else 0) + format.infinityBits
  | .finite negative significand exponent =>
      (if negative then format.signWeight else 0) + format.roundMagnitude significand exponent

end FloatFormat

namespace FloatDatum

/-- The number denoted by an integer. -/
def ofInt (n : Int) : FloatDatum := .finite (n < 0) n.natAbs 0

/-- The integer reached from `± significand * 2 ^ exponent` by dropping the fraction. -/
def truncate (negative : Bool) (significand : Nat) (exponent : Int) : Int :=
  let magnitude : Nat :=
    if 0 ≤ exponent then significand * Nat.pow 2 exponent.toNat
    else significand / Nat.pow 2 (-exponent).toNat
  if negative then -magnitude else magnitude

/-- The word nearest to a number with its fraction dropped: infinities go to the ends of the range
and a non-number to zero. -/
def toWord (type : IntType) : FloatDatum → Word
  | .nan => .ofInt type 0
  | .infinite negative => .clamp type (if negative then type.minValue else type.maxValue)
  | .finite negative significand exponent => .clamp type (truncate negative significand exponent)

/-- Remainder of a division rounded toward zero, exact and with the sign of the dividend. -/
def remainder : FloatDatum → FloatDatum → FloatDatum
  | .nan, _ | _, .nan | .infinite _, _ => .nan
  | dividend, .infinite _ => dividend
  | .finite negative significand exponent, .finite _ divisor divisorExponent =>
      if divisor = 0 then .nan
      else
        let lastPlace := min exponent divisorExponent
        .finite negative
          (significand * Nat.pow 2 (exponent - lastPlace).toNat %
            (divisor * Nat.pow 2 (divisorExponent - lastPlace).toNat))
          lastPlace

end FloatDatum

/-- A four-byte floating-point number, by its bit pattern. -/
@[ext] structure Single where
  /-- The bit pattern. -/
  bits : UInt32
  deriving DecidableEq

/-- An eight-byte floating-point number, by its bit pattern. -/
@[ext] structure Double where
  /-- The bit pattern. -/
  bits : UInt64
  deriving DecidableEq

namespace Single

/-- Positive zero. -/
def zero : Single := ⟨0⟩

/-- The number denoted by the bit pattern. -/
def toDatum (x : Single) : FloatDatum := FloatFormat.binary32.decode x.bits.toNat

/-- The nearest four-byte number. -/
def ofDatum (datum : FloatDatum) : Single := ⟨.ofNat (FloatFormat.binary32.encode datum)⟩

/-- The built-in number with the same bit pattern. -/
def toFloat (x : Single) : Float32 := .ofBits x.bits

/-- The bit pattern of a built-in number. -/
def ofFloat (x : Float32) : Single := ⟨x.toBits⟩

/-- Sum. -/
def add (x y : Single) : Single := ofFloat (x.toFloat + y.toFloat)

/-- Difference. -/
def sub (x y : Single) : Single := ofFloat (x.toFloat - y.toFloat)

/-- Product. -/
def mul (x y : Single) : Single := ofFloat (x.toFloat * y.toFloat)

/-- Quotient. -/
def div (x y : Single) : Single := ofFloat (x.toFloat / y.toFloat)

/-- Remainder with the sign of the dividend. -/
def rem (x y : Single) : Single := ofDatum (x.toDatum.remainder y.toDatum)

/-- Power. -/
def pow (x y : Single) : Single := ofFloat (x.toFloat.pow y.toFloat)

/-- The number with its sign bit flipped. -/
def neg (x : Single) : Single := ⟨x.bits ^^^ 0x80000000⟩

/-- Order of two numbers, absent if one of them is no number. -/
def compare? (x y : Single) : Option Ordering :=
  if x.toFloat < y.toFloat then some .lt
  else if y.toFloat < x.toFloat then some .gt
  else if x.toFloat == y.toFloat then some .eq
  else none

end Single

namespace Double

/-- Positive zero. -/
def zero : Double := ⟨0⟩

/-- The number denoted by the bit pattern. -/
def toDatum (x : Double) : FloatDatum := FloatFormat.binary64.decode x.bits.toNat

/-- The nearest eight-byte number. -/
def ofDatum (datum : FloatDatum) : Double := ⟨.ofNat (FloatFormat.binary64.encode datum)⟩

/-- The built-in number with the same bit pattern. -/
def toFloat (x : Double) : Float := .ofBits x.bits

/-- The bit pattern of a built-in number. -/
def ofFloat (x : Float) : Double := ⟨x.toBits⟩

/-- Sum. -/
def add (x y : Double) : Double := ofFloat (x.toFloat + y.toFloat)

/-- Difference. -/
def sub (x y : Double) : Double := ofFloat (x.toFloat - y.toFloat)

/-- Product. -/
def mul (x y : Double) : Double := ofFloat (x.toFloat * y.toFloat)

/-- Quotient. -/
def div (x y : Double) : Double := ofFloat (x.toFloat / y.toFloat)

/-- Remainder with the sign of the dividend. -/
def rem (x y : Double) : Double := ofDatum (x.toDatum.remainder y.toDatum)

/-- Power. -/
def pow (x y : Double) : Double := ofFloat (x.toFloat.pow y.toFloat)

/-- The number with its sign bit flipped. -/
def neg (x : Double) : Double := ⟨x.bits ^^^ 0x8000000000000000⟩

/-- Order of two numbers, absent if one of them is no number. -/
def compare? (x y : Double) : Option Ordering :=
  if x.toFloat < y.toFloat then some .lt
  else if y.toFloat < x.toFloat then some .gt
  else if x.toFloat == y.toFloat then some .eq
  else none

end Double

end ExprCode
