import ExprCode.Decimal.Shortest

/-! # Texts of floating-point numbers

Two written forms of a number's shortest decimal. `FloatStyle.plain` always writes every place and
never an exponent; `FloatStyle.marked` marks a whole number by `.0` and writes numbers outside
`[1e-4, 1e16)` with an exponent. -/

namespace ExprCode

namespace Decimal

/-- The significant digits without trailing zeros, with the number of places before the point. -/
def normalize (decimal : Decimal) : List Char × Int :=
  let written := Nat.toDigits 10 decimal.digits
  let significant := (written.reverse.dropWhile (· = '0')).reverse
  (significant, written.length + decimal.exponent)

/-- The digits before and after the point, written out with all zeros. -/
def places (decimal : Decimal) : List Char × List Char :=
  let (digits, point) := decimal.normalize
  if point ≤ 0 then (['0'], List.replicate (-point).toNat '0' ++ digits)
  else
    let whole := digits.take point.toNat
    (whole ++ List.replicate (point.toNat - whole.length) '0', digits.drop point.toNat)

/-- Every place written out; no point if there is no fraction. -/
def positional (decimal : Decimal) : String :=
  match decimal.places with
  | (whole, []) => String.ofList whole
  | (whole, fraction) => String.ofList (whole ++ '.' :: fraction)

/-- One digit before the point, then the exponent of ten. -/
def scientific (decimal : Decimal) : String :=
  let (digits, point) := decimal.normalize
  let mantissa :=
    match digits with
    | first :: second :: rest => first :: '.' :: second :: rest
    | few => few
  String.ofList mantissa ++ "e" ++ toString (point - 1)

end Decimal

/-- How the parts of a number's text are chosen. -/
structure FloatStyle where
  /-- Text of zero without its sign. -/
  zero : String
  /-- Text of a positive decimal. -/
  decimal : Decimal → String

namespace FloatStyle

/-- Plain notation: all places, no exponent, no mark on whole numbers. -/
def plain : FloatStyle := ⟨"0", Decimal.positional⟩

/-- Marked notation: whole numbers keep `.0`, and an exponent stands outside `[1e-4, 1e16)`. -/
def marked : FloatStyle where
  zero := "0.0"
  decimal decimal :=
    let leading := decimal.normalize.2 - 1
    if leading < -4 ∨ 16 ≤ leading then decimal.scientific
    else if decimal.places.2.isEmpty then decimal.positional ++ ".0"
    else decimal.positional

/-- Text of a number of the given format. -/
def render (style : FloatStyle) (format : FloatFormat) : FloatDatum → String
  | .nan => "NaN"
  | .infinite negative => if negative then "-inf" else "inf"
  | .finite negative significand exponent =>
      let magnitude :=
        if significand = 0 then style.zero
        else style.decimal (Decimal.ofBinary format significand exponent)
      if negative then "-" ++ magnitude else magnitude

end FloatStyle

/-- Text of a four-byte number. -/
def Single.render (style : FloatStyle) (x : Single) : String :=
  style.render FloatFormat.binary32 x.toDatum

/-- Text of an eight-byte number. -/
def Double.render (style : FloatStyle) (x : Double) : String :=
  style.render FloatFormat.binary64 x.toDatum

end ExprCode
