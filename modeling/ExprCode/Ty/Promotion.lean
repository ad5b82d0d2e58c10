import ExprCode.Ty

/-! # Numeric promotion

Which numeric types convert to which without being asked, and the type in which an operator on two
numbers is carried out. -/

namespace ExprCode

/-- The wider integer types to which an integer type converts by itself. -/
def IntType.widensTo : IntType → List IntType
  | .i8 => [.i16, .i32, .i64]
  | .u8 => [.i16, .u16, .i32, .u32, .i64, .u64]
  | .i16 => [.i32, .i64]
  | .u16 => [.i32, .u32, .i64, .u64]
  | .i32 => [.i64]
  | .u32 => [.i64, .u64]
  | .i64 | .u64 => []

/-- The integer type in which an operator on one integer is carried out. -/
def IntType.promoted : IntType → IntType
  | .i8 | .u8 | .i16 | .u16 | .i32 => .i32
  | .u32 => .u32
  | .i64 => .i64
  | .u64 => .u64

namespace Ty

/-- Whether a type becomes a different number type without being asked: integers widen, every
integer becomes a floating-point number, and four bytes of it become eight. -/
def widensTo : Ty → Ty → Bool
  | int source, int target => source.widensTo.contains target
  | int _, single | int _, double | single, double => true
  | _, _ => false

/-- Whether a value of the first type may stand where the second is expected. -/
def isImplicitlyConvertible (source target : Ty) : Bool :=
  source == target || source.widensTo target

/-- The types in which binary arithmetic is carried out, the preferred ones first. -/
def arithmeticTypes : List Ty :=
  [int .i32, int .u32, int .i64, int .u64, single, double]

/-- The type in which arithmetic on two numbers is carried out: the first arithmetic type to which
both convert. -/
def binaryResult? (left right : Ty) : Option Ty :=
  if left.isNumeric && right.isNumeric then
    arithmeticTypes.find? fun candidate =>
      left.isImplicitlyConvertible candidate && right.isImplicitlyConvertible candidate
  else none

/-- The type in which a bitwise operator is carried out. Truth values go with truth values only. -/
def bitwiseOperand? : Ty → Ty → Option Ty
  | bool, bool => some bool
  | int left, int right => (binaryResult? (int left) (int right)).filter isIntegral
  | _, _ => none

/-- The type in which an operator on one number is carried out. -/
def unaryPromoted? : Ty → Option Ty
  | int type => some (int type.promoted)
  | single => some single
  | double => some double
  | _ => none

end Ty

end ExprCode
