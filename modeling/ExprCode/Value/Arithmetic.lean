import ExprCode.Opcode
import ExprCode.RuntimeError
import ExprCode.Value

/-! # Arithmetic on values

The functions that the machine applies to values. Two operands must have the same type: promotion
has happened before. -/

namespace ExprCode

/-- A function of two integers of one type. -/
def Word.apply (function : BinaryFunction) (left right : Word) : Except RuntimeError Word :=
  match function with
  | .add => .ok (left.add right)
  | .sub => .ok (left.sub right)
  | .mul => .ok (left.mul right)
  | .div => if right.value = 0 then .error .divisionByZero else .ok (left.div right)
  | .rem => if right.value = 0 then .error .divisionByZero else .ok (left.rem right)
  | .and => .ok (left.and right)
  | .or => .ok (left.or right)
  | .xor => .ok (left.xor right)
  | .pow => .error (.invalidProgram .notDefinedOnIntegers)

/-- A function of two four-byte numbers. -/
def Single.apply (function : BinaryFunction) (left right : Single) : Except RuntimeError Single :=
  match function with
  | .add => .ok (left.add right)
  | .sub => .ok (left.sub right)
  | .mul => .ok (left.mul right)
  | .div => .ok (left.div right)
  | .rem => .ok (left.rem right)
  | .pow => .ok (left.pow right)
  | .and | .or | .xor => .error (.invalidProgram .notDefinedOnFloats)

/-- A function of two eight-byte numbers. -/
def Double.apply (function : BinaryFunction) (left right : Double) : Except RuntimeError Double :=
  match function with
  | .add => .ok (left.add right)
  | .sub => .ok (left.sub right)
  | .mul => .ok (left.mul right)
  | .div => .ok (left.div right)
  | .rem => .ok (left.rem right)
  | .pow => .ok (left.pow right)
  | .and | .or | .xor => .error (.invalidProgram .notDefinedOnFloats)

/-- A function of two truth values. -/
def applyBool (function : BinaryFunction) (left right : Bool) : Except RuntimeError Bool :=
  match function with
  | .and => .ok (left && right)
  | .or => .ok (left || right)
  | .xor => .ok (left ^^ right)
  | _ => .error (.invalidProgram .notDefinedOnBooleans)

namespace Value

/-- Apply a function of two operands. Strings can only be joined. -/
def binary (function : BinaryFunction) : Value → Value → Except RuntimeError Value
  | int left, int right =>
      if left.type = right.type then int <$> left.apply function right
      else .error (.invalidProgram .operandTypesDiffer)
  | single left, single right => single <$> left.apply function right
  | double left, double right => double <$> left.apply function right
  | bool left, bool right => bool <$> applyBool function left right
  | str left, str right =>
      if function = .add then .ok (str (left ++ right))
      else .error (.invalidProgram .operandTypesDiffer)
  | _, _ => .error (.invalidProgram .operandTypesDiffer)

/-- Negate a signed number of at least four bytes. -/
def negate : Value → Except RuntimeError Value
  | int word =>
      match word.type with
      | .i32 | .i64 => .ok (int word.neg)
      | _ => .error (.invalidProgram .invalidNegation)
  | single x => .ok (single x.neg)
  | double x => .ok (double x.neg)
  | _ => .error (.invalidProgram .invalidNegation)

/-- Whether an integer type is wide enough for bit operations on one operand. -/
def isWide : IntType → Bool
  | .i32 | .u32 | .i64 | .u64 => true
  | _ => false

/-- Complement a truth value, or the bits of an integer of at least four bytes. -/
def complement : Value → Except RuntimeError Value
  | bool b => .ok (bool !b)
  | int word =>
      if isWide word.type then .ok (int word.complement)
      else .error (.invalidProgram .invalidComplement)
  | _ => .error (.invalidProgram .invalidComplement)

/-- Shift an integer of at least four bytes. -/
def shift (direction : ShiftDirection) (count : UInt32) : Value → Except RuntimeError Value
  | int word =>
      if isWide word.type then
        match direction with
        | .left => .ok (int (word.shiftLeft count))
        | .right => .ok (int (word.shiftRight count))
      else .error (.invalidProgram .invalidShift)
  | _ => .error (.invalidProgram .invalidShift)

/-- Order of two values of one type; absent if one of them is no number. -/
def compare : Value → Value → Except RuntimeError (Option Ordering)
  | bool left, bool right => .ok (some (Ord.compare left right))
  | int left, int right =>
      if left.type = right.type then .ok (some (Ord.compare left.value right.value))
      else .error (.invalidProgram .invalidComparison)
  | single left, single right => .ok (left.compare? right)
  | double left, double right => .ok (left.compare? right)
  | str left, str right => .ok (some (Ord.compare left right))
  | _, _ => .error (.invalidProgram .invalidComparison)

end Value

/-- Whether a relation holds of two values in the given order. Unordered values are unequal and
stand in no other relation. -/
def Relation.holds : Relation → Option Ordering → Bool
  | .eq, ordering => ordering == some .eq
  | .ne, ordering => ordering != some .eq
  | .lt, ordering => ordering == some .lt
  | .gt, ordering => ordering == some .gt
  | .le, ordering => ordering == some .lt || ordering == some .eq
  | .ge, ordering => ordering == some .gt || ordering == some .eq

end ExprCode
