import ExprCode.Operators
import ExprCode.Ty.Promotion

/-! # Overload resolution

How the methods of an environment give meaning to operators and conversions on named types. An
operator method is sought with the exact operand types first, then with one operand converted to the
type of the other. -/

namespace ExprCode

/-- Whether a type is known to the host only. -/
def Ty.isNamed : Ty → Bool
  | .named _ => true
  | _ => false

/-- Name of the operator that converts without being asked. -/
def implicitConversion : String := "Implicit"

/-- Name of the operator that converts when asked to. -/
def explicitConversion : String := "Explicit"

/-- Name of the operator method. -/
def UnaryOp.methodName : UnaryOp → String
  | .neg => "UnaryNegation"
  | .not => "LogicalNot"

/-- Name of the operator method. -/
def ArithmeticOp.methodName : ArithmeticOp → String
  | .add => "Addition"
  | .sub => "Subtraction"
  | .mul => "Multiply"
  | .div => "Division"
  | .rem => "Modulus"
  | .pow => "Exponent"

/-- Name of the operator method. -/
def Relation.methodName : Relation → String
  | .eq => "Equality"
  | .ne => "Inequality"
  | .lt => "LessThan"
  | .gt => "GreaterThan"
  | .le => "LessThanOrEqual"
  | .ge => "GreaterThanOrEqual"

/-- Name of the operator method. -/
def Connective.methodName : Connective → String
  | .and => "BitwiseAnd"
  | .or => "BitwiseOr"

/-- Name of the operator method of exclusive disjunction. -/
def xorMethodName : String := "ExclusiveOr"

/-- Name of the operator method. -/
def ShiftDirection.methodName : ShiftDirection → String
  | .left => "LeftShift"
  | .right => "RightShift"

namespace OperatorRegistry

variable (registry : OperatorRegistry)

/-- The method that converts between two types, one of which must be a named type. -/
def conversionMethod (operator : String) (source target : Ty) :
    Except Defect (Option OperatorMethod) :=
  if source.isNamed || target.isNamed then registry.findConversion operator source target
  else .ok none

/-- Whether a value of the first type may stand where the second is expected, by promotion or by a
method. -/
def canConvert (source target : Ty) : Except Defect Bool := do
  if source.isImplicitlyConvertible target then return true
  else return (← registry.conversionMethod implicitConversion source target).isSome

/-- The type to which two types are brought together. -/
def unify (a b : Ty) : Except Defect (Option Ty) := do
  if a.isImplicitlyConvertible b then return some b
  else if b.isImplicitlyConvertible a then return some a
  else
    match a.binaryResult? b with
    | some common => return some common
    | none =>
        if ← registry.canConvert a b then return some b
        else if ← registry.canConvert b a then return some a
        else return none

/-- The method of an operator on one operand. -/
def unaryOverload? (op : UnaryOp) (type : Ty) : Option OperatorMethod :=
  registry.find? op.methodName type [type]

/-- The parameter types that an operator on two operands may have, the preferred ones first. -/
def binarySignatures (left right : Ty) : Except Defect (List (List Ty)) := do
  if left = right then return [[left, right]]
  else
    let rightConverts ← registry.canConvert right left
    let leftConverts ← registry.canConvert left right
    return [left, right] ::
      ((if rightConverts then [[left, left]] else []) ++
        (if leftConverts then [[right, right]] else []))

/-- The method of an operator on two operands. It may be declared on either operand type. -/
def binaryOverload (operator : String) (left right : Ty) :
    Except Defect (Option OperatorMethod) := do
  let signatures ← registry.binarySignatures left right
  return signatures.findSome? fun signature =>
    [left, right].findSome? fun type => registry.find? operator type signature

end OperatorRegistry

end ExprCode
