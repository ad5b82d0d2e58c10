import ExprCode.Environment
import ExprCode.Operators.Overload
import Std.Data.TreeMap

/-! # Typing

The type of an expression in an environment, and how its operators are to be carried out. What is
found out about a node is kept under its identity: a node that occurs several times is typed where
it occurs first, and a node that is an item of several membership tests keeps the last test. -/

namespace ExprCode

/-- How an operator is carried out. -/
inductive Resolution where
  /-- By the machine, with the operands converted to a type. -/
  | primitive (operand : Ty)
  /-- By an operator method. -/
  | overload (method : OperatorMethod)
  deriving DecidableEq

/-- What has been found out about nodes. -/
structure Typing where
  /-- Types of nodes. -/
  types : Std.TreeMap NodeId Ty := ∅
  /-- How operator nodes are carried out. -/
  resolutions : Std.TreeMap NodeId Resolution := ∅
  /-- How items are compared in membership tests. -/
  memberships : Std.TreeMap NodeId Resolution := ∅

/-- The types of bound names, innermost first. -/
abbrev TypeScope := List (String × Ty)

/-- An operation that finds out about nodes. -/
abbrev Infer := EStateM CompileError Typing

namespace Typing

/-- Reject an expression. -/
def reject {α : Type} (key : MessageKey) (arguments : List String) (span : Span) : Infer α :=
  throw (.reject key arguments span)

/-- The result of a look-up among operator methods. -/
def ofExcept {α : Type} : Except Defect α → Infer α
  | .ok value => pure value
  | .error defect => throw (.defect defect)

/-- The type of a node: the one that is known, or the one that is found now. -/
def remember (node : Node) (infer : Infer Ty) : Infer Ty := do
  match (← get).types[node.id]? with
  | some type => return type
  | none =>
      let type ← infer
      modify fun typing => { typing with types := typing.types.insert node.id type }
      return type

/-- Keep how an operator node is carried out. -/
def resolve (node : Node) (resolution : Resolution) : Infer Unit :=
  modify fun typing => { typing with resolutions := typing.resolutions.insert node.id resolution }

/-- An operator that the machine carries out on operands of a type. -/
def primitive (node : Node) (operand result : Ty) : Infer Ty := do
  resolve node (.primitive operand)
  return result

/-- An operator that a method carries out. -/
def overload (node : Node) (method : OperatorMethod) : Infer Ty := do
  resolve node (.overload method)
  return method.result

variable (env : Environment)

/-- The type of a name: of the innermost binding, or of a variable. -/
def typeName (node : Node) (name : String) (scope : TypeScope) : Infer Ty :=
  match scope.lookup name with
  | some type => pure type
  | none =>
      match env.findVariable? name with
      | some (_, type) => pure type
      | none => reject .undefinedName [name] node.span

/-- The type in which the machine carries out an operator on one operand. -/
def unaryOperand? : UnaryOp → Ty → Option Ty
  | .not, .bool => some .bool
  | .not, .int type => some (.int type.promoted)
  | .neg, .int .u32 => some (.int .i64)
  | .neg, .int .u64 => none
  | .neg, type => if type.isNumeric then type.unaryPromoted? else none
  | .not, _ => none

/-- Type an operator on one operand. -/
def typeUnary (node : Node) (op : UnaryOp) (type : Ty) : Infer Ty :=
  let notDefined : Infer Ty := reject .operationNotDefinedForType [op.text, type.text] node.span
  if type.isNamed then
    match env.operators.unaryOverload? op type with
    | some method => overload node method
    | none => notDefined
  else
    match unaryOperand? op type with
    | some result => primitive node result result
    | none => notDefined

/-- Type an operator on two operands: by a method if one of them has a named type, and otherwise by
the machine, in the operand type given, with a result type that depends on it. -/
def typeBinary (node : Node) (symbol operator : String) (left right : Ty) (operand? : Option Ty)
    (result : Ty → Ty) : Infer Ty := do
  let notDefined : Infer Ty :=
    reject .operationNotDefinedForTypes [symbol, left.text, right.text] node.span
  if left.isNamed || right.isNamed then
    match ← ofExcept (env.operators.binaryOverload operator left right) with
    | some method => overload node method
    | none => notDefined
  else
    match operand? with
    | some operand => primitive node operand (result operand)
    | none => notDefined

/-- The type in which the machine carries out arithmetic. Strings can be added; powers are taken of
eight-byte numbers. -/
def arithmeticOperand? : ArithmeticOp → Ty → Ty → Option Ty
  | .add, .str, .str => some .str
  | .pow, left, right =>
      if left.isNumeric && right.isNumeric then some .double else left.binaryResult? right
  | _, left, right => left.binaryResult? right

/-- The type in which the machine compares two values. Truth values have no order. -/
def comparisonOperand? (relation : Relation) : Ty → Ty → Option Ty
  | .bool, .bool => if relation = .eq ∨ relation = .ne then some .bool else none
  | .str, .str => some .str
  | left, right => left.binaryResult? right

/-- Whether a type can count places or elements: the integer types. -/
def isCount : Ty → Bool
  | .int _ => true
  | _ => false

/-- Type a shift. The count is judged before the operand. -/
def typeShift (node : Node) (direction : ShiftDirection) (left right : Ty) (countSpan : Span) :
    Infer Ty :=
  let notDefined : Infer Ty :=
    reject .operationNotDefinedForType [direction.text, left.text] node.span
  if isCount right then
    match left with
    | .named _ =>
        match env.operators.find? direction.methodName left [left, .int .i32] with
        | some method => overload node method
        | none => notDefined
    | .int type => primitive node (.int type.promoted) (.int type.promoted)
    | _ => notDefined
  else reject .shiftCountNotInteger [right.text] countSpan

/-- How an item of a membership test is compared with the operand. -/
def membershipTest? (operand item : Ty) : Infer (Option Resolution) := do
  if operand.isNamed || item.isNamed then
    let method ← ofExcept (env.operators.binaryOverload (Relation.methodName .eq) operand item)
    return method.map .overload
  else return (comparisonOperand? .eq operand item).map .primitive

/-- Type an item of a membership test. -/
def typeItem (operand : Ty) (item : Node) (type : Ty) : Infer Unit := do
  match ← membershipTest? env operand type with
  | some test =>
      modify fun typing => { typing with memberships := typing.memberships.insert item.id test }
  | none => reject .membershipTypeMismatch [operand.text, type.text] item.span

/-- Type an argument of a call. -/
def typeArgument (param : Ty) (argument : Node) (type : Ty) : Infer Unit := do
  if ← ofExcept (env.operators.canConvert type param) then return
  else reject .cannotConvertType [type.text, param.text] argument.span

/-- Whether a cast between two types is possible. -/
def canCast (source target : Ty) : Except Defect Bool := do
  if ← env.operators.canConvert source target then return true
  else if source.isNumeric && target.isNumeric then return true
  else return (← env.operators.conversionMethod explicitConversion source target).isSome

mutual

/-- The type of an expression under the names in scope. -/
def typeOf : Expr → TypeScope → Infer Ty
  | .literal node value, _ => remember node (pure value.ty)
  | .ident node name, scope => remember node (typeName env node name scope)
  | .unary node op operand, scope => remember node do
      let type ← typeOf operand scope
      typeUnary env node op type
  | .arithmetic node op left right, scope => remember node do
      let leftType ← typeOf left scope
      let rightType ← typeOf right scope
      typeBinary env node op.text op.methodName leftType rightType
        (arithmeticOperand? op leftType rightType) id
  | .comparison node relation left right, scope => remember node do
      let leftType ← typeOf left scope
      let rightType ← typeOf right scope
      typeBinary env node relation.text relation.methodName leftType rightType
        (comparisonOperand? relation leftType rightType) fun _ => .bool
  | .logical node connective left right, scope => remember node do
      let leftType ← typeOf left scope
      let rightType ← typeOf right scope
      if leftType = .bool ∧ rightType = .bool then return .bool
      else
        typeBinary env node connective.text connective.methodName leftType rightType
          (leftType.bitwiseOperand? rightType) id
  | .xor node left right, scope => remember node do
      let leftType ← typeOf left scope
      let rightType ← typeOf right scope
      typeBinary env node "xor" xorMethodName leftType rightType
        (leftType.bitwiseOperand? rightType) id
  | .shift node direction left right, scope => remember node do
      let leftType ← typeOf left scope
      let rightType ← typeOf right scope
      typeShift env node direction leftType rightType right.span
  | .conditional node condition thenBranch elseBranch, scope => remember node do
      let conditionType ← typeOf condition scope
      if conditionType = .bool then
        let thenType ← typeOf thenBranch scope
        let elseType ← typeOf elseBranch scope
        match ← ofExcept (env.operators.unify thenType elseType) with
        | some type => return type
        | none => reject .branchTypeMismatch [thenType.text, elseType.text] node.span
      else reject .conditionNotBoolean [conditionType.text] condition.span
  | .member node operand items, scope => remember node do
      let operandType ← typeOf operand scope
      typeItems operandType items scope
      return .bool
  | .index node array position, scope => remember node do
      let arrayType ← typeOf array scope
      match arrayType.element? with
      | none => reject .notAnArray [arrayType.text] array.span
      | some element =>
          let positionType ← typeOf position scope
          if isCount positionType then return element
          else reject .indexNotInteger [positionType.text] position.span
  | .array node elements, scope => remember node do
      match elements with
      | [] => reject .emptyArrayLiteral [] node.span
      | first :: rest =>
          let firstType ← typeOf first scope
          return .array (← typeElements firstType rest scope)
  | .call node name arguments, scope => remember node do
      match env.findFunction? name with
      | none => reject .undefinedFunction [name] node.span
      | some signature =>
          if signature.params.length = arguments.length then
            typeArguments signature.params arguments scope
            return signature.result
          else
            reject .argumentCountMismatch
              [name, toString signature.params.length, toString arguments.length] node.span
  | .cast node operand target, scope => remember node do
      let source ← typeOf operand scope
      if ← ofExcept (canCast env source target) then return target
      else reject .noExplicitConversion [source.text, target.text] node.span
  | .bindings node body values, scope => remember node do
      let inner ← typeBindings values scope
      typeOf body inner

/-- Type the items of a membership test, first to last. -/
def typeItems (operand : Ty) : List Expr → TypeScope → Infer Unit
  | [], _ => return
  | item :: items, scope => do
      let type ← typeOf item scope
      typeItem env operand item.node type
      typeItems operand items scope

/-- The element type of an array, from the type of the elements before. -/
def typeElements (element : Ty) : List Expr → TypeScope → Infer Ty
  | [], _ => return element
  | other :: rest, scope => do
      let type ← typeOf other scope
      match ← ofExcept (env.operators.unify element type) with
      | some common => typeElements common rest scope
      | none => reject .arrayElementMismatch [element.text, type.text] other.span

/-- Type the arguments of a call, first to last. -/
def typeArguments : List Ty → List Expr → TypeScope → Infer Unit
  | param :: params, argument :: arguments, scope => do
      let type ← typeOf argument scope
      typeArgument env param argument.node type
      typeArguments params arguments scope
  | _, _, _ => return

/-- Type bound values, first to last; each is in scope of those behind it. -/
def typeBindings : List (String × Expr) → TypeScope → Infer TypeScope
  | [], scope => return scope
  | (name, value) :: rest, scope => do
      let type ← typeOf value scope
      typeBindings rest ((name, type) :: scope)

end

end Typing

/-- The type of an expression in an environment. -/
def check (env : Environment) (expr : Expr) : Except CompileError Ty :=
  match (Typing.typeOf env expr []).run {} with
  | .ok type _ => .ok type
  | .error error _ => .error error

end ExprCode
