import ExprCode.Proofs.ExprTree
import ExprCode.Proofs.Runs

/-! # The typing judgement

`Typed environment typing scope expr type` says that what `typing` knows about the nodes of an
expression is what the rules of the language say, and that the expression has the type.
`Typing.typed_of_run` says that typing an expression in which no node occurs twice finds out exactly
that. -/

namespace ExprCode

/-! ## Rules for operators -/

section Rules

variable (env : Environment)

/-- The type of a name: of the innermost binding, or of a variable. -/
def nameType? (name : String) (scope : TypeScope) : Option Ty :=
  (scope.lookup name).or ((env.findVariable? name).map (·.2))

/-- How an operator on one operand is carried out, with the type of its result. -/
inductive UnaryRule (op : UnaryOp) (type : Ty) : Resolution → Ty → Prop
  /-- By a method of a named type. -/
  | overload {method : OperatorMethod} (named : type.isNamed)
      (found : env.operators.unaryOverload? op type = some method) :
      UnaryRule op type (.overload method) method.result
  /-- By the machine. -/
  | primitive {result : Ty} (plain : ¬ type.isNamed)
      (found : Typing.unaryOperand? op type = some result) :
      UnaryRule op type (.primitive result) result

/-- How an operator on two operands is carried out, with the type of its result. -/
inductive BinaryRule (operator : String) (left right : Ty) (operand? : Option Ty)
    (result : Ty → Ty) :
    Resolution → Ty → Prop
  /-- By a method, if an operand has a named type. -/
  | overload {method : OperatorMethod} (named : left.isNamed || right.isNamed)
      (found : env.operators.binaryOverload operator left right = .ok (some method)) :
      BinaryRule operator left right operand? result (.overload method) method.result
  /-- By the machine. -/
  | primitive {operand : Ty} (plain : ¬ (left.isNamed || right.isNamed))
      (found : operand? = some operand) :
      BinaryRule operator left right operand? result (.primitive operand) (result operand)

/-- How a shift is carried out, with the type of its result. -/
inductive ShiftRule (direction : ShiftDirection) : Ty → Resolution → Ty → Prop
  /-- By a method of a named type. -/
  | overload {name : String} {method : OperatorMethod}
      (found : env.operators.find? direction.methodName (.named name)
        [.named name, .int .i32] = some method) :
      ShiftRule direction (.named name) (.overload method) method.result
  /-- By the machine. -/
  | primitive (type : IntType) :
      ShiftRule direction (.int type) (.primitive (.int type.promoted)) (.int type.promoted)

/-- How an item of a membership test is compared with the operand. -/
inductive ItemRule (operand item : Ty) : Resolution → Prop
  /-- By a method, if one of them has a named type. -/
  | overload {method : OperatorMethod} (named : operand.isNamed || item.isNamed)
      (found : env.operators.binaryOverload (Relation.methodName .eq) operand item =
        .ok (some method)) :
      ItemRule operand item (.overload method)
  /-- By the machine. -/
  | primitive {type : Ty} (plain : ¬ (operand.isNamed || item.isNamed))
      (found : Typing.comparisonOperand? .eq operand item = some type) :
      ItemRule operand item (.primitive type)

end Rules

section Unique

variable {env : Environment} {resolution other : Resolution} {type otherType : Ty}

/-- The type of the operand leaves one way to carry out an operator. -/
theorem UnaryRule.unique {op : UnaryOp} {operand : Ty}
    (rule : UnaryRule env op operand resolution type)
    (otherRule : UnaryRule env op operand other otherType) :
    resolution = other ∧ type = otherType := by
  cases rule with
  | overload named found =>
    cases otherRule with
    | overload _ otherFound => simp_all
    | primitive plain _ => exact absurd named plain
  | primitive plain found =>
    cases otherRule with
    | overload named _ => exact absurd named plain
    | primitive _ otherFound => simp_all

/-- The types of two operands leave one way to carry out an operator. -/
theorem BinaryRule.unique {operator : String} {left right : Ty} {operand? : Option Ty}
    {result : Ty → Ty}
    (rule : BinaryRule env operator left right operand? result resolution type)
    (otherRule : BinaryRule env operator left right operand? result other otherType) :
    resolution = other ∧ type = otherType := by
  cases rule with
  | overload named found =>
    cases otherRule with
    | overload _ otherFound => simp_all
    | primitive plain _ => exact absurd named plain
  | primitive plain found =>
    cases otherRule with
    | overload named _ => exact absurd named plain
    | primitive _ otherFound => simp_all

/-- The type of the operand leaves one way to carry out a shift. -/
theorem ShiftRule.unique {direction : ShiftDirection} {operand : Ty}
    (rule : ShiftRule env direction operand resolution type)
    (otherRule : ShiftRule env direction operand other otherType) :
    resolution = other ∧ type = otherType := by
  cases rule with
  | overload found =>
    cases otherRule with
    | overload otherFound => simp_all
  | primitive =>
    cases otherRule with
    | primitive => exact ⟨rfl, rfl⟩

/-- The types of operand and item leave one way to compare them. -/
theorem ItemRule.unique {operand item : Ty} (rule : ItemRule env operand item resolution)
    (otherRule : ItemRule env operand item other) : resolution = other := by
  cases rule with
  | overload named found =>
    cases otherRule with
    | overload _ otherFound => simp_all
    | primitive plain _ => exact absurd named plain
  | primitive plain found =>
    cases otherRule with
    | overload named _ => exact absurd named plain
    | primitive _ otherFound => simp_all

end Unique

/-! ## The judgement -/

variable (env : Environment) (typing : Typing)

mutual

/-- An expression has a type under the names in scope, and the tables know it. -/
inductive Typed : TypeScope → Expr → Ty → Prop
  | literal {scope : TypeScope} {node : Node} {value : Literal}
      (known : typing.types[node.id]? = some value.ty) :
      Typed scope (.literal node value) value.ty
  | ident {scope : TypeScope} {node : Node} {name : String} {type : Ty}
      (found : nameType? env name scope = some type)
      (known : typing.types[node.id]? = some type) :
      Typed scope (.ident node name) type
  | unary {scope : TypeScope} {node : Node} {op : UnaryOp} {operand : Expr} {operandType type : Ty}
      {resolution : Resolution} (operandTyped : Typed scope operand operandType)
      (rule : UnaryRule env op operandType resolution type)
      (resolved : typing.resolutions[node.id]? = some resolution)
      (known : typing.types[node.id]? = some type) :
      Typed scope (.unary node op operand) type
  | arithmetic {scope : TypeScope} {node : Node} {op : ArithmeticOp} {left right : Expr}
      {leftType rightType type : Ty} {resolution : Resolution}
      (leftTyped : Typed scope left leftType) (rightTyped : Typed scope right rightType)
      (rule : BinaryRule env op.methodName leftType rightType
        (Typing.arithmeticOperand? op leftType rightType) id resolution type)
      (resolved : typing.resolutions[node.id]? = some resolution)
      (known : typing.types[node.id]? = some type) :
      Typed scope (.arithmetic node op left right) type
  | comparison {scope : TypeScope} {node : Node} {relation : Relation} {left right : Expr}
      {leftType rightType type : Ty} {resolution : Resolution}
      (leftTyped : Typed scope left leftType) (rightTyped : Typed scope right rightType)
      (rule : BinaryRule env relation.methodName leftType rightType
        (Typing.comparisonOperand? relation leftType rightType) (fun _ => .bool) resolution type)
      (resolved : typing.resolutions[node.id]? = some resolution)
      (known : typing.types[node.id]? = some type) :
      Typed scope (.comparison node relation left right) type
  | chain {scope : TypeScope} {node : Node} {connective : Connective} {left right : Expr}
      (leftTyped : Typed scope left .bool) (rightTyped : Typed scope right .bool)
      (known : typing.types[node.id]? = some .bool) :
      Typed scope (.logical node connective left right) .bool
  | bitwise {scope : TypeScope} {node : Node} {connective : Connective} {left right : Expr}
      {leftType rightType type : Ty} {resolution : Resolution}
      (leftTyped : Typed scope left leftType) (rightTyped : Typed scope right rightType)
      (notBoth : ¬ (leftType = .bool ∧ rightType = .bool))
      (rule : BinaryRule env connective.methodName leftType rightType
        (leftType.bitwiseOperand? rightType) id resolution type)
      (resolved : typing.resolutions[node.id]? = some resolution)
      (known : typing.types[node.id]? = some type) :
      Typed scope (.logical node connective left right) type
  | xor {scope : TypeScope} {node : Node} {left right : Expr} {leftType rightType type : Ty}
      {resolution : Resolution}
      (leftTyped : Typed scope left leftType) (rightTyped : Typed scope right rightType)
      (rule : BinaryRule env xorMethodName leftType rightType
        (leftType.bitwiseOperand? rightType) id resolution type)
      (resolved : typing.resolutions[node.id]? = some resolution)
      (known : typing.types[node.id]? = some type) :
      Typed scope (.xor node left right) type
  | shift {scope : TypeScope} {node : Node} {direction : ShiftDirection} {left right : Expr}
      {leftType rightType type : Ty} {resolution : Resolution}
      (leftTyped : Typed scope left leftType) (rightTyped : Typed scope right rightType)
      (count : Typing.isCount rightType)
      (rule : ShiftRule env direction leftType resolution type)
      (resolved : typing.resolutions[node.id]? = some resolution)
      (known : typing.types[node.id]? = some type) :
      Typed scope (.shift node direction left right) type
  | conditional {scope : TypeScope} {node : Node} {condition thenBranch elseBranch : Expr}
      {thenType elseType type : Ty} (conditionTyped : Typed scope condition .bool)
      (thenTyped : Typed scope thenBranch thenType) (elseTyped : Typed scope elseBranch elseType)
      (unified : env.operators.unify thenType elseType = .ok (some type))
      (known : typing.types[node.id]? = some type) :
      Typed scope (.conditional node condition thenBranch elseBranch) type
  | member {scope : TypeScope} {node : Node} {operand : Expr} {items : List Expr} {operandType : Ty}
      (operandTyped : Typed scope operand operandType)
      (itemsTyped : TypedItems scope operandType items)
      (known : typing.types[node.id]? = some .bool) :
      Typed scope (.member node operand items) .bool
  | index {scope : TypeScope} {node : Node} {array position : Expr} {element positionType : Ty}
      (arrayTyped : Typed scope array (.array element))
      (positionTyped : Typed scope position positionType)
      (count : Typing.isCount positionType)
      (known : typing.types[node.id]? = some element) :
      Typed scope (.index node array position) element
  | array {scope : TypeScope} {node : Node} {first : Expr} {rest : List Expr}
      {firstType element : Ty}
      (firstTyped : Typed scope first firstType)
      (restTyped : TypedElements scope firstType rest element)
      (known : typing.types[node.id]? = some (.array element)) :
      Typed scope (.array node (first :: rest)) (.array element)
  | call {scope : TypeScope} {node : Node} {name : String} {arguments : List Expr}
      {signature : FunctionSignature}
      (found : env.findFunction? name = some signature)
      (sameLength : signature.params.length = arguments.length)
      (argumentsTyped : TypedArguments scope signature.params arguments)
      (known : typing.types[node.id]? = some signature.result) :
      Typed scope (.call node name arguments) signature.result
  | cast {scope : TypeScope} {node : Node} {operand : Expr} {source target : Ty}
      (operandTyped : Typed scope operand source)
      (possible : Typing.canCast env source target = .ok true)
      (known : typing.types[node.id]? = some target) :
      Typed scope (.cast node operand target) target
  | bindings {scope inner : TypeScope} {node : Node} {body : Expr} {values : List (String × Expr)}
      {type : Ty} (valuesTyped : TypedBindings scope values inner)
      (bodyTyped : Typed inner body type)
      (known : typing.types[node.id]? = some type) :
      Typed scope (.bindings node body values) type

/-- The items of a membership test have types that can be compared with that of the operand. -/
inductive TypedItems : TypeScope → Ty → List Expr → Prop
  | nil {scope : TypeScope} {operandType : Ty} : TypedItems scope operandType []
  | cons {scope : TypeScope} {operandType itemType : Ty} {item : Expr} {items : List Expr}
      {test : Resolution} (itemTyped : Typed scope item itemType)
      (rule : ItemRule env operandType itemType test)
      (tested : typing.memberships[item.id]? = some test)
      (itemsTyped : TypedItems scope operandType items) :
      TypedItems scope operandType (item :: items)

/-- The elements of an array behind those whose common type is given, and the common type of all. -/
inductive TypedElements : TypeScope → Ty → List Expr → Ty → Prop
  | nil {scope : TypeScope} {element : Ty} : TypedElements scope element [] element
  | cons {scope : TypeScope} {element type common result : Ty} {other : Expr} {rest : List Expr}
      (otherTyped : Typed scope other type)
      (unified : env.operators.unify element type = .ok (some common))
      (restTyped : TypedElements scope common rest result) :
      TypedElements scope element (other :: rest) result

/-- Arguments have types that convert to the parameter types. -/
inductive TypedArguments : TypeScope → List Ty → List Expr → Prop
  | nil {scope : TypeScope} : TypedArguments scope [] []
  | cons {scope : TypeScope} {param type : Ty} {params : List Ty} {argument : Expr}
      {arguments : List Expr} (argumentTyped : Typed scope argument type)
      (converts : env.operators.canConvert type param = .ok true)
      (argumentsTyped : TypedArguments scope params arguments) :
      TypedArguments scope (param :: params) (argument :: arguments)

/-- Bound values have types, which extend the scope one after the other. -/
inductive TypedBindings : TypeScope → List (String × Expr) → TypeScope → Prop
  | nil {scope : TypeScope} : TypedBindings scope [] scope
  | cons {scope inner : TypeScope} {name : String} {value : Expr} {values : List (String × Expr)}
      {type : Ty} (valueTyped : Typed scope value type)
      (valuesTyped : TypedBindings ((name, type) :: scope) values inner) :
      TypedBindings scope ((name, value) :: values) inner

end

/-- The tables know the type of a typed expression. -/
theorem Typed.known {env : Environment} {typing : Typing} {scope : TypeScope} {expr : Expr}
    {type : Ty} (typed : Typed env typing scope expr type) :
    typing.types[expr.id]? = some type := by
  cases typed <;> assumption

section Lists

variable {env : Environment} {typing : Typing} {scope : TypeScope}

/-- The elements behind the first of an array literal have types. -/
theorem TypedElements.each {element common : Ty} {rest : List Expr}
    (typed : TypedElements env typing scope element rest common) :
    ∀ other ∈ rest, ∃ type, Typed env typing scope other type := by
  induction rest generalizing element with
  | nil => exact fun _ listed => absurd listed List.not_mem_nil
  | cons other rest ih =>
    cases typed with
    | cons otherTyped unified restTyped =>
      exact List.forall_mem_cons.2 ⟨⟨_, otherTyped⟩, ih restTyped⟩

/-- The elements of an array literal have types. -/
theorem Typed.elements {node : Node} {elements : List Expr} {type : Ty}
    (typed : Typed env typing scope (.array node elements) type) :
    ∀ value ∈ elements, ∃ type, Typed env typing scope value type := by
  cases typed with
  | array firstTyped restTyped known =>
    exact List.forall_mem_cons.2 ⟨⟨_, firstTyped⟩, restTyped.each⟩

/-- The arguments of a call have types. -/
theorem TypedArguments.each {params : List Ty} {arguments : List Expr}
    (typed : TypedArguments env typing scope params arguments) :
    ∀ argument ∈ arguments, ∃ type, Typed env typing scope argument type := by
  induction arguments generalizing params with
  | nil => exact fun _ listed => absurd listed List.not_mem_nil
  | cons argument arguments ih =>
    cases typed with
    | cons argumentTyped converts argumentsTyped =>
      exact List.forall_mem_cons.2 ⟨⟨_, argumentTyped⟩, ih argumentsTyped⟩

/-- The items of a membership test have types. -/
theorem TypedItems.each {operandType : Ty} {items : List Expr}
    (typed : TypedItems env typing scope operandType items) :
    ∀ item ∈ items, ∃ type, Typed env typing scope item type := by
  induction items with
  | nil => exact fun _ listed => absurd listed List.not_mem_nil
  | cons item items ih =>
    cases typed with
    | cons itemTyped rule tested itemsTyped =>
      exact List.forall_mem_cons.2 ⟨⟨_, itemTyped⟩, ih itemsTyped⟩

/-- Bound values have types, each under the names before it. -/
theorem TypedBindings.each {inner : TypeScope} {values : List (String × Expr)}
    (typed : TypedBindings env typing scope values inner) :
    ∀ value ∈ values.map (·.2), ∃ within type, Typed env typing within value type := by
  induction values generalizing scope with
  | nil => exact fun _ listed => absurd listed List.not_mem_nil
  | cons value values ih =>
    cases typed with
    | cons valueTyped valuesTyped =>
      exact List.forall_mem_cons.2 ⟨⟨_, _, valueTyped⟩, ih valuesTyped⟩

end Lists

/-! ## Parts of typed expressions -/

section Parts

variable {env : Environment} {typing : Typing} {scope : TypeScope} {expr : Expr} {type : Ty}

/-- The expressions directly below a typed one are typed. -/
theorem Typed.child (typed : Typed env typing scope expr type) :
    ∀ child ∈ expr.children, ∃ within type, Typed env typing within child type := by
  have within {exprs : List Expr}
      (each : ∀ child ∈ exprs, ∃ type, Typed env typing scope child type) :
      ∀ child ∈ exprs, ∃ within type, Typed env typing within child type :=
    fun child listed => ⟨scope, each child listed⟩
  have pair {first second : Expr} {firstType secondType : Ty}
      (firstTyped : Typed env typing scope first firstType)
      (secondTyped : Typed env typing scope second secondType) :
      ∀ child ∈ [first, second], ∃ within type, Typed env typing within child type :=
    List.forall_mem_cons.2 ⟨⟨_, _, firstTyped⟩, List.forall_mem_singleton.2 ⟨_, _, secondTyped⟩⟩
  cases typed with
  | literal | ident => exact fun _ none => absurd none List.not_mem_nil
  | unary operandTyped | cast operandTyped => exact List.forall_mem_singleton.2 ⟨_, _, operandTyped⟩
  | arithmetic leftTyped rightTyped => exact pair leftTyped rightTyped
  | comparison leftTyped rightTyped => exact pair leftTyped rightTyped
  | chain leftTyped rightTyped => exact pair leftTyped rightTyped
  | bitwise leftTyped rightTyped => exact pair leftTyped rightTyped
  | xor leftTyped rightTyped => exact pair leftTyped rightTyped
  | shift leftTyped rightTyped => exact pair leftTyped rightTyped
  | index arrayTyped positionTyped => exact pair arrayTyped positionTyped
  | conditional conditionTyped thenTyped elseTyped =>
    exact List.forall_mem_cons.2 ⟨⟨_, _, conditionTyped⟩, pair thenTyped elseTyped⟩
  | member operandTyped itemsTyped =>
    exact List.forall_mem_cons.2 ⟨⟨_, _, operandTyped⟩, within itemsTyped.each⟩
  | array firstTyped restTyped =>
    exact List.forall_mem_cons.2 ⟨⟨_, _, firstTyped⟩, within restTyped.each⟩
  | call _ _ argumentsTyped => exact within argumentsTyped.each
  | bindings valuesTyped bodyTyped =>
    exact List.forall_mem_cons.2 ⟨⟨_, _, bodyTyped⟩, valuesTyped.each⟩

/-- All parts of a typed expression are typed. -/
theorem Typed.part (typed : Typed env typing scope expr type) :
    ∀ part ∈ expr.parts, ∃ within type, Typed env typing within part type := by
  -- by induction on the size, as children may be in lists
  induction size : sizeOf expr using Nat.strong_induction_on generalizing scope expr type with
  | _ bound ih =>
    refine Expr.forall_parts ⟨scope, type, typed⟩ fun child isChild => ?_
    obtain ⟨_, _, childTyped⟩ := typed.child child isChild
    exact ih _ (size ▸ Expr.sizeOf_lt_of_child isChild) childTyped rfl

end Parts

end ExprCode
