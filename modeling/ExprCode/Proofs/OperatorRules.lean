import ExprCode.Proofs.Environments
import ExprCode.Proofs.TypeJudgement

/-! # What the rules for operators grant

An operator that typing accepted is carried out on operands that convert: by promotion to the type
in which the machine works, or to the parameters of a declared method. -/

namespace ExprCode

/-! ## Promotion -/

namespace Ty

/-- Both operands convert to the type in which arithmetic on them is carried out. -/
theorem implicit_of_binaryResult? {left right result : Ty}
    (found : left.binaryResult? right = some result) :
    left.isImplicitlyConvertible result ∧ right.isImplicitlyConvertible result := by
  unfold binaryResult? at found
  by_cases numbers : left.isNumeric && right.isNumeric
  · rw [if_pos numbers] at found
    simpa using List.find?_some found
  · rw [if_neg numbers] at found
    cases found

/-- Both operands convert to the type in which a bitwise operator is carried out. -/
theorem implicit_of_bitwiseOperand? {left right result : Ty}
    (found : left.bitwiseOperand? right = some result) :
    left.isImplicitlyConvertible result ∧ right.isImplicitlyConvertible result := by
  unfold bitwiseOperand? at found
  split at found
  · cases found
    exact ⟨rfl, rfl⟩
  · exact implicit_of_binaryResult? (Option.filter_eq_some_iff.1 found).1
  · cases found

/-- A number converts to the type in which an operator on it is carried out. -/
theorem implicit_of_unaryPromoted? {type result : Ty} (found : type.unaryPromoted? = some result) :
    type.isImplicitlyConvertible result := by
  cases type with
  | int type =>
    cases found
    cases type <;> rfl
  | single | double =>
    cases found
    rfl
  | _ => cases found

/-- Every number converts to an eight-byte number. -/
theorem implicit_double {type : Ty} (number : type.isNumeric) :
    type.isImplicitlyConvertible .double := by
  cases type <;> first | rfl | cases number

end Ty

namespace Typing

/-- The operand converts to the type in which an operator on it is carried out. -/
theorem implicit_of_unaryOperand? {op : UnaryOp} {type result : Ty}
    (found : unaryOperand? op type = some result) : type.isImplicitlyConvertible result := by
  unfold unaryOperand? at found
  split at found
  · cases found
    rfl
  · next type =>
    cases found
    cases type <;> rfl
  · cases found
    rfl
  · cases found
  · split at found
    · exact Ty.implicit_of_unaryPromoted? found
    · cases found
  · cases found

/-- Both operands convert to the type in which arithmetic on them is carried out. -/
theorem implicit_of_arithmeticOperand? {op : ArithmeticOp} {left right result : Ty}
    (found : arithmeticOperand? op left right = some result) :
    left.isImplicitlyConvertible result ∧ right.isImplicitlyConvertible result := by
  unfold arithmeticOperand? at found
  split at found
  · cases found
    exact ⟨rfl, rfl⟩
  · split at found
    · next numbers =>
      cases found
      rw [Bool.and_eq_true] at numbers
      exact ⟨Ty.implicit_double numbers.1, Ty.implicit_double numbers.2⟩
    · exact Ty.implicit_of_binaryResult? found
  · exact Ty.implicit_of_binaryResult? found

/-- Both operands convert to the type in which they are compared. -/
theorem implicit_of_comparisonOperand? {relation : Relation} {left right result : Ty}
    (found : comparisonOperand? relation left right = some result) :
    left.isImplicitlyConvertible result ∧ right.isImplicitlyConvertible result := by
  unfold comparisonOperand? at found
  split at found
  · split at found
    · cases found
      exact ⟨rfl, rfl⟩
    · cases found
  · cases found
    exact ⟨rfl, rfl⟩
  · exact Ty.implicit_of_binaryResult? found

end Typing

/-! ## Operands -/

/-- Types convert to other types, one by one. -/
inductive Converts (env : Environment) : List Ty → List Ty → Prop
  | nil : Converts env [] []
  | cons {source target : Ty} {sources targets : List Ty}
      (head : env.operators.canConvert source target = .ok true)
      (tail : Converts env sources targets) :
      Converts env (source :: sources) (target :: targets)

/-- The types that operands are converted to when an operator is carried out. -/
def Resolution.targets {α : Type} (operands : List α) : Resolution → List Ty
  | .primitive type => operands.map fun _ => type
  | .overload method => method.params

/-- Operands convert as an operator needs them, and a method that carries it out is declared. -/
structure Resolution.Accepts (env : Environment) (operands : List Ty)
    (resolution : Resolution) : Prop where
  /-- The operands convert. -/
  converts : Converts env operands (resolution.targets operands)
  /-- The method is declared. -/
  declared : ∀ method, resolution = .overload method →
    ∃ type, (type, method) ∈ env.operators.declared

section Rules

variable {env : Environment} {resolution : Resolution} {type : Ty}

/-- Two operands that are promoted to one type. -/
theorem Resolution.accepts_primitive {left right result : Ty}
    (implicit : left.isImplicitlyConvertible result ∧ right.isImplicitlyConvertible result) :
    (Resolution.primitive result).Accepts env [left, right] where
  converts := .cons (OperatorRegistry.canConvert_of_implicit implicit.1)
    (.cons (OperatorRegistry.canConvert_of_implicit implicit.2) .nil)
  declared _ h := by cases h

/-- Two operands of a method. -/
theorem Resolution.accepts_overload {operator : String} {left right : Ty} {method : OperatorMethod}
    (found : env.operators.binaryOverload operator left right = .ok (some method)) :
    (Resolution.overload method).Accepts env [left, right] := by
  obtain ⟨declared, -, first, second, params, leftConverts, rightConverts⟩ :=
    OperatorRegistry.binaryOverload_eq_some found
  refine ⟨?_, fun _ h => by cases h; exact declared⟩
  rw [targets, params]
  exact .cons leftConverts (.cons rightConverts .nil)

/-- A unary rule accepts its operand. -/
theorem UnaryRule.accepts {op : UnaryOp} {operand : Ty}
    (rule : UnaryRule env op operand resolution type) :
    resolution.Accepts env [operand] := by
  cases rule with
  | overload named found =>
    obtain ⟨declared, -, params⟩ := OperatorRegistry.find?_eq_some found
    refine ⟨?_, fun _ h => by cases h; exact ⟨_, declared⟩⟩
    rw [Resolution.targets, params]
    exact .cons (OperatorRegistry.canConvert_self operand) .nil
  | primitive plain found =>
    refine ⟨.cons ?_ .nil, fun _ h => by cases h⟩
    exact OperatorRegistry.canConvert_of_implicit (Typing.implicit_of_unaryOperand? found)

/-- A binary rule accepts its operands, if those of a primitive operation are converted
implicitly. -/
theorem BinaryRule.accepts {operator : String} {left right : Ty} {operand? : Option Ty}
    {result : Ty → Ty} (rule : BinaryRule env operator left right operand? result resolution type)
    (implicit : ∀ operand, operand? = some operand →
      left.isImplicitlyConvertible operand ∧ right.isImplicitlyConvertible operand) :
    resolution.Accepts env [left, right] := by
  cases rule with
  | overload named found => exact Resolution.accepts_overload found
  | primitive plain found => exact Resolution.accepts_primitive (implicit _ found)

/-- The rule for an item accepts the operand and the item. -/
theorem ItemRule.accepts {operand item : Ty} (rule : ItemRule env operand item resolution) :
    resolution.Accepts env [operand, item] := by
  cases rule with
  | overload named found => exact Resolution.accepts_overload found
  | primitive plain found =>
    exact Resolution.accepts_primitive (Typing.implicit_of_comparisonOperand? found)

/-- Two types convert to the type to which they are brought together. -/
theorem OperatorRegistry.converts_of_unify {registry : OperatorRegistry} {left right common : Ty}
    (unified : registry.unify left right = .ok (some common)) :
    registry.canConvert left common = .ok true ∧ registry.canConvert right common = .ok true := by
  unfold unify at unified
  by_cases leftImplicit : left.isImplicitlyConvertible right
  · rw [if_pos leftImplicit] at unified
    cases unified
    exact ⟨canConvert_of_implicit leftImplicit, canConvert_self _⟩
  · rw [if_neg leftImplicit] at unified
    by_cases rightImplicit : right.isImplicitlyConvertible left
    · rw [if_pos rightImplicit] at unified
      cases unified
      exact ⟨canConvert_self _, canConvert_of_implicit rightImplicit⟩
    · rw [if_neg rightImplicit] at unified
      cases promoted : left.binaryResult? right with
      | some result =>
        rw [promoted] at unified
        cases unified
        have implicit := Ty.implicit_of_binaryResult? promoted
        exact ⟨canConvert_of_implicit implicit.1, canConvert_of_implicit implicit.2⟩
      | none =>
        rw [promoted] at unified
        -- methods are tried last, from left to right first
        cases toRight : registry.canConvert left right with
        | error defect =>
          rw [toRight] at unified
          cases unified
        | ok converts =>
          rw [toRight] at unified
          cases converts with
          | true =>
            cases unified
            exact ⟨toRight, canConvert_self _⟩
          | false =>
            cases toLeft : registry.canConvert right left with
            | error defect =>
              simp only [toLeft, bind, Except.bind, Bool.false_eq_true, if_false] at unified
              cases unified
            | ok converts =>
              simp only [toLeft, bind, Except.bind, Bool.false_eq_true, if_false] at unified
              cases converts with
              | true =>
                cases unified
                exact ⟨canConvert_self _, toLeft⟩
              | false => cases unified

end Rules

end ExprCode
