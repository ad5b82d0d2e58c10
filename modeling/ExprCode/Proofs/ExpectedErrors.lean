import ExprCode.Proofs.Runs

/-! # Errors that the input brings about

A compilation may fail because of what it is given: the expression is rejected, operator methods are
ambiguous, or the code is too large for its format. All other defects would be mistakes of the
compiler itself. `ExpectedLookup` says of a look-up that it fails as the input deserves only;
look-ups among operators do. -/

namespace ExprCode

/-- A defect that the input brings about. -/
inductive Defect.FromInput : Defect → Prop
  /-- The environment has several methods for one conversion. -/
  | ambiguous (name : String) (source target : Ty) (candidates : Nat) :
      FromInput (.ambiguousOperator name source target candidates)
  /-- The expression needs more locals than are allowed. -/
  | locals (limit : Nat) : FromInput (.tooManyLocals limit)
  /-- The expression needs more entries of a table than can be numbered. -/
  | table (table : TableName) : FromInput (.tableOverflow table)

/-- An error that the input brings about: a rejection or such a defect. -/
inductive CompileError.FromInput : CompileError → Prop
  | rejected (rejection : Rejection) : FromInput (.rejected rejection)
  | defect {defect : Defect} (cause : defect.FromInput) : FromInput (.defect defect)

/-! ## Operators -/

/-- A look-up fails only by defects that the input brings about. -/
def ExpectedLookup {α : Type} (lookup : Except Defect α) : Prop :=
  ∀ defect, lookup = .error defect → defect.FromInput

namespace ExpectedLookup

variable {α β : Type} {lookup : Except Defect α} {next : α → Except Defect β}

/-- A plain value is found. -/
theorem pure (value : α) : ExpectedLookup (Pure.pure value : Except Defect α) := nofun

/-- One look-up after another fails only as either does. -/
theorem bind (first : ExpectedLookup lookup) (second : ∀ value, ExpectedLookup (next value)) :
    ExpectedLookup (lookup >>= next) := by
  intro defect h
  cases result : lookup with
  | error other =>
    rw [result] at h
    cases h
    exact first defect result
  | ok value =>
    rw [result] at h
    exact second value defect h

end ExpectedLookup

namespace OperatorRegistry

variable (registry : OperatorRegistry)

/-- Several conversions are the only defect. -/
theorem expected_conversionMethod (operator : String) (source target : Ty) :
    ExpectedLookup (registry.conversionMethod operator source target) := by
  intro defect h
  unfold conversionMethod findConversion at h
  split at h
  · dsimp only at h
    split at h
    · cases h
    · cases h
    · cases h
      exact .ambiguous _ _ _ _
  · cases h

/-- Whether two types can be converted is found out, or it is ambiguous. -/
theorem expected_canConvert (source target : Ty) :
    ExpectedLookup (registry.canConvert source target) := by
  unfold canConvert
  split
  · exact .pure _
  · exact (registry.expected_conversionMethod _ _ _).bind fun _ => .pure _

/-- A common type is found, or the conversions are ambiguous. -/
theorem expected_unify (first second : Ty) : ExpectedLookup (registry.unify first second) := by
  unfold unify
  split
  · exact .pure _
  · split
    · exact .pure _
    · split
      · exact .pure _
      · refine (registry.expected_canConvert _ _).bind fun _ => ?_
        split
        · exact .pure _
        · refine (registry.expected_canConvert _ _).bind fun _ => ?_
          split <;> exact .pure _

/-- An overload of a binary operator is found, or the overloads are ambiguous. -/
theorem expected_binaryOverload (operator : String) (left right : Ty) :
    ExpectedLookup (registry.binaryOverload operator left right) := by
  have signatures : ExpectedLookup (registry.binarySignatures left right) := by
    unfold binarySignatures
    split
    · exact .pure _
    · exact (registry.expected_canConvert _ _).bind fun _ =>
        (registry.expected_canConvert _ _).bind fun _ => .pure _
  exact signatures.bind fun _ => .pure _

end OperatorRegistry

namespace Typing

variable (env : Environment)

/-- Whether a cast is allowed is found out, or it is ambiguous. -/
theorem expected_canCast (source target : Ty) :
    ExpectedLookup (canCast env source target) := by
  unfold canCast
  refine (env.operators.expected_canConvert _ _).bind fun _ => ?_
  split
  · exact .pure _
  · split
    · exact .pure _
    · exact (env.operators.expected_conversionMethod _ _ _).bind fun _ => .pure _

end Typing

end ExprCode
