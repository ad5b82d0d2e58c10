import ExprCode.Proofs.Runs
import ExprCode.Proofs.ValueTyping

/-! # Safe evaluations

An evaluation is safe if it ends with a value of which something is known, or with an error that a
program may run into or for which it is excused; and if it keeps the heap well typed. Safe
evaluations are put together like the evaluations themselves. -/

namespace ExprCode

/-! ## What is asked of the host -/

/-- A host function makes a value of the result type of values of the parameter types, unless it
fails, and leaves the heap well typed. -/
def Host.Keeps (host : Host) (function : Handle) (params : List Ty) (result : Ty) : Prop :=
  ∀ types heap arguments, heap.WellTyped types → AllTyped types arguments params →
    ∃ grown, types <+: grown ∧ (host.call function arguments heap).2.WellTyped grown ∧
      ∀ value, (host.call function arguments heap).1 = .ok value → value.HasType grown result

/-- A host does what the declarations of an environment promise. -/
structure Host.Honours (host : Host) (env : Environment) : Prop where
  /-- Functions have the types that they were declared with. -/
  function : ∀ declared ∈ env.functions,
    host.Keeps declared.2.function declared.2.params declared.2.result
  /-- So have operator methods. -/
  method : ∀ declared ∈ env.operators.declared,
    host.Keeps declared.2.function declared.2.params declared.2.result

/-- The errors that a program may run into, given the host calls that it has made. -/
inductive Permitted (host : Host) (calls : Array HostCall) : RuntimeError → Prop
  | divisionByZero : Permitted host calls .divisionByZero
  | indexOutOfBounds {index : Int} {length : Nat} :
      Permitted host calls (.indexOutOfBounds index length)
  | nullReference : Permitted host calls .nullReference
  /-- The last call failed, with this error. -/
  | host {call : HostCall} {error : RuntimeError} (last : calls.back? = some call)
      (failed : (host.call call.function call.arguments call.heap).1 = .error error) :
      Permitted host calls error

/-- Errors for which an evaluation is excused, given the host calls that it has made. -/
abbrev Excuse := Array HostCall → RuntimeError → Prop

namespace Semantics

/-! ## Safe evaluations -/

section Rules

variable {host : Host} {excused : Excuse} {types : HeapTyping} {α β : Type}

/-- An evaluation that began under a heap typing ended safely, or with an error that is excused. -/
def Ends (host : Host) (excused : Excuse) (types : HeapTyping) (post : HeapTyping → α → Prop) :
    EStateM.Result RuntimeError World α → Prop
  | .ok value world => ∃ grown, types <+: grown ∧ world.heap.WellTyped grown ∧ post grown value
  | .error error world => Permitted host world.calls error ∨ excused world.calls error

/-- An evaluation ends safely on every well-typed heap. -/
def Safe (host : Host) (excused : Excuse) (types : HeapTyping) (evaluation : Eval α)
    (post : HeapTyping → α → Prop) : Prop :=
  ∀ world : World, world.heap.WellTyped types → Ends host excused types post (evaluation world)

/-- What ends well with a grown heap ends well with the heap before. -/
theorem Ends.mono {grown : HeapTyping} {post other : HeapTyping → α → Prop}
    {result : EStateM.Result RuntimeError World α} (extends_ : types <+: grown)
    (ends : Ends host excused grown post result)
    (holds : ∀ types value, post types value → other types value) :
    Ends host excused types other result := by
  cases result with
  | error error world => exact ends
  | ok value world =>
    obtain ⟨last, later, typed, known⟩ := ends
    exact ⟨last, extends_.trans later, typed, holds last value known⟩

/-- A plain value is safe. -/
theorem Safe.pure {post : HeapTyping → α → Prop} {value : α} (holds : post types value) :
    Safe host excused types (Pure.pure value) post :=
  fun _ typed => ⟨types, List.prefix_refl types, typed, holds⟩

/-- What comes second finds the heap typing grown. -/
theorem Safe.bind {mid : HeapTyping → α → Prop} {post : HeapTyping → β → Prop} {first : Eval α}
    {next : α → Eval β} (safe : Safe host excused types first mid)
    (rest : ∀ grown, types <+: grown → ∀ value, mid grown value →
      Safe host excused grown (next value) post) :
    Safe host excused types (first >>= next) post := by
  intro world typed
  have ends := safe world typed
  cases run : first world with
  | error error after =>
    rw [bind_of_error run]
    rw [run] at ends
    exact ends
  | ok value after =>
    rw [bind_of_ok run]
    rw [run] at ends
    obtain ⟨grown, extends_, stillTyped, known⟩ := ends
    exact (rest grown extends_ value known after stillTyped).mono extends_ fun _ _ h => h

/-- What must be there is there. -/
theorem Safe.known {fault : Fault} {value? : Option α} {value : α} {next : α → Eval β}
    {post : HeapTyping → β → Prop} (known : value? = some value)
    (safe : Safe host excused types (next value) post) :
    Safe host excused types (require fault value? >>= next) post := by
  subst known
  exact safe

/-- The result of a function on values. -/
theorem safe_ofExcept {type : Ty} {result : Except RuntimeError Value}
    (yields : Yields types type result) :
    Safe host excused types (Semantics.ofExcept result)
      (fun grown value => value.HasType grown type) := by
  cases result with
  | ok value => exact .pure yields
  | error error =>
    cases yields
    exact fun _ _ => .inl .divisionByZero

/-- The truth value of a condition. -/
theorem safe_truth {value : Value} (typed : value.HasType types .bool) :
    Safe host excused types (truth value) (fun _ _ => True) := by
  cases typed with
  | bool => exact .pure trivial

end Rules

/-! ## Calls and conversions -/

section Conversions

variable {setting : Setting} {excused : Excuse} {types : HeapTyping}

/-- A call is answered by the host and recorded. -/
theorem call_eq (setting : Setting) (function : Handle) (arguments : List Value) (world : World) :
    call setting function arguments world =
      Semantics.ofExcept (setting.host.call function arguments world.heap).1
        ⟨(setting.host.call function arguments world.heap).2,
          world.calls.push ⟨function, arguments, world.heap⟩⟩ := rfl

/-- A call of a host function that keeps its type. -/
theorem safe_call {function : Handle} {params : List Ty} {result : Ty} {arguments : List Value}
    (keeps : setting.host.Keeps function params result)
    (argumentsTyped : AllTyped types arguments params) :
    Safe setting.host excused types (call setting function arguments)
      (fun grown value => value.HasType grown result) := by
  intro world typed
  obtain ⟨grown, extends_, stillTyped, valueTyped⟩ :=
    keeps types world.heap arguments typed argumentsTyped
  rw [call_eq]
  cases returned : (setting.host.call function arguments world.heap).1 with
  | ok value => exact ⟨grown, extends_, stillTyped, valueTyped value returned⟩
  | error error => exact .inl (.host Array.back?_push returned)

variable {source target : Ty} {value : Value}

/-- A conversion between types of numbers. -/
theorem safe_convertNumber (typed : value.HasType types source)
    (numbers : source ≠ target → source.isNumeric ∧ target.isNumeric) :
    Safe setting.host excused types (convertNumber source target value)
      (fun grown result => result.HasType grown target) := by
  unfold convertNumber
  by_cases same : source = target
  · rw [if_pos same]
    exact .pure (same ▸ typed)
  · rw [if_neg same]
    obtain ⟨result, converted, resultTyped⟩ := typed.convert? (numbers same).1 (numbers same).2
    rw [converted]
    exact .pure resultTyped

/-- A promotion to a different type is one of numbers. -/
theorem numeric_of_implicit (implicit : source.isImplicitlyConvertible target)
    (differ : source ≠ target) : source.isNumeric ∧ target.isNumeric := by
  unfold Ty.isImplicitlyConvertible at implicit
  rw [Bool.or_eq_true, beq_iff_eq] at implicit
  have widens := implicit.resolve_left differ
  cases source <;> cases target <;> first | exact ⟨rfl, rfl⟩ | cases widens

variable (coherent : setting.env.Coherent)
  (honours : setting.host.Honours setting.env)

include coherent honours

/-- A conversion by a method. -/
theorem safe_convertByMethod {operator : String} {method : OperatorMethod}
    (converts : operator = implicitConversion ∨ operator = explicitConversion)
    (found : setting.env.operators.conversionMethod operator source target = .ok (some method))
    (typed : value.HasType types source) :
    Safe setting.host excused types (convertByMethod setting operator source target value)
      (fun grown result => result.HasType grown target) := by
  obtain ⟨⟨type, declared⟩, -, rfl, first⟩ := OperatorRegistry.conversionMethod_eq_some found
  -- the method was found by its first parameter only; that it has no other is coherence
  have one : method.params.length = 1 := coherent.arity_conversion converts found
  have params : method.params = [source] := by
    obtain ⟨only, single⟩ := List.length_eq_one_iff.1 one
    rw [single, List.head?_cons, Option.some.injEq] at first
    rw [single, first]
  unfold convertByMethod
  rw [found]
  exact safe_call (honours.method _ declared) (params ▸ .cons typed .nil)

/-- A conversion that was not asked for. -/
theorem safe_convert (converts : setting.env.operators.canConvert source target = .ok true)
    (typed : value.HasType types source) :
    Safe setting.host excused types (convert setting source target value)
      (fun grown result => result.HasType grown target) := by
  unfold convert
  by_cases implicit : source.isImplicitlyConvertible target
  · rw [if_pos implicit]
    exact safe_convertNumber typed (numeric_of_implicit implicit)
  · rw [if_neg implicit]
    unfold OperatorRegistry.canConvert at converts
    rw [if_neg implicit] at converts
    cases found : setting.env.operators.conversionMethod implicitConversion source target with
    | error defect =>
      rw [found] at converts
      cases converts
    | ok method? =>
      rw [found] at converts
      cases method? with
      | none => cases converts
      | some method => exact safe_convertByMethod coherent honours (.inl rfl) found typed

/-- A conversion that was asked for. -/
theorem safe_cast (possible : Typing.canCast setting.env source target = .ok true)
    (typed : value.HasType types source) :
    Safe setting.host excused types (Semantics.cast setting source target value)
      (fun grown result => result.HasType grown target) := by
  unfold Semantics.cast
  unfold Typing.canCast at possible
  -- typing has asked the same questions in the same order, so only what it accepted is left
  cases converts : setting.env.operators.canConvert source target with
  | error defect =>
    rw [converts] at possible
    cases possible
  | ok implicit =>
    rw [converts] at possible
    cases implicit with
    | true => exact safe_convert coherent honours converts typed
    | false =>
      dsimp only
      by_cases numbers : source.isNumeric && target.isNumeric
      · rw [if_pos numbers]
        rw [Bool.and_eq_true] at numbers
        exact safe_convertNumber typed fun _ => numbers
      · rw [if_neg numbers]
        cases found : setting.env.operators.conversionMethod explicitConversion source
            target with
        | error defect =>
          simp only [bind, Except.bind, Bool.false_eq_true, if_false, if_neg numbers,
            found] at possible
          cases possible
        | ok method? =>
          simp only [bind, Except.bind, Bool.false_eq_true, if_false, if_neg numbers,
            found] at possible
          cases method? with
          | none => cases possible
          | some method => exact safe_convertByMethod coherent honours (.inr rfl) found typed

end Conversions

/-! ## Operators -/

section Operators

variable {setting : Setting} {excused : Excuse} {types grown : HeapTyping}

/-- An expression of a type is evaluated safely, now and whenever the heap typing has grown. -/
structure Evaluates (setting : Setting) (excused : Excuse) (types : HeapTyping) (expr : Expr)
    (evaluation : Eval Value) (type : Ty) : Prop where
  /-- Typing knows the type. -/
  known : setting.typing.types[expr.id]? = some type
  /-- The value has the type. -/
  safe : ∀ grown, types <+: grown →
    Safe setting.host excused grown evaluation (fun grown value => value.HasType grown type)

/-- Operands of types are evaluated safely. -/
inductive AllEvaluate (setting : Setting) (excused : Excuse) (types : HeapTyping) :
    List (Expr × Eval Value) → List Ty → Prop
  | nil : AllEvaluate setting excused types [] []
  | cons {expr : Expr} {evaluation : Eval Value} {inputs : List (Expr × Eval Value)} {type : Ty}
      {rest : List Ty} (head : Evaluates setting excused types expr evaluation type)
      (tail : AllEvaluate setting excused types inputs rest) :
      AllEvaluate setting excused types ((expr, evaluation) :: inputs) (type :: rest)

variable {evaluation : Eval Value} {type : Ty} {inputs : List (Expr × Eval Value)}
  {sources : List Ty} {resolution? : Option Resolution} {resolution : Resolution}

/-- An evaluation stays safe in a heap that has grown. -/
theorem Evaluates.mono {expr : Expr} (extends_ : types <+: grown)
    (evaluates : Evaluates setting excused types expr evaluation type) :
    Evaluates setting excused grown expr evaluation type where
  known := evaluates.known
  safe last later := evaluates.safe last (extends_.trans later)

/-- Evaluations stay safe in a heap that has grown. -/
theorem AllEvaluate.mono (extends_ : types <+: grown)
    (evaluate : AllEvaluate setting excused types inputs sources) :
    AllEvaluate setting excused grown inputs sources := by
  induction evaluate with
  | nil => exact .nil
  | cons head tail ih => exact .cons (head.mono extends_) ih

/-- There are as many operands as types. -/
theorem AllEvaluate.map_const (type : Ty)
    (evaluate : AllEvaluate setting excused types inputs sources) :
    inputs.map (fun _ => type) = sources.map (fun _ => type) := by
  induction evaluate with
  | nil => rfl
  | cons head tail ih => rw [List.map_cons, List.map_cons, ih]

variable (coherent : setting.env.Coherent)
  (honours : setting.host.Honours setting.env)

include coherent honours

/-- A safe evaluation can be converted where its type can. -/
theorem Evaluates.converted {expr : Expr} {source target : Ty}
    (evaluates : Evaluates setting excused types expr evaluation source)
    (converts : setting.env.operators.canConvert source target = .ok true) :
    Safe setting.host excused types (Semantics.converted setting expr evaluation target)
      (fun grown value => value.HasType grown target) :=
  .known evaluates.known ((evaluates.safe types (List.prefix_refl types)).bind
    fun _ _ _ typed => safe_convert coherent honours converts typed)

/-- Operands that convert are evaluated to values of the types to which they do. -/
theorem safe_operands {targets : List Ty} (converts : Converts setting.env sources targets)
    (evaluate : AllEvaluate setting excused types inputs sources) :
    Safe setting.host excused types (operands setting inputs targets)
      (fun grown values => AllTyped grown values targets) := by
  induction converts generalizing types inputs with
  | nil =>
    cases evaluate
    exact .pure .nil
  | cons headConverts _ ih =>
    cases evaluate with
    | cons head tail =>
      unfold operands
      refine (head.converted coherent honours headConverts).bind fun grown extends_ value typed =>
        ?_
      refine (ih (tail.mono extends_)).bind fun last later values allTyped => ?_
      exact .pure (.cons (typed.mono later) allTyped)

/-- An operator whose operands are accepted. -/
theorem safe_operator {apply : List Value → Except RuntimeError Value}
    (resolved : resolution? = some resolution) (accepts : resolution.Accepts setting.env sources)
    (primitive : ∀ operand, resolution = .primitive operand → ∀ grown values,
      AllTyped grown values (sources.map fun _ => operand) → Yields grown type (apply values))
    (overload : ∀ method, resolution = .overload method → method.result = type)
    (evaluate : AllEvaluate setting excused types inputs sources) :
    Safe setting.host excused types (operator setting resolution? inputs apply)
      (fun grown value => value.HasType grown type) := by
  unfold operator
  refine .known resolved ?_
  cases resolution with
  | primitive operand =>
    dsimp only
    -- all operands are converted to the one type, as many as there are
    rw [evaluate.map_const]
    refine (safe_operands coherent honours accepts.converts evaluate).bind
      fun grown _ values allTyped => ?_
    exact safe_ofExcept (primitive operand rfl grown values allTyped)
  | overload method =>
    obtain ⟨owner, declared⟩ := accepts.declared method rfl
    refine (safe_operands coherent honours accepts.converts evaluate).bind
      fun grown _ values allTyped => ?_
    exact overload method rfl ▸ safe_call (honours.method _ declared) allTyped

/-- An operator on one operand that typing accepted. -/
theorem safe_unary {op : UnaryOp} {operandType : Ty} {operand : Expr}
    (rule : UnaryRule setting.env op operandType resolution type)
    (resolved : resolution? = some resolution)
    (evaluates : Evaluates setting excused types operand evaluation operandType) :
    Safe setting.host excused types
      (operator setting resolution? [(operand, evaluation)] (applyUnary op))
      (fun grown value => value.HasType grown type) := by
  refine safe_operator coherent honours resolved rule.accepts ?_ ?_ (.cons evaluates .nil)
  · rintro _ rfl grown values allTyped
    cases rule with
    | primitive plain found =>
      cases allTyped with
      | cons typed none =>
        cases none
        exact yields_unary found typed
  · rintro _ rfl
    cases rule
    rfl

/-- An operator on two operands that typing accepted. -/
theorem safe_binary {operator : String} {leftType rightType : Ty} {operand? : Option Ty}
    {result : Ty → Ty} {left right : Expr} {leftEvaluation rightEvaluation : Eval Value}
    {apply : List Value → Except RuntimeError Value}
    (rule : BinaryRule setting.env operator leftType rightType operand? result resolution type)
    (implicit : ∀ operand, operand? = some operand →
      leftType.isImplicitlyConvertible operand ∧ rightType.isImplicitlyConvertible operand)
    (yields : ∀ operand, operand? = some operand → ∀ (grown : HeapTyping) (left right : Value),
      left.HasType grown operand → right.HasType grown operand →
        Yields grown (result operand) (apply [left, right]))
    (resolved : resolution? = some resolution)
    (leftEvaluates : Evaluates setting excused types left leftEvaluation leftType)
    (rightEvaluates : Evaluates setting excused types right rightEvaluation rightType) :
    Safe setting.host excused types
      (Semantics.operator setting resolution? [(left, leftEvaluation), (right, rightEvaluation)]
        apply)
      (fun grown value => value.HasType grown type) := by
  refine safe_operator coherent honours resolved (rule.accepts implicit) ?_ ?_
    (.cons leftEvaluates (.cons rightEvaluates .nil))
  -- only a primitive resolution is applied here; methods are calls
  · rintro _ rfl grown values allTyped
    cases rule with
    | primitive plain found =>
      cases allTyped with
      | cons leftTyped rest =>
        cases rest with
        | cons rightTyped none =>
          cases none
          exact yields _ found grown _ _ leftTyped rightTyped
  · rintro _ rfl
    cases rule
    rfl

end Operators

end Semantics

end ExprCode
