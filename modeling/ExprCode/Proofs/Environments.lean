import Mathlib
import ExprCode.Code
import ExprCode.Typing

/-! # Declared environments

The environments that declarations make, what may be called in them, and which of them are
*coherent*: whoever looks up what to call finds how many arguments it takes. -/

namespace ExprCode

/-- The entry of the function table for an operator method. -/
def OperatorMethod.entry (method : OperatorMethod) : FunctionEntry :=
  ⟨method.name, method.params.length, method.function⟩

namespace Environment

/-- An environment that a sequence of accepted declarations makes. -/
inductive Declared : Environment → Prop
  | empty : Declared {}
  | declareVariable {env declared : Environment} {name : String} {type : Ty} {number : UInt16}
      (before : Declared env)
      (accepted : env.declareVariable name type = .ok (number, declared)) : Declared declared
  | registerFunction {env declared : Environment} {name : String}
      {signature : FunctionSignature} (before : Declared env)
      (accepted : env.registerFunction name signature = .ok declared) : Declared declared
  | registerOperator {env declared : Environment} {type : Ty} {method : OperatorMethod}
      (before : Declared env)
      (accepted : env.registerOperator type method = .ok declared) : Declared declared

/-! ## Numbers of variables -/

variable {index : UInt16} {env : Environment} {name : String} {type : Ty}

/-- A number that fits into two bytes is kept there. -/
theorem twoByte?_eq_some_iff {n : Nat} : twoByte? n = some index ↔ index.toNat = n := by
  unfold twoByte?
  constructor
  · intro found
    split_ifs at found with fits
    cases found
    exact UInt16.toNat_ofNat_of_lt fits
  · rintro rfl
    rw [if_pos index.toNat_lt_size, UInt16.ofNat_toNat]

/-- A number that two bytes cannot hold is not cut. -/
theorem twoByte?_eq_none_iff {n : Nat} : twoByte? n = none ↔ maxVariables ≤ n := by
  simp [twoByte?, maxVariables, UInt16.size]

/-- A variable is not found exactly if no variable has its name. -/
theorem findVariable?_eq_none_iff :
    env.findVariable? name = none ↔ ∀ type, (name, type) ∉ env.variableTypes := by
  simp only [findVariable?, Option.map_eq_none_iff, Array.findFinIdx?_eq_none_iff]
  constructor
  · intro absent type listed
    simpa using absent _ listed
  · rintro absent ⟨other, type⟩ listed
    simp only [beq_iff_eq]
    rintro rfl
    exact absent type listed

/-- A variable is accepted if its name is new and there is room for it; its number is the number of
those before it. -/
theorem declareVariable_eq_ok {after : Environment}
    (h : env.declareVariable name type = .ok (index, after)) :
    (∀ other, (name, other) ∉ env.variableTypes) ∧
      env.variableTypes.size < maxVariables ∧
      index.toNat = env.variableTypes.size ∧
      after = { env with variableTypes := env.variableTypes.push (name, type) } := by
  unfold declareVariable at h
  split_ifs at h with known
  rw [Option.not_isSome_iff_eq_none, findVariable?_eq_none_iff] at known
  cases fits : twoByte? env.variableTypes.size with
  | none =>
    rw [fits] at h
    cases h
  | some number =>
    rw [fits] at h
    cases h
    have exactly := twoByte?_eq_some_iff.1 fits
    exact ⟨known, exactly ▸ index.toNat_lt_size, exactly, rfl⟩

/-- Two bytes number every variable. -/
theorem Declared.size_variableTypes_le (declared : env.Declared) :
    env.variableTypes.size ≤ maxVariables := by
  induction declared with
  | empty => exact Nat.zero_le _
  | declareVariable _ accepted _ =>
    obtain ⟨-, room, -, rfl⟩ := declareVariable_eq_ok accepted
    rw [Array.size_push]
    exact room
  | @registerFunction env _ name _ _ accepted ih =>
    unfold Environment.registerFunction at accepted
    by_cases known : (env.findFunction? name).isSome
    · rw [if_pos known] at accepted
      cases accepted
    · rw [if_neg known] at accepted
      cases accepted
      exact ih
  | @registerOperator env _ type method _ accepted ih =>
    unfold Environment.registerOperator at accepted
    cases registered : env.operators.register? type method with
    | none =>
      rw [registered] at accepted
      cases accepted
    | some operators =>
      rw [registered] at accepted
      cases accepted
      exact ih

/-- Where two bytes number the variables, cutting the number of one that is found keeps it: the
variable is declared under this number, with its name and its type. -/
theorem getElem?_of_findVariable? (few : env.variableTypes.size ≤ maxVariables)
    (found : env.findVariable? name = some (index, type)) :
    env.variableTypes[index.toNat]? = some (name, type) := by
  obtain ⟨position, isFirst, same⟩ := Option.map_eq_some_iff.1 found
  cases same
  have named : env.variableTypes[position].1 = name := by
    simpa using (Array.findFinIdx?_eq_some_iff.1 isFirst).1
  have exactly : (UInt16.ofNat position).toNat = position :=
    UInt16.toNat_ofNat_of_lt (Nat.lt_of_lt_of_le position.isLt few)
  rw [exactly, Array.getElem?_eq_getElem position.isLt, ← named]
  rfl

/-- A variable that is found has a number that stands for it. -/
theorem lt_size_of_findVariable? (found : env.findVariable? name = some (index, type)) :
    index.toNat < env.variableTypes.size := by
  obtain ⟨position, -, same⟩ := Option.map_eq_some_iff.1 found
  cases same
  exact Nat.lt_of_le_of_lt (Nat.mod_le _ _) position.isLt

/-! ## What may be called -/

/-- All functions and operator methods, as entries of a function table. -/
def callables (env : Environment) : List FunctionEntry :=
  (env.functions.map fun (name, signature) =>
      ⟨name, signature.params.length, signature.function⟩) ++
    env.operators.declared.map fun (_, method) => method.entry

/-- What is looked up is called with the arguments it takes: methods that convert take one, and the
name with the function tells how many there are. -/
structure Coherent (env : Environment) : Prop where
  /-- A method that converts has one parameter. -/
  unaryConversions : ∀ declared ∈ env.operators.declared,
    (declared.2.isNamed implicitConversion || declared.2.isNamed explicitConversion) →
      declared.2.params.length = 1
  /-- Entries with one name and one function have one arity. -/
  sameArity : ∀ first ∈ env.callables, ∀ second ∈ env.callables,
    first.key = second.key → first.arity = second.arity

/-- Whether an environment is coherent can be decided. -/
instance (env : Environment) : Decidable env.Coherent :=
  decidable_of_iff (_ ∧ _) ⟨fun both => ⟨both.1, both.2⟩, fun coherent => ⟨coherent.1, coherent.2⟩⟩

/-- A function that is found is declared. -/
theorem mem_functions_of_findFunction? {signature : FunctionSignature}
    (found : env.findFunction? name = some signature) : (name, signature) ∈ env.functions := by
  obtain ⟨before, after, split, -⟩ := List.lookup_eq_some_iff.1 found
  rw [split]
  exact List.mem_append_right _ List.mem_cons_self

/-- A function that is found may be called. -/
theorem mem_callables_of_findFunction? {signature : FunctionSignature}
    (found : env.findFunction? name = some signature) :
    ⟨name, signature.params.length, signature.function⟩ ∈ env.callables :=
  List.mem_append_left _
    (List.mem_map.2 ⟨(name, signature), mem_functions_of_findFunction? found, rfl⟩)

/-- A declared method may be called. -/
theorem mem_callables_of_declared {method : OperatorMethod}
    (declared : (type, method) ∈ env.operators.declared) : method.entry ∈ env.callables :=
  List.mem_append_right _ (List.mem_map.2 ⟨(type, method), declared, rfl⟩)

end Environment

/-! ## Methods that are found -/

namespace OperatorRegistry

variable {registry : OperatorRegistry} {operator : String} {method : OperatorMethod}

/-- The methods of a type are those declared on it. -/
theorem mem_methodsOf {type : Ty} : method ∈ registry.methodsOf type ↔
    (type, method) ∈ registry.declared := by
  unfold methodsOf
  simp

/-- A method that is found is declared on the type, with the name and the parameters asked for. -/
theorem find?_eq_some {type : Ty} {params : List Ty}
    (found : registry.find? operator type params = some method) :
    (type, method) ∈ registry.declared ∧ method.isNamed operator ∧ method.params = params := by
  unfold find? at found
  have listed := mem_methodsOf.1 (List.mem_of_find?_eq_some found)
  have fits := List.find?_some found
  simp only [Bool.and_eq_true, beq_iff_eq] at fits
  exact ⟨listed, fits.1, fits.2⟩

/-- A type that converts by promotion converts. -/
theorem canConvert_of_implicit {source target : Ty}
    (implicit : source.isImplicitlyConvertible target) :
    registry.canConvert source target = .ok true := by
  unfold canConvert
  rw [if_pos implicit]
  rfl

/-- Every type converts to itself. -/
theorem canConvert_self (type : Ty) : registry.canConvert type type = .ok true :=
  canConvert_of_implicit (by simp [Ty.isImplicitlyConvertible])

/-- The signatures that are tried for an operator on two operands have two parameters, to which the
operands convert. -/
theorem converts_of_mem_binarySignatures {left right : Ty} {signatures : List (List Ty)}
    {signature : List Ty} (h : registry.binarySignatures left right = .ok signatures)
    (tried : signature ∈ signatures) :
    ∃ first second, signature = [first, second] ∧ registry.canConvert left first = .ok true ∧
      registry.canConvert right second = .ok true := by
  have exactly : ∃ first second, [left, right] = [first, second] ∧
      registry.canConvert left first = .ok true ∧ registry.canConvert right second = .ok true :=
    ⟨left, right, rfl, canConvert_self left, canConvert_self right⟩
  unfold binarySignatures at h
  -- operands of one type are tried as they are; others also with one of them converted
  by_cases same : left = right
  · rw [if_pos same] at h
    cases h
    cases List.mem_singleton.1 tried
    exact exactly
  · rw [if_neg same] at h
    cases rightConverts : registry.canConvert right left with
    | error defect =>
      rw [rightConverts] at h
      cases h
    | ok toLeft =>
      cases leftConverts : registry.canConvert left right with
      | error defect =>
        rw [rightConverts, leftConverts] at h
        cases h
      | ok toRight =>
        rw [rightConverts, leftConverts] at h
        cases h
        rcases List.mem_cons.1 tried with rfl | others
        · exact exactly
        · rcases List.mem_append.1 others with onLeft | onRight
          · cases toLeft with
            | false => cases onLeft
            | true =>
              cases List.mem_singleton.1 onLeft
              exact ⟨left, left, rfl, canConvert_self left, rightConverts⟩
          · cases toRight with
            | false => cases onRight
            | true =>
              cases List.mem_singleton.1 onRight
              exact ⟨right, right, rfl, leftConverts, canConvert_self right⟩

/-- A method for an operator on two operands is declared, with the name asked for and two
parameters, to which the operands convert. -/
theorem binaryOverload_eq_some {left right : Ty}
    (found : registry.binaryOverload operator left right = .ok (some method)) :
    (∃ type, (type, method) ∈ registry.declared) ∧ method.isNamed operator ∧
      ∃ first second, method.params = [first, second] ∧
        registry.canConvert left first = .ok true ∧
        registry.canConvert right second = .ok true := by
  unfold binaryOverload at found
  cases signatures : registry.binarySignatures left right with
  | error defect =>
    rw [signatures] at found
    cases found
  | ok tried =>
    rw [signatures] at found
    have chosen : tried.findSome? (fun signature =>
        [left, right].findSome? fun type => registry.find? operator type signature) =
        some method := Except.ok.inj found
    obtain ⟨signature, member, onType⟩ := List.exists_of_findSome?_eq_some chosen
    obtain ⟨type, -, exactly⟩ := List.exists_of_findSome?_eq_some onType
    obtain ⟨declared, named, rfl⟩ := find?_eq_some exactly
    exact ⟨⟨type, declared⟩, named, converts_of_mem_binarySignatures signatures member⟩

/-- A method that is found for a conversion is declared, with the name asked for. -/
theorem conversionMethod_eq_some {source target : Ty}
    (found : registry.conversionMethod operator source target = .ok (some method)) :
    (∃ type, (type, method) ∈ registry.declared) ∧ method.isNamed operator ∧
      method.result = target ∧ method.params.head? = some source := by
  have onType : ∀ type, method ∈ registry.conversionsOn type operator source target →
      (∃ type, (type, method) ∈ registry.declared) ∧ method.isNamed operator ∧
        method.result = target ∧ method.params.head? = some source := by
    intro type listed
    obtain ⟨declared, fits⟩ := List.mem_filter.1 listed
    simp only [Bool.and_eq_true, beq_iff_eq] at fits
    exact ⟨⟨type, mem_methodsOf.1 declared⟩, fits.1.1, fits.1.2, fits.2⟩
  unfold conversionMethod at found
  by_cases named : source.isNamed || target.isNamed
  · rw [if_pos named] at found
    unfold findConversion at found
    dsimp only at found
    -- The method is the only one of the list that was chosen.
    split at found
    next => cases found
    next only single =>
      cases found
      split at single
      · exact onType target (single ▸ List.mem_singleton_self _)
      · exact onType source (single ▸ List.mem_singleton_self _)
    next => cases found
  · rw [if_neg named] at found
    cases found

end OperatorRegistry

/-- In a coherent environment a conversion is called with one argument. -/
theorem Environment.Coherent.arity_conversion {env : Environment}
    (coherent : env.Coherent) {operator : String} {source target : Ty}
    {method : OperatorMethod}
    (converts : operator = implicitConversion ∨ operator = explicitConversion)
    (found : env.operators.conversionMethod operator source target = .ok (some method)) :
    method.entry.arity = 1 := by
  obtain ⟨⟨type, declared⟩, named, -⟩ := OperatorRegistry.conversionMethod_eq_some found
  refine coherent.unaryConversions (type, method) declared ?_
  rw [Bool.or_eq_true]
  rcases converts with rfl | rfl
  · exact .inl named
  · exact .inr named

end ExprCode
