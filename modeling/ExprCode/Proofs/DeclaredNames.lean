import ExprCode.Proofs.RegistrationOrder

/-! # What declarations leave behind

Main statement: `Environment.attemptAll_orderly`. Whatever is declared, in whatever order and with
whatever outcome, names and numbers of variables stand for one another, a function has the signature
that was declared first for its name, and no type has two methods that could be mistaken for one
another. A declaration fails only for the reasons listed in `Refused`, and then nothing that is
looked up later shows that it was made.

A declaration adds at most one entry behind those that are there (`Accepted`), after it was checked
against them. So entries keep their places (`variableTypes_stay`), and what was distinct stays
distinct (`Orderly.declare`). -/

namespace ExprCode.Environment

variable {env after : Environment} {declaration : Declaration} {declarations : List Declaration}

/-! ## Declarations with any outcome -/

/-- The environment after a declaration was tried; one that fails leaves it as it is. -/
def attempt (env : Environment) (declaration : Declaration) : Environment :=
  match env.declare declaration with
  | .ok after => after
  | .error _ => env

/-- The environment after declarations were tried one after the other. -/
def attemptAll (env : Environment) (declarations : List Declaration) : Environment :=
  declarations.foldl attempt env

/-- A declaration that is accepted takes effect. -/
theorem attempt_of_ok (h : env.declare declaration = .ok after) :
    env.attempt declaration = after := by
  rw [attempt, h]

/-- A declaration that is refused changes nothing. -/
theorem attempt_of_error {error : DeclarationError} (h : env.declare declaration = .error error) :
    env.attempt declaration = env := by
  rw [attempt, h]

/-- What accepted declarations keep, all declarations keep. -/
theorem attemptAll_induction (keeps : Environment → Prop)
    (step : ∀ env declaration after, keeps env →
      env.declare declaration = .ok after → keeps after)
    (start : keeps env) (declarations : List Declaration) :
    keeps (env.attemptAll declarations) := by
  induction declarations generalizing env with
  | nil => exact start
  | cons declaration declarations ih =>
    suffices next : keeps (env.attempt declaration) from ih next
    cases tried : env.declare declaration with
    | error error => rwa [attempt_of_error tried]
    | ok after =>
      rw [attempt_of_ok tried]
      exact step env declaration after start tried

/-! ## Variables -/

/-- Entries are distinct, and two bytes number the variables. -/
structure Orderly (env : Environment) : Prop extends Distinct env where
  /-- Variables have different names. -/
  names : (env.variableTypes.toList.map (·.1)).Nodup
  /-- There are no more variables than two bytes number. -/
  few : env.variableTypes.size ≤ maxVariables

/-- An empty environment is orderly. -/
theorem orderly_empty : Orderly {} := ⟨distinct_empty, List.nodup_nil, Nat.zero_le _⟩

/-- A declaration that is accepted keeps entries distinct. -/
theorem Orderly.declare (orderly : env.Orderly) (h : env.declare declaration = .ok after) :
    after.Orderly := by
  have distinct := orderly.toDistinct.declare h
  have named := (accepted_of_declare h).named
  cases declaration with
  | ofFunction name signature | ofOperator type method =>
    have same : after.variableTypes = env.variableTypes := by
      simpa [Declaration.declaredVariable?] using named
    exact ⟨distinct, same ▸ orderly.names, same ▸ orderly.few⟩
  | ofVariable name type =>
    obtain ⟨index, declared⟩ := declareVariable_of_declare h
    obtain ⟨unknown, room, -, rfl⟩ := declareVariable_eq_ok declared
    refine ⟨distinct, ?_, by simpa using room⟩
    simp only [Array.toList_push, List.map_append, List.map_cons, List.map_nil]
    refine List.nodup_append'.2 ⟨orderly.names, List.nodup_singleton _, ?_⟩
    -- the new name is none of the old ones
    intro other listed isNew
    obtain ⟨⟨_, otherType⟩, isListed, rfl⟩ := List.mem_map.1 listed
    rw [List.mem_singleton] at isNew
    subst isNew
    exact unknown otherType (Array.mem_toList_iff.1 isListed)

/-- Declarations leave an environment orderly, whether they are accepted or refused. -/
theorem orderly_attemptAll (declarations : List Declaration) :
    (attemptAll {} declarations).Orderly :=
  attemptAll_induction Orderly (fun _ _ _ orderly => orderly.declare) orderly_empty declarations

/-- Names and numbers of variables stand for one another. -/
theorem Orderly.findVariable?_eq_some_iff (orderly : env.Orderly) {name : String}
    {index : UInt16} {type : Ty} :
    env.findVariable? name = some (index, type) ↔
      env.variableTypes[index.toNat]? = some (name, type) := by
  refine ⟨getElem?_of_findVariable? orderly.few, fun listed => ?_⟩
  obtain ⟨inside, here⟩ := Array.getElem?_eq_some_iff.1 listed
  have isFirst : env.variableTypes.findFinIdx? (fun entry => entry.1 == name) =
      some ⟨index.toNat, inside⟩ := by
    rw [Array.findFinIdx?_eq_some_iff]
    refine ⟨by simp [here], fun other earlier same => ?_⟩
    -- an earlier variable of that name would be a second one
    have equal : (env.variableTypes.toList.map (·.1))[other.val]? =
        (env.variableTypes.toList.map (·.1))[index.toNat]? := by
      simpa [here, inside] using same
    have sameNumber := (List.getElem?_inj (by simp) orderly.names).1 equal
    exact absurd sameNumber (Nat.ne_of_lt earlier)
  simp [findVariable?, isFirst, here]

/-- Variables keep their places. -/
theorem variableTypes_stay (env : Environment) (declarations : List Declaration) :
    env.variableTypes.toList <+: (env.attemptAll declarations).variableTypes.toList := by
  refine attemptAll_induction (fun now => env.variableTypes.toList <+: now.variableTypes.toList)
    (fun now declaration after earlier h => ?_) (List.prefix_refl _) declarations
  rw [(accepted_of_declare h).named]
  exact earlier.trans (List.prefix_append _ _)

/-- A variable that is found is found under its number forever. -/
theorem Orderly.findVariable?_attemptAll (orderly : env.Orderly) {name : String}
    {index : UInt16} {type : Ty} (found : env.findVariable? name = some (index, type))
    (declarations : List Declaration) :
    (env.attemptAll declarations).findVariable? name = some (index, type) := by
  have still : (env.attemptAll declarations).Orderly :=
    attemptAll_induction Orderly (fun _ _ _ orderly => orderly.declare) orderly declarations
  rw [orderly.findVariable?_eq_some_iff, ← Array.getElem?_toList] at found
  rw [still.findVariable?_eq_some_iff, ← Array.getElem?_toList]
  obtain ⟨inside, here⟩ := List.getElem?_eq_some_iff.1 found
  rw [← here]
  exact List.prefix_iff_getElem?.1 (variableTypes_stay env declarations) _ inside

/-! ## Functions -/

/-- A declaration gives a signature to a name that has none, and to no other. -/
theorem findFunction?_attempt (env : Environment) (declaration : Declaration) (name : String) :
    (env.attempt declaration).findFunction? name =
      (env.findFunction? name).or (declaration.declaredFunction?.toList.lookup name) := by
  cases tried : env.declare declaration with
  | ok after =>
    rw [attempt_of_ok tried, findFunction?, (accepted_of_declare tried).functions,
      List.lookup_append]
    rfl
  | error error =>
    rw [attempt_of_error tried]
    cases declaration with
    | ofVariable name type | ofOperator type method => simp [Declaration.declaredFunction?]
    | ofFunction declared signature =>
      -- the name that was refused has a signature
      have known : (env.findFunction? declared).isSome := by
        by_contra unknown
        simp [declare, registerFunction, unknown] at tried
      by_cases same : name = declared
      · subst same
        obtain ⟨first, found⟩ := Option.isSome_iff_exists.1 known
        simp [found]
      · have differ : (name == declared) = false := beq_eq_false_iff_ne.2 same
        simp [Declaration.declaredFunction?, List.lookup_cons, differ]

/-- A function has the signature that was declared first for its name. -/
theorem findFunction?_attemptAll (env : Environment) (declarations : List Declaration)
    (name : String) :
    (env.attemptAll declarations).findFunction? name =
      (env.findFunction? name).or
        ((declarations.filterMap Declaration.declaredFunction?).lookup name) := by
  induction declarations generalizing env with
  | nil => simp [attemptAll]
  | cons declaration declarations ih =>
    have split : (declaration :: declarations).filterMap Declaration.declaredFunction? =
        declaration.declaredFunction?.toList ++
          declarations.filterMap Declaration.declaredFunction? := by
      cases found : declaration.declaredFunction? <;> simp [found]
    calc (env.attemptAll (declaration :: declarations)).findFunction? name
        = ((env.attempt declaration).attemptAll declarations).findFunction? name := rfl
      _ = ((env.findFunction? name).or (declaration.declaredFunction?.toList.lookup name)).or
            ((declarations.filterMap Declaration.declaredFunction?).lookup name) := by
        rw [ih, findFunction?_attempt]
      _ = _ := by rw [split, List.lookup_append, Option.or_assoc]

/-! ## Methods -/

/-- No type has two methods with one name, but for the case of its letters, and the same
parameters. -/
theorem Distinct.pairwise_methodsOf (distinct : env.Distinct) (type : Ty) :
    (env.operators.methodsOf type).Pairwise fun first second =>
      ¬ (first.name.toLower = second.name.toLower ∧ first.params = second.params) := by
  rw [OperatorRegistry.methodsOf, List.pairwise_map, List.pairwise_filter]
  refine distinct.operators.imp fun {first second} differ onFirst onSecond same => differ ⟨?_, ?_⟩
  · rw [eq_of_beq onFirst, eq_of_beq onSecond]
  · simp [OperatorMethod.sameSignature, OperatorMethod.sameName, same]

/-! ## Refusals -/

/-- Why a declaration is refused. -/
inductive Refused (env : Environment) : Declaration → DeclarationError → Prop
  /-- There is a variable of that name. -/
  | knownVariable {name : String} {type other : Ty} (known : (name, other) ∈ env.variableTypes) :
      Refused env (.ofVariable name type) (.duplicateVariable name)
  /-- The name is new, but there is no number left for it. -/
  | noNumber {name : String} {type : Ty} (unknown : ∀ other, (name, other) ∉ env.variableTypes)
      (full : maxVariables ≤ env.variableTypes.size) :
      Refused env (.ofVariable name type) .tooManyVariables
  /-- There is a function of that name. -/
  | knownFunction {name : String} {signature other : FunctionSignature}
      (known : (name, other) ∈ env.functions) :
      Refused env (.ofFunction name signature) (.duplicateFunction name)
  /-- The type has a method with that name, but for the case of its letters, and those
  parameters. -/
  | knownOperator {type : Ty} {method other : OperatorMethod}
      (known : other ∈ env.operators.methodsOf type)
      (name : other.name.toLower = method.name.toLower) (params : other.params = method.params) :
      Refused env (.ofOperator type method) (.duplicateOperator method.name type)

/-- A function is found if one is declared under its name. -/
theorem isSome_findFunction?_iff {name : String} :
    (env.findFunction? name).isSome ↔ ∃ signature, (name, signature) ∈ env.functions := by
  constructor
  · intro found
    obtain ⟨signature, found⟩ := Option.isSome_iff_exists.1 found
    exact ⟨signature, mem_functions_of_findFunction? found⟩
  · rintro ⟨signature, declared⟩
    by_contra unknown
    rw [Option.not_isSome_iff_eq_none, findFunction?, List.lookup_eq_none_iff] at unknown
    simpa using unknown _ declared

/-- What is refused fails, with the error that says why. -/
theorem Refused.declare {error : DeclarationError} (refused : env.Refused declaration error) :
    env.declare declaration = .error error := by
  cases refused with
  | @knownVariable name type other known =>
    have found : (env.findVariable? name).isSome := by
      rw [← Option.ne_none_iff_isSome, ne_eq, findVariable?_eq_none_iff]
      exact fun unknown => unknown other known
    simp [Environment.declare, declareVariable, found, Except.map]
  | noNumber unknown full =>
    simp [Environment.declare, declareVariable, findVariable?_eq_none_iff.2 unknown,
      twoByte?_eq_none_iff.2 full, Except.map]
  | knownFunction known =>
    simp [Environment.declare, registerFunction, isSome_findFunction?_iff.2 ⟨_, known⟩]
  | @knownOperator type method other known name params =>
    have found : (env.operators.methodsOf type).any (·.sameSignature method) := by
      refine List.any_eq_true.2 ⟨other, known, ?_⟩
      simp [OperatorMethod.sameSignature, OperatorMethod.sameName, name, params]
    simp [Environment.declare, registerOperator, OperatorRegistry.register?, found]

/-- What fails was refused. -/
theorem refused_of_declare {error : DeclarationError} (h : env.declare declaration = .error error) :
    env.Refused declaration error := by
  -- a declaration is refused by the first check that fails
  cases declaration with
  | ofVariable name type =>
    simp only [declare, declareVariable] at h
    split_ifs at h with found
    · cases h
      rw [← Option.ne_none_iff_isSome, ne_eq, findVariable?_eq_none_iff] at found
      push Not at found
      obtain ⟨other, known⟩ := found
      exact .knownVariable known
    · rw [Option.not_isSome_iff_eq_none, findVariable?_eq_none_iff] at found
      cases fits : twoByte? env.variableTypes.size with
      | some number =>
        rw [fits] at h
        cases h
      | none =>
        rw [fits] at h
        cases h
        exact .noNumber found (twoByte?_eq_none_iff.1 fits)
  | ofFunction name signature =>
    simp only [declare, registerFunction] at h
    split_ifs at h with found
    cases h
    obtain ⟨other, known⟩ := isSome_findFunction?_iff.1 found
    exact .knownFunction known
  | ofOperator type method =>
    simp only [declare, registerOperator, OperatorRegistry.register?] at h
    split_ifs at h with found
    cases h
    obtain ⟨other, known, same⟩ := List.any_eq_true.1 found
    simp only [OperatorMethod.sameSignature, OperatorMethod.sameName, Bool.and_eq_true,
      beq_iff_eq] at same
    exact .knownOperator known same.1 same.2

/-- **What declarations leave behind.** After any declarations, failing ones included, variables
have different names and are at most 65536, and names and numbers of variables stand for one
another. A number that was given to a variable, or found for it, is found for it forever. A function
has the signature that was declared first for its name. No type has two methods with one name, but
for the case of its letters, and the same parameters. A declaration fails exactly for the reasons
listed, and one that fails changes nothing for whatever comes later. -/
theorem attemptAll_orderly (declarations : List Declaration) :
    let env := attemptAll {} declarations
    (env.variableTypes.toList.map (·.1)).Nodup ∧ env.variableTypes.size ≤ 65536 ∧
      (∀ name index type, env.findVariable? name = some (index, type) ↔
        env.variableTypes[index.toNat]? = some (name, type)) ∧
      (∀ name index type, env.findVariable? name = some (index, type) →
        ∀ later, (env.attemptAll later).findVariable? name = some (index, type)) ∧
      (∀ name type index declared, env.declareVariable name type = .ok (index, declared) →
        ∀ later, (declared.attemptAll later).findVariable? name = some (index, type)) ∧
      (∀ name, env.findFunction? name =
        (declarations.filterMap Declaration.declaredFunction?).lookup name) ∧
      (∀ type, (env.operators.methodsOf type).Pairwise fun first second =>
        ¬ (first.name.toLower = second.name.toLower ∧ first.params = second.params)) ∧
      (∀ declaration error, env.declare declaration = .error error ↔
        env.Refused declaration error) ∧
      ∀ declaration error, env.declare declaration = .error error →
        ∀ later, env.attemptAll (declaration :: later) = env.attemptAll later := by
  intro env
  have orderly : env.Orderly := orderly_attemptAll declarations
  refine ⟨orderly.names, orderly.few, fun _ _ _ => orderly.findVariable?_eq_some_iff,
    fun _ _ _ found later => orderly.findVariable?_attemptAll found later, ?_, ?_,
    orderly.pairwise_methodsOf, fun _ _ => ⟨refused_of_declare, Refused.declare⟩, ?_⟩
  · intro name type index declared accepted later
    have still : declared.Orderly :=
      @Orderly.declare _ _ (.ofVariable name type) orderly (by rw [declare, accepted]; rfl)
    refine still.findVariable?_attemptAll ?_ later
    obtain ⟨-, -, numbered, rfl⟩ := declareVariable_eq_ok accepted
    rw [still.findVariable?_eq_some_iff, numbered]
    exact Array.getElem?_push_size
  · intro name
    rw [findFunction?_attemptAll]
    rfl
  · intro declaration error fails later
    exact congrArg (attemptAll · later) (attempt_of_error fails)

end ExprCode.Environment
