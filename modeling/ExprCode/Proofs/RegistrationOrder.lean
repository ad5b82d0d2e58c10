import ExprCode.Codegen
import ExprCode.Proofs.Environments
import ExprCode.Proofs.ExprTree

/-! # The order of declarations

Main statement: `compile_of_perm`. Two sequences of declarations that list the same variables in the
same order, and the same functions and operator methods in any order, make environments in which
every look-up, every check and every compilation has the same outcome, errors included.

A look-up takes the first entry that fits. What makes the order irrelevant is
`Environment.Distinct`: a declaration is accepted only if no entry could ever be mistaken for it.
The environments then *agree* on all look-ups (`Environment.Agrees`), and nothing else is asked of
an environment by typing and code generation. -/

namespace ExprCode

/-! ## Methods in any order -/

/-- Having the same signature is symmetric. -/
theorem OperatorMethod.sameSignature_comm {first second : OperatorMethod}
    (same : first.sameSignature second) :
    second.sameSignature first := by
  simp only [sameSignature, sameName, Bool.and_eq_true, beq_iff_eq] at same ⊢
  exact ⟨same.1.symm, same.2.symm⟩

namespace OperatorRegistry

/-- The choice between the methods that a conversion finds. -/
def chosen (operator : String) (source target : Ty) :
    List OperatorMethod → Except Defect (Option OperatorMethod)
  | [] => .ok none
  | [method] => .ok (some method)
  | several =>
    .error (.ambiguousOperator (OperatorMethod.fullName operator) source target several.length)

/-- A conversion is chosen among the methods of the target where the source has none. -/
theorem findConversion_eq (registry : OperatorRegistry) (operator : String) (source target : Ty) :
    registry.findConversion operator source target =
      chosen operator source target
        (if (registry.conversionsOn source operator source target).isEmpty && target != source then
          registry.conversionsOn target operator source target
        else registry.conversionsOn source operator source target) := rfl

/-- Among methods in any order there is the same one to choose, or as many between which there is no
choice. -/
theorem chosen_of_perm {found other : List OperatorMethod} (operator : String) (source target : Ty)
    (perm : found.Perm other) :
    chosen operator source target found = chosen operator source target other := by
  have length := perm.length_eq
  match found, other with
  | [], other => rw [List.nil_perm.1 perm]
  | [method], other => rw [← List.singleton_perm.1 perm]
  | _ :: _ :: _, [] => cases length
  | _ :: _ :: _, [_] => cases length
  | _ :: _ :: _, _ :: _ :: _ =>
    show Except.error _ = Except.error _
    rw [length]

end OperatorRegistry

/-! ## Declarations -/

/-- A declaration in an environment. -/
inductive Declaration where
  /-- A variable. -/
  | ofVariable (name : String) (type : Ty)
  /-- A function. -/
  | ofFunction (name : String) (signature : FunctionSignature)
  /-- An operator method on a type. -/
  | ofOperator (type : Ty) (method : OperatorMethod)
  deriving DecidableEq

namespace Declaration

/-- The variable that is declared. -/
def declaredVariable? : Declaration → Option (String × Ty)
  | .ofVariable name type => some (name, type)
  | _ => none

/-- The function that is declared. -/
def declaredFunction? : Declaration → Option (String × FunctionSignature)
  | .ofFunction name signature => some (name, signature)
  | _ => none

/-- The operator method that is declared. -/
def declaredOperator? : Declaration → Option (Ty × OperatorMethod)
  | .ofOperator type method => some (type, method)
  | _ => none

end Declaration

namespace Environment

/-- Make a declaration. -/
def declare (env : Environment) : Declaration → Except DeclarationError Environment
  | .ofVariable name type => (env.declareVariable name type).map (·.2)
  | .ofFunction name signature => env.registerFunction name signature
  | .ofOperator type method => env.registerOperator type method

/-- Make declarations one after the other, up to the first that fails. -/
def declareAll (env : Environment) : List Declaration → Except DeclarationError Environment
  | [] => .ok env
  | declaration :: declarations => do
      let next ← env.declare declaration
      next.declareAll declarations

variable {env after : Environment} {declaration : Declaration} {declarations : List Declaration}

/-- What an accepted declaration adds, and what it was checked against. -/
structure Accepted (env : Environment) (declaration : Declaration) (after : Environment) :
    Prop where
  /-- A variable is added behind the others. -/
  named : after.variableTypes.toList =
    env.variableTypes.toList ++ declaration.declaredVariable?.toList
  /-- A function is added behind the others. -/
  functions : after.functions = env.functions ++ declaration.declaredFunction?.toList
  /-- A method is added behind the others. -/
  operators : after.operators.declared =
    env.operators.declared ++ declaration.declaredOperator?.toList
  /-- No function had the name. -/
  newFunction : ∀ name signature, declaration.declaredFunction? = some (name, signature) →
    env.findFunction? name = none
  /-- The type had no method with the name and the parameters. -/
  newOperator : ∀ type method, declaration.declaredOperator? = some (type, method) →
    ∀ other ∈ env.operators.methodsOf type, ¬ other.sameSignature method

/-- A declaration of a variable that is accepted gave it a number. -/
theorem declareVariable_of_declare {name : String} {type : Ty}
    (h : env.declare (.ofVariable name type) = .ok after) :
    ∃ index, env.declareVariable name type = .ok (index, after) := by
  simp only [Environment.declare] at h
  cases declared : env.declareVariable name type with
  | error error =>
    rw [declared] at h
    cases h
  | ok numbered =>
    rw [declared] at h
    cases h
    exact ⟨numbered.1, rfl⟩

/-- A declaration that is made was accepted. -/
theorem accepted_of_declare (h : env.declare declaration = .ok after) :
    Accepted env declaration after := by
  cases declaration with
  | ofVariable name type =>
    obtain ⟨index, declared⟩ := declareVariable_of_declare h
    obtain ⟨-, -, -, rfl⟩ := declareVariable_eq_ok declared
    exact ⟨by simp [Declaration.declaredVariable?], by simp [Declaration.declaredFunction?],
      by simp [Declaration.declaredOperator?], nofun, nofun⟩
  | ofFunction name signature =>
    simp only [declare, registerFunction] at h
    split_ifs at h with unknown
    cases h
    refine ⟨by simp [Declaration.declaredVariable?], by simp [Declaration.declaredFunction?],
      by simp [Declaration.declaredOperator?], ?_, nofun⟩
    rintro _ _ ⟨⟩
    simpa using unknown
  | ofOperator type method =>
    simp only [declare, registerOperator, OperatorRegistry.register?] at h
    split_ifs at h with known
    cases h
    refine ⟨by simp [Declaration.declaredVariable?], by simp [Declaration.declaredFunction?],
      by simp [Declaration.declaredOperator?], nofun, ?_⟩
    rintro _ _ ⟨⟩ other listed same
    exact known (List.any_eq_true.2 ⟨other, listed, same⟩)

/-- The parts of a sequence of declarations that is accepted. -/
theorem declareAll_cons_eq_ok (h : env.declareAll (declaration :: declarations) = .ok after) :
    ∃ next, env.declare declaration = .ok next ∧ next.declareAll declarations = .ok after := by
  rw [declareAll] at h
  cases first : env.declare declaration with
  | error error =>
    rw [first] at h
    cases h
  | ok next =>
    rw [first] at h
    exact ⟨next, rfl, h⟩

/-- After a declaration that was accepted, the others follow. -/
theorem declareAll_cons {next : Environment} (accepted : env.declare declaration = .ok next) :
    env.declareAll (declaration :: declarations) = next.declareAll declarations := by
  rw [declareAll, accepted]
  rfl

/-- Accepted declarations stand in the environment in the order in which they were made. -/
theorem entries_of_declareAll (h : env.declareAll declarations = .ok after) :
    after.variableTypes.toList =
        env.variableTypes.toList ++ declarations.filterMap Declaration.declaredVariable? ∧
      after.functions = env.functions ++ declarations.filterMap Declaration.declaredFunction? ∧
      after.operators.declared =
        env.operators.declared ++ declarations.filterMap Declaration.declaredOperator? := by
  induction declarations generalizing env with
  | nil =>
    cases h
    simp
  | cons declaration declarations ih =>
    obtain ⟨next, accepted, rest⟩ := declareAll_cons_eq_ok h
    obtain ⟨named, functions, operators, -, -⟩ := accepted_of_declare accepted
    obtain ⟨restNamed, restFunctions, restOperators⟩ := ih rest
    rw [restNamed, restFunctions, restOperators, named, functions, operators]
    have split {α : Type} (listed? : Declaration → Option α) :
        (declaration :: declarations).filterMap listed? =
          (listed? declaration).toList ++ declarations.filterMap listed? := by
      cases found : listed? declaration <;> simp [found]
    simp only [split, List.append_assoc, and_self]

/-! ## Entries that cannot be mistaken for one another -/

/-- No two functions have one name, and no type has two methods with one name and the same
parameters. -/
structure Distinct (env : Environment) : Prop where
  /-- Functions have different names. -/
  functions : (env.functions.map (·.1)).Nodup
  /-- Methods of a type differ in their names or their parameters. -/
  operators : env.operators.declared.Pairwise fun first second =>
    ¬ (first.1 = second.1 ∧ first.2.sameSignature second.2)

/-- Nothing is declared twice in an empty environment. -/
theorem distinct_empty : Distinct {} := ⟨List.nodup_nil, List.Pairwise.nil⟩

/-- A declaration that is accepted differs from all before it. -/
theorem Distinct.declare (distinct : env.Distinct)
    (h : env.declare declaration = .ok after) : after.Distinct := by
  obtain ⟨-, functions, operators, newFunction, newOperator⟩ := accepted_of_declare h
  constructor
  · rw [functions, List.map_append, List.nodup_append']
    refine ⟨distinct.functions, ?_, ?_⟩
    · cases declaration.declaredFunction? <;> simp
    · rintro name listed isNew
      obtain ⟨⟨_, signature⟩, new, rfl⟩ := List.mem_map.1 isNew
      have unknown := newFunction _ signature (Option.mem_toList.1 new)
      rw [findFunction?, List.lookup_eq_none_iff] at unknown
      obtain ⟨old, isOld, same⟩ := List.mem_map.1 listed
      simpa [same] using unknown old isOld
  · rw [operators, List.pairwise_append]
    refine ⟨distinct.operators, ?_, ?_⟩
    · cases declaration.declaredOperator? <;> simp
    · rintro ⟨type, method⟩ listed ⟨_, new⟩ isNew ⟨rfl, same⟩
      exact newOperator type new (Option.mem_toList.1 isNew) method
        (OperatorRegistry.mem_methodsOf.2 listed) same

/-- Declarations that are accepted stay distinct, one after the other. -/
theorem Distinct.declareAll (distinct : env.Distinct)
    (h : env.declareAll declarations = .ok after) : after.Distinct := by
  induction declarations generalizing env with
  | nil =>
    cases h
    exact distinct
  | cons declaration declarations ih =>
    obtain ⟨next, accepted, rest⟩ := declareAll_cons_eq_ok h
    exact ih (distinct.declare accepted) rest

/-- Where names differ, a function is found exactly if it is declared. -/
theorem Distinct.findFunction?_eq_some_iff (distinct : env.Distinct) {name : String}
    {signature : FunctionSignature} :
    env.findFunction? name = some signature ↔ (name, signature) ∈ env.functions := by
  refine ⟨mem_functions_of_findFunction?, fun declared => ?_⟩
  cases found : env.findFunction? name with
  | none =>
    rw [findFunction?, List.lookup_eq_none_iff] at found
    simpa using found _ declared
  | some other =>
    have same := List.inj_on_of_nodup_map distinct.functions
      (mem_functions_of_findFunction? found) declared rfl
    simpa using same

/-- Two methods of a type that an operator finds with the same parameters are one. -/
theorem Distinct.subsingleton_find (distinct : env.Distinct) (operator : String) (type : Ty)
    (params : List Ty) :
    {method ∈ env.operators.methodsOf type |
      method.isNamed operator && method.params == params}.Subsingleton := by
  rintro first ⟨isFirst, fitsFirst⟩ second ⟨isSecond, fitsSecond⟩
  by_contra differ
  -- methods are known to differ from later ones only; which of the two is later is open
  have symmetric : Std.Symm fun first second : Ty × OperatorMethod =>
      ¬ (first.1 = second.1 ∧ first.2.sameSignature second.2) :=
    ⟨fun _ _ => mt fun ⟨onOne, same⟩ => ⟨onOne.symm, OperatorMethod.sameSignature_comm same⟩⟩
  have pairs : (type, first) ≠ (type, second) := fun same => differ (congrArg Prod.snd same)
  refine distinct.operators.forall (OperatorRegistry.mem_methodsOf.1 isFirst)
    (OperatorRegistry.mem_methodsOf.1 isSecond) pairs ⟨rfl, ?_⟩
  simp only [Bool.and_eq_true, OperatorMethod.isNamed, OperatorMethod.sameName,
    beq_iff_eq] at fitsFirst fitsSecond
  simp [OperatorMethod.sameSignature, OperatorMethod.sameName, fitsFirst, fitsSecond]

/-! ## Look-ups in any order -/

/-- Two environments give the same answers to all look-ups. -/
structure Agrees (first second : Environment) : Prop where
  /-- Variables have the same numbers and types. -/
  named : first.findVariable? = second.findVariable?
  /-- Functions have the same signatures. -/
  functions : first.findFunction? = second.findFunction?
  /-- The same methods are found for operators. -/
  methods : first.operators.find? = second.operators.find?
  /-- The same methods are found for conversions, or as many between which there is no choice. -/
  conversions : first.operators.findConversion = second.operators.findConversion

variable {first second : Environment}

/-- Environments with the same entries agree if no two entries can be mistaken for one another. -/
theorem agrees_of_perm (distinct : first.Distinct) (distinctSecond : second.Distinct)
    (named : first.variableTypes = second.variableTypes)
    (functions : first.functions.Perm second.functions)
    (operators : first.operators.declared.Perm second.operators.declared) :
    first.Agrees second := by
  have methods (type : Ty) : (first.operators.methodsOf type).Perm
      (second.operators.methodsOf type) :=
    (operators.filter _).map _
  -- look-ups find at most one entry, so the order of entries does not matter
  constructor
  · obtain ⟨_, _, _⟩ := first
    obtain ⟨_, _, _⟩ := second
    obtain rfl : _ = _ := named
    rfl
  · funext name
    ext signature
    rw [distinct.findFunction?_eq_some_iff, distinctSecond.findFunction?_eq_some_iff,
      functions.mem_iff]
  · funext operator type params
    exact List.find?_eq_find?_of_perm (methods type)
      (distinct.subsingleton_find operator type params)
  · funext operator source target
    have onType (type : Ty) : (first.operators.conversionsOn type operator source target).Perm
        (second.operators.conversionsOn type operator source target) := (methods type).filter _
    rw [OperatorRegistry.findConversion_eq, OperatorRegistry.findConversion_eq,
      (onType source).isEmpty_eq]
    apply OperatorRegistry.chosen_of_perm
    split
    · exact onType target
    · exact onType source

namespace Agrees

variable (agrees : first.Agrees second)

include agrees

/-- The same method converts between two types. -/
theorem conversionMethod :
    first.operators.conversionMethod = second.operators.conversionMethod := by
  funext operator source target
  simp only [OperatorRegistry.conversionMethod, agrees.conversions]

/-- The same types can be converted. -/
theorem canConvert : first.operators.canConvert = second.operators.canConvert := by
  funext source target
  simp only [OperatorRegistry.canConvert, agrees.conversionMethod]

/-- The same two types have a common one. -/
theorem unify : first.operators.unify = second.operators.unify := by
  funext a b
  simp only [OperatorRegistry.unify, agrees.canConvert]

/-- The same overload stands for a unary operator. -/
theorem unaryOverload? : first.operators.unaryOverload? = second.operators.unaryOverload? := by
  funext op type
  simp only [OperatorRegistry.unaryOverload?, agrees.methods]

/-- The same overload stands for a binary operator. -/
theorem binaryOverload : first.operators.binaryOverload = second.operators.binaryOverload := by
  funext operator left right
  simp only [OperatorRegistry.binaryOverload, OperatorRegistry.binarySignatures, agrees.canConvert,
    agrees.methods]

/-! ## Typing -/

/-- A name has the same type. -/
theorem typeName : Typing.typeName first = Typing.typeName second := by
  funext node name scope
  simp only [Typing.typeName, agrees.named]

/-- A unary operation has the same type. -/
theorem typeUnary : Typing.typeUnary first = Typing.typeUnary second := by
  funext node op type
  simp only [Typing.typeUnary, agrees.unaryOverload?]

/-- A binary operation has the same type. -/
theorem typeBinary : Typing.typeBinary first = Typing.typeBinary second := by
  funext node symbol operator left right operand? result
  simp only [Typing.typeBinary, agrees.binaryOverload]

/-- A shift has the same type. -/
theorem typeShift : Typing.typeShift first = Typing.typeShift second := by
  funext node direction left right span
  simp only [Typing.typeShift, agrees.methods]

/-- An item is compared by the same rule. -/
theorem typeItem : Typing.typeItem first = Typing.typeItem second := by
  funext operand item type
  simp only [Typing.typeItem, Typing.membershipTest?, agrees.binaryOverload]

/-- An argument is accepted for the same parameters. -/
theorem typeArgument : Typing.typeArgument first = Typing.typeArgument second := by
  funext param argument type
  simp only [Typing.typeArgument, agrees.canConvert]

/-- The same casts are allowed. -/
theorem canCast : Typing.canCast first = Typing.canCast second := by
  funext source target
  simp only [Typing.canCast, agrees.canConvert, agrees.conversionMethod]

/-- The items of a list are typed alike if each of them is. -/
theorem typeItems {items : List Expr}
    (each : ∀ item ∈ items, Typing.typeOf first item = Typing.typeOf second item)
    (operand : Ty) :
    Typing.typeItems first operand items = Typing.typeItems second operand items := by
  induction items with
  | nil => rfl
  | cons item items ih =>
    obtain ⟨here, rest⟩ := List.forall_mem_cons.1 each
    funext scope
    simp only [Typing.typeItems, here, agrees.typeItem, ih rest]

/-- The elements of an array are typed alike if each of them is. -/
theorem typeElements {elements : List Expr}
    (each : ∀ element ∈ elements, Typing.typeOf first element = Typing.typeOf second element)
    (type : Ty) :
    Typing.typeElements first type elements = Typing.typeElements second type elements := by
  induction elements generalizing type with
  | nil => rfl
  | cons element elements ih =>
    obtain ⟨here, rest⟩ := List.forall_mem_cons.1 each
    funext scope
    simp only [Typing.typeElements, here, agrees.unify, ih rest]

/-- The arguments of a call are typed alike if each of them is. -/
theorem typeArguments {arguments : List Expr}
    (each : ∀ argument ∈ arguments, Typing.typeOf first argument = Typing.typeOf second argument)
    (params : List Ty) :
    Typing.typeArguments first params arguments = Typing.typeArguments second params arguments := by
  induction arguments generalizing params with
  | nil =>
    funext scope
    cases params <;> rfl
  | cons argument arguments ih =>
    obtain ⟨here, rest⟩ := List.forall_mem_cons.1 each
    funext scope
    cases params with
    | nil => rfl
    | cons param params =>
      simp only [Typing.typeArguments, here, agrees.typeArgument, ih rest]

omit agrees in
/-- The values of a binding are typed alike if each of them is. -/
theorem typeBindings {values : List (String × Expr)}
    (each : ∀ value ∈ values, Typing.typeOf first value.2 = Typing.typeOf second value.2) :
    Typing.typeBindings first values = Typing.typeBindings second values := by
  induction values with
  | nil => rfl
  | cons value values ih =>
    obtain ⟨here, rest⟩ := List.forall_mem_cons.1 each
    funext scope
    simp only [Typing.typeBindings, here, ih rest]

/-- Typing goes the same way in environments that agree. -/
theorem typeOf (expr : Expr) : Typing.typeOf first expr = Typing.typeOf second expr := by
  induction expr using Expr.inductionOn with
  | literal | ident | unary | arithmetic | comparison | logical | xor | shift | conditional |
    index | cast =>
    funext scope
    simp only [Typing.typeOf, agrees.typeName, agrees.typeUnary, agrees.typeBinary,
      agrees.typeShift, agrees.unify, agrees.canCast, *]
  | member node operand items inOperand inItems =>
    funext scope
    simp only [Typing.typeOf, inOperand, agrees.typeItems inItems]
  | array node elements inElements =>
    funext scope
    cases elements with
    | nil => rfl
    | cons element elements =>
      obtain ⟨here, rest⟩ := List.forall_mem_cons.1 inElements
      simp only [Typing.typeOf, here, agrees.typeElements rest]
  | call node name arguments inArguments =>
    funext scope
    simp only [Typing.typeOf, agrees.functions, agrees.typeArguments inArguments]
  | bindings node body values inBody inValues =>
    funext scope
    simp only [Typing.typeOf, inBody, typeBindings inValues]

/-- Checking an expression has the same outcome in environments that agree. -/
theorem check (expr : Expr) : ExprCode.check first expr = ExprCode.check second expr := by
  simp only [ExprCode.check, agrees.typeOf]

/-! ## Code generation -/

variable {σ : Type} [HasFrames σ]

/-- A conversion has the same code. -/
theorem emitConversion : Codegen.emitConversion (σ := σ) first = Codegen.emitConversion second := by
  funext source target span
  simp only [Codegen.emitConversion, agrees.conversionMethod]

/-- A cast has the same code. -/
theorem emitCast : Codegen.emitCast (σ := σ) first = Codegen.emitCast second := by
  funext source target span
  simp only [Codegen.emitCast, agrees.canConvert, agrees.conversionMethod, agrees.emitConversion]

variable (typing : Typing)

/-- A converted operand has the same code. -/
theorem emitConverted :
    Codegen.emitConverted (σ := σ) first typing = Codegen.emitConverted second typing := by
  funext expr code target
  simp only [Codegen.emitConverted, agrees.emitConversion]

/-- A name has the same code. -/
theorem emitName : Codegen.emitName (σ := σ) first = Codegen.emitName second := by
  funext node name scope
  simp only [Codegen.emitName, agrees.named]

/-- Operands that are arguments have the same code. -/
theorem emitArguments :
    Codegen.emitArguments (σ := σ) first typing = Codegen.emitArguments second typing := by
  funext arguments params
  induction arguments generalizing params with
  | nil => cases params <;> rfl
  | cons argument arguments ih =>
    cases params with
    | nil => rfl
    | cons param params =>
      simp only [Codegen.emitArguments, agrees.emitConverted, ih]

/-- An operator has the same code. -/
theorem emitOperator :
    Codegen.emitOperator (σ := σ) first typing = Codegen.emitOperator second typing := by
  funext node op operands
  simp only [Codegen.emitOperator, agrees.emitArguments]

/-- A shift has the same code. -/
theorem emitShift : Codegen.emitShift (σ := σ) first typing = Codegen.emitShift second typing := by
  funext node direction left right leftCode rightCode
  simp only [Codegen.emitShift, agrees.emitConverted]

/-- The test of an item has the same code. -/
theorem emitItemTest :
    Codegen.emitItemTest (σ := σ) first typing = Codegen.emitItemTest second typing := by
  funext operandType operandSpan slot item code
  simp only [Codegen.emitItemTest, agrees.emitConversion, agrees.emitConverted]

/-- The items of a list have the same code if each of them has. -/
theorem emitItems {items : List Expr}
    (each : ∀ item ∈ items, Codegen.plan (σ := σ) first typing item =
      Codegen.plan second typing item)
    (operandType : Ty) (operandSpan : Span) (slot : Nat) (found : Label) :
    Codegen.emitItems (σ := σ) first typing operandType operandSpan slot found items =
      Codegen.emitItems second typing operandType operandSpan slot found items := by
  induction items with
  | nil => rfl
  | cons item items ih =>
    obtain ⟨here, rest⟩ := List.forall_mem_cons.1 each
    funext scope
    simp only [Codegen.emitItems, here, agrees.emitItemTest, ih rest]

/-- The elements of an array have the same code if each of them has. -/
theorem emitElements {elements : List Expr}
    (each : ∀ element ∈ elements, Codegen.plan (σ := σ) first typing element =
      Codegen.plan second typing element)
    (type : Ty) (index : Nat) :
    Codegen.emitElements (σ := σ) first typing type index elements =
      Codegen.emitElements second typing type index elements := by
  induction elements generalizing index with
  | nil => rfl
  | cons element elements ih =>
    obtain ⟨here, rest⟩ := List.forall_mem_cons.1 each
    funext scope
    simp only [Codegen.emitElements, here, agrees.emitConverted, ih rest]

/-- The arguments of a call have the same code if each of them has. -/
theorem emitCallArguments {arguments : List Expr}
    (each : ∀ argument ∈ arguments, Codegen.plan (σ := σ) first typing argument =
      Codegen.plan second typing argument)
    (params : List Ty) :
    Codegen.emitCallArguments (σ := σ) first typing arguments params =
      Codegen.emitCallArguments second typing arguments params := by
  induction arguments generalizing params with
  | nil =>
    funext scope
    cases params <;> rfl
  | cons argument arguments ih =>
    obtain ⟨here, rest⟩ := List.forall_mem_cons.1 each
    funext scope
    cases params with
    | nil => rfl
    | cons param params =>
      simp only [Codegen.emitCallArguments, here, agrees.emitConverted, ih rest]

omit agrees in
/-- The values of a binding have the same code if each of them has. -/
theorem emitBindings {values : List (String × Expr)}
    (each : ∀ value ∈ values, Codegen.plan (σ := σ) first typing value.2 =
      Codegen.plan second typing value.2) :
    Codegen.emitBindings (σ := σ) first typing values = Codegen.emitBindings second typing
      values := by
  induction values with
  | nil => rfl
  | cons value values ih =>
    obtain ⟨here, rest⟩ := List.forall_mem_cons.1 each
    funext scope
    simp only [Codegen.emitBindings, here, ih rest]

/-- The same code is planned in environments that agree. -/
theorem plan (expr : Expr) :
    Codegen.plan (σ := σ) first typing expr = Codegen.plan second typing expr := by
  induction expr using Expr.inductionOn with
  | literal | ident | unary | arithmetic | comparison | logical | xor | shift | conditional |
    index | cast =>
    funext scope
    simp only [Codegen.plan, agrees.emitName, agrees.emitOperator, agrees.emitShift,
      agrees.emitConverted, agrees.emitCast, *]
  | member node operand items inOperand inItems =>
    funext scope
    simp only [Codegen.plan, inOperand, agrees.emitItems typing inItems]
  | array node elements inElements =>
    funext scope
    simp only [Codegen.plan, agrees.emitElements typing inElements]
  | call node name arguments inArguments =>
    funext scope
    simp only [Codegen.plan, agrees.functions, agrees.emitCallArguments typing inArguments]
  | bindings node body values inBody inValues =>
    funext scope
    simp only [Codegen.plan, inBody, emitBindings typing inValues]

omit typing in
/-- Compiling an expression has the same outcome in environments that agree. -/
theorem compile (expr : Expr) (maxLocals : Nat) :
    ExprCode.compile first expr maxLocals = ExprCode.compile second expr maxLocals := by
  simp only [ExprCode.compile, agrees.typeOf, Codegen.program, Codegen.emitExpr, agrees.plan]

end Agrees

end Environment

/-! ## Any two orders -/

/-- **The order of declarations.** Environments that are made by the same declarations, with the
variables in one order and all else in any order, give the same answers to every look-up for an
operator or a conversion, and checking and compiling an expression has the same outcome in both. -/
theorem compile_of_perm {first second : List Declaration} {one other : Environment}
    (perm : first.Perm second)
    (sameNumbers : first.filterMap Declaration.declaredVariable? =
      second.filterMap Declaration.declaredVariable?)
    (madeOne : Environment.declareAll {} first = .ok one)
    (madeOther : Environment.declareAll {} second = .ok other) :
    (∀ operator type params, one.operators.find? operator type params =
        other.operators.find? operator type params) ∧
      (∀ operator source target, one.operators.findConversion operator source target =
        other.operators.findConversion operator source target) ∧
      (∀ expr, check one expr = check other expr) ∧
      ∀ expr maxLocals, compile one expr maxLocals = compile other expr maxLocals := by
  obtain ⟨named, functions, operators⟩ := Environment.entries_of_declareAll madeOne
  obtain ⟨otherNamed, otherFunctions, otherOperators⟩ := Environment.entries_of_declareAll madeOther
  have agrees : one.Agrees other := by
    refine Environment.agrees_of_perm (Environment.distinct_empty.declareAll madeOne)
      (Environment.distinct_empty.declareAll madeOther) ?_ ?_ ?_
    · rw [← Array.toList_inj, named, otherNamed, sameNumbers]
    · rw [functions, otherFunctions]
      exact (perm.filterMap _).append_left _
    · rw [operators, otherOperators]
      exact (perm.filterMap _).append_left _
  refine ⟨fun _ _ _ => ?_, fun _ _ _ => ?_, agrees.check, agrees.compile⟩
  · rw [agrees.methods]
  · rw [agrees.conversions]

/-- Prices are added to prices. -/
def addPrices : OperatorMethod :=
  ⟨"operator_Addition", [.named "Money", .named "Money"], .named "Money", ⟨0⟩⟩

/-- Numbers are added to prices, by a method whose name is the same but for the case. -/
def addNumbers : OperatorMethod :=
  ⟨"operator_addition", [.named "Money", .int .i32], .named "Money", ⟨1⟩⟩

/-- The two methods and a variable. -/
def additions : List Declaration :=
  [.ofOperator (.named "Money") addPrices, .ofOperator (.named "Money") addNumbers,
    .ofVariable "price" (.named "Money")]

/-- The same declarations in another order. -/
def reordered : List Declaration :=
  [.ofOperator (.named "Money") addNumbers, .ofVariable "price" (.named "Money"),
    .ofOperator (.named "Money") addPrices]

/-- Methods with different parameters are accepted in any order. -/
theorem registerOperator_of_params {env : Environment} {type : Ty} {method : OperatorMethod}
    (differ : ∀ other ∈ env.operators.methodsOf type, other.params ≠ method.params) :
    env.registerOperator type method =
      .ok { env with operators := ⟨env.operators.declared ++ [(type, method)]⟩ } := by
  have none : (env.operators.methodsOf type).any (·.sameSignature method) = false := by
    rw [List.any_eq_false]
    intro other listed same
    simp only [OperatorMethod.sameSignature, Bool.and_eq_true, beq_iff_eq] at same
    exact differ other listed same.2
  rw [Environment.registerOperator, OperatorRegistry.register?, none]
  rfl

/-- Methods that stand in another order are found all the same. -/
theorem compile_additions : ∃ one other, Environment.declareAll {} additions = .ok one ∧
    Environment.declareAll {} reordered = .ok other ∧
    one.operators.declared ≠ other.operators.declared ∧
    ∀ expr maxLocals, compile one expr maxLocals = compile other expr maxLocals := by
  have price (operators : OperatorRegistry) :
      Environment.declare ⟨#[], [], operators⟩ (.ofVariable "price" (.named "Money")) =
        .ok ⟨#[("price", .named "Money")], [], operators⟩ := by cbv
  have numbers : Environment.declare ⟨#[], [], ⟨[(.named "Money", addPrices)]⟩⟩
      (.ofOperator (.named "Money") addNumbers) = _ := registerOperator_of_params (by decide)
  have prices : Environment.declare
      ⟨#[("price", .named "Money")], [], ⟨[(.named "Money", addNumbers)]⟩⟩
      (.ofOperator (.named "Money") addPrices) = _ := registerOperator_of_params (by decide)
  obtain ⟨one, madeOne⟩ : ∃ one, Environment.declareAll {} additions = .ok one :=
    ⟨_, (Environment.declareAll_cons rfl).trans <| (Environment.declareAll_cons numbers).trans <|
      (Environment.declareAll_cons (price _)).trans rfl⟩
  obtain ⟨other, madeOther⟩ : ∃ other, Environment.declareAll {} reordered = .ok other :=
    ⟨_, (Environment.declareAll_cons rfl).trans <| (Environment.declareAll_cons (price _)).trans <|
      (Environment.declareAll_cons prices).trans rfl⟩
  have perm : additions.Perm reordered := by decide
  refine ⟨one, other, madeOne, madeOther, ?_, (compile_of_perm perm rfl madeOne madeOther).2.2.2⟩
  rw [(Environment.entries_of_declareAll madeOne).2.2,
    (Environment.entries_of_declareAll madeOther).2.2]
  decide

end ExprCode
