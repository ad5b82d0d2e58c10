import ExprCode.Proofs.CodeParts
import ExprCode.Proofs.SafeEvaluation
import ExprCode.Proofs.SemanticPreservation

/-! # Type soundness

Main statement: `execute_typed`. Code that was compiled from a tree of a type either returns a value
of the type or ends with an error of arithmetic, of array access or of the host; the machine never
finds it invalid. -/

namespace ExprCode

open Semantics

/-- Methods that test for equality answer with a truth value. -/
def Environment.EqualityTests (env : Environment) : Prop :=
  ∀ declared ∈ env.operators.declared,
    declared.2.isNamed (Relation.methodName .eq) → declared.2.result = .bool

/-! ## Names -/

/-- Bound names have values of their types. -/
inductive BoundTyped (types : HeapTyping) : TypeScope → ValueScope → Prop
  | nil : BoundTyped types [] []
  | cons {name : String} {type : Ty} {value : Value} {scope : TypeScope} {values : ValueScope}
      (head : value.HasType types type) (tail : BoundTyped types scope values) :
      BoundTyped types ((name, type) :: scope) ((name, value) :: values)

/-- Every variable of an environment has an argument of its type. -/
def ArgumentsTyped (env : Environment) (types : HeapTyping) (arguments : Array Value) : Prop :=
  ∀ (index : Nat) name type, env.variableTypes[index]? = some (name, type) →
    ∃ value : Value, arguments[index]? = some value ∧ value.HasType types type

/-- All names have values of their types. -/
structure ScopeTyped (setting : Setting) (types : HeapTyping) (scope : TypeScope)
    (values : ValueScope) : Prop where
  /-- The variables have. -/
  arguments : ArgumentsTyped setting.env types setting.arguments
  /-- Two bytes number them. -/
  few : setting.env.variableTypes.size ≤ maxVariables
  /-- The bound names have. -/
  bound : BoundTyped types scope values

section Names

variable {setting : Setting} {excused : Excuse} {types grown : HeapTyping} {scope : TypeScope}
  {values : ValueScope}

/-- Bound names keep their types in a heap that has grown. -/
theorem BoundTyped.mono (extends_ : types <+: grown) (bound : BoundTyped types scope values) :
    BoundTyped grown scope values := by
  induction bound with
  | nil => exact .nil
  | cons head tail ih => exact .cons (head.mono extends_) ih

/-- A scope keeps its types in a heap that has grown. -/
theorem ScopeTyped.mono (extends_ : types <+: grown)
    (names : ScopeTyped setting types scope values) :
    ScopeTyped setting grown scope values where
  arguments index name type listed := by
    obtain ⟨value, found, typed⟩ := names.arguments index name type listed
    exact ⟨value, found, typed.mono extends_⟩
  few := names.few
  bound := names.bound.mono extends_

/-- A name is bound in both scopes or in none. -/
theorem BoundTyped.lookup (name : String) (bound : BoundTyped types scope values) :
    (scope.lookup name = none ∧ values.lookup name = none) ∨
      ∃ type value, scope.lookup name = some type ∧ values.lookup name = some value ∧
        value.HasType types type := by
  induction bound with
  | nil => exact .inl ⟨rfl, rfl⟩
  | @cons head type value scope values typed _ ih =>
    rw [List.lookup_cons, List.lookup_cons]
    by_cases same : name == head
    · rw [same]
      exact .inr ⟨type, value, rfl, rfl, typed⟩
    · rw [eq_false_of_ne_true same]
      exact ih

/-- The value of a name has its type. -/
theorem safe_nameValue {name : String} {type : Ty}
    (found : nameType? setting.env name scope = some type)
    (names : ScopeTyped setting types scope values) :
    Safe setting.host excused types (nameValue setting name values)
      (fun grown value => value.HasType grown type) := by
  unfold nameType? at found
  unfold nameValue
  rcases names.bound.lookup name with ⟨unbound, noValue⟩ | ⟨bound, value, inScope, hasValue, typed⟩
  -- a name that is not bound is a variable, whose argument has its type
  · rw [unbound, Option.none_or] at found
    rw [noValue]
    obtain ⟨⟨index, _⟩, declared, rfl⟩ := Option.map_eq_some_iff.1 found
    have listed := Environment.getElem?_of_findVariable? names.few declared
    obtain ⟨value, given, typed⟩ := names.arguments _ _ _ listed
    rw [declared, Option.bind_some]
    dsimp only
    rw [given]
    exact .pure typed
  · rw [inScope, Option.some_or, Option.some.injEq] at found
    rw [hasValue]
    exact .pure (found ▸ typed)

end Names

/-! ## Arrays -/

section Arrays

variable {setting : Setting} {excused : Excuse} {types : HeapTyping}

/-- A new array has its type. -/
theorem safe_allocate (element : Ty) (length : Nat) :
    Safe setting.host excused types
      (modifyGet fun world : World =>
        ((world.heap.allocDefault element.code length).1,
          { world with heap := (world.heap.allocDefault element.code length).2 }) : Eval ArrayRef)
      (fun grown reference => (Value.array reference).HasType grown (.array element)) := by
  intro world typed
  refine ⟨types ++ [element], List.prefix_append _ _, typed.allocDefault element length,
    .array rfl ?_⟩
  -- arrays are numbered as they are made, so the new one has the type that was added last
  have index : (world.heap.allocDefault element.code length).1.index = types.length :=
    typed.length.symm
  rw [index]
  exact List.getElem?_concat_length

/-- A value of the element type may be stored. -/
theorem safe_store {array : ArrayRef} {index : Nat} {value : Value} {element : Ty}
    (arrayTyped : (Value.array array).HasType types (.array element))
    (typed : value.HasType types element) :
    Safe setting.host excused types (Semantics.store array index value) (fun _ _ => True) := by
  intro world heapTyped
  cases arrayTyped with
  | array kind listed =>
    by_cases inside : index < world.heap.length array
    · have run : Semantics.store array index value world =
          .ok () { world with heap := world.heap.store array index value } := by
        refine (congrFun (if_pos inside) world).trans ?_
        dsimp only
        rw [kind, typed.convert?_code]
        split <;> rfl
      rw [run]
      exact ⟨types, List.prefix_refl types, heapTyped.store listed typed index, trivial⟩
    · have run : Semantics.store array index value world =
          .error (.indexOutOfBounds index (world.heap.length array)) world :=
        congrFun (if_neg inside) world
      rw [run]
      exact .inl .indexOutOfBounds

/-- An element of an array has the element type. -/
theorem safe_load {array position : Value} {element : Ty} {kind : IntType}
    (arrayTyped : array.HasType types (.array element))
    (positionTyped : position.HasType types (.int kind)) :
    Safe setting.host excused types
      (do
        let (reference, index) ← Semantics.element array position
        return ((← get).heap.items reference).getD index .null)
      (fun grown value => value.HasType grown element) := by
  intro world heapTyped
  cases positionTyped with
  | @int word _ same =>
    cases arrayTyped with
    | nullArray => exact .inl .nullReference
    | @array reference _ _ listed =>
      -- positions outside of the array are a failure that is permitted
      by_cases inside : 0 ≤ word.value ∧ word.value.toNat < world.heap.length reference
      · have found : Semantics.element (.array reference) (.int word) world =
            .ok (reference, word.value.toNat) world := congrFun (if_pos inside) world
        rw [bind_of_ok found]
        refine ⟨types, List.prefix_refl types, heapTyped, ?_⟩
        have bound : word.value.toNat < (world.heap.items reference).size := inside.2
        rw [Array.getD_eq_getD_getElem?, Array.getElem?_eq_getElem bound, Option.getD_some]
        exact heapTyped.item reference element listed _ (Array.getElem_mem bound)
      · have missed : Semantics.element (.array reference) (.int word) world =
            .error (.indexOutOfBounds _ _) world := congrFun (if_neg inside) world
        rw [bind_of_error missed]
        exact .inl .indexOutOfBounds

end Arrays

/-! ## Tests of items -/

/-- The last host call was of a method, which did not answer with a truth value. -/
def Misanswered (host : Host) (method : OperatorMethod) (calls : Array HostCall) : Prop :=
  ∃ call value, calls.back? = some call ∧ call.function = method.function ∧
    (host.call call.function call.arguments call.heap).1 = .ok value ∧ value.bool? = none

/-- If an item is tested by a method that is not declared to answer with a truth value, the
evaluation is excused when it does not. -/
def ItemExcused (setting : Setting) (excused : Excuse) (item : Expr) : Prop :=
  ∀ {operandType itemType : Ty} {method : OperatorMethod},
    setting.typing.memberships[item.id]? = some (.overload method) →
      ItemRule setting.env operandType itemType (.overload method) → method.result ≠ .bool →
        ∀ calls, Misanswered setting.host method calls →
          excused calls (.invalidProgram .expectedBoolean)

/-! ## Expressions -/

section Expressions

variable {setting : Setting} {excused : Excuse} {scope : TypeScope} {type : Ty}

/-- Whatever values the names in scope have, an expression is evaluated to a value of its type. -/
def Sound (setting : Setting) (excused : Excuse) (scope : TypeScope) (expr : Expr) (type : Ty) :
    Prop :=
  ∀ types values, ScopeTyped setting types scope values →
    Evaluates setting excused types expr (eval setting expr values) type

/-- A tree is sound if its evaluation is safe in every typed scope. -/
theorem Sound.intro {expr : Expr} (known : setting.typing.types[expr.id]? = some type)
    (safe : ∀ types values, ScopeTyped setting types scope values →
      Safe setting.host excused types (eval setting expr values)
        (fun grown value => value.HasType grown type)) :
    Sound setting excused scope expr type := by
  intro types values names
  exact ⟨known, fun grown extends_ => safe grown values (names.mono extends_)⟩

/-- The evaluation of a sound tree is safe. -/
theorem Sound.safe {expr : Expr} {types : HeapTyping} {values : ValueScope}
    (sound : Sound setting excused scope expr type)
    (names : ScopeTyped setting types scope values) :
    Safe setting.host excused types (eval setting expr values)
      (fun grown value => value.HasType grown type) :=
  (sound types values names).safe types (List.prefix_refl types)

variable {node : Node} {left right : Expr} {element : Ty}

/-- A constant. -/
theorem sound_literal {value : Literal} (known : setting.typing.types[node.id]? = some value.ty) :
    Sound setting excused scope (.literal node value) value.ty := by
  refine .intro known fun types values names => ?_
  rw [eval]
  refine .pure ?_
  cases value with
  | bool b => exact .bool
  | int n => exact .int rfl
  | uint n => exact .int rfl
  | long n => exact .int rfl
  | ulong n => exact .int rfl
  | single x => exact .single
  | double x => exact .double
  | str s => exact .str

/-- A conjunction or disjunction of truth values. -/
theorem sound_chain {connective : Connective} (known : setting.typing.types[node.id]? = some .bool)
    (leftSound : Sound setting excused scope left .bool)
    (rightSound : Sound setting excused scope right .bool)
    (joined : isJoined setting.typing (.logical node connective left right)) :
    Sound setting excused scope (.logical node connective left right) .bool := by
  refine .intro known fun types values names => ?_
  rw [eval_joined joined]
  refine (leftSound.safe names).bind fun middle extends_ value typed => ?_
  refine (safe_truth typed).bind fun grown later first _ => ?_
  split
  · exact .pure .bool
  · exact rightSound.safe (names.mono (extends_.trans later))

/-- An element of an array. -/
theorem sound_index {array position : Expr} {positionType : Ty}
    (known : setting.typing.types[node.id]? = some element) (count : Typing.isCount positionType)
    (arraySound : Sound setting excused scope array (.array element))
    (positionSound : Sound setting excused scope position positionType) :
    Sound setting excused scope (.index node array position) element := by
  cases positionType with
  | int kind =>
    refine .intro known fun types values names => ?_
    rw [eval]
    refine (arraySound.safe names).bind fun middle extends_ arrayValue arrayTyped => ?_
    refine (positionSound.safe (names.mono extends_)).bind fun grown later position typed => ?_
    exact safe_load (arrayTyped.mono later) typed
  | _ => cases count

variable (coherent : setting.env.Coherent)
  (honours : setting.host.Honours setting.env)

include coherent honours

/-- A conjunction or disjunction that is not one of truth values. -/
theorem sound_bitwise {connective : Connective} {leftType rightType : Ty} {resolution : Resolution}
    (known : setting.typing.types[node.id]? = some type)
    (resolved : setting.typing.resolutions[node.id]? = some resolution)
    (rule : BinaryRule setting.env connective.methodName leftType rightType
      (leftType.bitwiseOperand? rightType) id resolution type)
    (notBoth : ¬ (leftType = .bool ∧ rightType = .bool))
    (leftSound : Sound setting excused scope left leftType)
    (rightSound : Sound setting excused scope right rightType) :
    Sound setting excused scope (.logical node connective left right) type := by
  have bitwise : connective.function ∈ [BinaryFunction.and, .or, .xor] := by
    cases connective <;> decide
  refine .intro known fun types values names => ?_
  have leftEvaluates := leftSound types values names
  have rightEvaluates := rightSound types values names
  have notJoined : ¬ (Semantics.isBool setting left && Semantics.isBool setting right) := by
    simpa [Semantics.isBool, leftEvaluates.known, rightEvaluates.known] using notBoth
  rw [eval, if_neg notJoined]
  exact safe_binary coherent honours rule (fun _ => Ty.implicit_of_bitwiseOperand?)
    (fun _ found _ _ _ => yields_bitwise bitwise found) resolved leftEvaluates rightEvaluates

/-- A shift. -/
theorem sound_shift {direction : ShiftDirection} {leftType rightType : Ty} {resolution : Resolution}
    (known : setting.typing.types[node.id]? = some type)
    (resolved : setting.typing.resolutions[node.id]? = some resolution)
    (rule : ShiftRule setting.env direction leftType resolution type)
    (count : Typing.isCount rightType) (leftSound : Sound setting excused scope left leftType)
    (rightSound : Sound setting excused scope right rightType) :
    Sound setting excused scope (.shift node direction left right) type := by
  have numbers : rightType ≠ .int .i32 → rightType.isNumeric ∧ (Ty.int .i32).isNumeric := by
    cases rightType with
    | int kind => exact fun _ => ⟨rfl, rfl⟩
    | _ => cases count
  refine .intro known fun types values names => ?_
  rw [eval]
  unfold Semantics.shift
  refine .known resolved ?_
  -- the count becomes an Int32 either way
  cases rule with
  | @overload name method found =>
    obtain ⟨declared, -, params⟩ := OperatorRegistry.find?_eq_some found
    dsimp only
    rw [params, List.headD_cons]
    refine ((leftSound types values names).converted coherent honours
      (OperatorRegistry.canConvert_self _)).bind fun middle extends_ value typed => ?_
    refine (rightSound.safe (names.mono extends_)).bind fun grown later right rightTyped => ?_
    refine .known (rightSound _ _ names).known ?_
    refine (safe_convertNumber rightTyped numbers).bind fun last latest count countTyped => ?_
    refine safe_call (honours.method _ declared) ?_
    rw [params]
    exact .cons (typed.mono (later.trans latest)) (.cons countTyped .nil)
  | primitive kind =>
    dsimp only
    have converts : setting.env.operators.canConvert (.int kind) (.int kind.promoted) =
        .ok true := OperatorRegistry.canConvert_of_implicit (Ty.implicit_of_unaryPromoted? rfl)
    refine ((leftSound types values names).converted coherent honours converts).bind
      fun middle extends_ value typed => ?_
    refine (rightSound.safe (names.mono extends_)).bind fun grown later right rightTyped => ?_
    refine .known (rightSound _ _ names).known ?_
    refine (safe_convertNumber rightTyped numbers).bind fun last latest count countTyped => ?_
    cases countTyped with
    | @int word _ same =>
      have counted : (Value.int word).int? .i32 = some word.value := if_pos same
      refine .known counted ?_
      exact safe_ofExcept (yields_shift direction _ (typed.mono (later.trans latest)))

/-- A choice between two expressions. -/
theorem sound_conditional {condition thenBranch elseBranch : Expr} {thenType elseType : Ty}
    (known : setting.typing.types[node.id]? = some type)
    (unified : setting.env.operators.unify thenType elseType = .ok (some type))
    (conditionSound : Sound setting excused scope condition .bool)
    (thenSound : Sound setting excused scope thenBranch thenType)
    (elseSound : Sound setting excused scope elseBranch elseType) :
    Sound setting excused scope (.conditional node condition thenBranch elseBranch) type := by
  have ⟨thenConverts, elseConverts⟩ := OperatorRegistry.converts_of_unify unified
  refine .intro known fun types values names => ?_
  rw [eval]
  refine .known known ?_
  refine (conditionSound.safe names).bind fun middle extends_ value typed => ?_
  refine (safe_truth typed).bind fun grown later chosen _ => ?_
  have stillNamed := names.mono (extends_.trans later)
  cases chosen with
  | true => exact (thenSound _ _ stillNamed).converted coherent honours thenConverts
  | false => exact (elseSound _ _ stillNamed).converted coherent honours elseConverts

/-- The elements of an array literal are stored one by one. -/
theorem safe_evalElements {types : HeapTyping} {values : ValueScope} {array : ArrayRef}
    {index : Nat} {elements : List Expr}
    (each : ∀ value ∈ elements, ∃ source, Sound setting excused scope value source ∧
      setting.env.operators.canConvert source element = .ok true)
    (names : ScopeTyped setting types scope values)
    (arrayTyped : (Value.array array).HasType types (.array element)) :
    Safe setting.host excused types (evalElements setting array element index elements values)
      (fun _ _ => True) := by
  induction elements generalizing types index with
  | nil =>
    rw [evalElements]
    exact .pure trivial
  | cons value elements ih =>
    have ⟨⟨source, sound, converts⟩, others⟩ := List.forall_mem_cons.1 each
    rw [evalElements]
    refine ((sound types values names).converted coherent honours converts).bind
      fun middle extends_ stored typed => ?_
    refine (safe_store (arrayTyped.mono extends_) typed).bind fun grown later _ _ => ?_
    have grows := extends_.trans later
    exact ih others (names.mono grows) (arrayTyped.mono grows)

/-- An array literal. -/
theorem sound_array {elements : List Expr}
    (known : setting.typing.types[node.id]? = some (.array element))
    (each : ∀ value ∈ elements, ∃ source, Sound setting excused scope value source ∧
      setting.env.operators.canConvert source element = .ok true) :
    Sound setting excused scope (.array node elements) (.array element) := by
  refine .intro known fun types values names => ?_
  rw [eval]
  refine .known known (.known rfl ?_)
  refine (safe_allocate element elements.length).bind fun middle extends_ reference arrayTyped => ?_
  refine (safe_evalElements coherent honours each (names.mono extends_) arrayTyped).bind
    fun grown later _ _ => ?_
  exact .pure (arrayTyped.mono later)

omit coherent in
/-- A call, once its arguments have been evaluated. -/
theorem sound_call {name : String} {arguments : List Expr} {signature : FunctionSignature}
    (known : setting.typing.types[node.id]? = some signature.result)
    (found : setting.env.findFunction? name = some signature)
    (argumentsSafe : ∀ types values, ScopeTyped setting types scope values →
      Safe setting.host excused types (evalArguments setting arguments signature.params values)
        (fun grown results => AllTyped grown results signature.params)) :
    Sound setting excused scope (.call node name arguments) signature.result := by
  refine .intro known fun types values names => ?_
  rw [eval]
  refine .known found ?_
  refine (argumentsSafe types values names).bind fun grown _ results allTyped => ?_
  have declared := Environment.mem_functions_of_findFunction? found
  exact safe_call (honours.function _ declared) allTyped

/-- A conversion that was asked for. -/
theorem sound_cast {operand : Expr} {source target : Ty}
    (known : setting.typing.types[node.id]? = some target)
    (possible : Typing.canCast setting.env source target = .ok true)
    (operandSound : Sound setting excused scope operand source) :
    Sound setting excused scope (.cast node operand target) target := by
  refine .intro known fun types values names => ?_
  rw [eval]
  refine .known (operandSound types values names).known ?_
  refine (operandSound.safe names).bind fun grown _ value typed => ?_
  exact safe_cast coherent honours possible typed

omit coherent honours in
/-- The truth value that a method answers with, if it does. -/
theorem safe_answer {types : HeapTyping} {method : OperatorMethod} {arguments : List Value}
    (keeps : setting.host.Keeps method.function method.params method.result)
    (argumentsTyped : AllTyped types arguments method.params)
    (excuse : method.result ≠ .bool → ∀ calls, Misanswered setting.host method calls →
      excused calls (.invalidProgram .expectedBoolean)) :
    Safe setting.host excused types (call setting method.function arguments >>= truth)
      (fun _ _ => True) := by
  by_cases isBool : method.result = .bool
  · exact (safe_call keeps argumentsTyped).bind fun _ _ _ typed => safe_truth (isBool ▸ typed)
  · intro world heapTyped
    -- nothing is known of the answer, so the run is followed to where a truth value is asked for
    obtain ⟨grown, extends_, stillTyped, -⟩ :=
      keeps types world.heap arguments heapTyped argumentsTyped
    have run := call_eq setting method.function arguments world
    cases returned : (setting.host.call method.function arguments world.heap).1 with
    | error error =>
      rw [returned] at run
      rw [bind_of_error run]
      exact .inl (.host Array.back?_push returned)
    | ok value =>
      rw [returned] at run
      rw [bind_of_ok run, truth]
      cases answered : value.bool? with
      | some b => exact ⟨grown, extends_, stillTyped, trivial⟩
      | none => exact .inr (excuse isBool _ ⟨_, value, Array.back?_push, rfl, returned, answered⟩)

/-- The test of one item of a membership test. -/
theorem safe_itemTest {types : HeapTyping} {operandType itemType : Ty} {test : Resolution}
    {operand : Value} {item : Expr} {evaluation : Eval Value}
    (tested : setting.typing.memberships[item.id]? = some test)
    (rule : ItemRule setting.env operandType itemType test)
    (excuse : ItemExcused setting excused item) (operandTyped : operand.HasType types operandType)
    (evaluates : Evaluates setting excused types item evaluation itemType) :
    Safe setting.host excused types (itemTest setting operandType operand item evaluation >>= truth)
      (fun _ _ => True) := by
  unfold itemTest
  rw [bind_assoc]
  refine .known tested ?_
  cases rule with
  | @primitive common plain found =>
    have ⟨operandImplicit, itemImplicit⟩ := Typing.implicit_of_comparisonOperand? found
    dsimp only
    simp only [bind_assoc]
    refine (safe_convert coherent honours (OperatorRegistry.canConvert_of_implicit operandImplicit)
      operandTyped).bind fun middle extends_ left leftTyped => ?_
    refine ((evaluates.mono extends_).converted coherent honours
      (OperatorRegistry.canConvert_of_implicit itemImplicit)).bind fun grown later right typed => ?_
    exact (safe_ofExcept (yields_comparison found (leftTyped.mono later) typed)).bind
      fun _ _ _ => safe_truth
  | @overload method named found =>
    obtain ⟨⟨owner, declared⟩, -, first, second, params, leftConverts, rightConverts⟩ :=
      OperatorRegistry.binaryOverload_eq_some found
    dsimp only
    simp only [bind_assoc]
    rw [params, List.headD_cons]
    refine (safe_convert coherent honours leftConverts operandTyped).bind
      fun middle extends_ left leftTyped => ?_
    refine .known evaluates.known ?_
    refine ((evaluates.mono extends_).converted coherent honours rightConverts).bind
      fun grown later right typed => ?_
    refine safe_answer (honours.method _ declared) ?_ (excuse tested (.overload named found))
    rw [params]
    exact .cons (leftTyped.mono later) (.cons typed .nil)

omit coherent honours in
/-- Bound values, once they have been evaluated, are names in scope of the body. -/
theorem sound_bindings {inner : TypeScope} {body : Expr} {bound : List (String × Expr)}
    (known : setting.typing.types[node.id]? = some type)
    (boundSafe : ∀ types values, ScopeTyped setting types scope values →
      Safe setting.host excused types (evalBindings setting bound values)
        (fun grown values => ScopeTyped setting grown inner values))
    (bodySound : Sound setting excused inner body type) :
    Sound setting excused scope (.bindings node body bound) type := by
  refine .intro known fun types values names => ?_
  rw [eval]
  refine (boundSafe types values names).bind fun grown _ values innerNames => ?_
  exact bodySound.safe innerNames

omit coherent honours in
/-- A membership test, once its items have been compared. -/
theorem sound_member {operand : Expr} {items : List Expr} {operandType : Ty}
    (known : setting.typing.types[node.id]? = some .bool)
    (operandSound : Sound setting excused scope operand operandType)
    (itemsSafe : ∀ types values operand, ScopeTyped setting types scope values →
      operand.HasType types operandType →
        Safe setting.host excused types (evalItems setting operandType operand items values)
          (fun _ _ => True)) : Sound setting excused scope (.member node operand items) .bool := by
  refine .intro known fun types values names => ?_
  rw [eval]
  refine .known (operandSound types values names).known ?_
  refine (operandSound.safe names).bind fun middle extends_ value typed => ?_
  refine (itemsSafe middle values value (names.mono extends_) typed).bind fun grown _ found _ => ?_
  exact .pure .bool

end Expressions

/-! ## Typed expressions -/

section Typed

variable {setting : Setting} {excused : Excuse}

/-- The elements of all array literals in an expression convert to their element types, and tests of
items are excused where their methods need not answer with a truth value. -/
structure Prepared (setting : Setting) (excused : Excuse) (expr : Expr) : Prop where
  /-- Elements convert. -/
  converted : ∀ part ∈ expr.parts, ElementsConverted setting.env setting.typing part
  /-- Tests are excused. -/
  excuse : ∀ node operand items, Expr.member node operand items ∈ expr.parts →
    ∀ item ∈ items, ItemExcused setting excused item

/-- The children of a prepared tree are prepared. -/
theorem Prepared.child {expr child : Expr} (prepared : Prepared setting excused expr)
    (member : child ∈ expr.children) : Prepared setting excused child where
  converted part inChild := prepared.converted part (Expr.parts_subset_of_child member inChild)
  excuse node operand items inChild :=
    prepared.excuse node operand items (Expr.parts_subset_of_child member inChild)

mutual

/-- A typed expression is evaluated to a value of its type. -/
theorem Typed.sound (coherent : setting.env.Coherent)
    (honours : setting.host.Honours setting.env) {scope : TypeScope} {expr : Expr} {type : Ty} :
    Typed setting.env setting.typing scope expr type → Prepared setting excused expr →
      Sound setting excused scope expr type
  | .literal known, _ => sound_literal known
  | .ident found known, _ => .intro known fun _ _ names => by
    rw [eval]
    exact safe_nameValue found names
  | .unary operandTyped rule resolved known, prepared => .intro known fun types values names => by
    rw [eval]
    have operandSound := operandTyped.sound coherent honours (prepared.child (.head _))
    exact safe_unary coherent honours rule resolved (operandSound types values names)
  | .arithmetic leftTyped rightTyped rule resolved known, prepared =>
    .intro known fun types values names => by
      rw [eval]
      have leftSound := leftTyped.sound coherent honours (prepared.child (.head _))
      have rightSound := rightTyped.sound coherent honours (prepared.child (.tail _ (.head _)))
      exact safe_binary coherent honours rule (fun _ => Typing.implicit_of_arithmeticOperand?)
        (fun _ found _ _ _ => yields_arithmetic found) resolved (leftSound types values names)
        (rightSound types values names)
  | .comparison leftTyped rightTyped rule resolved known, prepared =>
    .intro known fun types values names => by
      rw [eval]
      have leftSound := leftTyped.sound coherent honours (prepared.child (.head _))
      have rightSound := rightTyped.sound coherent honours (prepared.child (.tail _ (.head _)))
      exact safe_binary coherent honours rule (fun _ => Typing.implicit_of_comparisonOperand?)
        (fun _ found _ _ _ => yields_comparison found) resolved (leftSound types values names)
        (rightSound types values names)
  | .chain leftTyped rightTyped known, prepared => by
    refine sound_chain known (leftTyped.sound coherent honours (prepared.child (.head _)))
      (rightTyped.sound coherent honours (prepared.child (.tail _ (.head _)))) ?_
    simp [isJoined, Codegen.isBool, leftTyped.known, rightTyped.known]
  | .bitwise leftTyped rightTyped notBoth rule resolved known, prepared =>
    sound_bitwise coherent honours known resolved rule notBoth
      (leftTyped.sound coherent honours (prepared.child (.head _)))
      (rightTyped.sound coherent honours (prepared.child (.tail _ (.head _))))
  | .xor leftTyped rightTyped rule resolved known, prepared =>
    .intro known fun types values names => by
      rw [eval]
      have leftSound := leftTyped.sound coherent honours (prepared.child (.head _))
      have rightSound := rightTyped.sound coherent honours (prepared.child (.tail _ (.head _)))
      exact safe_binary coherent honours rule (fun _ => Ty.implicit_of_bitwiseOperand?)
        (fun _ found _ _ _ => yields_bitwise (by decide) found) resolved
        (leftSound types values names) (rightSound types values names)
  | .shift leftTyped rightTyped count rule resolved known, prepared =>
    sound_shift coherent honours known resolved rule count
      (leftTyped.sound coherent honours (prepared.child (.head _)))
      (rightTyped.sound coherent honours (prepared.child (.tail _ (.head _))))
  | .conditional conditionTyped thenTyped elseTyped unified known, prepared =>
    sound_conditional coherent honours known unified
      (conditionTyped.sound coherent honours (prepared.child (.head _)))
      (thenTyped.sound coherent honours (prepared.child (.tail _ (.head _))))
      (elseTyped.sound coherent honours (prepared.child (.tail _ (.tail _ (.head _)))))
  | .member operandTyped itemsTyped known, prepared =>
    sound_member known (operandTyped.sound coherent honours (prepared.child (.head _)))
      (itemsTyped.safe coherent honours (fun _ listed => prepared.child (.tail _ listed))
        (prepared.excuse _ _ _ (Expr.mem_parts _)))
  | .index arrayTyped positionTyped count known, prepared =>
    sound_index known count (arrayTyped.sound coherent honours (prepared.child (.head _)))
      (positionTyped.sound coherent honours (prepared.child (.tail _ (.head _))))
  | .array firstTyped restTyped known, prepared => by
    refine sound_array coherent honours known fun value listed => ?_
    -- what converts is the type that typing knows, which is the one the element is sound for
    obtain ⟨source, isKnown, converts⟩ :=
      prepared.converted _ (Expr.mem_parts _) _ known value listed
    have firstSound := firstTyped.sound coherent honours (prepared.child (.head _))
    have restSound :=
      restTyped.sound coherent honours fun _ listed => prepared.child (.tail _ listed)
    obtain ⟨type, sound, typeKnown⟩ := List.forall_mem_cons.2
      ⟨⟨_, firstSound, firstTyped.known⟩, restSound⟩ value listed
    rw [typeKnown, Option.some.injEq] at isKnown
    exact ⟨type, sound, isKnown ▸ converts⟩
  | .call found _ argumentsTyped known, prepared =>
    sound_call honours known found (argumentsTyped.safe coherent honours fun _ listed =>
      prepared.child listed)
  | .cast operandTyped possible known, prepared =>
    sound_cast coherent honours known possible
      (operandTyped.sound coherent honours (prepared.child (.head _)))
  | .bindings valuesTyped bodyTyped known, prepared =>
    sound_bindings known
      (valuesTyped.safe coherent honours fun _ listed =>
        prepared.child (.tail _ (List.mem_map_of_mem listed)))
      (bodyTyped.sound coherent honours (prepared.child (.head _)))

/-- The items of a membership test are compared until one is equal. -/
theorem TypedItems.safe (coherent : setting.env.Coherent)
    (honours : setting.host.Honours setting.env) {scope : TypeScope} {operandType : Ty}
    {items : List Expr} :
    TypedItems setting.env setting.typing scope operandType items →
      (∀ item ∈ items, Prepared setting excused item) →
      (∀ item ∈ items, ItemExcused setting excused item) →
      ∀ types values operand, ScopeTyped setting types scope values →
        operand.HasType types operandType →
          Safe setting.host excused types (evalItems setting operandType operand items values)
            (fun _ _ => True)
  | .nil, _, _, _, _, _, _, _ => by
    rw [evalItems]
    exact .pure trivial
  | .cons itemTyped rule tested itemsTyped, prepared, excuse, types, values, operand, names,
    typed => by
    have ⟨itemPrepared, othersPrepared⟩ := List.forall_mem_cons.1 prepared
    have itemSound := itemTyped.sound coherent honours itemPrepared
    have ⟨itemExcuse, othersExcuse⟩ := List.forall_mem_cons.1 excuse
    rw [evalItems, ← bind_assoc]
    refine (safe_itemTest coherent honours tested rule itemExcuse typed
      (itemSound types values names)).bind fun grown extends_ equal _ => ?_
    cases equal with
    | true => exact .pure trivial
    | false =>
      exact itemsTyped.safe coherent honours othersPrepared othersExcuse grown values operand
        (names.mono extends_)
        (typed.mono extends_)

/-- The elements of an array literal behind the first have values of their types. -/
theorem TypedElements.sound (coherent : setting.env.Coherent)
    (honours : setting.host.Honours setting.env) {scope : TypeScope} {element result : Ty}
    {rest : List Expr} :
    TypedElements setting.env setting.typing scope element rest result →
      (∀ value ∈ rest, Prepared setting excused value) →
      ∀ value ∈ rest, ∃ type, Sound setting excused scope value type ∧
        setting.typing.types[value.id]? = some type
  | .nil, _ => fun _ none => absurd none List.not_mem_nil
  | .cons otherTyped _ restTyped, prepared =>
    have ⟨otherPrepared, othersPrepared⟩ := List.forall_mem_cons.1 prepared
    List.forall_mem_cons.2 ⟨⟨_, otherTyped.sound coherent honours otherPrepared, otherTyped.known⟩,
      restTyped.sound coherent honours othersPrepared⟩

/-- Arguments are evaluated to values of the parameter types. -/
theorem TypedArguments.safe (coherent : setting.env.Coherent)
    (honours : setting.host.Honours setting.env) {scope : TypeScope} {params : List Ty}
    {arguments : List Expr} :
    TypedArguments setting.env setting.typing scope params arguments →
      (∀ argument ∈ arguments, Prepared setting excused argument) →
      ∀ types values, ScopeTyped setting types scope values →
        Safe setting.host excused types (evalArguments setting arguments params values)
          (fun grown results => AllTyped grown results params)
  | .nil, _, _, _, _ => by
    rw [evalArguments]
    · exact .pure .nil
    · exact fun _ _ _ _ h => by cases h
  | .cons argumentTyped converts argumentsTyped, prepared, types, values, names => by
    have ⟨argumentPrepared, othersPrepared⟩ := List.forall_mem_cons.1 prepared
    have argumentSound := argumentTyped.sound coherent honours argumentPrepared
    rw [evalArguments]
    refine ((argumentSound types values names).converted coherent honours converts).bind
      fun middle extends_ value typed => ?_
    refine (argumentsTyped.safe coherent honours othersPrepared middle values
      (names.mono extends_)).bind
      fun grown later results allTyped => ?_
    exact .pure (.cons (typed.mono later) allTyped)

/-- Bound values are evaluated one after the other. -/
theorem TypedBindings.safe (coherent : setting.env.Coherent)
    (honours : setting.host.Honours setting.env) {scope inner : TypeScope}
    {bound : List (String × Expr)} :
    TypedBindings setting.env setting.typing scope bound inner →
      (∀ value ∈ bound, Prepared setting excused value.2) →
      ∀ types values, ScopeTyped setting types scope values →
        Safe setting.host excused types (evalBindings setting bound values)
          (fun grown values => ScopeTyped setting grown inner values)
  | .nil, _, _, _, names => by
    rw [evalBindings]
    exact .pure names
  | .cons valueTyped valuesTyped, prepared, types, values, names => by
    have ⟨valuePrepared, othersPrepared⟩ := List.forall_mem_cons.1 prepared
    have valueSound := valueTyped.sound coherent honours valuePrepared
    rw [evalBindings]
    refine (valueSound.safe names).bind fun middle extends_ value typed => ?_
    have stillNamed := names.mono extends_
    exact valuesTyped.safe coherent honours othersPrepared middle _
      { stillNamed with bound := .cons typed stillNamed.bound }

end

end Typed

/-! ## Execution -/

/-- An evaluation of a typed expression ends with a value of the type, with a permitted error, or
with an error for which the tests of items are excused. -/
theorem ends_of_excused {env : Environment} {expr : Expr} {type : Ty} {code : Code} {host : Host}
    {arguments : Array Value} {types : HeapTyping} {heap : Heap} {excused : Excuse}
    (few : env.variableTypes.size ≤ maxVariables) (coherent : env.Coherent)
    (honours : host.Honours env)
    (excuse : ∀ node operand items, Expr.member node operand items ∈ expr.parts → ∀ item ∈ items,
      ItemExcused ⟨env, typingOf env expr, host, arguments⟩ excused item)
    (typed : Typed env (typingOf env expr) [] expr type)
    (compiled : Compiled env expr code) (heapTyped : heap.WellTyped types)
    (argumentsTyped : ArgumentsTyped env types arguments) :
    Ends host excused types (fun grown value => value.HasType grown type)
      (eval ⟨env, typingOf env expr, host, arguments⟩ expr [] ⟨heap, #[]⟩) := by
  obtain ⟨stop, finish, bodyCode, -⟩ := compiled.body
  let setting : Setting := ⟨env, typingOf env expr, host, arguments⟩
  have prepared : Prepared setting excused expr :=
    ⟨fun part inExpr => (bodyCode.part part inExpr).elementsConverted, excuse⟩
  have sound : Sound setting excused [] expr type := Typed.sound coherent honours typed prepared
  exact sound.safe ⟨argumentsTyped, few, .nil⟩ ⟨heap, #[]⟩ heapTyped

/-- If methods that test for equality answer with a truth value, an evaluation of a typed expression
ends with a value of the type or with a permitted error. -/
theorem ends_of_typed {env : Environment} {expr : Expr} {type : Ty} {code : Code} {host : Host}
    {arguments : Array Value} {types : HeapTyping} {heap : Heap}
    (few : env.variableTypes.size ≤ maxVariables) (coherent : env.Coherent)
    (equality : env.EqualityTests) (honours : host.Honours env)
    (typed : Typed env (typingOf env expr) [] expr type)
    (compiled : Compiled env expr code) (heapTyped : heap.WellTyped types)
    (argumentsTyped : ArgumentsTyped env types arguments) :
    match eval ⟨env, typingOf env expr, host, arguments⟩ expr [] ⟨heap, #[]⟩ with
    | .ok value world =>
      ∃ grown, types <+: grown ∧ world.heap.WellTyped grown ∧ value.HasType grown type
    | .error error world => Permitted host world.calls error := by
  have excuse (node : Node) (operand : Expr) (items : List Expr)
      (_ : Expr.member node operand items ∈ expr.parts) (item : Expr) (_ : item ∈ items) :
      ItemExcused ⟨env, typingOf env expr, host, arguments⟩ (fun _ _ => False) item := by
    rintro _ _ method - ⟨-, found⟩ notBool
    obtain ⟨⟨owner, declared⟩, isEquality, -⟩ := OperatorRegistry.binaryOverload_eq_some found
    exact absurd (equality _ declared isEquality) notBool
  have ends := ends_of_excused few coherent honours excuse typed compiled heapTyped argumentsTyped
  revert ends
  cases eval _ expr [] ⟨heap, #[]⟩ with
  | ok value world => exact id
  | error error world => exact fun ends => ends.resolve_right id

/-- Executing the code of a tree of a type ends with a value of the type, or with an error of
integer division, of array access or of the last host call; the arrays stay well typed. -/
theorem execute_typed {env : Environment} {expr : Expr} {type : Ty} {maxLocals : Nat}
    {code : Code} {host : Host} {arguments : Array Value} {types : HeapTyping} {heap : Heap}
    (declared : env.Declared) (coherent : env.Coherent)
    (equality : env.EqualityTests) (honours : host.Honours env)
    (tree : expr.IsTree) (checked : check env expr = .ok type)
    (compiled : compile env expr maxLocals = .ok code) (small : code.bytes.size < 2 ^ 31)
    (heapTyped : heap.WellTyped types)
    (argumentsTyped : ArgumentsTyped env types arguments) :
    ∃ outcome : Machine.Outcome,
      (∃ steps, ∀ limit, steps ≤ limit →
        Machine.execute limit ⟨code, arguments, host⟩ heap = some outcome) ∧
      match outcome.result with
      | .ok value => ∃ grown, types <+: grown ∧ outcome.heap.WellTyped grown ∧
          value.HasType grown type
      | .error error => Permitted host outcome.calls error := by
  obtain ⟨-, isCompiled⟩ := compiled_of_compile tree compiled
  refine ⟨_, isCompiled.execute_eq coherent small host arguments heap, ?_⟩
  have ends := ends_of_typed declared.size_variableTypes_le coherent equality honours
    (typed_of_check tree checked) isCompiled heapTyped argumentsTyped
  unfold outcome ending
  revert ends
  cases eval _ expr [] ⟨heap, #[]⟩ with
  | ok value world => exact id
  | error error world => exact id

/-- The host of the example honours the signatures. -/
theorem honours_fiveHost : fiveHost.Honours pricing where
  function := by
    refine List.forall_mem_singleton.2 fun types heap arguments typed _ => ?_
    refine ⟨types, List.prefix_refl types, typed, fun value returned => ?_⟩
    cases returned
    exact .int rfl
  method _ none := absurd none List.not_mem_nil

/-- A member pays eight bytes. -/
theorem execute_payment_typed : ∃ code, compile pricing payment 8 = .ok code ∧
    ∃ outcome : Machine.Outcome,
      (∃ steps, ∀ limit, steps ≤ limit →
        Machine.execute limit ⟨code, #[.bool true], fiveHost⟩ {} = some outcome) ∧
      match outcome.result with
      | .ok value => ∃ grown, [] <+: grown ∧ outcome.heap.WellTyped grown ∧
          value.HasType grown (.int .i64)
      | .error error => Permitted fiveHost outcome.calls error := by
  obtain ⟨code, compiled, small⟩ := compile_payment
  have checked : check pricing payment = .ok (.int .i64) := by cbv
  have noMethods : pricing.EqualityTests := fun _ none => absurd none List.not_mem_nil
  have noArrays : Heap.WellTyped [] {} := ⟨rfl, fun _ _ none => by cases none⟩
  refine ⟨code, compiled, execute_typed declared_pricing (by decide) noMethods honours_fiveHost
    (by decide) checked compiled small noArrays fun index name type listed => ?_⟩
  have bound : index < 1 := (Array.getElem?_eq_some_iff.1 listed).1
  cases Nat.lt_one_iff.1 bound
  cases listed
  exact ⟨.bool true, rfl, .bool⟩

end ExprCode
