import ExprCode.Proofs.ChainEmission

/-! # The code of expressions

Main statement: `planned`. Code generation for a typed tree emits its code as `CodeAt` describes it.
It rejects the expression only where an array literal is too long or one of its elements lacks the
conversion to the element type: everything else it asks for has been granted by typing. -/

namespace ExprCode

namespace Codegen

/-- An array literal has few elements, and all of them convert to the element type; other
expressions have none. -/
def ElementsConvert (env : Environment) (typing : Typing) : Expr → Prop
  | .array node elements =>
      elements.length < 2 ^ 31 ∧ ∀ element, typing.types[node.id]? = some (.array element) →
        ∀ value ∈ elements, Convertible env typing value element
  | _ => True

variable {env : Environment} {strict : Prop} {typing : Typing} {scope : SlotScope}

/-! ## Lists of expressions -/

variable {typeScope typeInner : TypeScope} {values : List (String × Expr)} {expr : Expr}
  {resolution : Resolution} {node : Node} {type : Ty}

/-- The code of the items of a membership test. -/
theorem generates_emitItems {operandType : Ty} {operandSpan : Span} {slot : Nat} {found : Label}
    {items : List Expr} (typed : TypedItems env typing typeScope operandType items)
    (each : ∀ item ∈ items, ∀ {type}, Typed env typing typeScope item type →
      GeneratesCode env strict typing scope item
        (emitCode (plan env typing item scope))) :
    Generates env strict
      (emitItems env typing operandType operandSpan slot found items scope)
      (fun _ image start stop => ItemsAt image.code env typing scope operandType slot
        (image.offset (image.position found)) items start stop) := by
  induction items with
  | nil =>
    rw [emitItems]
    refine (Generates.pure ()).mono fun _ _ _ _ => ?_
    rintro ⟨-, rfl⟩
    exact .nil
  | cons item items ih =>
    cases typed with
    | cons itemTyped rule tested itemsTyped =>
      -- an equal item leaves for the label; what is compared after the branch are the items behind
      -- it
      rw [emitItems]
      refine ((generates_emitItemTest tested rule itemTyped.known
        (each item List.mem_cons_self itemTyped)).bind fun _ =>
          (generates_emitBranch .ifTrue .long found).bind fun _ =>
            ih itemsTyped fun other member =>
              each other (List.mem_cons_of_mem _ member)).mono fun _ _ _ _ => ?_
      rintro ⟨_, compared, itemCode, _, next, chosen, itemsCode⟩
      exact .cons itemCode chosen itemsCode

/-- The code of the elements of an array literal. -/
theorem generates_emitElements {element : Ty} {index : Nat} {values : List Expr}
    (short : strict → index + values.length < 2 ^ 31)
    (converts : strict → ∀ value ∈ values, Convertible env typing value element)
    (each : ∀ value ∈ values, GeneratesCode env strict typing scope value
      (emitCode (plan env typing value scope))) :
    Generates env strict (emitElements env typing element index values scope)
      (fun _ image start stop =>
        ElementsAt image.code env typing scope element index values start stop) := by
  induction values generalizing index with
  | nil =>
    rw [emitElements]
    refine (Generates.pure ()).mono fun _ _ _ _ => ?_
    rintro ⟨-, rfl⟩
    exact .nil
  -- the index grows as the values get fewer, so the bound on their sum carries over
  | cons value values ih =>
    rw [emitElements]
    have later : Generates env strict
        (emitElements env typing element (index + 1) values scope) _ := ih
      (fun holds => by have := short holds; simp only [List.length_cons] at this; omega)
      (fun holds other member => converts holds other (List.mem_cons_of_mem _ member))
      fun other member => each other (List.mem_cons_of_mem _ member)
    refine ((generates_emitOp .dup).bind fun _ =>
      (generates_emitLength fun holds => by
        have := short holds; simp only [List.length_cons] at this; omega).bind fun _ =>
        (generates_emitConverted (each value List.mem_cons_self) fun holds =>
          converts holds value List.mem_cons_self).bind fun _ =>
          (Generates.ofEmit fun _ _ _ => Emitter.emits_emitArrayStore).bind fun _ => later).mono
            fun _ _ _ _ => ?_
    rintro ⟨_, copied, copy, _, indexed, ⟨small, position⟩, _, evaluated, valueCode, _, stored,
      storing, valuesCode⟩
    exact .cons small copy position valueCode storing valuesCode

/-- The arguments of a call are emitted as the operands of an operator are. -/
theorem emitCallArguments_eq (arguments : List Expr) (params : List Ty) :
    (emitCallArguments env typing arguments params scope : Codegen Emitter Unit) =
      emitArguments env typing
        (arguments.map fun argument => (argument, emitCode (plan env typing argument scope)))
        params := by
  induction arguments generalizing params with
  | nil => cases params <;> rfl
  | cons argument arguments ih =>
    cases params with
    | nil => rfl
    | cons param params =>
      rw [emitCallArguments, List.map_cons, emitArguments, ih]

/-- Typed arguments convert to the parameter types. -/
theorem allConvertible_of_typedArguments {params : List Ty} {arguments : List Expr}
    (typed : TypedArguments env typing typeScope params arguments) :
    AllConvertible env typing arguments params := by
  induction arguments generalizing params with
  | nil =>
    cases typed
    exact .nil
  | cons argument arguments ih =>
    cases typed with
    | cons argumentTyped converts argumentsTyped =>
      exact .cons (convertible_of_known argumentTyped.known converts)
        (ih argumentsTyped)

/-- The names behind bound values are the same in both scopes. -/
theorem names_of_emitBindings {inner : SlotScope} {before after : Emitter}
    (typed : TypedBindings env typing typeScope values typeInner)
    (names : typeScope.map (·.1) = scope.map (·.1))
    (h : emitBindings env typing values scope before = .ok inner after) :
    typeInner.map (·.1) = inner.map (·.1) := by
  induction values generalizing typeScope scope before with
  | nil =>
    rw [emitBindings] at h
    cases h
    cases typed
    exact names
  | cons value values ih =>
    cases typed with
    | cons valueTyped valuesTyped =>
      rw [emitBindings] at h
      -- the four operations before the rest: the type, the value, its local and the store
      obtain ⟨_, _, _, rest⟩ := bind_eq_ok h
      obtain ⟨_, _, _, rest⟩ := bind_eq_ok rest
      obtain ⟨slot, _, _, rest⟩ := bind_eq_ok rest
      obtain ⟨_, _, _, rest⟩ := bind_eq_ok rest
      exact ih valuesTyped (by simpa using names) rest

/-- The code of bound values. -/
theorem generates_emitBindings (typed : TypedBindings env typing typeScope values typeInner)
    (names : typeScope.map (·.1) = scope.map (·.1))
    (each : ∀ value ∈ values, ∀ {typeScope scope type},
      Typed env typing typeScope value.2 type →
      typeScope.map (·.1) = scope.map (·.1) →
      GeneratesCode env strict typing scope value.2
        (emitCode (plan env typing value.2 scope))) :
    Generates env strict (emitBindings env typing values scope)
      (fun inner image start stop =>
        BindingsAt image.code env typing scope values inner start stop) := by
  induction values generalizing typeScope scope with
  | nil =>
    rw [emitBindings]
    refine (Generates.pure scope).mono fun _ _ _ _ => ?_
    rintro ⟨rfl, rfl⟩
    exact .nil
  | cons value values ih =>
    obtain ⟨name, expr⟩ := value
    cases typed with
    | cons valueTyped valuesTyped =>
      rw [emitBindings]
      refine ((Generates.known expr.node _).bind fun type =>
        (each (name, expr) List.mem_cons_self valueTyped names).bind fun _ =>
          (generates_declareLocal type).bind fun slot =>
            (generates_emitStoreLocal slot).bind fun _ =>
            ih valuesTyped (by simpa using names) fun other member =>
              each other (List.mem_cons_of_mem _ member)).mono fun _ _ _ _ => ?_
      rintro ⟨type, _, ⟨-, rfl⟩, _, evaluated, valueCode, slot, _, ⟨rfl, declared, rfl⟩, _, stored,
        store, valuesCode⟩
      exact .cons valueCode ⟨declared, store⟩ valuesCode

/-! ## Expressions -/

/-- The plan of an expression emits its code, by itself and as a part of a chain. -/
structure Planned (env : Environment) (strict : Prop) (typing : Typing) (scope : SlotScope)
    (expr : Expr) : Prop where
  /-- By itself. -/
  code : GeneratesCode env strict typing scope expr
    (emitCode (plan env typing expr scope))
  /-- As a part of a chain. -/
  part : GeneratesPart env strict typing scope expr (plan env typing expr scope)

/-- An expression that is an operand of its own. -/
theorem planned_operand (notJoined : ¬ isJoined typing expr)
    (planned : ∃ operand : ChainOperand Emitter, plan env typing expr scope = .operand operand)
    (generates : GeneratesCode env strict typing scope expr
      (emitCode (plan env typing expr scope))) : Planned env strict typing scope expr := by
  refine ⟨generates, ?_⟩
  obtain ⟨operand, planned⟩ := planned
  rw [planned] at generates ⊢
  exact generatesPart_operand notJoined generates

/-- The operands of the plan of an expression are nodes of it, in their order. -/
theorem nodes_plan_sublist (expr : Expr) (scope : SlotScope) :
    (plan env typing expr scope : Chain (ChainOperand Emitter)).nodes.Sublist expr.ids := by
  induction expr using Expr.inductionOn with
  | logical node connective left right ihLeft ihRight =>
    rw [plan, Expr.ids]
    split
    · rw [Chain.nodes_joined]
      exact (ihLeft.append ihRight).cons _
    · exact List.singleton_sublist.2 List.mem_cons_self
  | _ =>
    rw [plan, Expr.ids]
    exact List.singleton_sublist.2 List.mem_cons_self

/-- A name has the same bindings in two scopes of the same names. -/
theorem lookup_isSome_of_names {slotScope : SlotScope} {name : String}
    (names : typeScope.map (·.1) = slotScope.map (·.1)) :
    (slotScope.lookup name).isSome = (typeScope.lookup name).isSome := by
  induction typeScope generalizing slotScope with
  | nil =>
    cases slotScope with
    | nil => rfl
    | cons => cases names
  | cons entry typeScope ih =>
    cases slotScope with
    | nil => cases names
    | cons slot slotScope =>
      simp only [List.map_cons, List.cons.injEq] at names
      simp only [List.lookup, names.1]
      split
      · rfl
      · exact ih names.2

/-- The operands of an operator convert to the types it is carried out on. -/
theorem allConvertible_of_accepts {operands : List Expr} {types : List Ty}
    (known : operands.map (fun operand => typing.types[operand.id]?) = types.map some)
    (accepts : resolution.Accepts env types) :
    AllConvertible env typing operands (resolution.targets operands) := by
  have sameLength : operands.length = types.length := by
    simpa using congrArg List.length known
  -- a primitive operator takes as many targets as there are operands, whatever they are
  have sameTargets : resolution.targets operands = resolution.targets types := by
    cases resolution with
    | primitive type => simp only [Resolution.targets, List.map_const', sameLength]
    | overload method => rfl
  rw [sameTargets]
  have converts := accepts.converts
  generalize resolution.targets types = targets at converts
  clear sameTargets sameLength accepts
  induction converts generalizing operands with
  | nil =>
    cases List.map_eq_nil_iff.1 known
    exact .nil
  | cons head tail ih =>
    cases operands with
    | nil => cases known
    | cons operand operands =>
      simp only [List.map_cons, List.cons.injEq] at known
      exact .cons (convertible_of_known known.1 head) (ih known.2)

/-- An operator that typing accepted. -/
theorem generates_accepted {op : Opcode} {operands : List (Expr × Codegen Emitter Unit)}
    {types : List Ty} (resolved : typing.resolutions[node.id]? = some resolution)
    (accepts : resolution.Accepts env types)
    (known : (operands.map (·.1)).map (fun operand => typing.types[operand.id]?) = types.map some)
    (generates : ∀ operand ∈ operands, GeneratesCode env strict typing scope operand.1 operand.2) :
    Generates env strict (emitOperator env typing node op operands)
      (fun _ image start stop => OperatorAt image.code env typing scope resolution
        (operands.map (·.1)) (Action.read op []) start stop) :=
  generates_emitOperator resolved (allConvertible_of_accepts known accepts) accepts.declared
    generates

/-- A conditional: both arms are converted to its type. -/
theorem generates_conditional {condition thenBranch elseBranch : Expr}
    (known : typing.types[node.id]? = some type)
    (test : GeneratesCode env strict typing scope condition
      (emitCode (plan env typing condition scope)))
    (thenCode : GeneratesCode env strict typing scope thenBranch
      (emitCode (plan env typing thenBranch scope)))
    (elseCode : GeneratesCode env strict typing scope elseBranch
      (emitCode (plan env typing elseBranch scope)))
    (thenConverts : Convertible env typing thenBranch type)
    (elseConverts : Convertible env typing elseBranch type) :
    GeneratesCode env strict typing scope
      (.conditional node condition thenBranch elseBranch)
      (emitCode (plan env typing (.conditional node condition thenBranch elseBranch)
        scope)) := by
  unfold GeneratesCode
  rw [plan]
  refine .known_bind fun found chosen => ?_
  rw [known, Option.some.injEq] at chosen
  subst chosen
  refine (test.bind fun _ => generates_defineLabel.bind fun elseLabel =>
    generates_defineLabel.bind fun endLabel =>
      (generates_emitBranch .ifFalse .long elseLabel).bind fun _ =>
        (generates_emitArm (generates_emitConverted thenCode fun _ => thenConverts)).bind fun _ =>
          (generates_emitBranch .always .long endLabel).bind fun _ =>
            (generates_markLabel elseLabel).bind fun _ =>
              (generates_emitArm (generates_emitConverted elseCode fun _ => elseConverts)).bind
                fun _ => generates_markLabel endLabel).mono fun _ image start stop => ?_
  -- the marks, emitted last, tell where the two branches lead
  rintro ⟨_, tested, testAt, elseLabel, _, rfl, endLabel, _, rfl, _, thenStart, chosen, _, thenStop,
    thenAt, _, elseStart, left, _, _, ⟨rfl, elseMarked⟩, _, _, elseAt, rfl, endMarked⟩
  rw [elseMarked] at chosen
  rw [endMarked] at left
  exact .conditional known testAt chosen thenAt left elseAt

/-- A membership test. -/
theorem generates_member {operand : Expr} {items : List Expr} {operandType : Ty}
    (known : typing.types[operand.id]? = some operandType)
    (itemsTyped : TypedItems env typing typeScope operandType items)
    (operandCode : GeneratesCode env strict typing scope operand
      (emitCode (plan env typing operand scope)))
    (each : ∀ item ∈ items, ∀ {type}, Typed env typing typeScope item type →
      GeneratesCode env strict typing scope item
        (emitCode (plan env typing item scope))) :
    GeneratesCode env strict typing scope (.member node operand items)
      (emitCode (plan env typing (.member node operand items) scope)) := by
  unfold GeneratesCode
  rw [plan]
  refine .known_bind fun found chosen => ?_
  rw [known, Option.some.injEq] at chosen
  subst chosen
  refine (operandCode.bind fun _ => (generates_declareLocal operandType).bind fun slot =>
    (generates_emitStoreLocal slot).bind fun _ => generates_defineLabel.bind fun found =>
      generates_defineLabel.bind fun finish => (generates_emitItems itemsTyped each).bind fun _ =>
        (generates_emitLoadBool false).bind fun _ =>
          (generates_emitBranch .always .long finish).bind fun _ =>
            (generates_markLabel found).bind fun _ => (generates_emitLoadBool true).bind fun _ =>
              generates_markLabel finish).mono fun _ image start stop => ?_
  -- the branches of all items lead to the first mark, the one behind them to the second
  rintro ⟨_, evaluated, operandAt, slot, _, ⟨rfl, declared, rfl⟩, _, stored, store, found, _, rfl,
    finish, _, rfl, _, unequal, itemsAt, _, pushedFalse, falsePushed, _, equal, left, _, _,
    ⟨rfl, foundMarked⟩, _, _, truePushed, rfl, finishMarked⟩
  rw [foundMarked] at itemsAt
  rw [finishMarked] at left
  exact .member known operandAt ⟨declared, store⟩ itemsAt falsePushed left truePushed

/-- An array literal. -/
theorem generates_array {elements : List Expr} {element : Ty}
    (known : typing.types[node.id]? = some (.array element))
    (converts : strict → ElementsConvert env typing (.array node elements))
    (each : ∀ value ∈ elements, GeneratesCode env strict typing scope value
      (emitCode (plan env typing value scope))) :
    GeneratesCode env strict typing scope (.array node elements)
      (emitCode (plan env typing (.array node elements) scope)) := by
  unfold GeneratesCode
  rw [plan]
  refine .known_bind fun found chosen => ?_
  rw [known, Option.some.injEq] at chosen
  subst chosen
  refine ((generates_emitLength fun holds => (converts holds).1).bind fun _ =>
    (Generates.ofEmit fun _ _ _ => Emitter.emits_emitNewArray).bind fun _ =>
      generates_emitElements (fun holds => by simpa using (converts holds).1)
        (fun holds => (converts holds).2 element known) each).mono fun _ image start stop => ?_
  rintro ⟨_, counted, ⟨short, length⟩, _, made, allocated, elementsAt⟩
  exact .array known short length allocated elementsAt

/-- A call of a function. -/
theorem generates_call {name : String} {arguments : List Expr} {signature : FunctionSignature}
    (found : env.findFunction? name = some signature)
    (sameLength : signature.params.length = arguments.length)
    (argumentsTyped : TypedArguments env typing typeScope signature.params arguments)
    (each : ∀ argument ∈ arguments, GeneratesCode env strict typing scope argument
      (emitCode (plan env typing argument scope))) :
    GeneratesCode env strict typing scope (.call node name arguments)
      (emitCode (plan env typing (.call node name arguments) scope)) := by
  unfold GeneratesCode
  rw [plan]
  simp only [emitCode, found]
  rw [emitCallArguments_eq, ← sameLength]
  have converts : AllConvertible env typing
      ((arguments.map fun argument =>
        (argument, (emitCode (plan env typing argument scope) : Codegen Emitter Unit))).map
          (·.1)) signature.params := by
    rw [List.map_map]
    exact (List.map_id' arguments).symm ▸ allConvertible_of_typedArguments argumentsTyped
  have callable := Environment.mem_callables_of_findFunction? found
  have called : Generates env strict _ _ := generates_emitCall callable
  have generates : ∀ operand ∈ arguments.map fun argument =>
      (argument, emitCode (plan env typing argument scope)),
      GeneratesCode env strict typing scope operand.1 operand.2 := by
    intro operand listed
    obtain ⟨argument, member, rfl⟩ := List.mem_map.1 listed
    exact each argument member
  refine ((generates_emitArguments generates converts).bind fun _ => called).mono fun _ _ _ _ => ?_
  rintro ⟨_, evaluated, argumentsAt, calledAt⟩
  simp only [List.map_map, Function.comp_def, List.map_id'] at argumentsAt
  exact .call found sameLength argumentsAt calledAt

/-- Values bound to names, and the expression behind them. -/
theorem generates_bindings {body : Expr}
    (valuesTyped : TypedBindings env typing typeScope values typeInner)
    (bodyTyped : Typed env typing typeInner body type)
    (names : typeScope.map (·.1) = scope.map (·.1))
    (each : ∀ value ∈ values, ∀ {typeScope scope type},
      Typed env typing typeScope value.2 type →
      typeScope.map (·.1) = scope.map (·.1) →
      GeneratesCode env strict typing scope value.2
        (emitCode (plan env typing value.2 scope)))
    (bodyCode : ∀ {typeScope scope type}, Typed env typing typeScope body type →
      typeScope.map (·.1) = scope.map (·.1) →
      GeneratesCode env strict typing scope body
        (emitCode (plan env typing body scope))) :
    GeneratesCode env strict typing scope (.bindings node body values)
      (emitCode (plan env typing (.bindings node body values) scope)) := by
  unfold GeneratesCode
  rw [plan]
  refine ((generates_emitBindings valuesTyped names each).bindOf
    (fun h => names_of_emitBindings valuesTyped names h)
    fun inner innerNames => bodyCode bodyTyped innerNames).mono fun _ image start stop => ?_
  rintro ⟨inner, evaluated, valuesAt, bodyAt⟩
  exact .bindings valuesAt bodyAt

/-- No node occurs twice in an expression, and under the strict condition its array literals can be
made. -/
structure Emittable (env : Environment) (strict : Prop) (typing : Typing) (expr : Expr) :
    Prop where
  /-- No node occurs twice. -/
  nodup : expr.ids.Nodup
  /-- Array literals can be made. -/
  convert : strict → ∀ part ∈ expr.parts, ElementsConvert env typing part

/-- The children of an emittable tree are emittable. -/
theorem Emittable.child {child : Expr} (emittable : Emittable env strict typing expr)
    (member : child ∈ expr.children) : Emittable env strict typing child where
  nodup := (Expr.ids_sublist_of_child member).nodup emittable.nodup
  convert holds part inChild :=
    emittable.convert holds part (Expr.parts_subset_of_child member inChild)

/-- An operator on two planned operands. -/
theorem generates_binary {op : Opcode} {left right : Expr} {leftType rightType : Ty}
    (resolved : typing.resolutions[node.id]? = some resolution)
    (accepts : resolution.Accepts env [leftType, rightType])
    (leftKnown : typing.types[left.id]? = some leftType)
    (rightKnown : typing.types[right.id]? = some rightType)
    (leftPlanned : Planned env strict typing scope left)
    (rightPlanned : Planned env strict typing scope right) :
    Generates env strict (emitOperator env typing node op
        [(left, emitCode (plan env typing left scope)),
          (right, emitCode (plan env typing right scope))])
      (fun _ image start stop => OperatorAt image.code env typing scope resolution
        [left, right] (Action.read op []) start stop) :=
  generates_accepted resolved accepts (by simp [leftKnown, rightKnown])
    (by simpa using ⟨leftPlanned.code, rightPlanned.code⟩)

/-- A conjunction or disjunction of truth values. -/
theorem planned_joined {connective : Connective} {left right : Expr}
    (joined : isJoined typing (.logical node connective left right))
    (nodup : (Expr.logical node connective left right).ids.Nodup)
    (leftPlanned : Planned env strict typing scope left)
    (rightPlanned : Planned env strict typing scope right) :
    Planned env strict typing scope (.logical node connective left right) := by
  have planEq : (plan env typing (.logical node connective left right) scope :
      Chain (ChainOperand Emitter)) = .joined connective (plan env typing left scope)
        (plan env typing right scope) := by
    rw [plan]
    exact if_pos joined
  have nodes : ((plan env typing left scope : Chain (ChainOperand Emitter)).nodes ++
      (plan env typing right scope : Chain (ChainOperand Emitter)).nodes).Nodup :=
    ((nodes_plan_sublist left scope).append (nodes_plan_sublist right scope)).nodup
      (List.nodup_cons.1 nodup).2
  have part := generatesPart_joined joined nodes leftPlanned.part rightPlanned.part
  refine ⟨?_, ?_⟩
  · rw [planEq]
    exact generatesCode_joined joined part
  · rw [planEq]
    exact part

/-- Code generation for a typed tree emits its code, by itself and as a part of a chain. -/
theorem planned (emittable : Emittable env strict typing expr)
    (typed : Typed env typing typeScope expr type) (names : typeScope.map (·.1) = scope.map (·.1)) :
    Planned env strict typing scope expr := by
  -- `typeScope` and `scope` vary: bound values and the body are emitted under more names
  induction expr using Expr.inductionOn generalizing typeScope type scope with
  | literal node value =>
    refine planned_operand (by simp [isJoined]) ⟨_, rfl⟩ ?_
    exact (generates_emitLiteral value).mono fun _ _ _ _ pushed => .literal pushed
  | ident node name =>
    refine planned_operand (by simp [isJoined]) ⟨_, rfl⟩ (generates_emitName fun _ => ?_)
    cases typed with
    | ident found known =>
      rw [lookup_isSome_of_names names]
      cases bound : typeScope.lookup name with
      | some => exact .inl rfl
      | none =>
        rw [nameType?, bound, Option.none_or] at found
        exact .inr (Option.isSome_map ▸ Option.isSome_of_mem found)
  | unary node op operand ihOperand =>
    cases typed with
    | unary operandTyped rule resolved known =>
      have operandPlanned := ihOperand (emittable.child (.head _))
        operandTyped names
      refine planned_operand (by simp [isJoined]) ⟨_, rfl⟩ ?_
      refine (generates_accepted resolved rule.accepts (by simp [operandTyped.known])
        (by simpa using operandPlanned.code)).mono fun _ _ _ _ carriedOut => .unary resolved ?_
      cases op <;> exact carriedOut
  | arithmetic node op left right ihLeft ihRight =>
    cases typed with
    | arithmetic leftTyped rightTyped rule resolved known =>
      have leftPlanned := ihLeft (emittable.child (.head _)) leftTyped names
      have rightPlanned := ihRight (emittable.child (.tail _ (.head _))) rightTyped names
      refine planned_operand (by simp [isJoined]) ⟨_, rfl⟩ ?_
      refine (generates_binary resolved
        (rule.accepts fun _ => Typing.implicit_of_arithmeticOperand?) leftTyped.known
        rightTyped.known leftPlanned rightPlanned).mono
        fun _ _ _ _ carriedOut => .arithmetic resolved ?_
      cases op <;> exact carriedOut
  | comparison node relation left right ihLeft ihRight =>
    cases typed with
    | comparison leftTyped rightTyped rule resolved known =>
      have leftPlanned := ihLeft (emittable.child (.head _)) leftTyped names
      have rightPlanned := ihRight (emittable.child (.tail _ (.head _))) rightTyped names
      refine planned_operand (by simp [isJoined]) ⟨_, rfl⟩ ?_
      exact (generates_binary resolved
        (rule.accepts fun _ => Typing.implicit_of_comparisonOperand?) leftTyped.known
        rightTyped.known leftPlanned rightPlanned).mono
        fun _ _ _ _ carriedOut => .comparison resolved carriedOut
  | logical node connective left right ihLeft ihRight =>
    cases typed with
    | chain leftTyped rightTyped known =>
      have leftPlanned := ihLeft (emittable.child (.head _)) leftTyped names
      have rightPlanned := ihRight (emittable.child (.tail _ (.head _))) rightTyped names
      refine planned_joined ?_ emittable.nodup leftPlanned rightPlanned
      simp [isJoined, isBool, leftTyped.known, rightTyped.known]
    | bitwise leftTyped rightTyped notBoth rule resolved known =>
      have leftPlanned := ihLeft (emittable.child (.head _)) leftTyped names
      have rightPlanned := ihRight (emittable.child (.tail _ (.head _))) rightTyped names
      have notJoined : ¬ isJoined typing (.logical node connective left right) := by
        simpa [isJoined, isBool, leftTyped.known, rightTyped.known] using notBoth
      -- which plan is made depends on the types of the operands, so `plan` does not reduce by
      -- itself
      have planEq : (plan env typing (.logical node connective left right) scope :
          Chain (ChainOperand Emitter)) = _ := if_neg notJoined
      refine planned_operand notJoined ⟨_, planEq⟩ ?_
      rw [planEq]
      refine (generates_binary resolved (rule.accepts fun _ => Ty.implicit_of_bitwiseOperand?)
        leftTyped.known rightTyped.known leftPlanned rightPlanned).mono
        fun _ _ _ _ carriedOut => .bitwise notJoined resolved ?_
      cases connective <;> exact carriedOut
  | xor node left right ihLeft ihRight =>
    cases typed with
    | xor leftTyped rightTyped rule resolved known =>
      have leftPlanned := ihLeft (emittable.child (.head _)) leftTyped names
      have rightPlanned := ihRight (emittable.child (.tail _ (.head _))) rightTyped names
      refine planned_operand (by simp [isJoined]) ⟨_, rfl⟩ ?_
      exact (generates_binary resolved (rule.accepts fun _ => Ty.implicit_of_bitwiseOperand?)
        leftTyped.known rightTyped.known leftPlanned rightPlanned).mono
        fun _ _ _ _ carriedOut => .xor resolved carriedOut
  | shift node direction left right ihLeft ihRight =>
    cases typed with
    | shift leftTyped rightTyped count rule resolved known =>
      have leftPlanned := ihLeft (emittable.child (.head _)) leftTyped names
      have rightPlanned := ihRight (emittable.child (.tail _ (.head _))) rightTyped names
      refine planned_operand (by simp [isJoined]) ⟨_, rfl⟩ ?_
      exact generates_emitShift resolved rule leftTyped.known leftPlanned.code rightPlanned.code
  | conditional node condition thenBranch elseBranch ihCondition ihThen
      ihElse =>
    cases typed with
    | conditional conditionTyped thenTyped elseTyped unified known =>
      have test := ihCondition (emittable.child (.head _)) conditionTyped names
      have thenPlanned := ihThen (emittable.child (.tail _ (.head _))) thenTyped names
      have elsePlanned := ihElse (emittable.child (.tail _ (.tail _ (.head _)))) elseTyped names
      obtain ⟨thenConverts, elseConverts⟩ := OperatorRegistry.converts_of_unify unified
      refine planned_operand (by simp [isJoined]) ⟨_, rfl⟩ ?_
      exact generates_conditional known test.code thenPlanned.code elsePlanned.code
        (convertible_of_known thenTyped.known thenConverts)
        (convertible_of_known elseTyped.known elseConverts)
  | member node operand items ihOperand ihItems =>
    cases typed with
    | member operandTyped itemsTyped known =>
      have operandPlanned := ihOperand (emittable.child List.mem_cons_self) operandTyped names
      refine planned_operand (by simp [isJoined]) ⟨_, rfl⟩ ?_
      exact generates_member operandTyped.known itemsTyped operandPlanned.code
        fun item listed _ itemTyped => (ihItems item listed
          (emittable.child (List.mem_cons_of_mem _ listed)) itemTyped names).code
  | index node array position ihArray ihPosition =>
    cases typed with
    | index arrayTyped positionTyped count known =>
      have arrayPlanned := ihArray (emittable.child (.head _)) arrayTyped names
      have positionPlanned := ihPosition (emittable.child (.tail _ (.head _)))
        positionTyped names
      refine planned_operand (by simp [isJoined]) ⟨_, rfl⟩ ?_
      refine Generates.known_bind fun element found => ?_
      refine (arrayPlanned.code.bind fun _ => positionPlanned.code.bind fun _ =>
        Generates.ofEmit fun _ _ _ => Emitter.emits_emitArrayLoad).mono fun _ _ _ _ => ?_
      rintro ⟨_, _, arrayCode, _, _, positionCode, loaded⟩
      exact .index arrayCode positionCode loaded
  | array node elements ihElements =>
    refine planned_operand (by simp [isJoined]) ⟨_, rfl⟩ ?_
    -- the rule for arrays types the first element apart from the others; `elements` has all of them
    have typedEach := typed
    cases typed with
    | array firstTyped restTyped known =>
      refine generates_array known (fun holds => emittable.convert holds _ (Expr.mem_parts _)) ?_
      intro value listed
      obtain ⟨valueType, valueTyped⟩ := typedEach.elements value listed
      exact (ihElements value listed (emittable.child listed) valueTyped names).code
  | call node name arguments ihArguments =>
    refine planned_operand (by simp [isJoined]) ⟨_, rfl⟩ ?_
    cases typed with
    | call found sameLength argumentsTyped known =>
      refine generates_call found sameLength argumentsTyped ?_
      intro argument listed
      obtain ⟨argumentType, argumentTyped⟩ := argumentsTyped.each argument listed
      exact (ihArguments argument listed (emittable.child listed) argumentTyped names).code
  | cast node operand target ihOperand =>
    cases typed with
    | cast operandTyped possible known =>
      have operandPlanned := ihOperand (emittable.child (.head _))
        operandTyped names
      refine planned_operand (by simp [isJoined]) ⟨_, rfl⟩ ?_
      refine Generates.known_bind fun source found => ?_
      rw [operandTyped.known, Option.some.injEq] at found
      subst found
      refine (operandPlanned.code.bind fun _ => generates_emitCast fun _ => possible).mono
        fun _ _ _ _ => ?_
      rintro ⟨_, _, operandCode, conversion⟩
      exact .cast operandTyped.known operandCode conversion
  | bindings node body values ihBody ihValues =>
    cases typed with
    | bindings valuesTyped bodyTyped known =>
      refine planned_operand (by simp [isJoined]) ⟨_, rfl⟩ ?_
      exact generates_bindings valuesTyped bodyTyped names
        (fun value listed _ _ _ valueTyped inner => (ihValues value listed
          (emittable.child (List.mem_cons_of_mem _ (List.mem_map_of_mem listed))) valueTyped
          inner).code)
        fun bodyTyped inner =>
          (ihBody (emittable.child List.mem_cons_self) bodyTyped inner).code

end Codegen

end ExprCode
