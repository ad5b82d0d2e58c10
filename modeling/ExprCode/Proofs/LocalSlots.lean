import ExprCode.Proofs.ClosedCode
import ExprCode.Proofs.SlotLimits
import ExprCode.Proofs.Traversal

/-! # The locals of compiled code

Main statement: `compile_of_slotCount`. Compiled code has one local for each name that the
expression binds and one for each of its membership tests, in whatever forks and chains their code
was emitted. The number of locals that are allowed matters for nothing else: with any other limit
the same code comes out if there is room, and the compilation fails at the limit if not. -/

namespace ExprCode

/-! ## Slots of an expression -/

namespace Expr

/-- The locals that the root of an expression declares: one for each name, and one for the operand
of a membership test. -/
def ownSlots : Expr → Nat
  | .member _ _ _ => 1
  | .bindings _ _ values => values.length
  | _ => 0

/-- One local for each name bound in an expression, and one for each membership test. -/
def slotCount (expr : Expr) : Nat := (expr.parts.map ownSlots).sum

/-- The slots of all parts of a list are those of its trees. -/
theorem sum_partsOfList (exprs : List Expr) :
    ((partsOfList exprs).map ownSlots).sum = (exprs.map slotCount).sum := by
  induction exprs with
  | nil => rfl
  | cons expr exprs ih =>
    rw [partsOfList, List.map_append, List.sum_append, ih, List.map_cons, List.sum_cons,
      slotCount]

/-- The parts of bindings are those of the bound trees. -/
theorem partsOfBindings_eq (values : List (String × Expr)) :
    partsOfBindings values = partsOfList (values.map (·.2)) := by
  induction values with
  | nil => rfl
  | cons value values ih =>
    rw [partsOfBindings, ih, List.map_cons, partsOfList]

/-- The locals of an expression are those of its root and of the expressions below. -/
theorem slotCount_eq (expr : Expr) :
    expr.slotCount = expr.ownSlots + (expr.children.map slotCount).sum := by
  cases expr with
  | member | array | call => simp [slotCount, parts, children, ownSlots, sum_partsOfList]
  | bindings _ body values =>
    -- the body comes first among the children, and last among the parts
    simp only [slotCount, parts, children, List.map_cons, List.map_append, List.sum_cons,
      List.sum_append, partsOfBindings_eq, sum_partsOfList]
    omega
  | _ => simp [slotCount, parts, children]

end Expr

/-! ## Operators -/

section Rules

variable {env : Environment} {resolution : Resolution} {type : Ty} {α : Type}

/-- An operator on one operand converts one operand. -/
theorem UnaryRule.length_targets {op : UnaryOp} {operand : Ty}
    (rule : UnaryRule env op operand resolution type) (only : α) :
    (resolution.targets [only]).length = 1 := by
  cases rule with
  | overload named found =>
    obtain ⟨-, -, params⟩ := OperatorRegistry.find?_eq_some found
    rw [Resolution.targets, params]
    rfl
  | primitive plain found => rfl

/-- An operator on two operands converts two operands. -/
theorem BinaryRule.length_targets {operator : String} {left right : Ty} {operand? : Option Ty}
    {result : Ty → Ty}
    (rule : BinaryRule env operator left right operand? result resolution type) (first second : α) :
    (resolution.targets [first, second]).length = 2 := by
  cases rule with
  | overload named found =>
    obtain ⟨-, -, _, _, params, -⟩ := OperatorRegistry.binaryOverload_eq_some found
    rw [Resolution.targets, params]
    rfl
  | primitive plain found => rfl

end Rules

namespace Codegen

variable {α : Type} {count : Nat}

/-- Sequences of basic operations declare nothing. -/
theorem quiet (arguments : Nat) :
    Congruence (σ := Emitter) (τ := Emitter) arguments fun _ operation _ =>
      Declares 0 operation where
  pure value := .pure value
  throw error := .throw error
  bind := .next
  basic isBasic := by
    refine declares_ofEmit ?_
    cases isBasic with
    | loadLocal slot | storeLocal slot => exact Emitter.composable_declares.emitChecked _
    | loadInt32 value => exact Emitter.composable_declares.emitLoadInt32 value
    | loadString value => exact Emitter.composable_declares.emitLoadString value
    | newArray element => exact Emitter.composable_declares.emitNewArray element
    | arrayLoad element => exact Emitter.composable_declares.emitArrayLoad element
    | arrayStore element => exact Emitter.composable_declares.emitArrayStore element
    | call name arity function => exact Emitter.composable_declares.emitCall name arity function
    | _ => exact Emitter.declares_emit _

/-- What typing has found out is known. -/
theorem declares_known_bind {next : α → Codegen Emitter Unit} {node : Node} {value? : Option α}
    {value : α}
    (found : value? = some value) (rest : Declares count (next value)) :
    Declares count (known node value? >>= next) := by
  subst found
  exact rest

variable {env : Environment} {typing : Typing}

/-! ## Operands -/

/-- A conversion declares nothing more. -/
theorem declares_emitConverted {code : Codegen Emitter Unit} (expr : Expr) (target : Ty)
    (declares : Declares count code) :
    Declares count (emitConverted env typing expr code target) :=
  ((quiet 0).known _ _).next fun _ => declares.done fun _ => (quiet 0).emitConversion _ _ _

/-- Operands are all emitted, if there is a type for each. -/
theorem declares_emitArguments {operands : List (Expr × Codegen Emitter Unit)} {targets : List Ty}
    (each : ∀ operand ∈ operands, Declares operand.1.slotCount operand.2)
    (enough : operands.length ≤ targets.length) :
    Declares (operands.map (·.1.slotCount)).sum (emitArguments env typing operands targets) := by
  induction operands generalizing targets with
  | nil => exact .pure ()
  | cons operand operands ih =>
    obtain ⟨first, later⟩ := List.forall_mem_cons.1 each
    cases targets with
    | nil => cases enough
    | cons target targets =>
      exact (declares_emitConverted _ _ first).bind fun _ =>
        ih later (Nat.le_of_succ_le_succ enough)

/-- An operator declares what its operands declare. -/
theorem declares_emitOperator {node : Node} {op : Opcode}
    {operands : List (Expr × Codegen Emitter Unit)}
    {resolution : Resolution} (resolved : typing.resolutions[node.id]? = some resolution)
    (converted : Declares count (emitArguments env typing operands (resolution.targets operands))) :
    Declares count (emitOperator env typing node op operands) := by
  refine declares_known_bind resolved ?_
  cases resolution with
  | primitive type => exact converted.done fun _ => declares_ofEmit (Emitter.declares_emitOp _)
  | overload method => exact converted.done fun _ => (quiet 0).emitMethodCall method

/-- A shift declares what its operands declare. -/
theorem declares_emitShift {leftCode rightCode : Codegen Emitter Unit} {leftCount rightCount : Nat}
    (node : Node)
    (direction : ShiftDirection) (left right : Expr) (leftDeclares : Declares leftCount leftCode)
    (rightDeclares : Declares rightCount rightCode) :
    Declares (leftCount + rightCount)
      (emitShift env typing node direction left right leftCode rightCode) := by
  refine ((quiet 0).known _ _).next fun resolution =>
    (declares_emitConverted _ _ leftDeclares).bind fun _ => ?_
  refine rightDeclares.done fun _ => ((quiet 0).known _ _).next fun _ =>
    ((quiet 0).emitNumericConversion _ _).next fun _ => ?_
  cases resolution with
  | primitive type => exact declares_ofEmit (Emitter.declares_emitOp _)
  | overload method => exact (quiet 0).emitMethodCall method

/-- The test of an item declares nothing more. -/
theorem declares_emitItemTest {code : Codegen Emitter Unit} (operandType : Ty) (operandSpan : Span)
    (slot : Nat)
    (item : Expr) (declares : Declares count code) :
    Declares count (emitItemTest env typing operandType operandSpan slot item code) := by
  refine ((quiet 0).known _ _).next fun test => ?_
  have load : Declares 0 (ofEmit (Emitter.emitLoadLocal slot)) :=
    declares_ofEmit (Emitter.composable_declares.emitChecked _)
  cases test with
  | primitive type =>
    exact load.next fun _ => ((quiet 0).emitConversion _ _ _).next fun _ =>
      (declares_emitConverted _ _ declares).done fun _ =>
        declares_ofEmit (Emitter.declares_emitOp _)
  | overload method =>
    exact load.next fun _ => ((quiet 0).emitConversion _ _ _).next fun _ =>
      ((quiet 0).known _ _).next fun _ =>
      (declares_emitConverted _ _ declares).done fun _ => (quiet 0).emitMethodCall method

/-! ## Lists of expressions -/

variable {scope : SlotScope}

/-- Items declare what each of them declares. -/
theorem declares_emitItems {operandType : Ty} {operandSpan : Span} {slot : Nat} {found : Label}
    {items : List Expr}
    (each : ∀ item ∈ items, Declares item.slotCount (emitCode (plan env typing item scope))) :
    Declares (items.map Expr.slotCount).sum
      (emitItems env typing operandType operandSpan slot found items scope) := by
  induction items with
  | nil =>
    rw [emitItems]
    exact .pure ()
  | cons item items ih =>
    obtain ⟨first, later⟩ := List.forall_mem_cons.1 each
    rw [emitItems]
    exact (declares_emitItemTest _ _ _ _ first).bind fun _ =>
      (declares_ofEmit (Emitter.declares_emitBranch _ _)).next fun _ => ih later

/-- Elements declare what each of them declares. -/
theorem declares_emitElements {element : Ty} {index : Nat} {values : List Expr}
    (each : ∀ value ∈ values, Declares value.slotCount (emitCode (plan env typing value scope))) :
    Declares (values.map Expr.slotCount).sum
      (emitElements env typing element index values scope) := by
  induction values generalizing index with
  | nil =>
    rw [emitElements]
    exact .pure ()
  | cons value values ih =>
    obtain ⟨first, later⟩ := List.forall_mem_cons.1 each
    rw [emitElements]
    exact (declares_ofEmit (Emitter.declares_emitOp .dup)).next fun _ =>
      ((quiet 0).emitLength index).next fun _ =>
      (declares_emitConverted _ _ first).bind fun _ =>
        ((quiet 0).basic (.arrayStore element)).next fun _ => ih later

/-- Each name gets a local, behind those that its value declares. -/
theorem declares_emitBindings {values : List (String × Expr)}
    (each : ∀ value ∈ values.map (·.2), ∀ scope,
      Declares value.slotCount (emitCode (plan env typing value scope))) :
    Declares (values.length + ((values.map (·.2)).map Expr.slotCount).sum)
      (emitBindings env typing values scope) := by
  induction values generalizing scope with
  | nil =>
    rw [emitBindings]
    exact .pure scope
  | cons value values ih =>
    obtain ⟨name, expr⟩ := value
    obtain ⟨first, later⟩ := List.forall_mem_cons.1 each
    rw [emitBindings]
    have declared := ((quiet 0).known expr.node typing.types[expr.id]?).next fun type =>
      (first scope).bind fun _ =>
        (declares_ofEmit (Emitter.declares_declareLocal type)).bind fun slot =>
        ((quiet 0).basic (.storeLocal slot)).next fun _ => @ih ((name, slot) :: scope) later
    refine declared.of_eq ?_
    simp only [List.map_cons, List.sum_cons, List.length_cons]
    omega

/-! ## Expressions -/

/-- The arms of a conditional count like all else, though each is emitted into a fork. -/
theorem declares_conditional {condition thenBranch elseBranch : Expr}
    {testCount thenCount elseCount : Nat}
    (node : Node) (test : Declares testCount (emitCode (plan env typing condition scope)))
    (thenDeclares : Declares thenCount (emitCode (plan env typing thenBranch scope)))
    (elseDeclares : Declares elseCount (emitCode (plan env typing elseBranch scope))) :
    Declares (testCount + (thenCount + elseCount)) (emitCode (plan env typing
      (.conditional node condition thenBranch elseBranch) scope)) := by
  have define : Declares 0 (ofEmit Emitter.defineLabel) :=
    declares_ofEmit Emitter.declares_defineLabel
  have branch (op : Opcode) (label : Label) : Declares 0 (ofEmit (Emitter.emitBranch op label)) :=
    declares_ofEmit (Emitter.declares_emitBranch op label)
  have mark (label : Label) : Declares 0 (ofEmit (Emitter.markLabel label)) :=
    declares_ofEmit (Emitter.declares_markLabel label)
  rw [plan]
  refine ((quiet 0).known _ _).next fun type => test.bind fun _ => ?_
  refine define.next fun elseLabel => define.next fun endLabel => (branch _ elseLabel).next fun _ =>
    ?_
  refine (declares_emitArm (declares_emitConverted _ _ thenDeclares)).bind fun _ => ?_
  refine (branch _ endLabel).next fun _ => (mark elseLabel).next fun _ => ?_
  exact (declares_emitArm (declares_emitConverted _ _ elseDeclares)).done fun _ => mark endLabel

/-- A membership test keeps its operand in a local. -/
theorem declares_member {operand : Expr} {items : List Expr} {operandCount : Nat} (node : Node)
    (operandDeclares : Declares operandCount (emitCode (plan env typing operand scope)))
    (each : ∀ item ∈ items, Declares item.slotCount (emitCode (plan env typing item scope))) :
    Declares (operandCount + (1 + (items.map Expr.slotCount).sum))
      (emitCode (plan env typing (.member node operand items) scope)) := by
  have define : Declares 0 (ofEmit Emitter.defineLabel) :=
    declares_ofEmit Emitter.declares_defineLabel
  have loadBool (value : Bool) : Declares 0 (ofEmit (Emitter.emitLoadBool value)) :=
    declares_ofEmit (Emitter.declares_emitOp _)
  have mark (label : Label) : Declares 0 (ofEmit (Emitter.markLabel label)) :=
    declares_ofEmit (Emitter.declares_markLabel label)
  rw [plan]
  refine ((quiet 0).known _ _).next fun type => operandDeclares.bind fun _ => ?_
  refine (declares_ofEmit (Emitter.declares_declareLocal type)).bind fun slot => ?_
  refine ((quiet 0).basic (.storeLocal slot)).next fun _ => define.next fun found =>
    define.next fun finish => ?_
  refine (declares_emitItems each).done fun _ => (loadBool false).next fun _ => ?_
  refine (declares_ofEmit (Emitter.declares_emitBranch _ finish)).next fun _ =>
    (mark found).next fun _ => ?_
  exact (loadBool true).next fun _ => mark finish

section Step

variable {typeScope : TypeScope} {expr : Expr} {type : Ty}

/-- The operands of an operator or a call declare all its locals. -/
theorem declares_children {targets : List Ty} (own : expr.ownSlots = 0)
    (each : ∀ child ∈ expr.children,
      Declares child.slotCount (emitCode (plan env typing child scope)))
    (enough : expr.children.length ≤ targets.length) :
    Declares expr.slotCount (emitArguments env typing
      (expr.children.map fun child => (child, emitCode (plan env typing child scope)))
        targets) := by
  refine (declares_emitArguments (fun operand listed => ?_) (by rwa [List.length_map])).of_eq ?_
  · obtain ⟨child, isChild, rfl⟩ := List.mem_map.1 listed
    exact each child isChild
  · rw [Expr.slotCount_eq, own, Nat.zero_add, List.map_map]
    rfl

/-- An operand declares the locals of an expression if it declares those of the root and of the
children. -/
theorem declaresPlan_operand {operand : ChainOperand Emitter}
    (declares : Declares count operand.code)
    (counted : count = expr.ownSlots + (expr.children.map Expr.slotCount).sum) :
    Frame.DeclaresPlan expr.slotCount (.operand operand) :=
  .operand (declares.of_eq (counted.trans expr.slotCount_eq.symm))

/-- An expression declares the locals of its root, and its children declare theirs. -/
theorem declaresPlan_of_children (typed : Typed env typing typeScope expr type)
    (plans : ∀ child ∈ expr.children, ∀ scope,
      Frame.DeclaresPlan child.slotCount (plan env typing child scope)) (scope : SlotScope) :
    Frame.DeclaresPlan expr.slotCount (plan env typing expr scope) := by
  have code : ∀ child ∈ expr.children, ∀ scope,
      Declares child.slotCount (emitCode (plan env typing child scope)) :=
    fun child isChild inner => declares_emitCode (plans child isChild inner)
  have each := fun child isChild => code child isChild scope
  cases typed with
  | literal known => exact .operand ((quiet 0).emitLiteral _)
  | ident found known => exact .operand ((quiet _).emitName _ _ _)
  | unary _ rule resolved known =>
    exact .operand
      (declares_emitOperator resolved (declares_children rfl each (rule.length_targets _).ge))
  | arithmetic _ _ rule resolved | comparison _ _ rule resolved | xor _ _ rule resolved =>
    exact .operand
      (declares_emitOperator resolved (declares_children rfl each (rule.length_targets _ _).ge))
  | chain leftTyped rightTyped known =>
    -- a chain within a chain is a part of it
    obtain ⟨left, right, -⟩ := List.forall_mem_cons.1 plans |>.imp_right List.forall_mem_cons.1
    rw [plan, if_pos (by simp [isBool, leftTyped.known, rightTyped.known]), Expr.slotCount_eq]
    simpa [Expr.ownSlots, Expr.children] using (left scope).joined (right scope)
  | bitwise leftTyped rightTyped notBoth rule resolved known =>
    rw [plan, if_neg (by simpa [isBool, leftTyped.known, rightTyped.known] using notBoth)]
    exact .operand
      (declares_emitOperator resolved (declares_children rfl each (rule.length_targets _ _).ge))
  | shift =>
    obtain ⟨left, right, -⟩ := List.forall_mem_cons.1 each |>.imp_right List.forall_mem_cons.1
    exact declaresPlan_operand (declares_emitShift _ _ _ _ left right)
      (by simp [Expr.ownSlots, Expr.children])
  | @conditional _ node =>
    obtain ⟨test, thenCode, elseCode, -⟩ := List.forall_mem_cons.1 each |>.imp_right fun arms =>
      List.forall_mem_cons.1 arms |>.imp_right List.forall_mem_cons.1
    have declares := declares_conditional node test thenCode elseCode
    rw [plan] at declares ⊢
    exact declaresPlan_operand declares (by simp [Expr.ownSlots, Expr.children])
  | @member _ node =>
    obtain ⟨operand, items⟩ := List.forall_mem_cons.1 each
    have declares := declares_member node operand items
    rw [plan] at declares ⊢
    exact declaresPlan_operand declares (by simp [Expr.ownSlots, Expr.children]; omega)
  | index =>
    obtain ⟨array, position, -⟩ := List.forall_mem_cons.1 each |>.imp_right List.forall_mem_cons.1
    rw [plan]
    exact declaresPlan_operand (((quiet 0).known _ _).next fun _ => array.bind fun _ =>
      position.done fun _ =>
      (quiet 0).basic (.arrayLoad _)) (by simp [Expr.ownSlots, Expr.children])
  | array =>
    rw [plan]
    exact declaresPlan_operand
      (((quiet 0).known _ _).next fun _ => ((quiet 0).known _ _).next fun _ =>
      ((quiet 0).emitLength _).next fun _ =>
        ((quiet 0).basic (.newArray _)).next fun _ =>
        declares_emitElements each) (Nat.zero_add _).symm
  | call found sameLength argumentsTyped known =>
    rw [plan, found]
    refine .operand (Declares.done ?_ fun _ => (quiet 0).basic (.call _ _ _))
    rw [emitCallArguments_eq]
    exact declares_children rfl each sameLength.ge
  | cast =>
    rw [plan]
    exact declaresPlan_operand
      (((quiet 0).known _ _).next fun _ => (each _ List.mem_cons_self).done fun _ =>
      (quiet 0).emitCast _ _ _) (by simp [Expr.ownSlots, Expr.children])
  | bindings =>
    obtain ⟨body, values⟩ := List.forall_mem_cons.1 code
    rw [plan]
    refine declaresPlan_operand ((declares_emitBindings values).bind fun inner => body inner) ?_
    simp only [Expr.ownSlots, Expr.children, List.map_cons, List.sum_cons]
    omega

end Step

/-- The code of a typed expression declares one local for each of its names and membership tests. -/
theorem declaresPlan_of_typed {typeScope : TypeScope} {expr : Expr} {type : Ty}
    (typed : Typed env typing typeScope expr type) (scope : SlotScope) :
    Frame.DeclaresPlan expr.slotCount (plan env typing expr scope) := by
  -- by induction on the size, as children may be in lists
  induction size : sizeOf expr using Nat.strong_induction_on generalizing typeScope expr type
    scope with
  | _ bound ih =>
    refine declaresPlan_of_children typed (fun child isChild inner => ?_) scope
    obtain ⟨_, _, childTyped⟩ := typed.child child isChild
    exact ih _ (size ▸ Expr.sizeOf_lt_of_child isChild) childTyped inner rfl

/-- A whole program declares the locals of its expression. -/
theorem declares_program {expr : Expr} {type : Ty} (typed : Typed env typing [] expr type) :
    Declares expr.slotCount (program env typing expr) :=
  (declares_emitCode (declaresPlan_of_typed typed [])).done fun _ =>
    declares_ofEmit (Emitter.declares_emitOp .ret)

end Codegen

/-! ## Compilation -/

/-- **Locals are counted exactly.** The code of a tree has one local for each bound name and one for
each membership test. Under any limit on the locals the tree compiles to the same code if that
number is allowed, and otherwise fails for too many locals. -/
theorem compile_of_slotCount {env : Environment} {expr : Expr} {maxLocals : Nat} {code : Code}
    (tree : expr.IsTree) (compiled : compile env expr maxLocals = .ok code) :
    code.locals.size = expr.slotCount ∧
      ∀ limit, compile env expr limit =
        if expr.slotCount ≤ min limit maxSlots then .ok code
        else .error (.defect (.tooManyLocals (min limit maxSlots))) := by
  obtain ⟨type, typing, emitter, typed, run, finished⟩ := compile_eq_ok compiled
  obtain ⟨size, room, full⟩ := Codegen.declares_program (Typing.typed_of_run tree typed) _ _ _ run
  -- there are no locals to begin with
  have none : slots (Emitter.withMaxLocals maxLocals) = 0 := rfl
  rw [none, Nat.zero_add] at size room full
  have counted : code.locals.size = emitter.locals.size :=
    @Emitter.sizes_of_finalize 0 _ _ finished .slot
  refine ⟨counted.trans size, fun limit => ?_⟩
  have limited : Emitter.withMaxLocals limit =
      withLimit (min limit maxSlots) (Emitter.withMaxLocals maxLocals) := rfl
  rw [compile_of_typed typed, limited]
  by_cases enough : expr.slotCount ≤ min limit maxSlots
  · have same : (withLimit (min limit maxSlots) emitter).finalize = .ok code := finished
    rw [if_pos enough, room _ enough]
    simp only [same]
    rfl
  · obtain ⟨stopped, failed⟩ := full (min limit maxSlots) (Nat.zero_le _) (Nat.lt_of_not_le enough)
    rw [if_neg enough, failed]
    rfl

/-- A membership test and a bound name in the two arms of a conditional. -/
def eitherArm : Expr :=
  .conditional ⟨0, 0, 0⟩ (.literal ⟨1, 0, 0⟩ (.bool true))
    (.member ⟨2, 0, 0⟩ (.literal ⟨3, 0, 0⟩ (.int 7)) [.literal ⟨4, 0, 0⟩ (.int 7)])
    (.bindings ⟨5, 0, 0⟩ (.ident ⟨6, 0, 0⟩ "held") [("held", .literal ⟨7, 0, 0⟩ (.bool false))])

/-- The arms do not share a local, so a limit of one local is met in the second. -/
theorem compile_of_slotCount_eitherArm : ∃ code,
    compile {} eitherArm 70000 = .ok code ∧ code.locals.size = 2 ∧
      compile {} eitherArm 2 = .ok code ∧
      compile {} eitherArm 1 = .error (.defect (.tooManyLocals 1)) := by
  obtain ⟨code, compiled⟩ : ∃ code, compile {} eitherArm 70000 = .ok code := ⟨_, by cbv⟩
  obtain ⟨size, limits⟩ := compile_of_slotCount (by decide) compiled
  exact ⟨code, compiled, size, limits 2, limits 1⟩

end ExprCode
