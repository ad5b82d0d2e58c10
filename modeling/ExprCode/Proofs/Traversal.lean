import ExprCode.Codegen
import ExprCode.Proofs.Environments
import ExprCode.Proofs.ExprTree

/-! # Going through code generation

What is emitted for an expression is put together from a few operations on the emitter. A relation
of code generation with one state to code generation with another that is kept by these operations
and by the ways of putting them together (`Traversal`) therefore holds of what is emitted for every
expression (`Traversal.plans`). A property of code generation is a relation that looks at one side
only. -/

namespace ExprCode

/-! ## Operations and chains -/

/-- Operations on the emitter that are used for one instruction. None of them branches or
returns. -/
inductive Emitter.Basic (arguments : Nat) : Emit Unit → Prop
  | plain {op : Opcode} (goesOn : op ≠ .ret) : Basic arguments (emitOp op)
  | convert (code : TypeCode) : Basic arguments (emit ⟨.conv, .typeCode code⟩)
  | argument {index : UInt16} (listed : index.toNat < arguments) :
      Basic arguments (emit ⟨.ldarg, .u16 index⟩)
  | loadLocal (slot : Nat) : Basic arguments (emitLoadLocal slot)
  | storeLocal (slot : Nat) : Basic arguments (emitStoreLocal slot)
  | loadBool (value : Bool) : Basic arguments (emitLoadBool value)
  | loadInt32 (value : Int32) : Basic arguments (emitLoadInt32 value)
  | loadInt64 (value : Int64) : Basic arguments (emitLoadInt64 value)
  | loadSingle (value : Single) : Basic arguments (emitLoadSingle value)
  | loadDouble (value : Double) : Basic arguments (emitLoadDouble value)
  | loadString (value : String) : Basic arguments (emitLoadString value)
  | newArray (element : Ty) : Basic arguments (emitNewArray element)
  | arrayLoad (element : Ty) : Basic arguments (emitArrayLoad element)
  | arrayStore (element : Ty) : Basic arguments (emitArrayStore element)
  | call (name : String) (arity : Nat) (function : Handle) :
      Basic arguments (emitCall name arity function)

variable {σ τ : Type}

/-- Two chains of the same connectives and nodes, whose operands are related. -/
inductive Chain.Alike (related : Codegen σ Unit → Codegen τ Unit → Prop) :
    Chain (ChainOperand σ) → Chain (ChainOperand τ) → Prop
  | operand {node : NodeId} {code : Codegen σ Unit} {other : Codegen τ Unit}
      (codes : related code other) : Alike related (.operand ⟨node, code⟩) (.operand ⟨node, other⟩)
  | joined {connective : Connective} {left right : Chain (ChainOperand σ)}
      {otherLeft otherRight : Chain (ChainOperand τ)} (lefts : Alike related left otherLeft)
      (rights : Alike related right otherRight) :
      Alike related (.joined connective left right) (.joined connective otherLeft otherRight)

namespace Codegen

variable [HasFrames σ] [HasFrames τ]

/-- A relation that sequences and basic operations keep. -/
structure Congruence (arguments : Nat)
    (related : (α : Type) → Codegen σ α → Codegen τ α → Prop) : Prop where
  /-- Nothing is done on either side. -/
  pure {α : Type} (value : α) : related α (pure value) (pure value)
  /-- Both sides fail. -/
  throw {α : Type} (error : CompileError) : related α (throw error) (throw error)
  /-- One thing is done after the other. -/
  bind {α β : Type} {first : Codegen σ α} {other : Codegen τ α} {next : α → Codegen σ β}
    {otherNext : α → Codegen τ β} (firsts : related α first other)
    (rests : ∀ value, related β (next value) (otherNext value)) :
    related β (first >>= next) (other >>= otherNext)
  /-- A basic operation is done on both sides. -/
  basic {operation : Emit Unit} (isBasic : Emitter.Basic arguments operation) :
    related Unit (ofEmit operation) (ofEmit operation)

namespace Congruence

variable {arguments : Nat} {related : (α : Type) → Codegen σ α → Codegen τ α → Prop}
  {env : Environment} {typing : Typing} {code : Codegen σ Unit} {other : Codegen τ Unit}
  (keeps : Congruence arguments related)

include keeps

/-! ## Constants and conversions -/

/-- What typing found out is known. -/
theorem known {α : Type} (node : Node) (found : Option α) :
    related α (Codegen.known node found) (Codegen.known node found) := by
  cases found with
  | none => exact keeps.throw _
  | some value => exact keeps.pure value

/-- The result of a look-up. -/
theorem ofExcept {α : Type} (found : Except Defect α) :
    related α (Codegen.ofExcept found) (Codegen.ofExcept found) := by
  cases found with
  | error defect => exact keeps.throw _
  | ok value => exact keeps.pure value

/-- A conversion of numbers. -/
theorem emitNumericConversion (source target : Ty) :
    related Unit (Codegen.emitNumericConversion source target)
      (Codegen.emitNumericConversion source target) := by
  unfold Codegen.emitNumericConversion
  split
  · exact keeps.pure ()
  · exact keeps.basic (.convert _)

/-- A length or an index. -/
theorem emitLength (length : Nat) :
    related Unit (Codegen.emitLength length) (Codegen.emitLength length) := by
  unfold Codegen.emitLength
  split
  · exact keeps.basic (.loadInt32 _)
  · exact keeps.throw _

/-- A constant. -/
theorem emitLiteral (value : Literal) :
    related Unit (Codegen.emitLiteral value) (Codegen.emitLiteral value) := by
  cases value with
  | bool value => exact keeps.basic (.loadBool value)
  | int n => exact keeps.basic (.loadInt32 n)
  | uint n => exact keeps.bind (keeps.basic (.loadInt32 _)) fun _ => keeps.basic (.convert _)
  | long n => exact keeps.basic (.loadInt64 n)
  | ulong n => exact keeps.bind (keeps.basic (.loadInt64 _)) fun _ => keeps.basic (.convert _)
  | single x => exact keeps.basic (.loadSingle x)
  | double x => exact keeps.basic (.loadDouble x)
  | str s => exact keeps.basic (.loadString s)

/-- A call of an operator method. -/
theorem emitMethodCall (method : OperatorMethod) :
    related Unit (Codegen.emitMethodCall method) (Codegen.emitMethodCall method) :=
  keeps.basic (.call _ _ _)

/-- A conversion that needs not be asked for. -/
theorem emitConversion (source target : Ty) (span : Span) :
    related Unit (Codegen.emitConversion env source target span)
      (Codegen.emitConversion env source target span) := by
  unfold Codegen.emitConversion
  split
  · exact keeps.emitNumericConversion source target
  · refine keeps.bind (keeps.ofExcept _) fun method? => ?_
    cases method? with
    | none => exact keeps.throw _
    | some method => exact keeps.emitMethodCall method

/-- A conversion that was asked for. -/
theorem emitCast (source target : Ty) (span : Span) :
    related Unit (Codegen.emitCast env source target span)
      (Codegen.emitCast env source target span) := by
  unfold Codegen.emitCast
  refine keeps.bind (keeps.ofExcept _) fun converts => ?_
  split_ifs
  · exact keeps.emitConversion source target span
  · exact keeps.emitNumericConversion source target
  · refine keeps.bind (keeps.ofExcept _) fun method? => ?_
    cases method? with
    | none => exact keeps.throw _
    | some method => exact keeps.emitMethodCall method

/-! ## Operands -/

/-- An expression and its conversion. -/
theorem emitConverted (code : Codegen σ Unit) (other : Codegen τ Unit) {expr : Expr}
    (codes : related Unit code other) (target : Ty) :
    related Unit (Codegen.emitConverted env typing expr code target)
      (Codegen.emitConverted env typing expr other target) :=
  keeps.bind (keeps.known _ _) fun _ => keeps.bind codes fun _ => keeps.emitConversion _ _ _

omit keeps in
variable (related) in
/-- The same expressions with related code. -/
abbrev AllRelated (operands : List (Expr × Codegen σ Unit))
    (others : List (Expr × Codegen τ Unit)) : Prop :=
  List.Forall₂ (fun one other => one.1 = other.1 ∧ related Unit one.2 other.2) operands others

variable {operands : List (Expr × Codegen σ Unit)} {others : List (Expr × Codegen τ Unit)}

/-- Arguments with their conversions. -/
theorem emitArguments (codes : AllRelated related operands others) (params : List Ty) :
    related Unit (Codegen.emitArguments env typing operands params)
      (Codegen.emitArguments env typing others params) := by
  induction codes generalizing params with
  | nil => cases params <;> exact keeps.pure ()
  | @cons one other _ _ here _ ih =>
    cases params with
    | nil => exact keeps.pure ()
    | cons param params =>
      obtain ⟨expr, _⟩ := one
      obtain ⟨_, _⟩ := other
      obtain ⟨rfl, code⟩ := here
      exact keeps.bind (keeps.emitConverted _ _ code param) fun _ => ih params

/-- An operator. -/
theorem emitOperator (node : Node) {op : Opcode} (goesOn : op ≠ .ret)
    (codes : AllRelated related operands others) :
    related Unit (Codegen.emitOperator env typing node op operands)
      (Codegen.emitOperator env typing node op others) := by
  refine keeps.bind (keeps.known _ _) fun resolution => ?_
  cases resolution with
  | primitive type =>
    have params : (operands.map fun _ => type) = others.map fun _ => type := by
      simp [codes.length_eq]
    simp only [params]
    exact keeps.bind (keeps.emitArguments codes _) fun _ => keeps.basic (.plain goesOn)
  | overload method =>
    exact keeps.bind (keeps.emitArguments codes _) fun _ => keeps.emitMethodCall method

/-- A shift. -/
theorem emitShift (node : Node) (direction : ShiftDirection) (left right : Expr)
    {rightCode : Codegen σ Unit} {otherRight : Codegen τ Unit} (lefts : related Unit code other)
    (rights : related Unit rightCode otherRight) :
    related Unit (Codegen.emitShift env typing node direction left right code rightCode)
      (Codegen.emitShift env typing node direction left right other otherRight) := by
  refine keeps.bind (keeps.known _ _) fun resolution => ?_
  refine keeps.bind (keeps.emitConverted _ _ lefts _) fun _ => keeps.bind rights fun _ => ?_
  refine keeps.bind (keeps.known _ _) fun _ => ?_
  refine keeps.bind (keeps.emitNumericConversion _ _) fun _ => ?_
  cases resolution with
  | primitive type => exact keeps.basic (.plain (by simp))
  | overload method => exact keeps.emitMethodCall method

/-- The comparison with an item. -/
theorem emitItemTest (code : Codegen σ Unit) (other : Codegen τ Unit) (operandType : Ty)
    (operandSpan : Span) (slot : Nat) (item : Expr)
    (codes : related Unit code other) :
    related Unit (Codegen.emitItemTest env typing operandType operandSpan slot item code)
      (Codegen.emitItemTest env typing operandType operandSpan slot item other) := by
  refine keeps.bind (keeps.known _ _) fun resolution => ?_
  cases resolution with
  | primitive type =>
    refine keeps.bind (keeps.basic (.loadLocal slot)) fun _ => ?_
    refine keeps.bind (keeps.emitConversion _ _ _) fun _ => ?_
    exact keeps.bind (keeps.emitConverted _ _ codes _) fun _ => keeps.basic (.plain (by simp))
  | overload method =>
    refine keeps.bind (keeps.basic (.loadLocal slot)) fun _ => ?_
    refine keeps.bind (keeps.emitConversion _ _ _) fun _ => keeps.bind (keeps.known _ _) fun _ => ?_
    exact keeps.bind (keeps.emitConverted _ _ codes _) fun _ => keeps.emitMethodCall method

end Congruence

/-- A name is a local, or the number of a variable. -/
theorem Congruence.emitName {env : Environment}
    {related : (α : Type) → Codegen σ α → Codegen τ α → Prop}
    (keeps : Congruence env.variableTypes.size related) (node : Node) (name : String)
    (scope : SlotScope) :
    related Unit (Codegen.emitName env node name scope)
      (Codegen.emitName env node name scope) := by
  unfold Codegen.emitName
  cases scope.lookup name with
  | some slot => exact keeps.basic (.loadLocal slot)
  | none =>
    cases found : env.findVariable? name with
    | none => exact keeps.throw _
    | some entry => exact keeps.basic (.argument (Environment.lt_size_of_findVariable? found))

/-! ## Expressions -/

/-- A relation that code generation keeps. Conditionals and membership tests define labels of their
own, so it has to be said for each of them as a whole. -/
structure Traversal (env : Environment) (typing : Typing)
    (related : (α : Type) → Codegen σ α → Codegen τ α → Prop) : Prop extends
    Congruence env.variableTypes.size related where
  /-- A local is declared. -/
  declareLocal (type : Ty) :
    related Nat (ofEmit (Emitter.declareLocal type)) (ofEmit (Emitter.declareLocal type))
  /-- A chain of related operands. -/
  joined {connective : Connective} {left right : Chain (ChainOperand σ)}
    {otherLeft otherRight : Chain (ChainOperand τ)} (lefts : left.Alike (related Unit) otherLeft)
    (rights : right.Alike (related Unit) otherRight) :
    related Unit (emitJoined (.joined connective left right))
      (emitJoined (.joined connective otherLeft otherRight))
  /-- A conditional. -/
  conditional (node : Node) {condition thenBranch elseBranch : Expr} {scope : SlotScope}
    (conditions : related Unit (emitCode (plan env typing condition scope))
      (emitCode (plan env typing condition scope)))
    (thens : related Unit (emitCode (plan env typing thenBranch scope))
      (emitCode (plan env typing thenBranch scope)))
    (elses : related Unit (emitCode (plan env typing elseBranch scope))
      (emitCode (plan env typing elseBranch scope))) :
    related Unit
      (emitCode (plan env typing (.conditional node condition thenBranch elseBranch) scope))
      (emitCode (plan env typing (.conditional node condition thenBranch elseBranch) scope))
  /-- A membership test. -/
  member (node : Node) {operand : Expr} {items : List Expr} {scope : SlotScope}
    (operands : related Unit (emitCode (plan env typing operand scope))
      (emitCode (plan env typing operand scope)))
    (each : ∀ item ∈ items, related Unit (emitCode (plan env typing item scope))
      (emitCode (plan env typing item scope))) :
    related Unit (emitCode (plan env typing (.member node operand items) scope))
      (emitCode (plan env typing (.member node operand items) scope))

variable {env : Environment} {typing : Typing}
  {related : (α : Type) → Codegen σ α → Codegen τ α → Prop}

variable (env typing related) in
/-- The code of an expression is planned alike under all names in scope. -/
def PlansRelated (expr : Expr) : Prop :=
  ∀ scope, (plan env typing expr scope).Alike (related Unit)
    (plan env typing expr scope)

namespace Traversal

variable (keeps : Traversal env typing related) {expr : Expr} {exprs : List Expr}

include keeps

/-- The code of related chains. -/
theorem emitCode {chain : Chain (ChainOperand σ)} {other : Chain (ChainOperand τ)}
    (chains : chain.Alike (related Unit) other) :
    related Unit (Codegen.emitCode chain) (Codegen.emitCode other) := by
  cases chains with
  | operand codes => exact codes
  | joined lefts rights => exact keeps.joined lefts rights

/-- The elements of an array literal. -/
theorem emitElements (each : ∀ expr ∈ exprs, PlansRelated env typing related expr) (type : Ty)
    (index : Nat) (scope : SlotScope) :
    related Unit (Codegen.emitElements env typing type index exprs scope)
      (Codegen.emitElements env typing type index exprs scope) := by
  induction exprs generalizing index with
  | nil =>
    rw [Codegen.emitElements, Codegen.emitElements]
    exact keeps.pure ()
  | cons element elements ih =>
    obtain ⟨here, rest⟩ := List.forall_mem_cons.1 each
    rw [Codegen.emitElements, Codegen.emitElements]
    refine keeps.bind (keeps.basic (.plain (by simp))) fun _ => ?_
    refine keeps.bind (keeps.emitLength index) fun _ => ?_
    refine keeps.bind (keeps.emitConverted _ _ (keeps.emitCode (here scope)) type) fun _ => ?_
    exact keeps.bind (keeps.basic (.arrayStore type)) fun _ => ih rest (index + 1)

/-- The arguments of a call. -/
theorem emitCallArguments (each : ∀ expr ∈ exprs, PlansRelated env typing related expr)
    (params : List Ty) (scope : SlotScope) :
    related Unit (Codegen.emitCallArguments env typing exprs params scope)
      (Codegen.emitCallArguments env typing exprs params scope) := by
  induction exprs generalizing params with
  | nil =>
    rw [Codegen.emitCallArguments, Codegen.emitCallArguments]
    · exact keeps.pure ()
    all_goals simp
  | cons argument arguments ih =>
    obtain ⟨here, rest⟩ := List.forall_mem_cons.1 each
    cases params with
    | nil =>
      rw [Codegen.emitCallArguments, Codegen.emitCallArguments]
      · exact keeps.pure ()
      all_goals simp
    | cons param params =>
      rw [Codegen.emitCallArguments, Codegen.emitCallArguments]
      refine keeps.bind (keeps.emitConverted _ _ (keeps.emitCode (here scope)) param) fun _ => ?_
      exact ih rest params

/-- Bound values, each in a local of its own. -/
theorem emitBindings {values : List (String × Expr)}
    (each : ∀ value ∈ values, PlansRelated env typing related value.2) (scope : SlotScope) :
    related SlotScope (Codegen.emitBindings env typing values scope)
      (Codegen.emitBindings env typing values scope) := by
  induction values generalizing scope with
  | nil =>
    rw [Codegen.emitBindings, Codegen.emitBindings]
    exact keeps.pure scope
  | cons value values ih =>
    obtain ⟨here, rest⟩ := List.forall_mem_cons.1 each
    rw [Codegen.emitBindings, Codegen.emitBindings]
    refine keeps.bind (keeps.known _ _) fun type =>
      keeps.bind (keeps.emitCode (here scope)) fun _ => ?_
    refine keeps.bind (keeps.declareLocal type) fun slot => ?_
    exact keeps.bind (keeps.basic (.storeLocal slot)) fun _ => ih rest _

/-- An operator on two operands. -/
theorem binary {op : Opcode} {left right : Expr} (node : Node) (goesOn : op ≠ .ret)
    (lefts : PlansRelated env typing related left)
    (rights : PlansRelated env typing related right) (scope : SlotScope) :
    related Unit
      (Codegen.emitOperator env typing node op
        [(left, Codegen.emitCode (plan env typing left scope)),
          (right, Codegen.emitCode (plan env typing right scope))])
      (Codegen.emitOperator env typing node op
        [(left, Codegen.emitCode (plan env typing left scope)),
          (right, Codegen.emitCode (plan env typing right scope))]) :=
  keeps.emitOperator node goesOn (.cons ⟨rfl, keeps.emitCode (lefts scope)⟩
    (.cons ⟨rfl, keeps.emitCode (rights scope)⟩ .nil))

/-- What is planned for every expression is related. -/
theorem plans (expr : Expr) : PlansRelated env typing related expr := by
  induction expr using Expr.inductionOn with
  | literal node value => exact fun _ => .operand (keeps.emitLiteral value)
  | ident node name => exact fun scope => .operand (keeps.emitName node name scope)
  | unary node op operand inOperand =>
    intro scope
    rw [plan, plan]
    refine .operand
      (keeps.emitOperator node ?_ (.cons ⟨rfl, keeps.emitCode (inOperand scope)⟩ .nil))
    cases op <;> simp [unaryOpcode]
  | arithmetic node op left right inLeft inRight =>
    intro scope
    rw [plan, plan]
    exact .operand (keeps.binary node (by simp) inLeft inRight scope)
  | comparison node relation left right inLeft inRight =>
    intro scope
    rw [plan, plan]
    exact .operand (keeps.binary node (by simp) inLeft inRight scope)
  | logical node connective left right inLeft inRight =>
    intro scope
    rw [plan, plan]
    -- between Booleans it belongs to the chain around it
    split
    · exact .joined (inLeft scope) (inRight scope)
    · exact .operand (keeps.binary node (by simp) inLeft inRight scope)
  | xor node left right inLeft inRight =>
    intro scope
    rw [plan, plan]
    exact .operand (keeps.binary node (by simp) inLeft inRight scope)
  | shift node direction left right inLeft inRight =>
    intro scope
    rw [plan, plan]
    exact .operand (keeps.emitShift node direction left right (keeps.emitCode (inLeft scope))
      (keeps.emitCode (inRight scope)))
  | conditional node condition thenBranch elseBranch inCondition inThen inElse =>
    intro scope
    have codes := keeps.conditional node (keeps.emitCode (inCondition scope))
      (keeps.emitCode (inThen scope)) (keeps.emitCode (inElse scope))
    rw [plan, plan] at codes ⊢
    exact .operand codes
  | member node operand items inOperand inItems =>
    intro scope
    have codes := keeps.member node (keeps.emitCode (inOperand scope)) fun item listed =>
      keeps.emitCode (inItems item listed scope)
    rw [plan, plan] at codes ⊢
    exact .operand codes
  | index node array position inArray inPosition =>
    intro scope
    rw [plan, plan]
    refine .operand (keeps.bind (keeps.known _ _) fun element => ?_)
    refine keeps.bind (keeps.emitCode (inArray scope)) fun _ => ?_
    exact keeps.bind (keeps.emitCode (inPosition scope)) fun _ => keeps.basic (.arrayLoad element)
  | array node elements inElements =>
    intro scope
    rw [plan, plan]
    refine .operand (keeps.bind (keeps.known _ _) fun type => ?_)
    refine keeps.bind (keeps.known _ _) fun element => keeps.bind (keeps.emitLength _) fun _ => ?_
    exact keeps.bind (keeps.basic (.newArray element)) fun _ =>
      keeps.emitElements inElements element 0 scope
  | call node name arguments inArguments =>
    intro scope
    rw [plan, plan]
    refine .operand ?_
    cases env.findFunction? name with
    | none => exact keeps.throw _
    | some signature =>
      exact keeps.bind (keeps.emitCallArguments inArguments _ scope) fun _ =>
        keeps.basic (.call _ _ _)
  | cast node operand target inOperand =>
    intro scope
    rw [plan, plan]
    refine .operand (keeps.bind (keeps.known _ _) fun source => ?_)
    exact keeps.bind (keeps.emitCode (inOperand scope)) fun _ => keeps.emitCast _ _ _
  | bindings node body values inBody inValues =>
    intro scope
    rw [plan, plan]
    exact .operand (keeps.bind (keeps.emitBindings inValues scope) fun inner =>
      keeps.emitCode (inBody inner))

end Traversal

end Codegen

end ExprCode
