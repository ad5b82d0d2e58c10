import ExprCode.Proofs.CleanOperations
import ExprCode.Proofs.ForwardGeneration
import ExprCode.Proofs.Renaming

/-! # Compilation fails by no defect of its own

Main statement: `fromInput_of_compile`. If the compilation of a tree ends in a defect, then operator
methods are ambiguous, there are too many locals, or a table is full. No label is forgotten or
marked twice, no fork is stale, no local is used that is not there, and no node is compiled whose
type is not known.

The invariant is that of `Clean`: what is emitted for an expression marks all its labels. It holds
for all operands of the plan of an expression too, from which chains are made
(`Codegen.clean_plan`). -/

namespace ExprCode

open Emitter (Fits Follows Since)

namespace Codegen

variable {α β : Type} {slots : Nat}

/-- An operation of code generation is clean: it fails only as the input deserves. -/
abbrev IsClean (slots : Nat) (operation : Codegen Emitter α) : Prop :=
  Clean CompileError.FromInput slots operation

/-! ## Operations on the emitter -/

variable {before : Emitter} {op : Opcode} {node : Node} {expr : Expr} {code : Codegen Emitter Unit}
  {resolution : Resolution} {operandType type : Ty} {typeScope : TypeScope}

/-- An operation on the emitter ends as it does by itself. -/
theorem ensures_ofEmit {operation : Emit α} {post : α → Emitter → Prop}
    (h : Ensures Defect.FromInput operation before post) :
    Ensures CompileError.FromInput (ofEmit operation) before post := by
  cases run : operation before with
  | ok value after =>
    have same : ofEmit operation before = .ok value after := by rw [ofEmit_eq, run]
    exact .of_ok same (h.post_of_ok run)
  | error defect after =>
    have same : ofEmit operation before = .error (.defect defect) after := by rw [ofEmit_eq, run]
    exact .of_error same (.defect (h.allowed_of_error run))

/-- A clean operation of the emitter is clean in the code. -/
theorem clean_ofEmit {operation : Emit α} (clean : Clean Defect.FromInput slots operation) :
    IsClean slots (ofEmit operation) :=
  fun before fits room => ensures_ofEmit (clean before fits room)

/-- An instruction with an operand that it takes, which is neither a label nor a local. -/
theorem clean_emit (op : Opcode) (operand : Operand) (fitting : operand.fits op.operandKind)
    (noLabel : Instruction.target? ⟨op, operand⟩ = none)
    (noLocal : Instruction.localIndex? ⟨op, operand⟩ = none) :
    IsClean slots (Emitter.emit ⟨op, operand⟩) := by
  refine clean_ofEmit (Emitter.clean_emit fitting noLabel fun slot found => ?_)
  rw [noLocal] at found
  cases found

/-- An instruction without operand is clean. -/
theorem clean_emitOp (plain : Operand.none.fits op.operandKind)
    (noLocal : Instruction.localIndex? ⟨op, .none⟩ = none) : IsClean slots (Emitter.emitOp op) :=
  clean_emit op .none plain rfl noLocal

/-- What is known is found. -/
theorem known_eq_ok {found : Option α} {value : α} (isKnown : found = some value)
    (before : Emitter) : known node found before = .ok value before := by
  rw [isKnown]
  rfl

/-- A truth value is clean. -/
theorem clean_emitLoadBool {value : Bool} : IsClean slots (Emitter.emitLoadBool value) := by
  cases value <;> exact clean_emitOp rfl rfl

/-- What typing found out is there. -/
theorem clean_known_bind {found : Option α} {value : α} {next : α → Codegen Emitter β}
    (isKnown : found = some value) (clean : IsClean slots (next value)) :
    IsClean slots (known node found >>= next) :=
  fun before fits room => .bind_ok (known_eq_ok isKnown before) (clean before fits room)

/-- A look-up among operator methods may be ambiguous. -/
theorem clean_ofExcept_bind {lookup : Except Defect α} {next : α → Codegen Emitter β}
    (expected : ExpectedLookup lookup) (clean : ∀ value, IsClean slots (next value)) :
    IsClean slots (ofExcept lookup >>= next) := by
  cases result : lookup with
  | ok value => exact clean value
  | error defect => exact .throw (.defect (expected defect result))

/-- A tree that is rejected is an expected failure. -/
theorem clean_reject (key : MessageKey) (arguments : List String) (span : Span) :
    IsClean slots (throw (.reject key arguments span) : Codegen Emitter α) :=
  .throw (.rejected _)

/-! ## Constants and conversions -/

/-- The length of an array is clean, or the array is too long. -/
theorem clean_emitLength (length : Nat) : IsClean slots (emitLength length) := by
  unfold emitLength
  split
  · exact clean_ofEmit (Emitter.clean_emitLoadInt32 _)
  · exact clean_reject _ _ _

/-- A literal is clean. -/
theorem clean_emitLiteral (value : Literal) : IsClean slots (emitLiteral value) := by
  cases value with
  | bool value => exact clean_emitLoadBool
  | int n => exact clean_ofEmit (Emitter.clean_emitLoadInt32 n)
  | uint n =>
    exact (clean_ofEmit (Emitter.clean_emitLoadInt32 _)).bind fun _ =>
      clean_emit .conv (.typeCode (.int .u32)) rfl rfl rfl
  | long n => exact clean_emit .ldcI8 (.i64 n) rfl rfl rfl
  | ulong n =>
    exact (clean_emit .ldcI8 (.i64 n.toInt64) rfl rfl rfl).bind fun _ =>
      clean_emit .conv (.typeCode (.int .u64)) rfl rfl rfl
  | single x => exact clean_emit .ldcR4 (.f32 x) rfl rfl rfl
  | double x => exact clean_emit .ldcR8 (.f64 x) rfl rfl rfl
  | str s => exact clean_ofEmit (Emitter.clean_emitLoadString s)

/-- A conversion between numbers is clean. -/
theorem clean_emitNumericConversion (source target : Ty) :
    IsClean slots (emitNumericConversion source target) := by
  unfold emitNumericConversion
  split
  · exact .pure ()
  · exact clean_emit .conv (.typeCode target.code) rfl rfl rfl

/-- The call of a method is clean. -/
theorem clean_emitMethodCall (method : OperatorMethod) : IsClean slots (emitMethodCall method) :=
  clean_ofEmit (Emitter.clean_emitCall _ _ _)

variable (env : Environment) {typing : Typing} {scope : SlotScope}

/-- A conversion is clean, or it is rejected. -/
theorem clean_emitConversion (source target : Ty) (span : Span) :
    IsClean slots (emitConversion env source target span) := by
  unfold emitConversion
  split
  · exact clean_emitNumericConversion source target
  · refine clean_ofExcept_bind (env.operators.expected_conversionMethod _ _ _)
      fun method? => ?_
    cases method? with
    | some method => exact clean_emitMethodCall method
    | none => exact clean_reject _ _ _

/-- A cast is clean, or it is rejected. -/
theorem clean_emitCast (source target : Ty) (span : Span) :
    IsClean slots (emitCast env source target span) := by
  refine clean_ofExcept_bind (env.operators.expected_canConvert _ _) fun converts => ?_
  split
  · exact clean_emitConversion env source target span
  · split
    · exact clean_emitNumericConversion source target
    · refine clean_ofExcept_bind (env.operators.expected_conversionMethod _ _ _)
        fun method? => ?_
      cases method? with
      | some method => exact clean_emitMethodCall method
      | none => exact clean_reject _ _ _

/-- All slots of names in scope are below a number. -/
def Below (slots : Nat) (scope : SlotScope) : Prop :=
  ∀ name slot, scope.lookup name = some slot → slot < slots

/-- A name is clean where its slot is declared. -/
theorem clean_emitName {name : String} (below : Below slots scope) :
    IsClean slots (emitName env node name scope) := by
  unfold emitName
  split
  · next slot found => exact clean_ofEmit (Emitter.clean_emitLoadLocal (below name slot found))
  · split
    · next index _ _ => exact clean_emit .ldarg (.u16 index) rfl rfl rfl
    · exact clean_reject _ _ _

variable {env}

/-! ## Operands -/

/-- A tree with a type is converted cleanly. -/
theorem clean_emitConverted {source target : Ty} (isKnown : typing.types[expr.id]? = some source)
    (clean : IsClean slots code) : IsClean slots (emitConverted env typing expr code target) :=
  clean_known_bind isKnown (clean.bind fun _ => clean_emitConversion env _ _ _)

/-- Operands with types are converted cleanly. -/
theorem clean_emitArguments {operands : List (Expr × Codegen Emitter Unit)} {targets : List Ty}
    (known : ∀ operand ∈ operands, ∃ type, typing.types[operand.1.id]? = some type)
    (clean : ∀ operand ∈ operands, IsClean slots operand.2) :
    IsClean slots (emitArguments env typing operands targets) := by
  induction operands generalizing targets with
  | nil => exact .pure ()
  | cons operand operands ih =>
    obtain ⟨⟨type, firstKnown⟩, laterKnown⟩ := List.forall_mem_cons.1 known
    obtain ⟨first, later⟩ := List.forall_mem_cons.1 clean
    cases targets with
    | nil => exact .pure ()
    | cons target targets =>
      exact (clean_emitConverted firstKnown first).bind fun _ =>
        ih laterKnown later

/-- An operator with a resolution is clean if its operands are. -/
theorem clean_emitOperator {operands : List (Expr × Codegen Emitter Unit)}
    (resolved : typing.resolutions[node.id]? = some resolution)
    (plain : Operand.none.fits op.operandKind)
    (noLocal : Instruction.localIndex? ⟨op, .none⟩ = none)
    (known : ∀ operand ∈ operands, ∃ type, typing.types[operand.1.id]? = some type)
    (clean : ∀ operand ∈ operands, IsClean slots operand.2) :
    IsClean slots (emitOperator env typing node op operands) := by
  refine clean_known_bind resolved ?_
  cases resolution with
  | primitive type =>
    exact (clean_emitArguments known clean).bind fun _ => clean_emitOp plain noLocal
  | overload method =>
    exact (clean_emitArguments known clean).bind fun _ => clean_emitMethodCall method

/-- A shift with a resolution is clean if its operands are. -/
theorem clean_emitShift {direction : ShiftDirection} {left right : Expr}
    {leftCode rightCode : Codegen Emitter Unit} {leftType rightType : Ty}
    (resolved : typing.resolutions[node.id]? = some resolution)
    (leftKnown : typing.types[left.id]? = some leftType)
    (rightKnown : typing.types[right.id]? = some rightType) (leftClean : IsClean slots leftCode)
    (rightClean : IsClean slots rightCode) :
    IsClean slots
      (emitShift env typing node direction left right leftCode rightCode) := by
  refine clean_known_bind resolved ?_
  refine (clean_emitConverted leftKnown leftClean).bind fun _ => rightClean.bind fun _ =>
    clean_known_bind rightKnown ((clean_emitNumericConversion _ _).bind fun _ => ?_)
  cases resolution with
  | primitive type => exact clean_emitOp rfl rfl
  | overload method => exact clean_emitMethodCall method

/-- The test of an item with a resolution is clean. -/
theorem clean_emitItemTest {itemType : Ty} {operandSpan : Span} {slot : Nat} {item : Expr}
    {test : Resolution} (tested : typing.memberships[item.id]? = some test)
    (isKnown : typing.types[item.id]? = some itemType) (declared : slot < slots)
    (clean : IsClean slots code) :
    IsClean slots (emitItemTest env typing operandType operandSpan slot item code) := by
  have load : IsClean slots (Emitter.emitLoadLocal slot) :=
    clean_ofEmit (Emitter.clean_emitLoadLocal declared)
  refine clean_known_bind tested ?_
  cases test with
  | primitive type =>
    exact load.bind fun _ => (clean_emitConversion env _ _ _).bind fun _ =>
      (clean_emitConverted isKnown clean).bind fun _ => clean_emitOp rfl rfl
  | overload method =>
    exact load.bind fun _ => (clean_emitConversion env _ _ _).bind fun _ =>
      clean_known_bind isKnown ((clean_emitConverted isKnown clean).bind fun _ =>
        clean_emitMethodCall method)

/-! ## Arms and chains -/

/-- An arm is emitted into a fork, which can be spliced. -/
theorem clean_emitArm {arm : Codegen Emitter Unit} (clean : IsClean slots arm) :
    IsClean slots (emitArm arm) := by
  intro before fits room
  -- a fork has the locals of its parent
  have inFork := clean before.fork ⟨fits.few, fits.numbered⟩ room
  cases run : arm before.fork with
  | error error child =>
    have same : emitArm arm before = .error error before := by rw [emitArm_eq, run]
    exact .of_error same (inFork.allowed_of_error run)
  | ok value child =>
    have same : emitArm arm before = ofEmit (Emitter.splice child) before := by
      rw [emitArm_eq, run]
    unfold Ensures
    rw [same]
    exact ensures_ofEmit (Emitter.ensures_splice (inFork.post_of_ok run))

/-- A chain of clean operands. -/
theorem clean_emitJoined {connective : Connective} {left right : Chain (ChainOperand Emitter)}
    (clean : ∀ operand ∈ (Chain.joined connective left right).operands, IsClean slots operand.code)
    (nodup : (Chain.joined connective left right).nodes.Nodup) :
    IsClean slots (emitJoined (.joined connective left right)) := by
  intro before fits room
  have steady : ∀ operand ∈ (Chain.joined connective left right).operands,
      Frame.Steady CompileError.FromInput (Follows before) operand.code := by
    intro operand listed state follows
    refine (clean operand listed state (follows.fits fits) (room.trans follows.locals)).mono ?_
    intro _ after since
    exact ⟨follows.trans since.toFollows, since.unmarked_eq⟩
  have lowered := Frame.ensures_lower
    (fun _ _ follows coded => follows.coded coded) steady nodup (Follows.refl fits)
  cases run : Frame.lower (.joined connective left right) (({} : Frame), before) with
  | error error after =>
    have same : emitJoined (.joined connective left right) before = .error error after.2 := by
      rw [emitJoined_eq, run]
    exact .of_error same (lowered.allowed_of_error run)
  | ok value after =>
    have same : emitJoined (.joined connective left right) before = .ok () after.2 := by
      rw [emitJoined_eq, run]
    obtain ⟨follows, unmarked⟩ := lowered.post_of_ok run
    exact .of_ok same ⟨follows, unmarked.trans (Set.union_empty _).symm, Set.disjoint_empty _⟩

/-! ## Lists of expressions -/

/-- The tests of a membership test, as long as the label behind them is open. -/
theorem since_emitItems {operandSpan : Span} {slot : Nat} {found : Label} {items : List Expr}
    {start : Emitter} {opened : Set Label}
    (typed : TypedItems env typing typeScope operandType items)
    (each : ∀ item ∈ items, ∀ {type}, Typed env typing typeScope item type →
      IsClean slots (emitCode (plan env typing item scope))) (declared : slot < slots)
    (isOpen : found ∈ opened) (fits : start.Fits) (room : slots ≤ start.locals.size)
    (since : Since start opened before) :
    Ensures CompileError.FromInput
      (emitItems env typing operandType operandSpan slot found items scope) before
      fun _ after => Since start opened after := by
  induction items generalizing before with
  | nil =>
    rw [emitItems]
    exact .pure since
  | cons item items ih =>
    obtain ⟨first, later⟩ := List.forall_mem_cons.1 each
    cases typed with
    | cons itemTyped rule tested itemsTyped =>
      rw [emitItems]
      have clean := first itemTyped
      refine ((clean_emitItemTest tested itemTyped.known declared clean).since fits room since).bind
        fun _ _ since => ?_
      refine (ensures_ofEmit (Emitter.since_emitBranch fits since isOpen)).bind fun _ _ since => ?_
      exact ih itemsTyped later since

/-- Elements with types are clean if each of them is. -/
theorem clean_emitElements {element : Ty} {index : Nat} {values : List Expr}
    (known : ∀ value ∈ values, ∃ type, typing.types[value.id]? = some type)
    (each : ∀ value ∈ values, IsClean slots (emitCode (plan env typing value scope))) :
    IsClean slots (emitElements env typing element index values scope) := by
  induction values generalizing index with
  | nil =>
    rw [emitElements]
    exact .pure ()
  | cons value values ih =>
    obtain ⟨⟨type, firstKnown⟩, laterKnown⟩ := List.forall_mem_cons.1 known
    obtain ⟨first, later⟩ := List.forall_mem_cons.1 each
    rw [emitElements]
    exact (clean_emitOp rfl rfl).bind fun _ => (clean_emitLength index).bind fun _ =>
      (clean_emitConverted firstKnown first).bind fun _ =>
        (clean_ofEmit (Emitter.clean_emitArrayStore element)).bind fun _ =>
          ih laterKnown later

/-- Bound values are in locals that are there. -/
theorem ensures_emitBindings {typeInner : TypeScope} {values : List (String × Expr)}
    (typed : TypedBindings env typing typeScope values typeInner)
    (each : ∀ value ∈ values, ∀ {typeScope scope slots type},
      Typed env typing typeScope value.2 type → Below slots scope →
      IsClean slots (emitCode (plan env typing value.2 scope)))
    (below : Below before.locals.size scope) (fits : before.Fits) :
    Ensures CompileError.FromInput (emitBindings env typing values scope) before
      fun inner after => Below after.locals.size inner ∧ Since before ∅ after := by
  induction values generalizing typeScope scope before with
  | nil =>
    rw [emitBindings]
    exact .pure ⟨below, .refl fits⟩
  | cons value values ih =>
    obtain ⟨name, expr⟩ := value
    obtain ⟨first, later⟩ := List.forall_mem_cons.1 each
    cases typed with
    | cons valueTyped valuesTyped =>
      rw [emitBindings]
      refine .bind_ok (known_eq_ok valueTyped.known before) ?_
      refine (first valueTyped below before fits (Nat.le_refl _)).bind fun _ evaluated since => ?_
      refine (ensures_ofEmit (Emitter.ensures_declareLocal _)).bind ?_
      rintro slot declared ⟨isDeclared, sinceDeclared⟩
      have since := since.trans sinceDeclared
      have store := clean_ofEmit (Emitter.clean_emitStoreLocal isDeclared)
      refine (store declared (since.fits fits) (Nat.le_refl _)).bind fun _ stored sinceStored => ?_
      have since := since.trans sinceStored
      -- the rest finds the new name in the local that was just declared
      have belowStored : Below stored.locals.size ((name, slot) :: scope) := by
        intro other otherSlot found
        rw [List.lookup] at found
        split at found
        · cases found
          exact Nat.lt_of_lt_of_le isDeclared sinceStored.locals
        · exact Nat.lt_of_lt_of_le (below other otherSlot found) since.locals
      refine (ih valuesTyped later belowStored (since.fits fits)).mono ?_
      rintro inner after ⟨innerBelow, sinceRest⟩
      exact ⟨innerBelow, since.trans sinceRest⟩

/-! ## Expressions -/

/-- Two labels are opened. The second one is still open when the first one has been marked. -/
theorem ensures_openLabels {start : Emitter} {next : Label → Label → Codegen Emitter α}
    {post : α → Emitter → Prop} (since : Since start ∅ before)
    (rest : ∀ (first second : Label) (after : Emitter), first ∈ ({second, first} : Set Label) →
      second ∈ ({second, first} : Set Label) \ {first} → Since start {second, first} after →
        Ensures CompileError.FromInput (next first second) after post) :
    Ensures CompileError.FromInput (do
      let first ← ofEmit Emitter.defineLabel
      let second ← ofEmit Emitter.defineLabel
      next first second) before post := by
  refine (ensures_ofEmit (Emitter.since_defineLabel since)).bind ?_
  rintro first _ ⟨-, since⟩
  refine (ensures_ofEmit (Emitter.since_defineLabel since)).bind ?_
  rintro second after ⟨new, since⟩
  have differ : second ≠ first := fun same => new (same ▸ Set.mem_insert _ _)
  rw [insert_empty_eq] at since
  exact rest first second after (by simp) (by simp [differ]) since

/-- A conditional opens two labels and marks both. -/
theorem clean_conditional {condition thenBranch elseBranch : Expr} {thenType elseType : Ty}
    (isKnown : typing.types[node.id]? = some type)
    (thenKnown : typing.types[thenBranch.id]? = some thenType)
    (elseKnown : typing.types[elseBranch.id]? = some elseType)
    (test : IsClean slots (emitCode (plan env typing condition scope)))
    (thenClean : IsClean slots (emitCode (plan env typing thenBranch scope)))
    (elseClean : IsClean slots (emitCode (plan env typing elseBranch scope))) :
    IsClean slots (emitCode (plan env typing
      (.conditional node condition thenBranch elseBranch) scope)) := by
  rw [plan]
  refine clean_known_bind isKnown fun before fits room => ?_
  refine (test before fits room).bind fun _ _ since => ?_
  refine ensures_openLabels since fun elseLabel endLabel _ elseOpen endOpen since => ?_
  refine (ensures_ofEmit (Emitter.since_emitBranch fits since elseOpen)).bind fun _ _ since => ?_
  refine ((clean_emitArm (clean_emitConverted thenKnown thenClean)).since fits room since).bind
    fun _ _ since => ?_
  refine (ensures_ofEmit (Emitter.since_emitBranch fits since endOpen.1)).bind fun _ _ since => ?_
  refine (ensures_ofEmit (Emitter.since_markLabel since elseOpen)).bind fun _ _ since => ?_
  refine ((clean_emitArm (clean_emitConverted elseKnown elseClean)).since fits room since).bind
    fun _ _ since => ?_
  exact (ensures_ofEmit (Emitter.since_markLabel since endOpen)).mono fun _ _ since => since.both

/-- A membership test opens two labels and marks both. -/
theorem clean_member {operand : Expr} {items : List Expr}
    (isKnown : typing.types[operand.id]? = some operandType)
    (itemsTyped : TypedItems env typing typeScope operandType items)
    (operandClean : IsClean slots (emitCode (plan env typing operand scope)))
    (each : ∀ item ∈ items, ∀ {type}, Typed env typing typeScope item type →
      IsClean slots (emitCode (plan env typing item scope))) :
    IsClean slots (emitCode (plan env typing (.member node operand items) scope)) := by
  rw [plan]
  refine clean_known_bind isKnown fun before fits room => ?_
  refine (operandClean before fits room).bind fun _ _ since => ?_
  refine (ensures_ofEmit (Emitter.ensures_declareLocal operandType)).bind ?_
  rintro slot declared ⟨isDeclared, sinceDeclared⟩
  -- from here on, the local of the operand is there
  have sinceBefore := since.trans sinceDeclared
  have fitsHere := sinceBefore.fits fits
  have roomHere : slots ≤ declared.locals.size := room.trans sinceBefore.locals
  suffices rest : Ensures CompileError.FromInput _ declared fun _ after =>
      Since declared ∅ after from
    rest.mono fun _ _ since => sinceBefore.trans since
  have store := clean_ofEmit (Emitter.clean_emitStoreLocal isDeclared)
  refine (store declared fitsHere (Nat.le_refl _)).bind fun _ _ since => ?_
  refine ensures_openLabels since fun found finish _ foundOpen finishOpen since => ?_
  refine (since_emitItems itemsTyped
    (fun item listed _ typed => (each item listed typed).mono roomHere)
    isDeclared foundOpen fitsHere (Nat.le_refl _) since).bind fun _ _ since => ?_
  refine (clean_emitLoadBool.since fitsHere roomHere since).bind fun _ _ since => ?_
  refine (ensures_ofEmit (Emitter.since_emitBranch fitsHere since finishOpen.1)).bind
    fun _ _ since => ?_
  refine (ensures_ofEmit (Emitter.since_markLabel since foundOpen)).bind fun _ _ since => ?_
  refine (clean_emitLoadBool.since fitsHere roomHere since).bind fun _ _ since => ?_
  exact (ensures_ofEmit (Emitter.since_markLabel since finishOpen)).mono fun _ _ since => since.both

/-- What is emitted for a plan is clean, and so are all operands of the plan. -/
structure CleanPlan (slots : Nat) (chain : Chain (ChainOperand Emitter)) : Prop where
  /-- By itself. -/
  code : IsClean slots (emitCode chain)
  /-- As a part of another chain. -/
  operands : ∀ operand ∈ chain.operands, IsClean slots operand.code

/-- A single operand is a clean chain. -/
theorem cleanPlan_operand {node : NodeId} (clean : IsClean slots code) :
    CleanPlan slots (.operand ⟨node, code⟩) :=
  ⟨clean, by simpa [Chain.operands] using clean⟩

/-- Clean chains with different nodes are joined to a clean one. -/
theorem cleanPlan_joined {connective : Connective} {left right : Chain (ChainOperand Emitter)}
    (nodup : (Chain.joined connective left right).nodes.Nodup) (leftClean : CleanPlan slots left)
    (rightClean : CleanPlan slots right) : CleanPlan slots (.joined connective left right) := by
  have operands : ∀ operand ∈ (Chain.joined connective left right).operands,
      IsClean slots operand.code :=
    List.forall_mem_append.2 ⟨leftClean.operands, rightClean.operands⟩
  exact ⟨clean_emitJoined operands nodup, operands⟩

/-- An operator on two trees is clean if they are. -/
theorem clean_binary {left right : Expr} {leftType rightType : Ty}
    (resolved : typing.resolutions[node.id]? = some resolution)
    (plain : Operand.none.fits op.operandKind)
    (noLocal : Instruction.localIndex? ⟨op, .none⟩ = none)
    (leftKnown : typing.types[left.id]? = some leftType)
    (rightKnown : typing.types[right.id]? = some rightType)
    (leftClean : IsClean slots (emitCode (plan env typing left scope)))
    (rightClean : IsClean slots (emitCode (plan env typing right scope))) :
    IsClean slots (emitOperator env typing node op
      [(left, emitCode (plan env typing left scope)),
        (right, emitCode (plan env typing right scope))]) :=
  clean_emitOperator resolved plain noLocal
    (by simpa using ⟨⟨_, leftKnown⟩, ⟨_, rightKnown⟩⟩) (by simpa using ⟨leftClean, rightClean⟩)

/-- What is emitted for a typed tree is clean. -/
theorem clean_plan (tree : expr.IsTree) (typed : Typed env typing typeScope expr type)
    (below : Below slots scope) : CleanPlan slots (plan env typing expr scope) := by
  -- names bound further inside come with more locals, so the scope and the number of locals vary
  induction expr using Expr.inductionOn generalizing typeScope type scope slots with
  | literal node value => exact cleanPlan_operand (clean_emitLiteral value)
  | ident node name => exact cleanPlan_operand (clean_emitName env below)
  | unary node op operand ihOperand =>
    cases typed with
    | unary operandTyped rule resolved known =>
      have operandClean := ihOperand (tree.child (.head _)) operandTyped below
      refine cleanPlan_operand (clean_emitOperator resolved ?_ ?_ ?_ ?_)
      · cases op <;> rfl
      · cases op <;> rfl
      · simpa using ⟨_, operandTyped.known⟩
      · simpa using operandClean.code
  | arithmetic node op left right ihLeft ihRight =>
    cases typed with
    | arithmetic leftTyped rightTyped rule resolved known =>
      have leftClean := ihLeft (tree.child (.head _)) leftTyped below
      have rightClean := ihRight (tree.child (.tail _ (.head _))) rightTyped below
      exact cleanPlan_operand (clean_binary resolved rfl rfl leftTyped.known rightTyped.known
        leftClean.code rightClean.code)
  | comparison node relation left right ihLeft ihRight =>
    cases typed with
    | comparison leftTyped rightTyped rule resolved known =>
      have leftClean := ihLeft (tree.child (.head _)) leftTyped below
      have rightClean := ihRight (tree.child (.tail _ (.head _))) rightTyped below
      exact cleanPlan_operand (clean_binary resolved rfl rfl leftTyped.known rightTyped.known
        leftClean.code rightClean.code)
  | logical node connective left right ihLeft ihRight =>
    cases typed with
    | chain leftTyped rightTyped known =>
      have leftClean := ihLeft (tree.child (.head _)) leftTyped below
      have rightClean := ihRight (tree.child (.tail _ (.head _))) rightTyped below
      have joined : (isBool typing left && isBool typing right) = true := by
        simp [isBool, leftTyped.known, rightTyped.known]
      -- the operands of the chain are different nodes because the expression is a tree
      have nodes : (plan env typing (.logical node connective left right) scope).nodes.Nodup :=
        (nodes_plan_sublist _ scope).nodup tree
      rw [plan, if_pos joined] at nodes ⊢
      exact cleanPlan_joined nodes leftClean rightClean
    | bitwise leftTyped rightTyped notBoth rule resolved known =>
      have leftClean := ihLeft (tree.child (.head _)) leftTyped below
      have rightClean := ihRight (tree.child (.tail _ (.head _))) rightTyped below
      have notJoined : ¬ (isBool typing left && isBool typing right) = true := by
        simpa [isBool, leftTyped.known, rightTyped.known] using notBoth
      rw [plan, if_neg notJoined]
      exact cleanPlan_operand (clean_binary resolved rfl rfl leftTyped.known rightTyped.known
        leftClean.code rightClean.code)
  | xor node left right ihLeft ihRight =>
    cases typed with
    | xor leftTyped rightTyped rule resolved known =>
      have leftClean := ihLeft (tree.child (.head _)) leftTyped below
      have rightClean := ihRight (tree.child (.tail _ (.head _))) rightTyped below
      exact cleanPlan_operand (clean_binary resolved rfl rfl leftTyped.known rightTyped.known
        leftClean.code rightClean.code)
  | shift node direction left right ihLeft ihRight =>
    cases typed with
    | shift leftTyped rightTyped count rule resolved known =>
      have leftClean := ihLeft (tree.child (.head _)) leftTyped below
      have rightClean := ihRight (tree.child (.tail _ (.head _))) rightTyped below
      exact cleanPlan_operand (clean_emitShift resolved leftTyped.known rightTyped.known
        leftClean.code rightClean.code)
  | conditional node condition thenBranch elseBranch ihCondition ihThen
      ihElse =>
    cases typed with
    | conditional conditionTyped thenTyped elseTyped unified known =>
      have test := ihCondition (tree.child (.head _)) conditionTyped below
      have thenClean := ihThen (tree.child (.tail _ (.head _))) thenTyped below
      have elseClean := ihElse (tree.child (.tail _ (.tail _ (.head _)))) elseTyped below
      have clean := clean_conditional known thenTyped.known elseTyped.known test.code thenClean.code
        elseClean.code
      rw [plan] at clean ⊢
      exact cleanPlan_operand clean
  | member node operand items ihOperand ihItems =>
    cases typed with
    | member operandTyped itemsTyped known =>
      have operandClean := ihOperand (tree.child List.mem_cons_self) operandTyped below
      have clean : IsClean slots
          (emitCode (plan env typing (.member node operand items) scope)) :=
        clean_member operandTyped.known itemsTyped operandClean.code
          fun item listed _ itemTyped => (ihItems item listed
            (tree.child (List.mem_cons_of_mem _ listed)) itemTyped below).code
      rw [plan] at clean ⊢
      exact cleanPlan_operand clean
  | index node array position ihArray ihPosition =>
    cases typed with
    | index arrayTyped positionTyped count known =>
      have arrayClean := ihArray (tree.child (.head _)) arrayTyped below
      have positionClean := ihPosition (tree.child (.tail _ (.head _))) positionTyped
        below
      rw [plan]
      exact cleanPlan_operand (clean_known_bind known (arrayClean.code.bind fun _ =>
        positionClean.code.bind fun _ => clean_ofEmit (Emitter.clean_emitArrayLoad _)))
  | array node elements ihElements =>
    have typedEach := typed.elements
    have known : ∀ value ∈ elements, ∃ type, typing.types[value.id]? = some type := by
      intro value listed
      obtain ⟨type, valueTyped⟩ := typedEach value listed
      exact ⟨type, valueTyped.known⟩
    have each : ∀ value ∈ elements, IsClean slots (emitCode (plan env typing value scope)) := by
      intro value listed
      obtain ⟨type, valueTyped⟩ := typedEach value listed
      exact (ihElements value listed (tree.child listed) valueTyped below).code
    cases typed with
    | array firstTyped restTyped isKnown =>
      rw [plan]
      exact cleanPlan_operand (clean_known_bind isKnown (clean_known_bind rfl
        ((clean_emitLength _).bind fun _ =>
          (clean_ofEmit (Emitter.clean_emitNewArray _)).bind fun _ =>
          clean_emitElements known each)))
  | call node name arguments ihArguments =>
    cases typed with
    | call found sameLength argumentsTyped known =>
      have operands : ∀ operand ∈ arguments.map fun argument =>
          (argument, emitCode (plan env typing argument scope)),
          (∃ type, typing.types[operand.1.id]? = some type) ∧ IsClean slots operand.2 := by
        intro operand listed
        obtain ⟨argument, member, rfl⟩ := List.mem_map.1 listed
        obtain ⟨type, argumentTyped⟩ := argumentsTyped.each argument member
        exact ⟨⟨type, argumentTyped.known⟩,
          (ihArguments argument member (tree.child member) argumentTyped below).code⟩
      rw [plan]
      refine cleanPlan_operand ?_
      simp only [found]
      rw [emitCallArguments_eq]
      exact (clean_emitArguments (fun operand listed => (operands operand listed).1)
        fun operand listed => (operands operand listed).2).bind fun _ =>
          clean_ofEmit (Emitter.clean_emitCall _ _ _)
  | cast node operand target ihOperand =>
    cases typed with
    | cast operandTyped possible known =>
      have operandClean := ihOperand (tree.child (.head _)) operandTyped below
      rw [plan]
      exact cleanPlan_operand (clean_known_bind operandTyped.known (operandClean.code.bind fun _ =>
        clean_emitCast env _ _ _))
  | bindings node body values ihBody ihValues =>
    cases typed with
    | bindings valuesTyped bodyTyped known =>
      rw [plan]
      refine cleanPlan_operand fun before fits room => ?_
      refine (ensures_emitBindings valuesTyped
        (fun value listed _ _ _ _ valueTyped inner => (ihValues value listed
          (tree.child (List.mem_cons_of_mem _ (List.mem_map_of_mem listed))) valueTyped inner).code)
        (fun name slot found => Nat.lt_of_lt_of_le (below name slot found) room) fits).bind ?_
      rintro inner bound ⟨innerBelow, since⟩
      have bodyClean := (ihBody (tree.child List.mem_cons_self) bodyTyped innerBelow).code
      exact (bodyClean bound (since.fits fits) (Nat.le_refl _)).mono fun _ _ rest =>
        since.trans rest

/-- The code of a typed tree, with the return behind it, is clean. -/
theorem clean_program (tree : expr.IsTree) (typed : Typed env typing [] expr type) :
    IsClean 0 (program env typing expr) :=
  (clean_plan tree typed fun _ _ found => by cases found).code.bind fun _ => clean_emitOp rfl rfl

end Codegen

/-! ## Compilation -/

/-- The compilation of a tree fails only by errors that the input brings about. -/
theorem fromInput_of_compile {env : Environment} {expr : Expr} {maxLocals : Nat}
    {error : CompileError} (tree : expr.IsTree)
    (h : compile env expr maxLocals = .error error) : error.FromInput := by
  cases typed : (Typing.typeOf env expr []).run {} with
  | error typeError typing =>
    rw [compile_eq, typed] at h
    cases h
    exact Typing.fromInput_of_typeOf typed
  | ok type typing =>
    have fits : (Emitter.withMaxLocals maxLocals).Fits := ⟨Nat.zero_le _, Nat.min_le_right _ _⟩
    -- the new emitter has no labels, so none is left unmarked
    have ends := Codegen.clean_program tree (Typing.typed_of_run tree typed) _ fits (Nat.zero_le _)
    rw [compile_of_typed typed] at h
    cases run : Codegen.program env typing expr (Emitter.withMaxLocals maxLocals) with
    | error programError emitter =>
      rw [run] at h
      cases h
      exact ends.allowed_of_error run
    | ok _ emitter =>
      have noLabels : (Emitter.withMaxLocals maxLocals).unmarked = ∅ :=
        Set.eq_empty_of_forall_notMem fun label found =>
          Nat.not_lt_zero _ (Emitter.lt_of_unmarked found)
      obtain ⟨last, rounded⟩ := Codegen.rounded_of_program run
      rcases rounded.finalize_cases with ⟨label, free, -⟩ | ⟨code, finished⟩
      · rw [(ends.post_of_ok run).unmarked_eq, noLabels] at free
        cases free
      · simp only [run, finished] at h
        cases h

/-- The compilation of a tree finds all that it looks up. -/
theorem compile_ne_outOfRange {env : Environment} {expr : Expr} {maxLocals : Nat}
    (tree : expr.IsTree) (fault : OutOfRange) :
    compile env expr maxLocals ≠ .error (.outOfRange fault) :=
  fun h => by cases fromInput_of_compile tree h

/-- **Defects come from the input.** If the compilation of a tree ends in a defect, operator methods
are ambiguous, there are too many locals, or a table is full. All that finishing the code looks up
is there. -/
theorem compile_eq_defect {env : Environment} {expr : Expr} {maxLocals : Nat}
    (tree : expr.IsTree) :
    (∀ defect, compile env expr maxLocals = .error (.defect defect) →
      (∃ name source target candidates,
          defect = .ambiguousOperator name source target candidates) ∨
        (∃ limit, defect = .tooManyLocals limit) ∨ ∃ table, defect = .tableOverflow table) ∧
    ∀ fault, compile env expr maxLocals ≠ .error (.outOfRange fault) := by
  refine ⟨fun defect h => ?_, compile_ne_outOfRange tree⟩
  cases fromInput_of_compile tree h with
  | defect cause =>
    cases cause with
    | ambiguous name source target candidates => exact .inl ⟨name, source, target, candidates, rfl⟩
    | locals limit => exact .inr (.inl ⟨limit, rfl⟩)
    | table table => exact .inr (.inr ⟨table, rfl⟩)

/-- A name and, in an arm behind it, a membership test: two locals. -/
def crowded : Expr :=
  .bindings ⟨0, 0, 0⟩
    (.conditional ⟨1, 0, 0⟩ (.literal ⟨2, 0, 0⟩ (.bool true))
      (.member ⟨3, 0, 0⟩ (.ident ⟨4, 0, 0⟩ "x") [.literal ⟨5, 0, 0⟩ (.int 2)])
      (.logical ⟨6, 0, 0⟩ .and (.literal ⟨7, 0, 0⟩ (.bool true))
        (.literal ⟨8, 0, 0⟩ (.bool false))))
    [("x", .literal ⟨9, 0, 0⟩ (.int 1))]

/-- With room for one local, the second one is too many. -/
theorem compile_crowded : crowded.IsTree ∧
    compile {} crowded 1 = .error (.defect (.tooManyLocals 1)) ∧
    ∃ limit, Defect.tooManyLocals 1 = .tooManyLocals limit := by
  have tree : crowded.IsTree := by decide
  have full : compile {} crowded 1 = .error (.defect (.tooManyLocals 1)) := by cbv
  refine ⟨tree, full, ?_⟩
  rcases (compile_eq_defect tree).1 _ full with ⟨_, _, _, _, same⟩ | found | ⟨_, same⟩
  · cases same
  · exact found
  · cases same

end ExprCode
