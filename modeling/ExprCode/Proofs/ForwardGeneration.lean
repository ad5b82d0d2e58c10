import ExprCode.Proofs.Compilation
import ExprCode.Proofs.ForwardEmission

/-! # Compiled expressions go forward

Main statement: `Codegen.forward_plan`. Whatever is emitted for an expression refers to what is
there and branches forward. Nothing is asked of the expression, of its nodes or of what typing has
found out about it: only what succeeds is looked at. -/

namespace ExprCode

open Emitter (Advances Forward)

namespace Codegen

variable {α β : Type} {arguments : Nat}

/-! ## Operations on the emitter -/

/-- An operation on the emitter ends as it does by itself. -/
theorem endsAs_ofEmit {operation : Emit α} {before : Emitter} {post : α → Emitter → Prop}
    (h : EndsAs operation before post) : EndsAs (ofEmit operation) before post := by
  refine .of_forall_ok fun value after run => ?_
  cases inner : operation before with
  | ok result last =>
    rw [ofEmit_eq, inner] at run
    cases run
    exact h.post_of_ok inner
  | error defect last =>
    rw [ofEmit_eq, inner] at run
    cases run

/-- An operation of the emitter goes forward in the code. -/
theorem forward_ofEmit {operation : Emit α} (forward : Forward arguments operation) :
    Forward arguments (ofEmit operation) :=
  fun before => endsAs_ofEmit (forward before)

/-- A basic operation goes forward: it refers to what is there, and does not branch. -/
theorem forward_basic {operation : Emit Unit} (isBasic : Emitter.Basic arguments operation) :
    Forward arguments operation := by
  cases isBasic with
  | plain goesOn => exact Emitter.forward_emitOp goesOn
  | convert code | loadInt64 value | loadSingle value | loadDouble value =>
    exact Emitter.forward_emit rfl nofun nofun
  | argument listed =>
    refine fun before => Emitter.endsAs_emit_plain rfl nofun fun kind number refers _ => ?_
    cases refers
    exact listed
  | loadLocal slot => exact Emitter.forward_emitLoadLocal slot
  | storeLocal slot => exact Emitter.forward_emitStoreLocal slot
  | loadBool value => exact Emitter.forward_emitLoadBool value
  | loadInt32 value => exact Emitter.forward_emitLoadInt32 value
  | loadString value => exact Emitter.forward_emitLoadString value
  | newArray element => exact Emitter.forward_emitNewArray element
  | arrayLoad element => exact Emitter.forward_emitArrayLoad element
  | arrayStore element => exact Emitter.forward_emitArrayStore element
  | call name arity function => exact Emitter.forward_emitCall name arity function

/-- Sequences and basic operations go forward. -/
theorem congruence_forward (arguments : Nat) :
    Congruence (σ := Emitter) (τ := Emitter) arguments fun _ operation _ =>
      Forward arguments operation where
  pure value := .pure value
  throw error := .throw error
  bind := .bind
  basic isBasic := forward_ofEmit (forward_basic isBasic)

variable (env : Environment) (typing : Typing)

/-- An arm is emitted into a fork, where it goes forward, and spliced. -/
theorem forward_emitArm {arm : Codegen Emitter Unit} (forward : Forward arguments arm) :
    Forward arguments (emitArm arm) := by
  refine fun before => .of_forall_ok fun _ after h => ?_
  cases run : arm before.fork with
  | error error child =>
    rw [emitArm_eq, run] at h
    cases h
  | ok value child =>
    -- the fork has advanced from the parent without instructions and marks
    have spliced : EndsAs (ofEmit (Emitter.splice child)) before fun _ after =>
        before.Advances arguments ∅ after :=
      endsAs_ofEmit
        (.of_forall_ok fun _ _ splice => ((forward before.fork).post_of_ok run).splice splice)
    rw [emitArm_eq, run] at h
    exact spliced.post_of_ok h

/-! ## Lists of expressions -/

variable {scope : SlotScope}

/-- The tests of a membership test branch to one label, which is owed behind them. -/
theorem endsAs_emitItems {operandType : Ty} {operandSpan : Span} {slot : Nat} {found : Label}
    {items : List Expr}
    {start before : Emitter} {owed : Set Label}
    (each : ∀ item ∈ items, Forward arguments (emitCode (plan env typing item scope)))
    (new : start.labels.size ≤ found) (advances : Advances arguments owed start before) :
    EndsAs (emitItems env typing operandType operandSpan slot found items scope) before
      fun _ after => Advances arguments (insert found owed) start after := by
  induction items generalizing before owed with
  | nil =>
    rw [emitItems]
    exact .pure (advances.mono (Set.subset_insert _ _))
  | cons item items ih =>
    obtain ⟨first, later⟩ := List.forall_mem_cons.1 each
    rw [emitItems]
    have test : Forward arguments
        (emitItemTest env typing operandType operandSpan slot item _) :=
      (congruence_forward arguments).emitItemTest _ (.pure ()) _ _ _ _ first
    refine (test.since advances).bind fun _ _ advances => ?_
    refine (endsAs_ofEmit (Emitter.endsAs_emitBranch advances new)).bind fun _ _ advances => ?_
    -- the label is owed already, and stays so
    refine (ih later advances).mono fun _ _ advances => ?_
    rwa [Set.insert_idem] at advances

/-! ## Expressions -/

/-- Two labels are defined since a state. -/
theorem endsAs_defineLabels {start before : Emitter} {next : Label → Label → Codegen Emitter α}
    {post : α → Emitter → Prop}
    (advances : Advances arguments ∅ start before)
    (rest : ∀ (first second : Label) (after : Emitter), start.labels.size ≤ first →
      start.labels.size ≤ second →
      Advances arguments ∅ start after → EndsAs (next first second) after post) :
    EndsAs (do
      let first ← ofEmit Emitter.defineLabel
      let second ← ofEmit Emitter.defineLabel
      next first second) before post := by
  have define {before : Emitter} : EndsAs (ofEmit Emitter.defineLabel) before fun label after =>
      label = before.labels.size ∧ before.Advances arguments ∅ after :=
    endsAs_ofEmit Emitter.endsAs_defineLabel_new
  refine define.bind ?_
  rintro first middle ⟨rfl, further⟩
  have advancesMiddle := advances.trans further
  refine define.bind ?_
  rintro second after ⟨rfl, further⟩
  exact rest _ _ after advances.labels advancesMiddle.labels (advancesMiddle.trans further)

/-- A conditional branches over its arms. -/
theorem forward_conditional {condition thenBranch elseBranch : Expr} (node : Node)
    (test : Forward arguments (emitCode (plan env typing condition scope)))
    (thenForward : Forward arguments (emitCode (plan env typing thenBranch scope)))
    (elseForward : Forward arguments (emitCode (plan env typing elseBranch scope))) :
    Forward arguments (emitCode (plan env typing
      (.conditional node condition thenBranch elseBranch) scope)) := by
  have keeps := congruence_forward arguments
  rw [plan]
  refine Forward.bind (keeps.known _ _) fun type => fun before => ?_
  refine (test before).bind fun _ _ advances => ?_
  refine endsAs_defineLabels advances fun elseLabel endLabel _ elseNew endNew advances => ?_
  refine (endsAs_ofEmit (Emitter.endsAs_emitBranch advances elseNew)).bind fun _ _ advances => ?_
  have thenArm : Forward arguments (emitArm (emitConverted env typing thenBranch _ type)) :=
    forward_emitArm (keeps.emitConverted _ (.pure ()) thenForward type)
  refine (thenArm.since advances).bind fun _ _ advances => ?_
  refine (endsAs_ofEmit (Emitter.endsAs_emitBranch advances endNew)).bind fun _ _ advances => ?_
  refine (endsAs_ofEmit (Emitter.endsAs_markLabel_owed advances)).bind fun _ _ advances => ?_
  have elseArm : Forward arguments (emitArm (emitConverted env typing elseBranch _ type)) :=
    forward_emitArm (keeps.emitConverted _ (.pure ()) elseForward type)
  refine (elseArm.since advances).bind fun _ _ advances => ?_
  -- both labels have been marked
  refine (endsAs_ofEmit (Emitter.endsAs_markLabel_owed advances)).mono fun _ _ advances =>
    advances.mono ?_
  rintro label ⟨⟨rfl | rfl | ⟨⟨⟩⟩, notElse⟩, notEnd⟩
  · exact absurd rfl notEnd
  · exact absurd rfl notElse

/-- A membership test branches over what is behind its tests. -/
theorem forward_member {operand : Expr} {items : List Expr} (node : Node)
    (operandForward : Forward arguments (emitCode (plan env typing operand scope)))
    (each : ∀ item ∈ items, Forward arguments (emitCode (plan env typing item scope))) :
    Forward arguments (emitCode (plan env typing (.member node operand items) scope)) := by
  have loadBool (value : Bool) : Forward arguments (ofEmit (Emitter.emitLoadBool value)) :=
    forward_ofEmit (Emitter.forward_emitLoadBool value)
  rw [plan]
  refine Forward.bind ((congruence_forward arguments).known _ _) fun operandType =>
    operandForward.bind fun _ => ?_
  refine (forward_ofEmit (Emitter.forward_declareLocal _)).bind fun slot => ?_
  refine (forward_ofEmit (Emitter.forward_emitStoreLocal slot)).bind fun _ => fun before => ?_
  -- what came before the labels is not looked at any more
  have start : Advances arguments ∅ before before := .refl before
  refine endsAs_defineLabels start fun found finish _ foundNew finishNew advances => ?_
  refine (endsAs_emitItems env typing each foundNew advances).bind fun _ _ advances => ?_
  refine ((loadBool false).since advances).bind fun _ _ advances => ?_
  refine (endsAs_ofEmit (Emitter.endsAs_emitBranch advances finishNew)).bind fun _ _ advances => ?_
  refine (endsAs_ofEmit (Emitter.endsAs_markLabel_owed advances)).bind fun _ _ advances => ?_
  refine ((loadBool true).since advances).bind fun _ _ advances => ?_
  refine (endsAs_ofEmit (Emitter.endsAs_markLabel_owed advances)).mono fun _ _ advances =>
    advances.mono ?_
  rintro label ⟨⟨rfl | rfl | ⟨⟨⟩⟩, notFound⟩, notFinish⟩
  · exact absurd rfl notFinish
  · exact absurd rfl notFound

/-- A chain goes forward if its operands do. -/
theorem operands_of_alike {chain other : Chain (ChainOperand Emitter)}
    (chains : chain.Alike (fun code _ => Forward arguments code) other) :
    ∀ operand ∈ chain.operands, Forward arguments operand.code := by
  induction chains with
  | operand codes => simpa [Chain.operands] using codes
  | joined _ _ ihLeft ihRight => exact List.forall_mem_append.2 ⟨ihLeft, ihRight⟩

/-- Code generation goes forward. -/
theorem traversal_forward :
    Traversal (σ := Emitter) (τ := Emitter) env typing fun _ operation _ =>
      Forward env.variableTypes.size operation where
  toCongruence := congruence_forward _
  declareLocal type := forward_ofEmit (Emitter.forward_declareLocal type)
  joined lefts rights := Frame.forward_emitJoined (operands_of_alike (.joined lefts rights))
  conditional node _ _ _ _ := forward_conditional env typing node
  member node _ _ _ := forward_member env typing node

/-- So do the operands of the chain that is planned for an expression. -/
theorem forward_operands (expr : Expr) (scope : SlotScope) :
    ∀ operand ∈ (plan env typing expr scope).operands,
      Forward env.variableTypes.size operand.code :=
  operands_of_alike ((traversal_forward env typing).plans expr scope)

/-- What is emitted for an expression goes forward. -/
theorem forward_plan (expr : Expr) (scope : SlotScope) :
    Forward env.variableTypes.size (emitCode (plan env typing expr scope)) :=
  have keeps := traversal_forward env typing
  keeps.emitCode (keeps.plans expr scope)

end Codegen

/-! ## Whole expressions -/

namespace Emitter

variable {arguments last : Nat} {emitter body : Emitter}

/-- An emitter holds the instructions of closed code, with the return as the last one. -/
structure Rounded (arguments last : Nat) (emitter : Emitter) : Prop where
  /-- There are no instructions behind the last. -/
  size : emitter.instructions.size = last + 1
  /-- The last instruction is a return. -/
  returns : emitter.instructions[last]? = some ⟨.ret, .none⟩
  /-- The others are admitted. -/
  admitted : ∀ {index instruction}, index < last → emitter.instructions[index]? = some instruction →
    instruction.Admitted (emitter.sizes arguments)
  /-- Branches lead forward, no further than to the return. -/
  ahead : ∀ {index instruction label}, index < last →
    emitter.instructions[index]? = some instruction →
    instruction.target? = some label → ∃ position, emitter.labels[label]? = some (some position) ∧
      index < position ∧ position ≤ last

/-- A return behind code that was emitted from nothing. -/
theorem Advances.rounded {start : Emitter} (advances : Advances arguments ∅ start body)
    (new : start.instructions = #[]) :
    (body.append ⟨.ret, .none⟩).Rounded arguments body.instructions.size := by
  -- all instructions of the body have been added
  have first (index : Nat) : start.instructions.size ≤ index := by
    rw [new]
    exact Nat.zero_le _
  have inBody {index : Nat} {instruction : Instruction} (inside : index < body.instructions.size)
      (found : (body.append ⟨.ret, .none⟩).instructions[index]? = some instruction) :
      body.instructions[index]? = some instruction := by
    rwa [Emitter.append, Array.getElem?_push_lt inside, ← Array.getElem?_eq_getElem inside] at found
  constructor
  · exact Array.size_push _
  · exact Array.getElem?_push_size
  · intro index instruction inside found
    exact advances.admitted (first index) (inBody inside found)
  · intro index instruction label inside found names
    obtain ⟨-, listed | ⟨position, marked, behind, atMost⟩⟩ :=
      advances.ahead (first index) (inBody inside found) names
    · cases listed
    · exact ⟨position, labelPosition?_eq_some.1 marked, behind, atMost⟩

/-- The operands of all instructions are of the right kind. -/
theorem Rounded.fitting (rounded : emitter.Rounded arguments last) :
    ∀ instruction ∈ emitter.instructions, instruction.operand.fits instruction.op.operandKind := by
  intro instruction listed
  obtain ⟨index, inside, rfl⟩ := Array.mem_iff_getElem.1 listed
  have found := Array.getElem?_eq_getElem inside
  rw [rounded.size] at inside
  rcases Nat.lt_succ_iff_lt_or_eq.1 inside with before | rfl
  · exact (rounded.admitted before found).fits
  · rw [rounded.returns, Option.some.injEq] at found
    rw [← found]
    rfl

/-- The labels of all branches mark instructions. -/
theorem Rounded.exists_position (rounded : emitter.Rounded arguments last)
    {instruction : Instruction}
    {label : Label} (listed : instruction ∈ emitter.instructions)
    (names : instruction.target? = some label) :
    ∃ position < emitter.instructions.size, emitter.labels[label]? = some (some position) := by
  obtain ⟨index, inside, rfl⟩ := Array.mem_iff_getElem.1 listed
  have found := Array.getElem?_eq_getElem inside
  rw [rounded.size] at inside ⊢
  rcases Nat.lt_succ_iff_lt_or_eq.1 inside with before | rfl
  · obtain ⟨position, marked, -, atMost⟩ := rounded.ahead before found names
    exact ⟨position, Nat.lt_succ_of_le atMost, marked⟩
  · -- the return names no label
    rw [rounded.returns, Option.some.injEq] at found
    rw [← found] at names
    cases names

/-- Finishing such code fails only for a label that marks nothing. -/
theorem Rounded.finalize_cases (rounded : emitter.Rounded arguments last) :
    (∃ label ∈ emitter.unmarked, emitter.finalize = .error (.defect (.unresolvedLabel label))) ∨
      ∃ code, emitter.finalize = .ok code := by
  have wellFormed : emitter.WellFormed := by
    refine ⟨rounded.fitting, fun instruction listed label names => ?_⟩
    obtain ⟨position, -, marked⟩ := rounded.exists_position listed names
    exact (Array.getElem?_eq_some_iff.1 marked).1
  have inside : emitter.TargetsInside := by
    intro instruction listed label position names marks
    obtain ⟨place, inCode, marked⟩ := rounded.exists_position listed names
    rw [labelPosition?_eq_some.2 marked, Option.some.injEq] at marks
    omega
  rcases labelPositions_cases emitter with ⟨label, free, -, failed⟩ | ⟨-, positions, labelled⟩
  · refine .inl ⟨label, free, ?_⟩
    rw [finalize, failed]
    rfl
  · obtain ⟨_, code, h, -⟩ := exists_finished wellFormed labelled inside
    exact .inr ⟨code, h⟩

end Emitter

/-- The code of an expression is followed by the only return. -/
theorem Codegen.rounded_of_program {env : Environment} {typing : Typing} {expr : Expr}
    {maxLocals : Nat} {emitter : Emitter}
    (generated : program env typing expr (Emitter.withMaxLocals maxLocals) = .ok () emitter) :
    ∃ last, emitter.Rounded env.variableTypes.size last := by
  obtain ⟨_, body, emitted, returned⟩ := bind_eq_ok generated
  have advances := ((forward_plan env typing expr []) (.withMaxLocals maxLocals)).post_of_ok emitted
  have isReturn : EndsAs (Emitter.emitOp .ret) body fun _ after =>
      after = body.append ⟨.ret, .none⟩ :=
    .of_forall_ok fun _ _ run => (Emitter.emit_eq_ok run).2
  rw [(endsAs_ofEmit isReturn).post_of_ok returned]
  exact ⟨_, advances.rounded rfl⟩

end ExprCode
