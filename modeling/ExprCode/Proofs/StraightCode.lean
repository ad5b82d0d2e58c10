import ExprCode.Proofs.Execution
import ExprCode.Proofs.LoweredChains
import ExprCode.Proofs.RoundTrip
import ExprCode.Proofs.StackEffects

/-! # Straight code

What machines do in finished code, by the numbers of its instructions (`Image.Shows`): from an
instruction that is no branch they come to the next, and from a branch to the next or to what its
label marks. Which instructions a machine performs is read off from their offsets
(`Machine.Passes`).

Main statement: `Machine.Leaves.passes`. A machine that comes from the start of a stretch without
branches to its end performs all its instructions, one after the other and each of them once. -/

namespace ExprCode

/-! ## Steps of machines -/

namespace Machine

/-- One state leads to another by steps that do not end the run, performed at certain offsets. -/
inductive Passes (program : Program) : List Nat → Machine → Machine → Prop
  | refl (machine : Machine) : Passes program [] machine machine
  | head {trace : List Nat} {before middle after : Machine}
      (first : step program before = .ok none middle) (rest : Passes program trace middle after) :
      Passes program (before.pc :: trace) before after

variable {program : Program} {before middle after : Machine} {trace rest : List Nat}

/-- One passage after another. -/
theorem Passes.trans (first : Passes program trace before middle)
    (second : Passes program rest middle after) : Passes program (trace ++ rest) before after := by
  induction first with
  | refl => exact second
  | head step _ ih => exact .head step (ih second)

/-- A single step passes one instruction. -/
theorem Passes.single (h : step program before = .ok none after) :
    Passes program [before.pc] before after :=
  .head h (.refl _)

/-- From one offset to another, code leaves a truth value on the stack, on machines for which
something holds and goes on to hold. -/
def Leaves (program : Program) (invariant : Machine → Prop) (start stop : Nat) (value : Bool) :
    Prop :=
  ∀ machine, machine.pc = start → invariant machine → ∃ trace after,
    Passes program trace machine after ∧ stop ∉ trace ∧ after.pc = stop ∧
      after.stack = .bool value :: machine.stack ∧ invariant after

end Machine

/-! ## Finished code -/

/-- The instructions of a stretch. -/
def Extent.indices (extent : Extent) : List Nat :=
  List.range' extent.first (extent.behind - extent.first)

/-- The indices of an extent lie between its ends. -/
theorem Extent.mem_indices {extent : Extent} {index : Nat} :
    index ∈ extent.indices ↔ extent.first ≤ index ∧ index < extent.behind := by
  rw [indices, List.mem_range'_1]
  omega

/-- Finished code has the instructions and labels of an emitter, one behind the other. -/
structure Image.Shows (image : Image) (emitter : Emitter) : Prop where
  /-- The instructions. -/
  instructions : ∀ (index : Nat) (instruction : Instruction),
    emitter.instructions[index]? = some instruction → InstructionAt image index instruction
  /-- The labels. -/
  labels : ∀ (label : Label) (position : Nat), emitter.labels[label]? = some (some position) →
    image.position label = position
  /-- The order. -/
  ascending : ∀ index < emitter.instructions.size, image.offset index < image.offset (index + 1)

namespace Image.Shows

open Machine (step perform)

variable {image : Image} {emitter : Emitter} {program : Program} {machine after : Machine}
  {index : Nat} {label : Label}

/-- Later instructions have greater offsets. -/
theorem offset_lt (shows : image.Shows emitter) {other : Nat} (before : index < other)
    (inside : other ≤ emitter.instructions.size) : image.offset index < image.offset other := by
  induction other, before using Nat.le_induction with
  | base => exact shows.ascending index inside
  | succ next _ ih =>
    exact (ih (by omega)).trans (shows.ascending next inside)

/-- Different instructions have different offsets. -/
theorem offset_inj (shows : image.Shows emitter) {other : Nat}
    (inside : index ≤ emitter.instructions.size) (otherInside : other ≤ emitter.instructions.size)
    (same : image.offset index = image.offset other) : index = other := by
  rcases Nat.lt_trichotomy index other with less | equal | greater
  · exact absurd same (shows.offset_lt less otherInside).ne
  · exact equal
  · exact absurd same (shows.offset_lt greater inside).ne'

variable (shows : image.Shows emitter) (isCode : image.code = program.code)

include shows isCode

/-- An instruction without a label is performed, and the next one comes behind it. -/
theorem step_plain {op : Opcode} {operand : Operand}
    (found : emitter.instructions[index]? = some ⟨op, operand⟩)
    (noLabel : Instruction.target? ⟨op, operand⟩ = none) (pc : machine.pc = image.offset index) :
    step program machine = perform program (.read op operand.encode)
      { machine with pc := image.offset (index + 1) } := by
  cases shows.instructions index _ found with
  | plain _ decodes =>
    rw [isCode, ← pc] at decodes
    exact Machine.step_of_decodes decodes
  | branch => cases noLabel

/-- An instruction that is no branch is followed by the next one. -/
theorem pc_of_step {op : Opcode} {operand : Operand}
    (found : emitter.instructions[index]? = some ⟨op, operand⟩)
    (noLabel : Instruction.target? ⟨op, operand⟩ = none) (noBranch : op.isBranch = false)
    (pc : machine.pc = image.offset index) (h : step program machine = .ok none after) :
    after.pc = image.offset (index + 1) := by
  rw [shows.step_plain isCode found noLabel pc] at h
  obtain ⟨_, _, -, -, target⟩ := Machine.perform_effect h
  -- only branches lead elsewhere
  have next : (Action.read op operand.encode).targets (image.offset (index + 1)) =
      [(image.offset (index + 1) : Int)] := by
    cases op with
    | branch => cases noBranch
    | _ => rfl
  rw [next, List.mem_singleton] at target
  exact Int.ofNat_inj.1 target

/-- A truth value is pushed. -/
theorem step_push {value : Bool}
    (found : emitter.instructions[index]? = some ⟨if value then .ldtrue else .ldfalse, .none⟩)
    (pc : machine.pc = image.offset index) :
    step program machine = .ok none { machine with
      pc := image.offset (index + 1), stack := .bool value :: machine.stack } := by
  rw [shows.step_plain isCode found rfl pc]
  cases value <;> rfl

variable (small : program.code.bytes.size < 2 ^ 31)

include small

/-- A branch is performed with a displacement that leads to what its label marks. -/
theorem step_branch {condition : BranchCondition} {form : BranchForm}
    (found : emitter.instructions[index]? = some ⟨.branch condition form, .label label⟩)
    (pc : machine.pc = image.offset index) :
    ∃ displacement : Int, step program machine = perform program (.branch condition displacement)
        { machine with pc := image.offset (index + 1) } ∧
      (image.offset (index + 1) : Int) + displacement = image.offset (image.position label) := by
  cases shows.instructions index _ found with
  | plain noLabel => cases noLabel
  | branch decodes leads =>
    rw [isCode, ← pc] at decodes
    exact ⟨_, Machine.step_of_decodes decodes, leads (isCode ▸ small)⟩

/-- A branch that is always taken. -/
theorem step_always {form : BranchForm}
    (found : emitter.instructions[index]? = some ⟨.branch .always form, .label label⟩)
    (pc : machine.pc = image.offset index) :
    step program machine =
      .ok none { machine with pc := image.offset (image.position label) } := by
  obtain ⟨displacement, stepped, leads⟩ := shows.step_branch isCode small found pc
  have jumped : Machine.jump displacement { machine with pc := image.offset (index + 1) } = _ :=
    Machine.jump_eq leads
  exact stepped.trans (bind_of_ok jumped)

/-- A branch on a truth value is taken if that is on the stack. -/
theorem step_on {expected truth : Bool} {form : BranchForm} {stack : List Value}
    (found : emitter.instructions[index]? = some ⟨.branch (.on expected) form, .label label⟩)
    (pc : machine.pc = image.offset index) (holds : machine.stack = .bool truth :: stack) :
    step program machine = .ok none { machine with
      pc := if truth = expected then image.offset (image.position label)
        else image.offset (index + 1)
      stack } := by
  obtain ⟨displacement, stepped, leads⟩ := shows.step_branch isCode small found pc
  have tested : Machine.taken (.on expected) { machine with pc := image.offset (index + 1) } = _ :=
    Machine.taken_eq expected holds
  refine (stepped.trans (bind_of_ok tested)).trans ?_
  by_cases isTaken : truth = expected
  · have jumped : Machine.jump displacement
        { machine with pc := image.offset (index + 1), stack } = _ := Machine.jump_eq leads
    rw [decide_eq_true isTaken, if_pos isTaken]
    exact bind_of_ok jumped
  · rw [decide_eq_false isTaken, if_neg isTaken]
    rfl

end Image.Shows

/-- Where the instruction with a number starts. -/
def BranchLayout.startOf (layout : BranchLayout) (index : Nat) : Nat := layout.offsets.getD index 0

/-- The code of an emitter shows its instructions where its layout has them. -/
theorem Emitter.exists_image {emitter : Emitter} {layout : BranchLayout} {code : Code}
    (fitting : ∀ instruction ∈ emitter.instructions,
      instruction.operand.fits instruction.op.operandKind)
    (resolved : emitter.resolveBranches [] = .ok layout) (finished : emitter.finalize = .ok code) :
    ∃ image : Image, image.code = code ∧ image.offset = layout.startOf ∧ image.Shows emitter := by
  obtain ⟨positions, _, done⟩ := finished_of_finalize finished
  cases resolved.symm.trans done.resolveBranches
  obtain ⟨forms, passes, rfl, stable, bytes⟩ := done.encoding fitting
  refine ⟨⟨code, _, fun label => positions.getD label 0⟩, rfl, rfl, ?_, ?_, ?_⟩
  · intro index instruction found
    obtain ⟨inside, rfl⟩ := Array.getElem?_eq_some_iff.1 found
    exact instructionAt fitting stable bytes inside
  · exact fun label position marked => getD_labelPositions done.labelled marked
  · intro index inside
    show (Layout.offsets _ forms).getD index 0 < (Layout.offsets _ forms).getD (index + 1) 0
    rw [Layout.getD_offsets_succ inside, Instruction.encodedLength, Opcode.encodedLength]
    omega

/-! ## Straight code -/

/-- The instructions of a stretch are no branches. -/
def Emitter.Plain (emitter : Emitter) (extent : Extent) : Prop :=
  ∀ index ∈ extent.indices, ∃ op operand, emitter.instructions[index]? = some ⟨op, operand⟩ ∧
    Instruction.target? ⟨op, operand⟩ = none ∧ op.isBranch = false

/-- The code that was emitted for an operand has no branches. -/
theorem ChainOperand.EmittedAs.plain {σ : Type} [HasEmitter σ] {ready : σ → Prop}
    {operand : ChainOperand σ} {extent : Extent} {emitter : Emitter}
    (emitted : operand.EmittedAs ready extent emitter) (straight : operand.Straight ready)
    (fitting : ∀ instruction ∈ emitter.instructions,
      instruction.operand.fits instruction.op.operandKind) : emitter.Plain extent := by
  obtain ⟨before, after, inside, run, first, behind, continues⟩ := emitted
  obtain ⟨_, instructions, sameRun, -, appended, noLabels, -, -⟩ := straight before inside
  cases run.symm.trans sameRun
  intro index listed
  obtain ⟨low, high⟩ := Extent.mem_indices.1 listed
  rw [appended, Array.size_append] at behind
  have known : index - extent.first < instructions.size := by omega
  have found : emitter.instructions[index]? = some instructions[index - extent.first] := by
    refine continues.instructions index _ ?_
    rw [appended, Array.getElem?_append_right (by omega), first, Array.getElem?_eq_getElem known]
  have noLabel := noLabels _ (Array.getElem_mem known)
  have fits := fitting _ (Array.mem_of_getElem? found)
  generalize instructions[index - extent.first] = instruction at *
  obtain ⟨op, operand⟩ := instruction
  refine ⟨op, operand, found, noLabel, ?_⟩
  -- a branch takes no operand but a label
  cases op with
  | branch condition form =>
    cases operand with
    | label => cases noLabel
    | _ => cases form <;> cases fits
  | _ => rfl

/-- Where the code of an operand stands. -/
theorem ChainOperand.EmittedAs.bounds {σ : Type} [HasEmitter σ] {ready : σ → Prop}
    {operand : ChainOperand σ} {extent : Extent} {emitter : Emitter}
    (emitted : operand.EmittedAs ready extent emitter) (straight : operand.Straight ready) :
    extent.first ≤ extent.behind ∧ extent.behind ≤ emitter.instructions.size := by
  obtain ⟨before, after, inside, run, first, behind, continues⟩ := emitted
  obtain ⟨_, instructions, sameRun, -, appended, -⟩ := straight before inside
  cases run.symm.trans sameRun
  refine ⟨?_, behind ▸ continues.instructions.size_le⟩
  rw [← first, ← behind, appended, Array.size_append]
  exact Nat.le_add_right _ _

namespace Machine

variable {image : Image} {emitter : Emitter} {program : Program} {machine after : Machine}
  {trace : List Nat} {extent : Extent} {index : Nat} (shows : image.Shows emitter)
  (isCode : image.code = program.code) (plain : emitter.Plain extent)
  (known : extent.behind ≤ emitter.instructions.size)

include shows isCode plain known

/-- A machine goes through straight code from one instruction to the next. -/
theorem Passes.straight (passes : Passes program trace machine after)
    (low : extent.first ≤ index) (high : index ≤ extent.behind)
    (starts : machine.pc = image.offset index) (ends : after.pc = image.offset extent.behind)
    (arrives : image.offset extent.behind ∉ trace) :
    trace = (Extent.mk index extent.behind).indices.map image.offset := by
  -- the machine is at the instruction with the number `index`, and has not yet been at the end
  induction passes generalizing index with
  | refl machine =>
    obtain rfl : index = extent.behind :=
      shows.offset_inj (high.trans known) known (starts.symm.trans ends)
    simp [Extent.indices]
  | @head trace machine middle after first _ ih =>
    rw [List.mem_cons, not_or] at arrives
    have ahead : index < extent.behind := by
      refine Nat.lt_of_le_of_ne high fun same => arrives.1 ?_
      rw [starts, same]
    obtain ⟨op, operand, found, noLabel, noBranch⟩ :=
      plain index (Extent.mem_indices.2 ⟨low, ahead⟩)
    have next := shows.pc_of_step isCode found noLabel noBranch starts first
    rw [ih (low.trans (Nat.le_succ _)) ahead next ends arrives.2, starts]
    have split : extent.behind - index = extent.behind - (index + 1) + 1 := by omega
    simp only [Extent.indices, split, List.range'_succ, List.map_cons]

/-- Straight code that leaves a value is passed as a whole. -/
theorem Leaves.passes {invariant : Machine → Prop} {value : Bool}
    (leaves : Leaves program invariant (image.offset extent.first) (image.offset extent.behind)
      value)
    (ahead : extent.first ≤ extent.behind) (starts : machine.pc = image.offset extent.first)
    (holds : invariant machine) :
    ∃ after, Passes program (extent.indices.map image.offset) machine after ∧
      after.pc = image.offset extent.behind ∧ after.stack = .bool value :: machine.stack ∧
      invariant after := by
  obtain ⟨trace, after, passes, arrives, ends, stack, stillHolds⟩ := leaves machine starts holds
  cases passes.straight shows isCode plain known (Nat.le_refl _) ahead starts ends arrives
  exact ⟨after, passes, ends, stack, stillHolds⟩

end Machine

end ExprCode
