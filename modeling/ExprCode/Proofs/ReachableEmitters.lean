import ExprCode.Emitter.Command
import ExprCode.Proofs.EmitterSteps

/-! # Emitters that operations lead to

`Update` lists the few ways in which an operation changes an emitter, and `Command.updates` says
that there are no others, whether the operation succeeds or fails. `Reachable` are the emitters that
any operations on any number of emitters lead to. What updates, forks and splices keep, all of them
have: `Reachable.wellFormed` for instructions, `Reachable.inside` for marks. -/

open Relation (ReflTransGen)

namespace ExprCode.Emitter

/-- The emitter that an operation leaves, whether it succeeds or fails. -/
def afterwards {α : Type} (operation : Emit α) (before : Emitter) : Emitter :=
  match operation before with
  | .ok _ after => after
  | .error _ after => after

/-- One change of an emitter. -/
inductive Update (before : Emitter) : Emitter → Prop
  /-- An instruction is appended. -/
  | append {instruction : Instruction} (accepted : before.refusal? instruction = none) :
      Update before (before.append instruction)
  /-- Labels are defined. -/
  | define (count : Nat) : Update before (before.extendLabels count)
  /-- A label marks the next instruction. -/
  | mark {label : Label} (unmarked : before.labels[label]? = some none) :
      Update before { before with
        labels := before.labels.setIfInBounds label (some before.instructions.size) }
  /-- A local is declared. -/
  | declare (type : Ty) (room : before.locals.size < before.maxLocals) :
      Update before { before with locals := before.locals.push type }
  /-- A string is looked up and added if it is new. -/
  | strings (value : String) :
      Update before { before with strings := (before.strings.intern value).2 }
  /-- A type is looked up and added if it is new. -/
  | types (type : Ty) : Update before { before with types := (before.types.intern type).2 }
  /-- A function is looked up and added if it is new. -/
  | functions (entry : FunctionEntry) :
      Update before { before with functions := (before.functions.intern entry).2 }

/-! ## Operations that are put together -/

/-- A property of operations that sequences keep and that instructions and look-ups have. Most
operations are put together from these. -/
structure Composable (holds : (α : Type) → Emit α → Prop) : Prop where
  /-- Nothing is done. -/
  pure {α : Type} (value : α) : holds α (pure value)
  /-- An operation fails. -/
  throw {α : Type} (defect : Defect) : holds α (throw defect)
  /-- One thing is done after the other. -/
  bind {α β : Type} {first : Emit α} {next : α → Emit β} (start : holds α first)
    (rest : ∀ value, holds β (next value)) : holds β (first >>= next)
  /-- An instruction is appended. -/
  emit (instruction : Instruction) : holds Unit (emit instruction)
  /-- A string is looked up. -/
  stringToken (value : String) : holds UInt16 (stringToken value)
  /-- A type is looked up. -/
  typeToken (type : Ty) : holds UInt16 (typeToken type)
  /-- A function is looked up. -/
  functionToken (name : String) (arity : Nat) (function : Handle) :
    holds UInt16 (functionToken name arity function)

namespace Composable

variable {holds : (α : Type) → Emit α → Prop} (composable : Composable holds)

include composable

/-- An instruction that has to be checked first. -/
theorem emitChecked (instruction : Except Defect Instruction) :
    holds Unit (emitChecked instruction) := by
  cases instruction with
  | ok instruction => exact composable.emit instruction
  | error defect => exact composable.throw defect

/-- An integer. -/
theorem emitLoadInt32 (value : Int32) : holds Unit (emitLoadInt32 value) := by
  unfold Emitter.emitLoadInt32
  split <;> exact composable.emit _

/-- A string. -/
theorem emitLoadString (value : String) : holds Unit (emitLoadString value) :=
  composable.bind (composable.stringToken value) fun _ => composable.emit _

/-- A new array. -/
theorem emitNewArray (element : Ty) : holds Unit (emitNewArray element) :=
  composable.bind (composable.typeToken element) fun _ => composable.emit _

/-- The load of an element. -/
theorem emitArrayLoad (element : Ty) : holds Unit (emitArrayLoad element) := by
  unfold Emitter.emitArrayLoad
  split
  · exact composable.emit _
  · exact composable.bind (composable.typeToken element) fun _ =>
      composable.bind (composable.emit _) fun _ => composable.emit _

/-- The store of an element. -/
theorem emitArrayStore (element : Ty) : holds Unit (emitArrayStore element) := by
  unfold Emitter.emitArrayStore
  split
  · exact composable.emit _
  · exact composable.bind (composable.typeToken element) fun _ => composable.emit _

/-- A call. -/
theorem emitCall (name : String) (arity : Nat) (function : Handle) :
    holds Unit (emitCall name arity function) :=
  composable.bind (composable.functionToken name arity function) fun _ => composable.emit _

/-- A command has the property if the operations on labels and locals have it. The answer of a
branch is the number of an instruction, for which more has to be known. -/
theorem perform {command : Command}
    (branch : ∀ op target, command = .branch op target → holds Nat (emitBranch op target))
    (define : holds Nat defineLabel) (mark : ∀ label, holds Unit (markLabel label))
    (declare : ∀ type, holds Nat (declareLocal type))
    (extend : ∀ count, holds Unit (modify (·.extendLabels count))) :
    holds (Option Nat) command.perform := by
  have silent {operation : Emit Unit} (h : holds Unit operation) : holds _ (silent operation) :=
    composable.bind h fun _ => composable.pure _
  have answering {operation : Emit Nat} (h : holds Nat operation) : holds _ (answering operation) :=
    composable.bind h fun _ => composable.pure _
  cases command with
  | emit instruction => exact silent (composable.emit instruction)
  | branch op target => exact answering (branch op target rfl)
  | defineLabel => exact answering define
  | markLabel label => exact silent (mark label)
  | declareLocal type => exact answering (declare type)
  | storeLocal slot | loadLocal slot | loadLocalAddress slot =>
    exact silent (composable.emitChecked _)
  | loadBool value | loadInt64 value | loadSingle value | loadDouble value =>
    exact silent (composable.emit _)
  | loadInt32 value => exact silent (composable.emitLoadInt32 value)
  | loadString value => exact silent (composable.emitLoadString value)
  | newArray element => exact silent (composable.emitNewArray element)
  | arrayLoad element => exact silent (composable.emitArrayLoad element)
  | arrayStore element => exact silent (composable.emitArrayStore element)
  | call name arity function => exact silent (composable.emitCall name arity function)
  | extendLabels count => exact silent (extend count)

end Composable

/-! ## Operations are made of updates -/

/-- All that an operation does to an emitter is updates. -/
def Updates {α : Type} (operation : Emit α) : Prop :=
  ∀ before, ReflTransGen Update before (afterwards operation before)

/-- A look-up puts the table back that it leaves. -/
theorem updates_lookedUp {τ : Type} {operation : Emit UInt16} {before : Emitter} {table : TableName}
    {restore : τ → Emitter} {found : Option Nat × τ}
    (looksUp : operation before = lookedUp table restore found)
    (step : Update before (restore found.2)) :
    ReflTransGen Update before (afterwards operation before) := by
  rw [afterwards, looksUp]
  obtain ⟨_ | number, entries⟩ := found <;> exact .single step

/-- Operations that are put together from updates are made of updates. -/
theorem composable_updates : Composable fun _ => Updates where
  pure _ _ := .refl
  throw _ _ := .refl
  bind {_ _ first _} start rest before := by
    have started := start before
    unfold afterwards at started ⊢
    cases run : first before with
    | ok value middle =>
      rw [run] at started
      rw [bind_of_ok run]
      exact started.trans (rest value middle)
    | error defect after =>
      rw [run] at started
      rw [bind_of_error run]
      exact started
  emit instruction before := by
    rw [afterwards, emit_eq]
    cases refused : before.refusal? instruction with
    | some defect => exact .refl
    | none => exact .single (.append refused)
  stringToken value before := updates_lookedUp (stringToken_eq value before) (.strings value)
  typeToken type before := updates_lookedUp (typeToken_eq type before) (.types type)
  functionToken name arity function before := by
    have looksUp := functionToken_eq name arity function before
    split at looksUp
    · -- the table is put back as it was
      rw [afterwards, looksUp]
    · exact updates_lookedUp looksUp (.functions _)

/-- A branch is one update, or none if it is refused. -/
theorem updates_emitBranch (op : Opcode) (target : Label) : Updates (emitBranch op target) := by
  unfold emitBranch
  split
  · exact composable_updates.bind (composable_updates.emit _) fun _ => fun _ => .refl
  · exact composable_updates.throw _

/-- A new label is one update. -/
theorem updates_defineLabel : Updates defineLabel := by
  intro before
  rw [afterwards, defineLabel_eq]
  exact .single (.define _)

/-- A mark is one update, or none if the label cannot be marked. -/
theorem updates_markLabel (label : Label) : Updates (markLabel label) := by
  intro before
  rw [afterwards, markLabel_eq, markLabelAt_eq]
  rcases found : before.labels[label]? with _ | _ | position
  · exact .refl
  · exact .single (.mark found)
  · exact .refl

/-- A local is one update, or none if there is no room. -/
theorem updates_declareLocal (type : Ty) : Updates (declareLocal type) := by
  intro before
  rw [afterwards, declareLocal_eq]
  by_cases full : before.maxLocals ≤ before.locals.size
  · rw [if_pos full]
  · rw [if_neg full]
    exact .single (.declare type (Nat.lt_of_not_le full))

/-- Whatever a command does to an emitter is updates. -/
theorem Command.updates (command : Command) : Updates command.perform :=
  composable_updates.perform (fun op target _ => updates_emitBranch op target) updates_defineLabel
    updates_markLabel updates_declareLocal fun count _ => .single (.define count)

/-! ## Reachable emitters -/

/-- An emitter that operations lead to, on it and on others that were forked or copied. Operations
that fail count too. `intact` tells that no splice on the way broke off: such a splice has marked
some of the labels, at places behind the end, and has appended nothing. -/
inductive Reachable : (intact : Bool) → Emitter → Prop
  /-- A new emitter. -/
  | new (maxLocals : Nat) : Reachable true (withMaxLocals maxLocals)
  /-- A command, with any outcome. -/
  | perform {intact : Bool} {emitter : Emitter} (reachable : Reachable intact emitter)
      (command : Command) : Reachable intact (afterwards command.perform emitter)
  /-- A fork. -/
  | fork {intact : Bool} {emitter : Emitter} (reachable : Reachable intact emitter) :
      Reachable intact emitter.fork
  /-- A splice of any emitter into any other. -/
  | splice {intact intactChild : Bool} {parent child after : Emitter}
      (reachable : Reachable intact parent) (reachableChild : Reachable intactChild child)
      (spliced : splice child parent = .ok () after) : Reachable (intact && intactChild) after
  /-- A splice that failed. -/
  | brokenOff {intact intactChild : Bool} {parent child after : Emitter} {defect : Defect}
      (reachable : Reachable intact parent) (reachableChild : Reachable intactChild child)
      (failed : splice child parent = .error defect after) : Reachable false after

/-! ## Instructions -/

/-- What holds of the instructions of every emitter. -/
structure WellFormed (emitter : Emitter) : Prop where
  /-- Every instruction has an operand of the right kind. -/
  fitting : ∀ instruction ∈ emitter.instructions,
    instruction.operand.fits instruction.op.operandKind
  /-- Branches name labels that are defined. -/
  named : ∀ instruction ∈ emitter.instructions, ∀ label, instruction.target? = some label →
    label < emitter.labels.size

/-- An instruction that is accepted has an operand of the right kind and names a label that is
defined. -/
theorem accepted_of_refusal? {emitter : Emitter} {instruction : Instruction}
    (accepted : emitter.refusal? instruction = none) :
    instruction.operand.fits instruction.op.operandKind ∧
      ∀ label, instruction.target? = some label → label < emitter.labels.size := by
  unfold refusal? at accepted
  split at accepted
  · next fits =>
    refine ⟨fits, fun label names => ?_⟩
    split at accepted
    · cases accepted
    · rw [names] at accepted
      by_contra undefined
      simp [Option.filter, Nat.le_of_not_lt undefined] at accepted
  · cases accepted

variable {before after : Emitter}

/-- More labels and the same instructions. -/
theorem WellFormed.of_labels (wellFormed : before.WellFormed)
    (same : after.instructions = before.instructions)
    (more : before.labels.size ≤ after.labels.size) : after.WellFormed where
  fitting instruction listed := wellFormed.fitting instruction (same ▸ listed)
  named instruction listed label names :=
    Nat.lt_of_lt_of_le (wellFormed.named instruction (same ▸ listed) label names) more

/-- There are as many labels as were asked for, or as there were. -/
theorem size_extendLabels (emitter : Emitter) (count : Nat) :
    (emitter.extendLabels count).labels.size = max emitter.labels.size count := by
  simp only [extendLabels, Array.size_append, Array.size_replicate]
  omega

/-- An update keeps instructions well formed. -/
theorem WellFormed.update (wellFormed : before.WellFormed) (step : Update before after) :
    after.WellFormed := by
  cases step with
  | append accepted =>
    obtain ⟨fits, defined⟩ := accepted_of_refusal? accepted
    constructor
    · intro other listed
      rcases Array.mem_push.1 listed with old | rfl
      · exact wellFormed.fitting other old
      · exact fits
    · intro other listed
      rcases Array.mem_push.1 listed with old | rfl
      · exact wellFormed.named other old
      · exact defined
  | define count =>
    refine wellFormed.of_labels rfl ?_
    rw [size_extendLabels]
    exact Nat.le_max_left _ _
  | mark unmarked => exact wellFormed.of_labels rfl (by simp)
  | declare type room => exact wellFormed.of_labels rfl (Nat.le_refl _)
  | strings value => exact wellFormed.of_labels rfl (Nat.le_refl _)
  | types type => exact wellFormed.of_labels rfl (Nat.le_refl _)
  | functions entry => exact wellFormed.of_labels rfl (Nat.le_refl _)

/-- A fork has no instructions yet. -/
theorem WellFormed.fork (emitter : Emitter) : emitter.fork.WellFormed where
  fitting _ listed := absurd listed (Array.not_mem_empty _)
  named _ listed := absurd listed (Array.not_mem_empty _)

/-! ## Marks -/

/-- Every marked label marks an instruction or the end of the code. -/
def Inside (emitter : Emitter) : Prop :=
  ∀ (label : Label) (position : Nat), emitter.labels[label]? = some (some position) →
    position ≤ emitter.instructions.size

/-- A label that is marked was not made by defining labels. -/
theorem marked_of_extendLabels {emitter : Emitter} {count : Nat} {label : Label} {position : Nat}
    (marked : (emitter.extendLabels count).labels[label]? = some (some position)) :
    emitter.labels[label]? = some (some position) := by
  unfold extendLabels at marked
  by_cases old : label < emitter.labels.size
  · rwa [Array.getElem?_append_left old] at marked
  · rw [Array.getElem?_append_right (Nat.le_of_not_lt old), Array.getElem?_replicate] at marked
    split at marked <;> cases marked

/-- A label is marked where it was marked now, or was marked before. -/
theorem marked_of_set {labels : Array (Option Nat)} {label other : Label} {place position : Nat}
    (marked : (labels.setIfInBounds label (some place))[other]? = some (some position)) :
    (other = label ∧ position = place) ∨ labels[other]? = some (some position) := by
  rw [Array.getElem?_setIfInBounds] at marked
  split at marked
  · next same =>
    split at marked
    · cases marked
      exact .inl ⟨same.symm, rfl⟩
    · cases marked
  · exact .inr marked

/-- An update keeps marks inside the code. -/
theorem Inside.update (inside : before.Inside) (step : Update before after) : after.Inside := by
  intro label position marked
  cases step with
  | append accepted =>
    have old := inside label position marked
    simp only [append, Array.size_push]
    omega
  | define count => exact inside label position (marked_of_extendLabels marked)
  | mark unmarked =>
    rcases marked_of_set marked with ⟨-, rfl⟩ | old
    · exact Nat.le_refl _
    · exact inside label position old
  | declare type room => exact inside label position marked
  | strings value => exact inside label position marked
  | types type => exact inside label position marked
  | functions entry => exact inside label position marked

/-- A fork has marked nothing yet. -/
theorem Inside.fork (emitter : Emitter) : emitter.fork.Inside := by
  intro label position marked
  simp only [Emitter.fork, Array.getElem?_replicate] at marked
  split at marked <;> cases marked

/-! ## Splices -/

/-- A label that cannot be marked changes nothing. -/
theorem markLabelAt_eq_error {label : Label} {position : Nat} {defect : Defect}
    (h : markLabelAt label position before = .error defect after) : after = before := by
  rw [markLabelAt_eq] at h
  rcases found : before.labels[label]? with _ | _ | _ <;> rw [found] at h <;> cases h <;> rfl

/-- Labels are marked one after the other, up to the first one that cannot be marked. -/
theorem afterwards_marks_cons (label : Label) (place base : Nat) (marks : List (Label × Nat))
    (before : Emitter) :
    afterwards (((label, place) :: marks).forM fun (label, position) =>
        markLabelAt label (base + position)) before =
      if before.labels[label]? = some none then
        afterwards (marks.forM fun (label, position) => markLabelAt label (base + position))
          { before with labels := before.labels.setIfInBounds label (some (base + place)) }
      else before := by
  show afterwards (markLabelAt label (base + place) >>= fun _ => marks.forM _) before = _
  rw [afterwards]
  have outcome := markLabelAt_eq label (base + place) before
  rcases found : before.labels[label]? with _ | _ | _ <;> rw [found] at outcome
  · rw [bind_of_error outcome]
    rfl
  · rw [bind_of_ok outcome]
    rfl
  · rw [bind_of_error outcome]
    rfl

/-- Marking labels, also if it breaks off, only adds marks at the given places. -/
theorem afterwards_forM_markLabelAt (marks : List (Label × Nat)) (base : Nat) (before : Emitter) :
    let after := afterwards
      (marks.forM fun (label, position) => markLabelAt label (base + position)) before
    after = { before with labels := after.labels } ∧ after.labels.size = before.labels.size ∧
      ∀ label position, after.labels[label]? = some (some position) →
        before.labels[label]? = some (some position) ∨
          ∃ place, (label, place) ∈ marks ∧ position = base + place := by
  induction marks generalizing before with
  | nil => exact ⟨rfl, rfl, fun _ _ marked => .inl marked⟩
  | cons mark marks ih =>
    obtain ⟨label, place⟩ := mark
    rw [afterwards_marks_cons]
    split_ifs
    · obtain ⟨rest, size, marked⟩ := ih
        { before with labels := before.labels.setIfInBounds label (some (base + place)) }
      refine ⟨rest, size.trans (by simp), fun other position now => ?_⟩
      rcases marked other position now with earlier | ⟨place, listed, there⟩
      · rcases marked_of_set earlier with ⟨rfl, rfl⟩ | old
        · exact .inr ⟨place, List.mem_cons_self, rfl⟩
        · exact .inl old
      · exact .inr ⟨place, List.mem_cons_of_mem _ listed, there⟩
    · -- the marks that would follow are not made
      exact ⟨rfl, rfl, fun _ _ marked => .inl marked⟩

variable {child : Emitter}

/-- A splice adds the instructions of the child and the marks of the child, moved behind the
instructions that were there. -/
theorem splice_adds (h : splice child before = .ok () after) :
    after.instructions = before.instructions ++ child.instructions ∧
      after.labels.size = max before.labels.size child.labels.size ∧
      ∀ (label : Label) (position : Nat), after.labels[label]? = some (some position) →
        before.labels[label]? = some (some position) ∨
          ∃ place, child.labels[label]? = some (some place) ∧
            position = before.instructions.size + place := by
  unfold splice at h
  obtain ⟨_, _, read, rest⟩ := bind_eq_ok h
  cases read
  by_cases fresh : child.forkedFrom = some before.forkPoint
  · rw [if_pos fresh] at rest
    obtain ⟨_, _, extended, rest⟩ := bind_eq_ok rest
    cases extended
    obtain ⟨_, _, read, rest⟩ := bind_eq_ok rest
    cases read
    -- labels are defined and marked first, and only then is the code appended
    obtain ⟨_, marked, marking, last⟩ := bind_eq_ok rest
    cases last
    obtain ⟨same, size, marks⟩ := afterwards_forM_markLabelAt child.marks
      (before.extendLabels child.labels.size).instructions.size
      (before.extendLabels child.labels.size)
    simp only [afterwards, marking] at same size marks
    rw [size_extendLabels] at size
    refine ⟨?_, size, fun label position now => ?_⟩
    · rw [same]
      rfl
    · rcases marks label position now with earlier | ⟨place, listed, there⟩
      · exact .inl (marked_of_extendLabels earlier)
      · exact .inr ⟨place, mem_marks.1 listed, there⟩
  · rw [if_neg fresh] at rest
    cases rest

/-- A splice that fails has defined and marked labels at most. -/
theorem splice_eq_error {defect : Defect} (h : splice child before = .error defect after) :
    after.instructions = before.instructions ∧ before.labels.size ≤ after.labels.size := by
  unfold splice at h
  rcases bind_eq_error h with read | ⟨_, _, read, rest⟩
  · cases read
  cases read
  by_cases fresh : child.forkedFrom = some before.forkPoint
  · rw [if_pos fresh] at rest
    rcases bind_eq_error rest with extended | ⟨_, _, extended, rest⟩
    · cases extended
    cases extended
    rcases bind_eq_error rest with read | ⟨_, _, read, rest⟩
    · cases read
    cases read
    rcases bind_eq_error rest with marking | ⟨_, _, -, last⟩
    · obtain ⟨same, size, -⟩ := afterwards_forM_markLabelAt child.marks
        (before.extendLabels child.labels.size).instructions.size
        (before.extendLabels child.labels.size)
      simp only [afterwards, marking] at same size
      rw [size_extendLabels] at size
      exact ⟨by rw [same]; rfl, by omega⟩
    · cases last
  · rw [if_neg fresh] at rest
    cases rest
    exact ⟨rfl, Nat.le_refl _⟩

/-- The instructions of both parts of a splice stay well formed. -/
theorem WellFormed.splice (wellFormed : before.WellFormed) (wellFormedChild : child.WellFormed)
    (h : splice child before = .ok () after) : after.WellFormed := by
  obtain ⟨instructions, size, -⟩ := splice_adds h
  constructor
  · intro instruction listed
    rw [instructions] at listed
    exact (Array.mem_append.1 listed).elim (wellFormed.fitting instruction)
      (wellFormedChild.fitting instruction)
  · intro instruction listed label names
    rw [instructions] at listed
    rw [size]
    rcases Array.mem_append.1 listed with old | new
    · exact Nat.lt_of_lt_of_le (wellFormed.named instruction old label names) (Nat.le_max_left _ _)
    · exact Nat.lt_of_lt_of_le (wellFormedChild.named instruction new label names)
        (Nat.le_max_right _ _)

/-- The marks of both parts of a splice stay inside the code. -/
theorem Inside.splice (inside : before.Inside) (insideChild : child.Inside)
    (h : splice child before = .ok () after) : after.Inside := by
  obtain ⟨instructions, -, marks⟩ := splice_adds h
  intro label position marked
  rw [instructions, Array.size_append]
  rcases marks label position marked with old | ⟨place, new, rfl⟩
  · have := inside label position old
    omega
  · have := insideChild label place new
    omega

/-! ## All reachable emitters -/

variable {intact : Bool} {emitter : Emitter}

/-- The instructions of every emitter that operations lead to are well formed. -/
theorem Reachable.wellFormed (reachable : Reachable intact emitter) : emitter.WellFormed := by
  induction reachable with
  | new maxLocals =>
    exact ⟨fun _ listed => absurd listed (Array.not_mem_empty _),
      fun _ listed => absurd listed (Array.not_mem_empty _)⟩
  | perform _ command ih =>
    -- a command is a sequence of updates, whatever its outcome
    exact (command.updates _).rec ih fun _ step before => before.update step
  | fork _ _ => exact .fork _
  | splice _ _ spliced ih ihChild =>
    exact ih.splice ihChild spliced
  | brokenOff _ _ failed ih _ =>
    obtain ⟨same, more⟩ := splice_eq_error failed
    exact ih.of_labels same more

/-- If no splice broke off, all marks are inside the code. -/
theorem Reachable.inside (reachable : Reachable intact emitter) :
    intact = true → emitter.Inside := by
  induction reachable with
  | new maxLocals =>
    intro _ label position marked
    cases marked
  | perform _ command ih =>
    intro unbroken
    exact (command.updates _).rec (ih unbroken)
      fun _ step before => before.update step
  | fork _ _ => exact fun _ => .fork _
  | splice _ _ spliced ih ihChild =>
    intro unbroken
    obtain ⟨left, right⟩ := Bool.and_eq_true_iff.1 unbroken
    exact (ih left).splice (ihChild right) spliced
  | brokenOff => exact fun unbroken => nomatch unbroken

end ExprCode.Emitter
