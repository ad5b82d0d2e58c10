import ExprCode.Proofs.ChainLabels

/-! # Where the code of a chain stands

Main statement: `Frame.endsAs_lower`. Among the instructions that are emitted for a chain, the code
of every operand stands in one stretch, and behind the left operand of a connective stands its
branch. A branch leads to the right operand of a connective around it, or to the place behind the
chain where its result is made.

All this is said of instructions by their numbers, for every emitter that goes on from there
(`Emitter.Continues`) and for any state that carries the emitter. Only what succeeds is looked at;
that lowering succeeds is said in `ChainLabels`. -/

namespace ExprCode

/-! ## Emitters that go on -/

namespace Emitter

/-- An emitter keeps the instructions and the marks of another. -/
structure Continues (before after : Emitter) : Prop where
  /-- Instructions stay where they are. -/
  instructions : Extends before.instructions after.instructions
  /-- Marked labels stay where they are. -/
  marks : ∀ (label : Label) (position : Nat), before.labels[label]? = some (some position) →
    after.labels[label]? = some (some position)

namespace Continues

variable {first second third : Emitter}

/-- An emitter continues itself. -/
theorem refl (emitter : Emitter) : Continues emitter emitter := ⟨.refl _, fun _ _ marked => marked⟩

/-- What continues an emitter that continues another continues that one. -/
theorem trans (h : Continues first second) (h' : Continues second third) : Continues first third :=
  ⟨h.instructions.trans h'.instructions,
    fun label position marked => h'.marks label position (h.marks label position marked)⟩

end Continues

/-- An emitter goes on from another, and nothing but instructions and labels has been added. -/
structure Adds (before after : Emitter) : Prop extends Continues before after where
  /-- Nothing else has changed. -/
  coded : Coded before after

variable {before : Emitter}

/-- An instruction is added at the end. -/
theorem endsAs_emit (instruction : Instruction) :
    EndsAs (emit instruction) before fun _ after => Adds before after ∧
      after.instructions = before.instructions.push instruction := by
  refine .of_forall_ok fun _ after h => ?_
  obtain ⟨-, rfl⟩ := emit_eq_ok h
  exact ⟨⟨⟨.push _ _, fun _ _ marked => marked⟩, .append _ _⟩, rfl⟩

/-- A new label adds no instruction. -/
theorem endsAs_defineLabel :
    EndsAs defineLabel before fun _ after => Adds before after ∧
      after.instructions = before.instructions := by
  refine .of_ok rfl ⟨⟨⟨.refl _, fun label position marked => ?_⟩, rfl⟩, rfl⟩
  exact Extends.push _ _ label (some position) marked

/-- A label is marked behind all instructions. -/
theorem endsAs_markLabel (label : Label) :
    EndsAs (markLabel label) before fun _ after => Adds before after ∧
      after.instructions = before.instructions ∧
      after.labels[label]? = some (some before.instructions.size) := by
  refine .get_bind (.of_forall_ok fun _ after h => ?_)
  obtain ⟨unmarked, rfl⟩ := markLabelAt_eq_ok h
  refine ⟨⟨⟨.refl _, fun other position marked => ?_⟩, rfl⟩, rfl, ?_⟩
  · have differ : label ≠ other := by
      rintro rfl
      rw [unmarked] at marked
      cases marked
    simpa [Array.getElem?_setIfInBounds, differ] using marked
  · simp [(Array.getElem?_eq_some_iff.1 unmarked).1]

end Emitter

/-! ## Operations on places -/

namespace Branches

/-- Instructions, marks and the labels of places stay. -/
structure Later (before after : Branches × Emitter) : Prop where
  /-- Instructions and marks stay. -/
  continues : before.2.Continues after.2
  /-- Places keep their labels. -/
  places : ∀ key label, before.1.find? key = some label → after.1.find? key = some label

namespace Later

variable {first second third : Branches × Emitter}

/-- A state is not earlier than itself. -/
theorem refl (state : Branches × Emitter) : Later state state := ⟨.refl _, fun _ _ found => found⟩

/-- What is later than a later state is later. -/
theorem trans (h : Later first second) (h' : Later second third) : Later first third :=
  ⟨h.continues.trans h'.continues,
    fun key label found => h'.places key label (h.places key label found)⟩

end Later

/-- A step of the lowering of a chain adds instructions, labels and marks. -/
structure Step (before after : Branches × Emitter) : Prop extends Later before after where
  /-- Nothing else of the emitter has changed. -/
  coded : before.2.Coded after.2

namespace Step

variable {first second third : Branches × Emitter}

/-- No step is a step. -/
theorem refl (state : Branches × Emitter) : Step state state := ⟨.refl _, .refl _⟩

/-- One step after another. -/
theorem trans (h : Step first second) (h' : Step second third) : Step first third :=
  ⟨h.toLater.trans h'.toLater, h.coded.trans h'.coded⟩

/-- Places stay as they are. -/
theorem of_adds (same : second.1 = first.1) (adds : first.2.Adds second.2) : Step first second :=
  ⟨⟨adds.toContinues, fun _ _ found => same ▸ found⟩, adds.coded⟩

end Step

variable {state : Branches × Emitter}

/-- A place has a label from now on. -/
theorem endsAs_label (key : BranchKey) :
    EndsAs (label key) state fun label after => Step state after ∧
      after.1.find? key = some label ∧ after.2.instructions = state.2.instructions := by
  unfold label
  refine .get_bind ?_
  cases found : state.1.find? key with
  | some label => exact .pure ⟨.refl _, found, rfl⟩
  | none =>
    refine (ensures_emitting Emitter.endsAs_defineLabel).bind ?_
    rintro label ⟨branches, emitter⟩ ⟨rfl, adds, sameInstructions⟩
    have find := find?_append label found
    have kept : ∀ other otherLabel, state.1.find? other = some otherLabel → Branches.find?
        { state.1 with labels := state.1.labels ++ [(key, label)] } other = some otherLabel := by
      intro other otherLabel known
      rw [find, if_neg, known]
      rintro rfl
      rw [found] at known
      cases known
    exact .bind_ok rfl (.pure ⟨⟨⟨adds.toContinues, kept⟩, adds.coded⟩,
      (find key).trans (if_pos rfl), sameInstructions⟩)

/-- A branch names the label of its place. -/
theorem endsAs_addBranch (condition : BranchCondition) (form : BranchForm) (key : BranchKey) :
    EndsAs (addBranch (.branch condition form) key) state fun label after => Step state after ∧
      after.1.find? key = some label ∧
      after.2.instructions = state.2.instructions.push ⟨.branch condition .long, .label label⟩ := by
  refine (endsAs_label key).bind ?_
  rintro label labelled ⟨step, found, same⟩
  have emitted : EndsAs (Emitter.emitBranch (.branch condition form) label) labelled.2
      fun _ after =>
      labelled.2.Adds after ∧
        after.instructions = labelled.2.instructions.push ⟨.branch condition .long, .label label⟩ :=
    (Emitter.endsAs_emit _).bind fun _ _ appended => .of_ok rfl appended
  refine (ensures_emitting emitted).bind ?_
  rintro source ⟨branches, emitter⟩ ⟨rfl, adds, appended⟩
  refine .bind_ok rfl (.pure ⟨step.trans ⟨⟨adds.toContinues, fun _ _ known => known⟩, adds.coded⟩,
    found, ?_⟩)
  exact same ▸ appended

/-- The label of a place, if it has one, marks the place when it is reached. -/
theorem endsAs_mark (key : BranchKey) :
    EndsAs (mark key) state fun marked after => Step state after ∧ marked = state.1.find? key ∧
      after.1 = state.1 ∧ after.2.instructions = state.2.instructions ∧
      ∀ label, state.1.find? key = some label →
        after.2.labels[label]? = some (some state.2.instructions.size) := by
  unfold mark
  refine .get_bind ?_
  cases found : state.1.find? key with
  | none => exact .pure ⟨.refl _, rfl, rfl, rfl, nofun⟩
  | some label =>
    refine (ensures_emitting (Emitter.endsAs_markLabel label)).bind ?_
    rintro _ after ⟨same, adds, sameInstructions, marked⟩
    refine .pure ⟨.of_adds same adds, rfl, same, sameInstructions, fun other isLabel => ?_⟩
    cases isLabel
    exact marked

end Branches

/-! ## Parts of a chain -/

/-- A stretch of instructions: the number of its first, and of the one behind it. -/
structure Extent where
  /-- The first instruction. -/
  first : Nat
  /-- The instruction behind the stretch. -/
  behind : Nat

section Parts

variable {σ : Type}

/-- A part of a chain stands between two instructions of an emitter. Its operands stand in given
stretches. It is left at its end, or at a label that is an exit for a truth value. -/
inductive Chain.Stands (emitter : Emitter) (extent : NodeId → Extent) :
    Chain (ChainOperand σ) → (Bool → Label → Prop) → Nat → Nat → Prop
  | operand {operand : ChainOperand σ} {exit : Bool → Label → Prop} {start stop : Nat}
      (stretch : extent operand.node = ⟨start, stop⟩) (ahead : start ≤ stop) :
      Stands emitter extent (.operand operand) exit start stop
  | joined {connective : Connective} {left right : Chain (ChainOperand σ)}
      {leftExit exit : Bool → Label → Prop} {target : Label} {start tested stop : Nat}
      (leftStands : Stands emitter extent left leftExit start tested)
      (decided : ∀ label, leftExit connective.decidedBy label → exit connective.decidedBy label)
      (undecided : ∀ label, leftExit (!connective.decidedBy) label →
        emitter.labels[label]? = some (some (tested + 1)))
      (branch : emitter.instructions[tested]? =
        some ⟨.branch (.on connective.decidedBy) .long, .label target⟩)
      (leads : exit connective.decidedBy target)
      (rightStands : Stands emitter extent right exit (tested + 1) stop) :
      Stands emitter extent (.joined connective left right) exit start stop

variable {emitter : Emitter} {extent : NodeId → Extent} {chain : Chain (ChainOperand σ)}
  {exit : Bool → Label → Prop} {start stop : Nat}

/-- Only the stretches of operands matter. -/
theorem Chain.Stands.congr {otherExtent : NodeId → Extent}
    (stands : chain.Stands emitter extent exit start stop)
    (same : ∀ node ∈ chain.nodes, otherExtent node = extent node) :
    chain.Stands emitter otherExtent exit start stop := by
  induction stands with
  | @operand operand exit start stop stretch ahead =>
    exact .operand ((same operand.node List.mem_cons_self).trans stretch) ahead
  | joined _ decided undecided branch leads _ ihLeft ihRight =>
    rw [nodes_joined, List.forall_mem_append] at same
    exact .joined (ihLeft same.1) decided undecided branch leads (ihRight same.2)

/-- The stretches of operands stand between the ends of a part. -/
theorem Chain.Stands.within (stands : chain.Stands emitter extent exit start stop) :
    start ≤ stop ∧ ∀ operand ∈ chain.operands,
      start ≤ (extent operand.node).first ∧ (extent operand.node).behind ≤ stop := by
  induction stands with
  | @operand operand exit start stop stretch ahead =>
    refine ⟨ahead, fun other listed => ?_⟩
    cases List.mem_singleton.1 listed
    rw [stretch]
    exact ⟨Nat.le_refl _, Nat.le_refl _⟩
  | joined _ _ _ _ _ _ ihLeft ihRight =>
    refine ⟨by omega, List.forall_mem_append.2 ⟨fun operand listed => ?_, fun operand listed => ?_⟩⟩
    · have := ihLeft.2 operand listed
      omega
    · have := ihRight.2 operand listed
      omega

/-- Operands stand one behind the other, from left to right. -/
theorem Chain.Stands.ordered (stands : chain.Stands emitter extent exit start stop) :
    chain.operands.Pairwise fun first second =>
      (extent first.node).behind ≤ (extent second.node).first := by
  induction stands with
  | operand => exact List.pairwise_singleton _ _
  | joined leftStands _ _ _ _ rightStands ihLeft ihRight =>
    refine List.pairwise_append.2 ⟨ihLeft, ihRight, ?_⟩
    intro first inLeft second inRight
    have onLeft := leftStands.within.2 first inLeft
    have onRight := rightStands.within.2 second inRight
    omega

variable [HasEmitter σ]

/-- The code of an operand is straight: in states that are ready for it, it is emitted and appends
instructions of which none names a label. Labels from before stay as they are, and labels of its own
are marked. -/
def ChainOperand.Straight (ready : σ → Prop) (operand : ChainOperand σ) : Prop :=
  ∀ state, ready state → ∃ after instructions, operand.code state = .ok () after ∧ ready after ∧
    (HasEmitter.emitter after).instructions =
      (HasEmitter.emitter state).instructions ++ instructions ∧
    (∀ instruction ∈ instructions, instruction.target? = none) ∧
    (∀ (label : Label) (position : Nat),
      (HasEmitter.emitter state).labels[label]? = some (some position) →
        (HasEmitter.emitter after).labels[label]? = some (some position)) ∧
    (HasEmitter.emitter after).unmarked = (HasEmitter.emitter state).unmarked

/-- The code of an operand was emitted as a stretch of instructions of an emitter. -/
def ChainOperand.EmittedAs (ready : σ → Prop) (operand : ChainOperand σ) (extent : Extent)
    (emitter : Emitter) : Prop :=
  ∃ before after, ready before ∧ operand.code before = .ok () after ∧
    (HasEmitter.emitter before).instructions.size = extent.first ∧
    (HasEmitter.emitter after).instructions.size = extent.behind ∧
    (HasEmitter.emitter after).Continues emitter

/-- What is known of the code of a part of a chain. -/
structure Chain.Lays (ready : σ → Prop) (chain : Chain (ChainOperand σ)) (exits : Bool → BranchKey)
    (before after : Frame × σ) : Prop where
  /-- More code can be emitted. -/
  inside : ready after.2
  /-- Instructions, marks and labels of places stay. -/
  later : Branches.Later (before.1.branches, HasEmitter.emitter before.2)
    (after.1.branches, HasEmitter.emitter after.2)
  /-- The label of the first operand, if it has one, marks the start. -/
  first : ∀ label, before.1.branches.find? chain.first.place = some label →
    (HasEmitter.emitter after.2).labels[label]? =
      some (some (HasEmitter.emitter before.2).instructions.size)
  /-- The part stands behind the instructions from before. -/
  stands : ∃ extent : NodeId → Extent,
    (∀ operand ∈ chain.operands,
      operand.EmittedAs ready (extent operand.node) (HasEmitter.emitter after.2)) ∧
    ∀ emitter, (HasEmitter.emitter after.2).Continues emitter →
      chain.Stands emitter extent
        (fun value label => after.1.branches.find? (exits value) = some label)
        (HasEmitter.emitter before.2).instructions.size
        (HasEmitter.emitter after.2).instructions.size

variable {ready : σ → Prop}

/-- An operand that is emitted stays emitted. -/
theorem ChainOperand.EmittedAs.continues {operand : ChainOperand σ} {extent : Extent}
    {before after : Emitter} (emitted : operand.EmittedAs ready extent before)
    (continues : before.Continues after) : operand.EmittedAs ready extent after := by
  obtain ⟨start, stop, inside, run, first, behind, rest⟩ := emitted
  exact ⟨start, stop, inside, run, first, behind, rest.trans continues⟩

/-- Two parts, joined by a connective and its branch. -/
theorem Chain.Lays.join {connective : Connective} {left right : Chain (ChainOperand σ)}
    {exits : Bool → BranchKey} {target : Label} {before tested next after : Frame × σ}
    (nodup : (left.nodes ++ right.nodes).Nodup)
    (leftLays : left.Lays ready (Chain.leftExits connective right exits) before tested)
    (later : Branches.Later (tested.1.branches, HasEmitter.emitter tested.2)
      (next.1.branches, HasEmitter.emitter next.2))
    (found : next.1.branches.find? (exits connective.decidedBy) = some target)
    (appended : (HasEmitter.emitter next.2).instructions =
      (HasEmitter.emitter tested.2).instructions.push
        ⟨.branch (.on connective.decidedBy) .long, .label target⟩)
    (rightLays : right.Lays ready exits next after) :
    (Chain.joined connective left right).Lays ready exits before after := by
  -- whatever the left part has, the branch and the right part keep
  have laterRight := later.trans rightLays.later
  obtain ⟨leftExtent, leftEmitted, leftStands⟩ := leftLays.stands
  obtain ⟨rightExtent, rightEmitted, rightStands⟩ := rightLays.stands
  have size : (HasEmitter.emitter next.2).instructions.size =
      (HasEmitter.emitter tested.2).instructions.size + 1 := by
    rw [appended, Array.size_push]
  refine ⟨rightLays.inside, leftLays.later.trans laterRight, fun label known => ?_, ?_⟩
  · exact laterRight.continues.marks _ _ (leftLays.first label known)
  · -- every operand is on one side only, where it has its stretch
    let extent : NodeId → Extent := fun node =>
      if node ∈ left.nodes then leftExtent node else rightExtent node
    have onLeft : ∀ node ∈ left.nodes, extent node = leftExtent node :=
      fun _ member => if_pos member
    have onRight : ∀ node ∈ right.nodes, extent node = rightExtent node := fun node member =>
      if_neg fun other => (List.nodup_append.1 nodup).2.2 node other node member rfl
    refine ⟨extent, ?_, fun emitter continues => ?_⟩
    · rw [Chain.operands, List.forall_mem_append]
      refine ⟨fun operand member => ?_, fun operand member => ?_⟩
      · rw [onLeft _ (List.mem_map_of_mem member)]
        exact (leftEmitted operand member).continues laterRight.continues
      · rw [onRight _ (List.mem_map_of_mem member)]
        exact rightEmitted operand member
    · have continuesTested := laterRight.continues.trans continues
      have rightStands := rightStands emitter continues
      rw [size] at rightStands
      refine .joined ((leftStands emitter continuesTested).congr onLeft) ?_ ?_ ?_
        (rightLays.later.places _ _ found) (rightStands.congr onRight)
      · intro label known
        rw [Chain.leftExits, if_pos rfl] at known
        exact laterRight.places _ _ known
      · -- a left part that does not decide goes on to the first operand of the right part
        intro label known
        rw [Chain.leftExits, if_neg (by cases connective <;> decide)] at known
        rw [← size]
        exact continues.marks _ _ (rightLays.first label (later.places _ _ known))
      · refine (rightLays.later.continues.trans continues).instructions _ _ ?_
        rw [appended, Array.getElem?_push_size]

namespace Frame

variable [LawfulHasEmitter σ] {state : Frame × σ}

/-- An operation on branch targets and the emitter that is a step. -/
theorem endsAs_branching {α : Type} {operation : Branching α} {post : α → Branches × Emitter → Prop}
    (admits : Admits ready) (inside : ready state.2)
    (h : EndsAs operation (state.1.branches, HasEmitter.emitter state.2) fun value after =>
      Branches.Step (state.1.branches, HasEmitter.emitter state.2) after ∧ post value after) :
    EndsAs (branching operation) state fun value after => ready after.2 ∧
      Branches.Later (state.1.branches, HasEmitter.emitter state.2)
        (after.1.branches, HasEmitter.emitter after.2) ∧
      post value (after.1.branches, HasEmitter.emitter after.2) := by
  refine (ensures_branching h).mono ?_
  rintro value after ⟨⟨step, holds⟩, same⟩
  refine ⟨?_, step.toLater, holds⟩
  rw [same]
  exact admits _ _ inside step.coded

/-- An operand is reached and emitted. -/
theorem endsAs_emitOperand {operand : ChainOperand σ} {exits : Bool → BranchKey}
    (admits : Admits ready) (straight : operand.Straight ready) (inside : ready state.2) :
    EndsAs (emitOperand operand) state fun _ after =>
      (Chain.operand operand).Lays ready exits state after := by
  refine (endsAs_branching admits inside (Branches.endsAs_mark operand.place)).bind ?_
  rintro _ marked ⟨insideMarked, later, -, sameBranches, sameInstructions, first⟩
  obtain ⟨after, instructions, run, insideAfter, appended, -, marks, -⟩ :=
    straight marked.2 insideMarked
  have continues : (HasEmitter.emitter marked.2).Continues (HasEmitter.emitter after) :=
    ⟨appended ▸ .append _ _, marks⟩
  have ran : outside operand.code marked = .ok () (marked.1, after) := by
    simp only [outside, run]
  have sizes : (HasEmitter.emitter state.2).instructions.size ≤
      (HasEmitter.emitter after).instructions.size :=
    (later.continues.trans continues).instructions.size_le
  refine .of_ok ran ⟨insideAfter, later.trans ⟨continues, fun _ _ known => known⟩, ?_, ?_⟩
  · exact fun label found => continues.marks _ _ (first label found)
  · refine ⟨fun _ => ⟨_, _⟩, ?_, fun emitter _ => .operand rfl sizes⟩
    intro other listed
    cases List.mem_singleton.1 listed
    exact ⟨marked.2, after, insideMarked, run, congrArg Array.size sameInstructions, rfl, .refl _⟩

/-- A part of a chain is emitted along its tree. -/
theorem endsAs_emitTree {chain : Chain (ChainOperand σ)} {exits : Bool → BranchKey}
    (admits : Admits ready) (straight : ∀ operand ∈ chain.operands, operand.Straight ready)
    (nodup : chain.nodes.Nodup) (inside : ready state.2) :
    EndsAs (emitTree chain exits) state fun _ after => chain.Lays ready exits state after := by
  induction chain generalizing exits state with
  | operand operand =>
    exact endsAs_emitOperand admits (straight operand List.mem_cons_self) inside
  | joined connective left right ihLeft ihRight =>
    rw [Chain.nodes_joined] at nodup
    rw [Chain.operands, List.forall_mem_append] at straight
    obtain ⟨leftNodup, rightNodup, -⟩ := List.nodup_append.1 nodup
    rw [emitTree, Chain.decidingBranch_eq]
    refine (ihLeft straight.1 leftNodup inside).bind fun _ tested leftLays => ?_
    refine (endsAs_branching admits leftLays.inside (Branches.endsAs_addBranch _ _ _)).bind ?_
    rintro target next ⟨insideNext, later, found, appended⟩
    refine (ihRight straight.2 rightNodup insideNext).mono fun _ after rightLays => ?_
    exact leftLays.join nodup later found appended rightLays

end Frame

end Parts

/-! ## The end of a chain -/

/-- Behind a chain, a result is made at a place, and control goes on to the end. -/
inductive Emitter.Makes (emitter : Emitter) (finish : Label) (value : Bool) (place : Nat) : Prop
  | last (pushed : emitter.instructions[place]? = some ⟨if value then .ldtrue else .ldfalse, .none⟩)
      (marked : emitter.labels[finish]? = some (some (place + 1)))
  | leave
      (pushed : emitter.instructions[place]? = some ⟨if value then .ldtrue else .ldfalse, .none⟩)
      (left : emitter.instructions[place + 1]? = some ⟨.branch .always .long, .label finish⟩)

/-- The code that makes a value stays where it is. -/
theorem Emitter.Makes.continues {before after : Emitter} {finish : Label} {value : Bool}
    {place : Nat}
    (makes : before.Makes finish value place) (continues : before.Continues after) :
    after.Makes finish value place := by
  cases makes with
  | last pushed marked =>
    exact .last (continues.instructions _ _ pushed) (continues.marks _ _ marked)
  | leave pushed left =>
    exact .leave (continues.instructions _ _ pushed) (continues.instructions _ _ left)

namespace Frame

variable {state : Branches × Emitter} {finish : Label}

/-- A truth value is added at the end. -/
theorem endsAs_emitLoadBool (value : Bool) :
    EndsAs (Branches.emitting (Emitter.emitLoadBool value)) state fun _ after =>
      Branches.Step state after ∧ after.1 = state.1 ∧
      after.2.instructions =
        state.2.instructions.push ⟨if value then .ldtrue else .ldfalse, .none⟩ := by
  refine (Branches.ensures_emitting (Emitter.endsAs_emit _)).mono ?_
  rintro _ after ⟨same, adds, appended⟩
  exact ⟨.of_adds same adds, same, appended⟩

/-- The finish is marked at the end. -/
theorem endsAs_emitFinish (known : state.1.find? .finish = some finish) :
    EndsAs emitFinish state fun _ after => Branches.Step state after ∧
      after.2.instructions = state.2.instructions ∧
      after.2.labels[finish]? = some (some after.2.instructions.size) := by
  refine (Branches.endsAs_label .finish).bind ?_
  rintro label labelled ⟨step, found, same⟩
  obtain rfl : finish = label := Option.some.inj ((step.places _ _ known).symm.trans found)
  refine (Branches.ensures_emitting (Emitter.endsAs_markLabel finish)).mono ?_
  rintro _ after ⟨sameBranches, adds, sameInstructions, marked⟩
  refine ⟨step.trans (.of_adds sameBranches adds), sameInstructions.trans same, ?_⟩
  rw [sameInstructions, marked]

/-- The result is made true just before the end. -/
theorem endsAs_emitTrue (known : state.1.find? .finish = some finish) :
    EndsAs emitTrue state fun _ after => Branches.Step state after ∧
      after.2.labels[finish]? = some (some after.2.instructions.size) ∧
      (state.1.find? .trueTerminal = none → after.2.instructions = state.2.instructions) ∧
      ∀ label, state.1.find? .trueTerminal = some label →
        after.2.labels[label]? = some (some state.2.instructions.size) ∧
          after.2.Makes finish true state.2.instructions.size := by
  refine (Branches.endsAs_mark .trueTerminal).bind ?_
  rintro marked middle ⟨step, rfl, same, sameInstructions, here⟩
  have knownMiddle := step.places _ _ known
  cases found : state.1.find? .trueTerminal with
  | none =>
    refine (endsAs_emitFinish knownMiddle).mono ?_
    rintro _ after ⟨finishStep, sameToo, atEnd⟩
    exact ⟨step.trans finishStep, atEnd, fun _ => sameToo.trans sameInstructions, nofun⟩
  | some label =>
    refine (endsAs_emitLoadBool true).bind ?_
    rintro _ pushed ⟨pushStep, -, appended⟩
    refine (endsAs_emitFinish (pushStep.places _ _ knownMiddle)).mono ?_
    rintro _ after ⟨finishStep, sameToo, atEnd⟩
    refine ⟨step.trans (pushStep.trans finishStep), atEnd, nofun, ?_⟩
    rintro other isLabel
    cases isLabel
    have continues := (pushStep.trans finishStep).continues
    rw [sameInstructions] at appended
    refine ⟨continues.marks _ _ (here label found), .last ?_ ?_⟩
    · rw [sameToo, appended, Array.getElem?_push_size]
    · rw [atEnd, sameToo, appended, Array.size_push]

/-- The results of a chain are made behind it, before its end. -/
theorem endsAs_emitTerminals (known : state.1.find? .finish = some finish) :
    EndsAs emitTerminals state fun _ after => Branches.Step state after ∧
      after.2.labels[finish]? = some (some after.2.instructions.size) ∧
      ∀ value label, state.1.find? (Chain.terminals value) = some label →
        ∃ place, after.2.labels[label]? = some (some place) ∧
          state.2.instructions.size ≤ place ∧ after.2.Makes finish value place := by
  refine .get_bind ((Branches.endsAs_mark .falseTerminal).bind ?_)
  rintro marked middle ⟨step, rfl, same, sameInstructions, here⟩
  have knownMiddle := step.places _ _ known
  cases found : state.1.find? .falseTerminal with
  | none =>
    -- nothing makes the chain false before its last operand
    refine (endsAs_emitTrue knownMiddle).mono ?_
    rintro _ after ⟨trueStep, atEnd, -, isTrue⟩
    refine ⟨step.trans trueStep, atEnd, fun value label labelled => ?_⟩
    cases value with
    | false => cases found.symm.trans labelled
    | true =>
      obtain ⟨there, makes⟩ := isTrue label (step.places _ _ labelled)
      rw [sameInstructions] at there makes
      exact ⟨_, there, Nat.le_refl _, makes⟩
  | some falseLabel =>
    refine (endsAs_emitLoadBool false).bind ?_
    rintro _ pushed ⟨pushStep, samePushed, appended⟩
    have knownPushed := pushStep.places _ _ knownMiddle
    have marked := pushStep.continues.marks _ _ (here falseLabel found)
    have isPushed : pushed.2.instructions[state.2.instructions.size]? = some ⟨.ldfalse, .none⟩ := by
      rw [appended, sameInstructions, Array.getElem?_push_size]
      rfl
    have size : pushed.2.instructions.size = state.2.instructions.size + 1 := by
      rw [appended, sameInstructions, Array.size_push]
    have stepPushed := step.trans pushStep
    cases hasTrue : state.1.find? .trueTerminal with
    | none =>
      -- false is made just before the end
      refine (endsAs_emitTrue knownPushed).mono ?_
      rintro _ after ⟨trueStep, atEnd, noTrue, -⟩
      have sameToo := noTrue (by rw [samePushed, same, hasTrue])
      refine ⟨stepPushed.trans trueStep, atEnd, fun value label labelled => ?_⟩
      cases value with
      | true => cases hasTrue.symm.trans labelled
      | false =>
        obtain rfl : falseLabel = label := Option.some.inj (found.symm.trans labelled)
        refine ⟨_, trueStep.continues.marks _ _ marked, Nat.le_refl _, .last ?_ ?_⟩
        · exact trueStep.continues.instructions _ _ isPushed
        · rw [atEnd, sameToo, size]
    | some trueLabel =>
      -- false is made first, and a branch leads past the place where true is made
      refine (Branches.endsAs_addBranch _ _ _).bind ?_
      rintro target left ⟨branchStep, foundFinish, appendedBranch⟩
      have knownLeft := branchStep.places _ _ knownPushed
      obtain rfl : finish = target := Option.some.inj (knownLeft.symm.trans foundFinish)
      refine (endsAs_emitTrue knownLeft).mono ?_
      rintro _ after ⟨trueStep, atEnd, -, isTrue⟩
      have behind := branchStep.trans trueStep
      refine ⟨stepPushed.trans behind, atEnd, fun value label labelled => ?_⟩
      cases value with
      | false =>
        obtain rfl : falseLabel = label := Option.some.inj (found.symm.trans labelled)
        refine ⟨_, behind.continues.marks _ _ marked, Nat.le_refl _, .leave ?_ ?_⟩
        · exact behind.continues.instructions _ _ isPushed
        · refine trueStep.continues.instructions _ _ ?_
          rw [appendedBranch, ← size, Array.getElem?_push_size]
      | true =>
        obtain ⟨there, makes⟩ :=
          isTrue label ((stepPushed.trans branchStep).places _ _ labelled)
        refine ⟨_, there, ?_, makes⟩
        exact (stepPushed.trans branchStep).continues.instructions.size_le

end Frame

/-! ## Whole chains -/

/-- A whole chain stands in an emitter: behind its last operand stands a branch to its end, and
where it is decided before, its result is made behind that. -/
def Chain.Complete {σ : Type} (emitter : Emitter) (extent : NodeId → Extent)
    (chain : Chain (ChainOperand σ)) (start : Nat) (finish : Label) : Prop :=
  ∃ exit last, chain.Stands emitter extent exit start last ∧
    emitter.instructions[last]? = some ⟨.branch .always .long, .label finish⟩ ∧
    ∀ value label, exit value label → ∃ place, emitter.labels[label]? = some (some place) ∧
      last < place ∧ emitter.Makes finish value place

namespace Frame

variable {σ : Type} [HasEmitter σ] [LawfulHasEmitter σ] {ready : σ → Prop}

/-- **The code of a chain.** A chain that is lowered stands behind the instructions from before, and
the label of its end marks the end of the code. -/
theorem endsAs_lower {connective : Connective} {left right : Chain (ChainOperand σ)} {rest : σ}
    (admits : Admits ready)
    (straight : ∀ operand ∈ (Chain.joined connective left right).operands, operand.Straight ready)
    (nodup : (Chain.joined connective left right).nodes.Nodup) (inside : ready rest) :
    EndsAs (lower (.joined connective left right)) (({} : Frame), rest) fun _ after =>
      ∃ finish extent, after.1.branches.find? .finish = some finish ∧
        (HasEmitter.emitter after.2).labels[finish]? =
          some (some (HasEmitter.emitter after.2).instructions.size) ∧
        (∀ operand ∈ (Chain.joined connective left right).operands,
          operand.EmittedAs ready (extent operand.node) (HasEmitter.emitter after.2)) ∧
        ∀ emitter, (HasEmitter.emitter after.2).Continues emitter →
          (Chain.joined connective left right).Complete emitter extent
            (HasEmitter.emitter rest).instructions.size finish := by
  unfold EndsAs Ensures
  rw [lower_eq]
  refine (endsAs_emitTree admits straight nodup inside).bind fun _ last lays => ?_
  refine (endsAs_branching admits lays.inside (Branches.endsAs_addBranch _ _ _)).bind ?_
  rintro finish behind ⟨insideBehind, later, found, appended⟩
  refine (endsAs_branching admits insideBehind (endsAs_emitTerminals found)).bind ?_
  rintro _ stop ⟨-, laterStop, atEnd, made⟩
  -- the end and the results are emitted behind the tree and leave it as it is
  obtain ⟨extent, emitted, stands⟩ := lays.stands
  have laterBoth := later.trans laterStop
  refine .of_ok rfl ⟨finish, extent, laterStop.places _ _ found, atEnd, ?_, ?_⟩
  · exact fun operand listed => (emitted operand listed).continues laterBoth.continues
  · intro emitter continues
    refine ⟨_, _, stands emitter (laterBoth.continues.trans continues), ?_, ?_⟩
    · refine (laterStop.continues.trans continues).instructions _ _ ?_
      rw [appended, Array.getElem?_push_size]
    · intro value label known
      obtain ⟨place, marked, ahead, makes⟩ := made value label (later.places _ _ known)
      rw [appended, Array.size_push] at ahead
      exact ⟨place, continues.marks _ _ marked, ahead, makes.continues continues⟩

end Frame

end ExprCode
