import ExprCode.Chain.Formula
import ExprCode.Proofs.StraightCode

/-! # Short-circuit evaluation

Main statement: `Frame.lower_shortCircuits`. Machines that run the code of a chain evaluate just
those operands that are evaluated from left to right before the chain is decided, in this order and
each of them once, and they come to the end of the chain with its value on the stack.

The argument follows the tree: a part of a chain is left behind its code with its value on the
stack, or at an exit for its value with nothing on the stack (`Chain.Stands.passes`). -/

namespace ExprCode

/-! ## Values of chains -/

namespace Chain

variable {σ : Type} (values : NodeId → Bool)

/-- The value of a chain, given those of its operands. -/
def value : Chain (ChainOperand σ) → Bool
  | .operand leaf => values leaf.node
  | .joined .and left right => left.value && right.value
  | .joined .or left right => left.value || right.value

/-- The operands that are evaluated: those to the right of a connective only if it is not decided
before. -/
def evaluated : Chain (ChainOperand σ) → List (ChainOperand σ)
  | .operand leaf => [leaf]
  | .joined connective left right =>
      if left.value values = connective.decidedBy then left.evaluated
      else left.evaluated ++ right.evaluated

/-- Operands are evaluated from left to right, and none of them twice. -/
theorem evaluated_sublist (chain : Chain (ChainOperand σ)) :
    (chain.evaluated values).Sublist chain.operands := by
  induction chain with
  | operand leaf => exact .refl _
  | joined connective left right ihLeft ihRight =>
    rw [evaluated, operands]
    split
    · exact ihLeft.trans (List.sublist_append_left _ _)
    · exact ihLeft.append ihRight

variable {values} {connective : Connective} {left right : Chain (ChainOperand σ)}

/-- The left operand decides a connective. -/
theorem value_of_decided (decided : left.value values = connective.decidedBy) :
    (joined connective left right).value values = connective.decidedBy := by
  cases connective <;> simp_all [value, Connective.decidedBy]

/-- The right operand decides a connective that the left one does not decide. -/
theorem value_of_undecided (undecided : left.value values ≠ connective.decidedBy) :
    (joined connective left right).value values = right.value values := by
  cases connective <;> simp_all [value, Connective.decidedBy]

end Chain

/-! ## Parts of a chain -/

section Parts

open Machine (Passes)

/-- Machines go through a stretch of instructions, all of which count, and it leaves a truth value
on the stack. -/
structure Image.RunsThrough (image : Image) (program : Program) (invariant : Machine → Prop)
    (counts : Nat → Bool) (extent : Extent) (value : Bool) : Prop where
  /-- All instructions count. -/
  counted : ∀ index ∈ extent.indices, counts (image.offset index) = true
  /-- They are performed one after the other. -/
  passes : ∀ machine, machine.pc = image.offset extent.first → invariant machine →
    ∃ after, Passes program (extent.indices.map image.offset) machine after ∧
      after.pc = image.offset extent.behind ∧ after.stack = .bool value :: machine.stack ∧
      invariant after

/-- A machine comes through a part of a chain to a state as asked for. Of what counts, it performs
the code of the operands that are evaluated. -/
def Chain.Passed {σ : Type} (image : Image) (program : Program) (extent : NodeId → Extent)
    (values : NodeId → Bool) (counts : Nat → Bool) (chain : Chain (ChainOperand σ))
    (machine : Machine) (ends : Machine → Prop) : Prop :=
  ∃ trace after, Passes program trace machine after ∧
    trace.filter counts = (chain.evaluated values).flatMap
      (fun operand => (extent operand.node).indices.map image.offset) ∧ ends after

variable {σ : Type} {image : Image} {emitter : Emitter} {program : Program}
  {extent : NodeId → Extent}
  {values : NodeId → Bool} {invariant : Machine → Prop} {counts : Nat → Bool}
  {chain : Chain (ChainOperand σ)} {machine : Machine} {exit : Bool → Label → Prop}

/-- What counts for nothing may follow. -/
theorem Chain.Passed.trans {ends newEnds : Machine → Prop}
    (passed : chain.Passed image program extent values counts machine ends)
    (next : ∀ after, ends after → ∃ trace final, Passes program trace after final ∧
      trace.filter counts = [] ∧ newEnds final) :
    chain.Passed image program extent values counts machine newEnds := by
  obtain ⟨trace, after, passes, filtered, ended⟩ := passed
  obtain ⟨rest, final, passesRest, nothing, endsAnew⟩ := next after ended
  refine ⟨trace ++ rest, final, passes.trans passesRest, ?_, endsAnew⟩
  rw [List.filter_append, filtered, nothing, List.append_nil]

variable (shows : image.Shows emitter) (isCode : image.code = program.code)
  (small : program.code.bytes.size < 2 ^ 31)
  (free : ∀ machine pc stack, invariant machine → invariant { machine with pc, stack })
  (branches : ∀ (index : Nat) (op : Opcode) (label : Label),
    emitter.instructions[index]? = some ⟨op, .label label⟩ → counts (image.offset index) = false)

include shows isCode small free branches

/-- Behind the left operand of a connective, control leaves the connective if it is decided, and
goes on to the right operand if not. -/
theorem Chain.Passed.branch {connective : Connective} {leftExit : Bool → Label → Prop}
    {target : Label}
    {tested : Nat}
    (passed : chain.Passed image program extent values counts machine fun after => invariant after ∧
      ((after.pc = image.offset tested ∧
        after.stack = .bool (chain.value values) :: machine.stack) ∨
        ∃ label, leftExit (chain.value values) label ∧
          after.pc = image.offset (image.position label) ∧ after.stack = machine.stack))
    (decided : ∀ label, leftExit connective.decidedBy label → exit connective.decidedBy label)
    (undecided : ∀ label, leftExit (!connective.decidedBy) label →
      emitter.labels[label]? = some (some (tested + 1)))
    (found : emitter.instructions[tested]? =
      some ⟨.branch (.on connective.decidedBy) .long, .label target⟩)
    (leads : exit connective.decidedBy target) :
    chain.Passed image program extent values counts machine fun after => invariant after ∧
      after.stack = machine.stack ∧
      if chain.value values = connective.decidedBy then
        ∃ label, exit connective.decidedBy label ∧ after.pc = image.offset (image.position label)
      else after.pc = image.offset (tested + 1) := by
  refine passed.trans fun after ended => ?_
  obtain ⟨holds, ⟨ends, stack⟩ | ⟨label, isExit, ends, stack⟩⟩ := ended
  · -- the value is on the stack, and the branch takes it from there
    have stepped := shows.step_on isCode small found ends stack
    refine ⟨_, _, .single stepped, by simp [ends, branches tested _ _ found], free _ _ _ holds, rfl,
      ?_⟩
    split
    · exact ⟨target, leads, rfl⟩
    · rfl
  · -- the left operand has been decided inside, and its exit is that of the connective or the
    -- right operand
    refine ⟨[], after, .refl _, rfl, holds, stack, ?_⟩
    split
    · next isDecided => exact ⟨label, decided label (isDecided ▸ isExit), ends⟩
    · next isUndecided =>
      rw [Bool.eq_not_of_ne isUndecided] at isExit
      rw [ends, shows.labels label _ (undecided label isExit)]

/-- A part of a chain is left at its end with its value on the stack, or at an exit for its
value. -/
theorem Chain.Stands.passes {start stop : Nat}
    (stands : chain.Stands emitter extent exit start stop)
    (operands : ∀ operand ∈ chain.operands, image.RunsThrough program invariant counts
      (extent operand.node) (values operand.node))
    (starts : machine.pc = image.offset start) (holds : invariant machine) :
    chain.Passed image program extent values counts machine fun after => invariant after ∧
      ((after.pc = image.offset stop ∧ after.stack = .bool (chain.value values) :: machine.stack) ∨
        ∃ label, exit (chain.value values) label ∧ after.pc = image.offset (image.position label) ∧
          after.stack = machine.stack) := by
  -- on the tree: the right operand goes on from wherever the left one and its branch lead
  induction stands generalizing machine with
  | @operand operand exit start stop stretch ahead =>
    have runs := operands operand List.mem_cons_self
    obtain ⟨after, passes, ends, stack, stillHolds⟩ :=
      runs.passes machine (by rw [stretch, starts]) holds
    rw [stretch] at ends
    refine ⟨_, after, passes, ?_, stillHolds, .inl ⟨ends, stack⟩⟩
    rw [Chain.evaluated, List.flatMap_singleton, List.filter_eq_self]
    exact List.forall_mem_map.2 runs.counted
  | @joined connective left right leftExit exit target start tested stop leftStands decided
      undecided
      found leads rightStands ihLeft ihRight =>
    rw [Chain.operands, List.forall_mem_append] at operands
    obtain ⟨trace, middle, passes, filtered, holdsMiddle, stack, place⟩ :=
      (ihLeft operands.1 starts holds).branch shows isCode small free branches decided
        undecided found leads
    by_cases isDecided : left.value values = connective.decidedBy
    · rw [if_pos isDecided] at place
      obtain ⟨label, isExit, ends⟩ := place
      refine ⟨trace, middle, passes, ?_, holdsMiddle, .inr ⟨label, ?_, ends, stack⟩⟩
      · rw [Chain.evaluated, if_pos isDecided, filtered]
      · rw [Chain.value_of_decided isDecided]
        exact isExit
    · rw [if_neg isDecided] at place
      obtain ⟨rest, after, passesRest, filteredRest, stillHolds, ends⟩ :=
        ihRight operands.2 place holdsMiddle
      refine ⟨trace ++ rest, after, passes.trans passesRest, ?_, stillHolds, ?_⟩
      · rw [Chain.evaluated, if_neg isDecided, List.filter_append, filtered, filteredRest,
          List.flatMap_append]
      · rw [Chain.value_of_undecided isDecided, ← stack]
        exact ends

omit free in
/-- A result that is made behind a chain is there at its end. -/
theorem Emitter.Makes.passes {finish : Label} {value : Bool} {place : Nat}
    (makes : emitter.Makes finish value place) (nothing : counts (image.offset place) = false)
    (starts : machine.pc = image.offset place) :
    ∃ trace, trace.filter counts = [] ∧ Passes program trace machine { machine with
      pc := image.offset (image.position finish), stack := .bool value :: machine.stack } := by
  cases makes with
  | last pushed marked =>
    refine ⟨[machine.pc], by simp [starts, nothing], .single ?_⟩
    rw [shows.labels finish _ marked]
    exact shows.step_push isCode pushed starts
  | leave pushed left =>
    have pushes := shows.step_push isCode pushed starts
    have leaves : Machine.step program { machine with
        pc := image.offset (place + 1), stack := .bool value :: machine.stack } = _ :=
      shows.step_always isCode small left rfl
    refine ⟨_, ?_, .head pushes (.single leaves)⟩
    simp [starts, nothing, branches _ _ _ left]

/-- A whole chain is left at its end, with its value on the stack. -/
theorem Chain.Complete.passes {start : Nat} {finish : Label}
    (complete : chain.Complete emitter extent start finish)
    (operands : ∀ operand ∈ chain.operands, image.RunsThrough program invariant counts
      (extent operand.node) (values operand.node))
    (behind : ∀ index < emitter.instructions.size,
      (∀ operand ∈ chain.operands, (extent operand.node).behind ≤ index) →
        counts (image.offset index) = false)
    (starts : machine.pc = image.offset start) (holds : invariant machine) :
    chain.Passed image program extent values counts machine fun after => invariant after ∧
      after.pc = image.offset (image.position finish) ∧
      after.stack = .bool (chain.value values) :: machine.stack := by
  obtain ⟨exit, last, stands, leaves, made⟩ := complete
  -- from the end of the last operand, or from where the result of a decided chain is made
  refine (stands.passes shows isCode small free branches operands starts holds).trans ?_
  rintro after ⟨stillHolds, ⟨ends, stack⟩ | ⟨label, isExit, ends, stack⟩⟩
  · refine ⟨_, _, .single (shows.step_always isCode small leaves ends), ?_, ?_⟩
    · simp [ends, branches last _ _ leaves]
    · exact ⟨free _ _ after.stack stillHolds, rfl, stack⟩
  · obtain ⟨place, marked, ahead, makes⟩ := made _ label isExit
    have known : place < emitter.instructions.size := by
      cases makes with
      | last pushed _ => exact (Array.getElem?_eq_some_iff.1 pushed).1
      | leave pushed _ => exact (Array.getElem?_eq_some_iff.1 pushed).1
    have nothing := behind place known fun operand listed =>
      (stands.within.2 operand listed).2.trans ahead.le
    rw [shows.labels label place marked] at ends
    obtain ⟨trace, filtered, passes⟩ := makes.passes shows isCode small branches nothing ends
    exact ⟨trace, _, passes, filtered, free _ _ _ stillHolds, rfl, by rw [stack]⟩

end Parts

/-! ## Whole chains -/

namespace Chain

variable {σ : Type}

/-- Whether the code of an operand has an instruction at an offset. -/
def isOperandCode (chain : Chain (ChainOperand σ)) (offsets : NodeId → List Nat) (offset : Nat) :
    Bool :=
  chain.operands.any fun operand => (offsets operand.node).contains offset

/-- Code that goes on from an emitter evaluates a chain between two of its instructions, whatever
values the operands have. If the code of each operand leaves its value, a machine comes from the
start to the end with the value of the chain on the stack. Of the code of the operands it performs
that of those that are evaluated, one after the other from left to right. -/
def ShortCircuits (chain : Chain (ChainOperand σ)) (emitter : Emitter) (extent : NodeId → Extent)
    (start stop : Nat) : Prop :=
  ∀ (final : Emitter) (layout : BranchLayout) (program : Program) (values : NodeId → Bool)
    (invariant : Machine → Prop) (machine : Machine), emitter.Continues final →
    (∀ instruction ∈ final.instructions, instruction.operand.fits instruction.op.operandKind) →
    final.resolveBranches [] = .ok layout → final.finalize = .ok program.code →
    program.code.bytes.size < 2 ^ 31 →
    (∀ machine pc stack, invariant machine → invariant { machine with pc, stack }) →
    (∀ operand ∈ chain.operands, Machine.Leaves program invariant
      (layout.startOf (extent operand.node).first) (layout.startOf (extent operand.node).behind)
      (values operand.node)) →
    machine.pc = layout.startOf start → invariant machine →
    let offsets : NodeId → List Nat := fun node => (extent node).indices.map layout.startOf
    ∃ trace last, Machine.Passes program trace machine last ∧ last.pc = layout.startOf stop ∧
      last.stack = .bool (chain.value values) :: machine.stack ∧ invariant last ∧
      trace.filter (chain.isOperandCode offsets) =
        (chain.evaluated values).flatMap fun operand => offsets operand.node

variable {chain : Chain (ChainOperand σ)} {emitter : Emitter} {extent : NodeId → Extent}

/-- An instruction is code of an operand if it is in the stretch of one. -/
theorem isOperandCode_offset {image : Image} {index : Nat} (shows : image.Shows emitter)
    (bounds : ∀ operand ∈ chain.operands, (extent operand.node).behind ≤ emitter.instructions.size)
    (inside : index < emitter.instructions.size) :
    chain.isOperandCode (fun node => (extent node).indices.map image.offset) (image.offset index) ↔
      ∃ operand ∈ chain.operands, index ∈ (extent operand.node).indices := by
  simp only [isOperandCode, List.any_eq_true, List.contains_iff_mem, List.mem_map]
  refine exists_congr fun operand => and_congr_right fun listed =>
    ⟨?_, fun member => ⟨_, member, rfl⟩⟩
  rintro ⟨other, member, same⟩
  have known := (Extent.mem_indices.1 member).2.trans_le (bounds operand listed)
  exact shows.offset_inj known.le inside.le same ▸ member

/-- Where a chain stands as a whole, its code evaluates it. -/
theorem shortCircuits_of_complete [HasEmitter σ] {ready : σ → Prop} {start stop : Nat}
    {finish : Label}
    (complete : ∀ final, emitter.Continues final → chain.Complete final extent start finish)
    (ends : emitter.labels[finish]? = some (some stop))
    (emitted : ∀ operand ∈ chain.operands, operand.EmittedAs ready (extent operand.node) emitter)
    (straight : ∀ operand ∈ chain.operands, operand.Straight ready) :
    chain.ShortCircuits emitter extent start stop := by
  intro final layout program values invariant machine continues fitting resolved finished small free
    leaves starts holds
  obtain ⟨image, isCode, isLayout, shows⟩ := Emitter.exists_image fitting resolved finished
  rw [← isLayout] at leaves starts ⊢
  have emitted := fun operand listed => (emitted operand listed).continues continues
  have bounds := fun operand listed => (emitted operand listed).bounds (straight operand listed)
  have plain :=
    fun operand listed => (emitted operand listed).plain (straight operand listed) fitting
  let counts := chain.isOperandCode fun node => (extent node).indices.map image.offset
  have counts_iff : ∀ index < final.instructions.size, counts (image.offset index) ↔
      ∃ operand ∈ chain.operands, index ∈ (extent operand.node).indices := fun index inside =>
    isOperandCode_offset shows (fun operand listed => (bounds operand listed).2) inside
  -- operands are without branches, and they end before the results are made
  have branches : ∀ (index : Nat) (op : Opcode) (label : Label),
      final.instructions[index]? = some ⟨op, .label label⟩ →
        counts (image.offset index) = false := by
    intro index op label found
    refine Bool.eq_false_iff.2 fun counted => ?_
    obtain ⟨operand, listed, member⟩ :=
      (counts_iff index (Array.getElem?_eq_some_iff.1 found).1).1 counted
    obtain ⟨_, _, sameFound, noLabel, -⟩ := plain operand listed index member
    cases found.symm.trans sameFound
    cases noLabel
  have behind : ∀ index < final.instructions.size,
      (∀ operand ∈ chain.operands, (extent operand.node).behind ≤ index) →
        counts (image.offset index) = false := by
    intro index inside ahead
    refine Bool.eq_false_iff.2 fun counted => ?_
    obtain ⟨operand, listed, member⟩ := (counts_iff index inside).1 counted
    exact absurd (Extent.mem_indices.1 member).2 (ahead operand listed).not_gt
  have operands : ∀ operand ∈ chain.operands, image.RunsThrough program invariant counts
      (extent operand.node) (values operand.node) := by
    intro operand listed
    refine ⟨fun index member => ?_, fun machine starts holds => ?_⟩
    · have inside := (Extent.mem_indices.1 member).2.trans_le (bounds operand listed).2
      exact (counts_iff index inside).2 ⟨operand, listed, member⟩
    · exact (leaves operand listed).passes shows isCode (plain operand listed)
        (bounds operand listed).2 (bounds operand listed).1 starts holds
  obtain ⟨trace, last, passes, filtered, stillHolds, atEnd, stack⟩ :=
    (complete final continues).passes shows isCode small free branches operands behind starts holds
  rw [shows.labels _ _ (continues.marks _ _ ends)] at atEnd
  exact ⟨trace, last, passes, atEnd, stack, stillHolds, filtered⟩

end Chain

/-! ## Operands that load arguments -/

namespace Formula

/-- A trace stands beside an emitter and does not touch it. -/
instance : LawfulHasEmitter Traced where
  emitter_withEmitter _ _ := rfl

/-- An identifier as an operand. -/
abbrev identifier (node : Node) (name : String) : ChainOperand Traced :=
  ⟨node.id, operandCode (.ident node name)⟩

variable {node : Node} {name : String} {index : Nat} (isArgument : argument? name = some index)

include isArgument

/-- An argument is loaded by one instruction. -/
theorem code_identifier (traced : Traced) :
    (identifier node name).code traced =
      .ok () ⟨traced.emitter.append ⟨.ldarg, .u16 (.ofNat index)⟩, name :: traced.names⟩ := by
  simp only [operandCode, isArgument]
  rfl

/-- Loading an argument is straight code. -/
theorem straight_identifier : (identifier node name).Straight fun _ => True := by
  intro traced _
  refine ⟨_, #[⟨.ldarg, .u16 (.ofNat index)⟩], code_identifier isArgument traced, trivial, ?_, ?_,
    fun _ _ marked => marked, rfl⟩
  · exact Array.append_singleton.symm
  · intro instruction listed
    cases List.mem_singleton.1 (Array.mem_toList_iff.2 listed)
    rfl

/-- The code of an identifier leaves the argument. -/
theorem leaves_identifier {ready : Traced → Prop} {emitter : Emitter} {layout : BranchLayout}
    {program : Program} {extent : Extent} {value : Bool}
    (emitted : (identifier node name).EmittedAs ready extent emitter)
    (fitting : ∀ instruction ∈ emitter.instructions,
      instruction.operand.fits instruction.op.operandKind)
    (resolved : emitter.resolveBranches [] = .ok layout)
    (finished : emitter.finalize = .ok program.code)
    (given : program.arguments[index]? = some (.bool value)) :
    Machine.Leaves program (fun _ => True) (layout.startOf extent.first)
      (layout.startOf extent.behind) value := by
  obtain ⟨image, isCode, isLayout, shows⟩ := Emitter.exists_image fitting resolved finished
  obtain ⟨before, after, -, run, first, behind, continues⟩ := emitted
  cases run.symm.trans (code_identifier isArgument before)
  have found : emitter.instructions[extent.first]? = some ⟨.ldarg, .u16 (.ofNat index)⟩ := by
    refine continues.instructions _ _ ?_
    rw [← first]
    exact Array.getElem?_push_size
  have next : extent.behind = extent.first + 1 := by
    rw [← first, ← behind]
    exact Array.size_push _
  have small : index < 65536 := of_decide_eq_true (Option.filter_eq_some_iff.1 isArgument).2
  have read : Action.read .ldarg (Operand.encode (.u16 (.ofNat index))) = .loadArgument index := by
    rw [Action.read, Operand.encode, Bytes.ofBytes_encode_u16,
      UInt16.toNat_ofNat_of_lt_maxEntries small]
  -- one step loads the argument
  rw [← isLayout, next]
  intro machine starts _
  have stepped := shows.step_plain isCode found rfl starts
  rw [read] at stepped
  have pushed : Machine.perform program (.loadArgument index)
      { machine with pc := image.offset (extent.first + 1) } = .ok none { machine with
        pc := image.offset (extent.first + 1), stack := .bool value :: machine.stack } := by
    change (do
      Machine.push (← Machine.require .argumentOutOfRange program.arguments[index]?)
      return none : Machine.Operation (Option Value)) _ = _
    rw [given]
    rfl
  refine ⟨_, _, .single (stepped.trans pushed), ?_, rfl, rfl, trivial⟩
  have ahead := shows.ascending extent.first (Array.getElem?_eq_some_iff.1 found).1
  rw [List.mem_singleton, starts]
  exact ahead.ne'

end Formula

/-! ## Lowered chains -/

/-- Straight code does not fail and leaves no label unmarked. -/
theorem ChainOperand.Straight.steady {σ : Type} [HasEmitter σ] {ready : σ → Prop}
    {operand : ChainOperand σ} (straight : operand.Straight ready) :
    Frame.Steady (fun _ => False) ready operand.code := by
  intro state inside
  obtain ⟨after, _, run, insideAfter, -, -, -, sameUnmarked⟩ := straight state inside
  exact .of_ok run ⟨insideAfter, sameUnmarked⟩

/-- **Short-circuit evaluation.** A chain whose operands are different nodes with straight code is
lowered in a new frame. The label of its end marks the end of the code, the operands stand one
behind the other as they were emitted, and whatever their values are, the code evaluates the chain
from left to right, no operand twice and none that is not needed. -/
theorem Frame.lower_shortCircuits {σ : Type} [HasEmitter σ] [LawfulHasEmitter σ]
    {ready : σ → Prop} {connective : Connective} {left right : Chain (ChainOperand σ)} {state : σ}
    (admits : Admits ready)
    (straight : ∀ operand ∈ (Chain.joined connective left right).operands, operand.Straight ready)
    (nodup : (Chain.joined connective left right).nodes.Nodup) (inside : ready state) :
    ∃ after finish extent,
      lower (.joined connective left right) (({} : Frame), state) = .ok () after ∧
      after.1.branches.find? .finish = some finish ∧
      (HasEmitter.emitter after.2).labelPosition? finish =
        some (HasEmitter.emitter after.2).instructions.size ∧
      (∀ operand ∈ (Chain.joined connective left right).operands,
        operand.EmittedAs ready (extent operand.node) (HasEmitter.emitter after.2)) ∧
      (Chain.joined connective left right).operands.Pairwise (fun first second =>
        (extent first.node).behind ≤ (extent second.node).first) ∧
      (∀ values, ((Chain.joined connective left right).evaluated values).Sublist
        (Chain.joined connective left right).operands) ∧
      (Chain.joined connective left right).ShortCircuits (HasEmitter.emitter after.2) extent
        (HasEmitter.emitter state).instructions.size
        (HasEmitter.emitter after.2).instructions.size := by
  have steady := fun operand listed => (straight operand listed).steady
  obtain ⟨_, after, lowered⟩ := (ensures_lower admits steady nodup inside).exists_ok
  obtain ⟨finish, extent, found, ends, emitted, complete⟩ :=
    (endsAs_lower admits straight nodup inside).post_of_ok lowered
  obtain ⟨_, _, stands, -⟩ := complete _ (.refl _)
  exact ⟨after, finish, extent, lowered, found, Emitter.labelPosition?_eq_some.2 ends, emitted,
    stands.ordered, fun values => Chain.evaluated_sublist values _,
    Chain.shortCircuits_of_complete complete ends emitted straight⟩

namespace Formula

/-- One of the first two arguments and one of the last two. -/
def oneOfEach : Expr :=
  .logical ⟨0, 0, 0⟩ .and
    (.logical ⟨1, 0, 0⟩ .or (.ident ⟨2, 0, 0⟩ "0") (.ident ⟨3, 0, 0⟩ "1"))
    (.logical ⟨4, 0, 0⟩ .or (.ident ⟨5, 0, 0⟩ "2") (.ident ⟨6, 0, 0⟩ "3"))

/-- The code is finished. -/
theorem code_oneOfEach : ∃ after layout code,
    Frame.lower (chain oneOfEach) (({} : Frame), ({} : Traced)) = .ok () after ∧
      (∀ instruction ∈ after.2.emitter.instructions,
        instruction.operand.fits instruction.op.operandKind) ∧
      after.2.emitter.resolveBranches [] = .ok layout ∧ after.2.emitter.finalize = .ok code ∧
      code.bytes.size < 2 ^ 31 :=
  ⟨_, _, _, by cbv, by decide, by cbv, by cbv, by decide⟩

/-- A host whose functions answer nothing. -/
def silentHost : Host := ⟨fun _ _ heap => (.ok .null, heap)⟩

/-- The first and the third argument are true. -/
def firstAndThird : Array Value := #[.bool true, .bool false, .bool true, .bool false]

/-- If the first and the third argument are true, the others are not looked at. -/
theorem shortCircuits_oneOfEach : ∃ after finish layout code trace last,
    ∃ extent : NodeId → Extent,
      Frame.lower (chain oneOfEach) (({} : Frame), ({} : Traced)) = .ok () after ∧
      after.1.branches.find? .finish = some finish ∧
      after.2.emitter.labelPosition? finish = some after.2.emitter.instructions.size ∧
      after.2.emitter.resolveBranches [] = .ok layout ∧ after.2.emitter.finalize = .ok code ∧
      Machine.Passes ⟨code, firstAndThird, silentHost⟩ trace ⟨layout.startOf 0, [], #[], {}, #[]⟩
        last ∧
      last.pc = layout.startOf after.2.emitter.instructions.size ∧ last.stack = [.bool true] ∧
      trace.filter ((chain oneOfEach).isOperandCode fun node =>
          ((extent node).indices.map layout.startOf)) =
        [2, 5].flatMap fun node => (extent node).indices.map layout.startOf := by
  obtain ⟨after, layout, code, lowered, fitting, resolved, finished, small⟩ := code_oneOfEach
  have straight : ∀ operand ∈ (chain oneOfEach).operands, operand.Straight fun _ => True := by
    simp only [chain, oneOfEach, Chain.operands, List.forall_mem_append, List.forall_mem_singleton]
    exact ⟨⟨straight_identifier (by cbv), straight_identifier (by cbv)⟩,
      straight_identifier (by cbv), straight_identifier (by cbv)⟩
  obtain ⟨_, finish, extent, sameLowered, found, ends, emitted, -, -, evaluates⟩ :=
    Frame.lower_shortCircuits (fun _ _ _ _ => trivial) straight (by decide)
      (trivial : (fun _ => True) ({} : Traced))
  cases lowered.symm.trans sameLowered
  have leaves : ∀ operand ∈ (chain oneOfEach).operands,
      Machine.Leaves ⟨code, firstAndThird, silentHost⟩ (fun _ => True)
        (layout.startOf (extent operand.node).first)
        (layout.startOf (extent operand.node).behind) (operand.node == 2 || operand.node == 5) := by
    simp only [chain, oneOfEach, Chain.operands, List.forall_mem_append,
      List.forall_mem_singleton] at emitted ⊢
    obtain ⟨⟨first, second⟩, third, fourth⟩ := emitted
    exact ⟨⟨leaves_identifier (by cbv) first fitting resolved finished rfl,
      leaves_identifier (by cbv) second fitting resolved finished rfl⟩,
      leaves_identifier (by cbv) third fitting resolved finished rfl,
      leaves_identifier (by cbv) fourth fitting resolved finished rfl⟩
  obtain ⟨trace, last, passes, atEnd, stack, -, filtered⟩ :=
    evaluates after.2.emitter layout ⟨code, firstAndThird, silentHost⟩
      (fun node => node == 2 || node == 5) (fun _ => True) ⟨layout.startOf 0, [], #[], {}, #[]⟩
      (.refl _) fitting resolved finished small (fun _ _ _ _ => trivial) leaves rfl trivial
  exact ⟨after, finish, layout, code, trace, last, extent, lowered, found, ends, resolved, finished,
    passes, atEnd, stack, filtered⟩

end Formula

end ExprCode
