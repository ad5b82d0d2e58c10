import ExprCode.Proofs.StaleForks

/-! # The invariant of emitters

Main statement: `finalize_of_reachable`. `Consistent` holds of every emitter that operations lead
to, on any number of emitters and with any outcome: `Update` has one case for every change, and a
splice joins two consistent emitters. Marks stay inside the code as long as no splice breaks off.
With them there, finishing the code finds all that it looks up, and fails only for a label that
marks nothing. -/

namespace ExprCode

/-- The length of an instruction in either form: a long branch takes three bytes more. -/
theorem Instruction.encodedLength_eq {instruction : Instruction} (form : BranchForm)
    (fits : instruction.operand.fits instruction.op.operandKind) :
    instruction.encodedLength form = instruction.encodedLength .short +
      if instruction.target?.isSome ∧ form = .long then 3 else 0 := by
  obtain ⟨op, operand⟩ := instruction
  cases target : Instruction.target? ⟨op, operand⟩ with
  | none =>
    simp only [encodedLength, Opcode.withForm_of_plain _ fits target]
    simp
  | some label =>
    obtain ⟨rfl, condition, written, rfl⟩ := Instruction.branch_of_target? fits target
    cases form <;> rfl

namespace Layout

variable {instructions : Array Instruction}

/-- The code is longer than with short branches only by three bytes for every long one. -/
theorem sum_lengths (forms : Forms instructions)
    (fitting : ∀ instruction ∈ instructions, instruction.operand.fits instruction.op.operandKind) :
    (lengths instructions forms).sum =
      (instructions.toList.map (·.encodedLength .short)).sum +
        3 * (records instructions forms).countP (·.form == .long) := by
  have short : instructions.toList.map (·.encodedLength .short) =
      (List.finRange instructions.size).map fun i => instructions[i].encodedLength .short := by
    refine List.ext_getElem (by simp) fun index _ _ => ?_
    simp
  rw [lengths, List.ofFn_eq_map, short, records]
  -- the sums are taken over any of the instructions
  induction List.finRange instructions.size with
  | nil => rfl
  | cons i rest ih =>
    have here : instructions[i].encodedLength forms[i] = instructions[i].encodedLength .short +
        if instructions[i].target?.isSome ∧ forms[i] = .long then 3 else 0 :=
      Instruction.encodedLength_eq _ (fitting _ (Array.getElem_mem i.isLt))
    rw [List.map_cons, List.map_cons, List.sum_cons, List.sum_cons, ih,
      List.filterMap_cons, recordAt?, here]
    cases target : instructions[i].target? with
    | none =>
      simp only [Option.map_none, Option.isSome_none, Bool.false_eq_true, false_and, if_false]
      omega
    | some label =>
      simp only [Option.map_some, Option.isSome_some, true_and, List.countP_cons]
      cases forms[i] <;> simp <;> omega

/-- The branches are recorded in the order in which they were emitted. -/
theorem map_records (forms : Forms instructions) :
    (records instructions forms).map (fun record => (record.source, record.target)) =
      instructions.toList.zipIdx.filterMap fun (instruction, index) =>
        instruction.target?.map (index, ·) := by
  have numbered : instructions.toList.zipIdx =
      (List.finRange instructions.size).map fun i => (instructions[i], i.val) := by
    refine List.ext_getElem (by simp) fun index _ _ => ?_
    simp
  rw [numbered, List.filterMap_map, records, List.map_filterMap]
  refine List.filterMap_congr fun i _ => ?_
  simp only [recordAt?, Function.comp_apply, Option.map_map]
  rfl

end Layout

namespace Emitter

variable {before after child emitter : Emitter}

/-! ## What holds of every emitter -/

/-- What holds of every emitter that operations lead to. -/
structure Consistent (emitter : Emitter) : Prop extends WellFormed emitter where
  /-- Instructions refer to locals that are declared. -/
  declared : ∀ instruction ∈ emitter.instructions, ∀ slot, instruction.localIndex? = some slot →
    slot < emitter.locals.size
  /-- Two bytes number the locals. -/
  fewLocals : emitter.locals.size ≤ maxSlots
  /-- No more locals may be declared than two bytes number. -/
  limit : emitter.maxLocals ≤ maxSlots
  /-- A fork has all locals that its parent had. -/
  inherited : ∀ point, emitter.forkedFrom = some point → point.locals ≤ emitter.locals.size
  /-- The offset counts the bytes of all instructions, with short branches. -/
  offset : emitter.offset = (emitter.instructions.toList.map (·.encodedLength .short)).sum

/-- An instruction that is accepted refers to a local that is declared. -/
theorem declared_of_refusal? {instruction : Instruction} {slot : Nat}
    (accepted : before.refusal? instruction = none) (refers : instruction.localIndex? = some slot) :
    slot < before.locals.size := by
  unfold refusal? at accepted
  by_contra undeclared
  split at accepted
  · simp [refers, Option.filter, Nat.le_of_not_lt undeclared] at accepted
  · cases accepted

namespace Consistent

/-- Labels and tables have changed at most. -/
theorem of_instructions (consistent : before.Consistent) (wellFormed : after.WellFormed)
    (same : after = { before with
      labels := after.labels
      strings := after.strings
      types := after.types
      functions := after.functions }) : after.Consistent := by
  rw [same] at wellFormed ⊢
  exact { consistent with toWellFormed := wellFormed }

/-- Every change keeps what is consistent so. -/
theorem update (consistent : before.Consistent) (step : Update before after) :
    after.Consistent := by
  have wellFormed := consistent.toWellFormed.update step
  cases step with
  | append accepted =>
    refine { consistent with toWellFormed := wellFormed, declared := ?_, offset := ?_ }
    · intro other listed slot refers
      rcases Array.mem_push.1 listed with old | rfl
      · exact consistent.declared other old slot refers
      · exact declared_of_refusal? accepted refers
    · simp [append, consistent.offset]
  | declare type room =>
    have grown : before.locals.size ≤ (before.locals.push type).size := by simp
    refine { consistent with
      toWellFormed := wellFormed
      declared := fun instruction listed slot refers =>
        Nat.lt_of_lt_of_le (consistent.declared instruction listed slot refers) grown
      fewLocals := ?_
      inherited := fun point origin => (consistent.inherited point origin).trans grown }
    -- there was room for one more below the limit
    have limit := consistent.limit
    simp only [Array.size_push]
    omega
  | define count => exact consistent.of_instructions wellFormed rfl
  | mark unmarked => exact consistent.of_instructions wellFormed rfl
  | strings value => exact consistent.of_instructions wellFormed rfl
  | types type => exact consistent.of_instructions wellFormed rfl
  | functions entry => exact consistent.of_instructions wellFormed rfl

/-- A fork is consistent. -/
theorem fork (consistent : emitter.Consistent) : emitter.fork.Consistent :=
  { consistent with
    toWellFormed := .fork emitter
    declared := fun _ listed => absurd listed (Array.not_mem_empty _)
    inherited := by
      rintro point ⟨⟩
      exact Nat.le_refl _
    offset := rfl }

/-- A splice joins what is consistent: the child still has the locals of the parent, because the
parent is as large as it was. -/
theorem splice (consistent : before.Consistent) (consistentChild : child.Consistent)
    (h : Emitter.splice child before = .ok () after) : after.Consistent := by
  have wellFormed := consistent.toWellFormed.splice consistentChild.toWellFormed h
  obtain ⟨fresh, -, rfl⟩ := splice_eq_ok_iff.1 h
  have grown : before.locals.size ≤ child.locals.size := consistentChild.inherited _ fresh
  exact
    { toWellFormed := wellFormed
      declared := by
        intro instruction listed slot refers
        -- locals of the parent are locals of the child, whose locals are kept
        rcases Array.mem_append.1 listed with old | new
        · exact Nat.lt_of_lt_of_le (consistent.declared instruction old slot refers) grown
        · exact consistentChild.declared instruction new slot refers
      fewLocals := consistentChild.fewLocals
      limit := consistent.limit
      inherited := fun point origin => (consistent.inherited point origin).trans grown
      offset := by simp [graft, consistent.offset, consistentChild.offset] }

end Consistent

/-- Every emitter that operations lead to is consistent. -/
theorem Reachable.consistent {intact : Bool} (reachable : Reachable intact emitter) :
    emitter.Consistent := by
  induction reachable with
  | new maxLocals =>
    exact
      { toWellFormed := (Reachable.new maxLocals).wellFormed
        declared := fun _ listed => absurd listed (Array.not_mem_empty _)
        fewLocals := Nat.zero_le _
        limit := Nat.min_le_right _ _
        inherited := nofun
        offset := rfl }
  | perform _ command ih =>
    exact (command.updates _).rec ih fun _ step before => before.update step
  | fork _ ih => exact ih.fork
  | splice _ _ spliced ih ihChild =>
    exact ih.splice ihChild spliced
  | brokenOff reachable reachableChild failed ih _ =>
    -- labels are defined and marked before anything else is taken over
    refine ih.of_instructions (reachable.brokenOff reachableChild failed).wellFormed ?_
    rw [eq_of_splice_error failed]

/-! ## Finishing the code -/

/-- All that finishing the code looks up is there. -/
structure Resolved (emitter : Emitter) (positions : Array Nat) (layout : BranchLayout) : Prop where
  /-- Every instruction has an offset, and so has the end of the code. -/
  offsets : layout.offsets.size = emitter.instructions.size + 1
  /-- The branches are recorded in the order in which they were emitted. -/
  branches : layout.branches.map (fun record => (record.source, record.target)) =
    emitter.instructions.toList.zipIdx.filterMap fun (instruction, index) =>
      instruction.target?.map (index, ·)
  /-- What names a label is a branch with a form, and the label has a position with an offset. -/
  targets : ∀ (index : Nat) (op : Opcode) (label : Label),
    emitter.instructions[index]? = some ⟨op, .label label⟩ →
      op.isBranch = true ∧ (∃ form, layout.formOf? index = some form) ∧
      ∃ position target, positions[label]? = some position ∧
        layout.offsets[position]? = some target

/-- The lowest label that marks nothing is reported. -/
theorem labelPositions_cases (emitter : Emitter) :
    (∃ label ∈ emitter.unmarked, (∀ other ∈ emitter.unmarked, label ≤ other) ∧
      emitter.labelPositions = .error (.unresolvedLabel label)) ∨
    (emitter.unmarked = ∅ ∧ ∃ positions, emitter.labelPositions = .ok positions) := by
  unfold labelPositions
  cases found : emitter.labels.findIdx? Option.isNone with
  | some label =>
    obtain ⟨inside, free, lowest⟩ := Array.findIdx?_eq_some_iff_getElem.1 found
    refine .inl ⟨label, ?_, fun other unmarked => ?_, rfl⟩
    · rw [unmarked, Set.mem_ofPred_eq, Array.getElem?_eq_getElem inside,
        Option.isNone_iff_eq_none.1 free]
    · -- the search stops at the first label that is free
      by_contra lower
      obtain ⟨known, isFree⟩ := Array.getElem?_eq_some_iff.1 unmarked
      exact lowest other (Nat.lt_of_not_le lower) (by rw [isFree]; rfl)
  | none =>
    refine .inr ⟨?_, _, rfl⟩
    rw [Set.eq_empty_iff_forall_notMem]
    intro label unmarked
    have marked := Array.findIdx?_eq_none_iff.1 found none (Array.mem_of_getElem? unmarked)
    cases marked

/-- Finishing the code has found all that it looks up. -/
theorem Finished.resolved_of_wellFormed {positions : Array Nat} {layout : BranchLayout}
    {code : Code}
    (finished : emitter.Finished positions layout code) (wellFormed : emitter.WellFormed) :
    emitter.Resolved positions layout := by
  have within := Layout.within_of_resolve finished.resolved
  obtain ⟨forms, passes, rfl, -⟩ := finished.encoding wellFormed.fitting
  refine ⟨Layout.size_offsets forms, Layout.map_records forms, fun index op label found => ?_⟩
  obtain ⟨known, here⟩ := Array.getElem?_eq_some_iff.1 found
  have listed := Array.mem_of_getElem? found
  obtain ⟨-, condition, form, rfl⟩ := Instruction.branch_of_target? (wellFormed.fitting _ listed)
    (rfl : Instruction.target? _ = some label)
  obtain ⟨position, place, target⟩ := within _ listed label rfl
  exact ⟨rfl, ⟨_, Layout.formOf?_records known (by rw [here]; rfl)⟩, position, _, target,
    Layout.getElem?_offsets place⟩

/-- **The invariant of emitters.** Every emitter that operations lead to is consistent, no operation
moves a mark, and if no splice broke off, all marks are inside the code. Finishing the code reports
the lowest label that marks nothing. If there is none and all marks are inside the code, it finds
all that it looks up, and the code has three bytes for every long branch more than the offset
counts. -/
theorem finalize_of_reachable {intact : Bool} (reachable : Reachable intact emitter) :
    emitter.Consistent ∧
      (∀ own later, Leads own emitter later → ∀ label position,
        emitter.labelPosition? label = some position → later.labelPosition? label = some position) ∧
      (intact = true → emitter.Inside) ∧
      ((∃ label ∈ emitter.unmarked, (∀ other ∈ emitter.unmarked, label ≤ other) ∧
          emitter.finalize = .error (.defect (.unresolvedLabel label))) ∨
        (emitter.unmarked = ∅ ∧ (emitter.Inside → ∃ positions layout code,
          emitter.labelPositions = .ok positions ∧ emitter.resolveBranches [] = .ok layout ∧
          emitter.Resolved positions layout ∧ emitter.finalize = .ok code ∧
          code.branches = layout.branches ∧
          code.bytes.size = emitter.offset + 3 * code.branches.countP (·.form == .long)))) := by
  have consistent := reachable.consistent
  refine ⟨consistent, fun _ _ leads _ _ marked => leads.keeps.marks marked, reachable.inside, ?_⟩
  rcases labelPositions_cases emitter with ⟨label, free, lowest, failed⟩ |
    ⟨none, positions, labelled⟩
  · refine .inl ⟨label, free, lowest, ?_⟩
    rw [finalize, failed]
    rfl
  · refine .inr ⟨none, fun inside => ?_⟩
    obtain ⟨layout, code, h, finished⟩ :=
      exists_finished consistent.toWellFormed labelled inside.targetsInside
    refine ⟨positions, layout, code, labelled, finished.resolveBranches,
      finished.resolved_of_wellFormed consistent.toWellFormed, h, finished.branches, ?_⟩
    obtain ⟨forms, passes, rfl, -, bytes⟩ := finished.encoding consistent.fitting
    -- the offset has counted every branch as a short one
    rw [size_bytes consistent.fitting bytes, Layout.sum_lengths forms consistent.fitting,
      consistent.offset, finished.branches]

/-- A branch over a number, behind a fork and a splice, is finished with the length that the offset
and the long branches give. -/
theorem finalize_skipping :
    (afterwards (splice skipping) oneLabel).Consistent ∧
      ∃ code, (afterwards (splice skipping) oneLabel).finalize = .ok code ∧
        code.bytes.size = 11 + 3 * code.branches.countP (·.form == .long) := by
  have parent : Reachable true oneLabel := .perform (.new 4) .defineLabel
  have child : Reachable true skipping := .perform (.perform (.perform parent.fork _) _) _
  have reachable : Reachable true (afterwards (splice skipping) oneLabel) :=
    .splice parent child rfl
  obtain ⟨consistent, -, inside, outcome⟩ := finalize_of_reachable reachable
  refine ⟨consistent, ?_⟩
  rcases outcome with ⟨label, free, -⟩ | ⟨-, finishes⟩
  · -- the only label is marked
    have labels : (afterwards (splice skipping) oneLabel).labels = #[some 2] := rfl
    rw [unmarked, Set.mem_ofPred_eq, labels] at free
    cases label <;> cases free
  · obtain ⟨-, -, code, -, -, -, finished, -, size⟩ := finishes (inside rfl)
    exact ⟨code, finished, size⟩

/-- An emitter with two labels, of which the second is marked. -/
def halfMarked : Emitter :=
  afterwards (Command.perform (.markLabel 1)) <|
    afterwards (Command.perform .defineLabel) <|
      afterwards (Command.perform .defineLabel) (withMaxLocals 4)

/-- A fork that marks both labels, behind an instruction of its own. -/
def markingBoth : Emitter :=
  afterwards (Command.perform (.markLabel 1)) <|
    afterwards (Command.perform (.markLabel 0)) <|
      afterwards (Command.perform (.emit ⟨.nop, .none⟩)) halfMarked.fork

/-- A splice that breaks off leaves a mark behind the end of the code. -/
theorem behind_brokenOff :
    ∃ after, splice markingBoth halfMarked = .error (.labelAlreadyMarked 1) after ∧
      Reachable false after ∧ after.labelPosition? 0 = some 1 ∧ after.instructions.size = 0 := by
  have parent : Reachable true halfMarked := .perform (.perform (.perform (.new 4) _) _) _
  have child : Reachable true markingBoth := .perform (.perform (.perform parent.fork _) _) _
  have failed : splice markingBoth halfMarked = .error (.labelAlreadyMarked 1) _ := rfl
  exact ⟨_, failed, .brokenOff parent child failed, rfl, rfl⟩

end Emitter

end ExprCode
