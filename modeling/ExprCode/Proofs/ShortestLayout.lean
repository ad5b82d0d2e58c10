import ExprCode.Proofs.Decoding

/-! # The shortest layout

Main statement: `Layout.resolve_shortest`. A branch is long in the resolved layout exactly if it
does not reach its target there in short form, and no valid choice of forms makes a branch short
that is long there, so no valid code is shorter.

All rests on one fact: making branches long moves no two places of the code closer together
(`distance_le`). So a branch that was made long stays out of reach, and a branch that is out of
reach under few long branches is so under more. A pass over the branches keeps both
(`Justified.widen`, `Wider.widen_of_valid`), whatever the order in which it looks at them. -/

namespace ExprCode.Layout

variable {instructions : Array Instruction} {positions : Array Nat}

/-! ## Distances -/

/-- Every instruction that is long under the first choice of forms is long under the second. -/
def Wider (forms other : Forms instructions) : Prop :=
  ∀ (index : Nat) (inside : index < instructions.size), forms[index] = .long → other[index] = .long

/-- An instruction is at least as long in its long form. -/
theorem encodedLength_le (instruction : Instruction) {form other : BranchForm}
    (wider : form = .long → other = .long) :
    instruction.encodedLength form ≤ instruction.encodedLength other := by
  obtain ⟨op, operand⟩ := instruction
  cases op with
  | branch condition given =>
    -- two bytes against five
    cases form with
    | short => cases other <;> simp [Instruction.encodedLength, Opcode.encodedLength,
        Opcode.withForm, Opcode.operandKind, OperandKind.size]
    | long => rw [wider rfl]
  | _ => exact Nat.le_refl _

/-- Offsets never decrease. -/
theorem offsets_le (forms : Forms instructions) {first second : Nat} (ordered : first ≤ second)
    (inside : second ≤ instructions.size) :
    (offsets instructions forms).getD first 0 ≤ (offsets instructions forms).getD second 0 := by
  induction second, ordered using Nat.le_induction with
  | base => exact Nat.le_refl _
  | succ next _ ih =>
    rw [getD_offsets_succ inside]
    exact Nat.le_add_right_of_le (ih (Nat.le_of_succ_le inside))

/-- With more long branches, places are at least as far apart. -/
theorem distance_le {forms other : Forms instructions} (wider : Wider forms other)
    {first second : Nat} (ordered : first ≤ second) (inside : second ≤ instructions.size) :
    (offsets instructions forms).getD second 0 + (offsets instructions other).getD first 0 ≤
      (offsets instructions other).getD second 0 + (offsets instructions forms).getD first 0 := by
  induction second, ordered using Nat.le_induction with
  | base => exact Nat.le_of_eq (Nat.add_comm _ _)
  | succ next _ ih =>
    have before := ih (Nat.le_of_succ_le inside)
    have length := encodedLength_le instructions[next] (wider next inside)
    rw [getD_offsets_succ inside, getD_offsets_succ inside]
    omega

/-- A branch that does not reach its target does not reach it with more long branches either. -/
theorem outOfReach_of_wider {forms other : Forms instructions} (wider : Wider forms other)
    {index : Nat} (far : OutOfReach positions forms index) : OutOfReach positions other index := by
  obtain ⟨label, target, names, found, far⟩ := far
  obtain ⟨instruction, here, -⟩ := Option.bind_eq_some_iff.1 names
  have inside : index < instructions.size := (Array.getElem?_eq_some_iff.1 here).1
  obtain ⟨position, known, listed⟩ := targetOffset_eq_ok.1 found
  have place : position ≤ instructions.size := by
    have bound := (Array.getElem?_eq_some_iff.1 listed).1
    rw [size_offsets] at bound
    omega
  have same : (offsets instructions forms).getD position 0 = target := by
    rw [Array.getD_eq_getD_getElem?, listed, Option.getD_some]
  refine ⟨label, _, names, targetOffset_eq_ok.2 ⟨position, known, getElem?_offsets place⟩, ?_⟩
  simp only [isLongBranch, Bool.or_eq_true, decide_eq_true_eq] at far ⊢
  rcases Nat.le_total index position with ahead | behind
  · have apart := distance_le wider ahead place
    have ordered := offsets_le forms ahead place
    omega
  · have apart := distance_le wider behind inside.le
    have ordered := offsets_le forms behind inside.le
    omega

/-! ## Passes -/

/-- Every short branch reaches its target. -/
def Valid (positions : Array Nat) (forms : Forms instructions) : Prop :=
  ∀ (index : Nat) (inside : index < instructions.size) (label : Label) (target : Nat),
    instructions[index].target? = some label → forms[index] = .short →
      targetOffset positions (offsets instructions forms) label = .ok target →
        ¬ isLongBranch ((offsets instructions forms).getD index 0) target

/-- Every long instruction is a branch that does not reach its target in short form. -/
def Justified (positions : Array Nat) (forms : Forms instructions) : Prop :=
  ∀ (index : Nat) (inside : index < instructions.size), forms[index] = .long →
    OutOfReach positions forms index

/-- What is out of reach under a valid choice of forms is long. -/
theorem Valid.long_of_outOfReach {forms : Forms instructions} (valid : Valid positions forms)
    {index : Nat} (inside : index < instructions.size) (far : OutOfReach positions forms index) :
    forms[index] = .long := by
  obtain ⟨label, target, names, found, far⟩ := far
  rw [Array.getElem?_eq_getElem inside, Option.bind_some] at names
  cases chosen : forms[index] with
  | short => exact absurd far (valid index inside label target names chosen found)
  | long => rfl

section Pass

variable {forms widened other : Forms instructions}
  (pass : widen instructions positions forms = .ok widened)

include pass

/-- A pass keeps long branches long. -/
theorem wider_widen : Wider forms widened :=
  fun _ inside long => (long_widen pass inside).2 (.inl long)

/-- What a pass makes long is out of reach behind it too. -/
theorem Justified.widen (justified : Justified positions forms) : Justified positions widened := by
  intro index inside long
  refine outOfReach_of_wider (wider_widen pass) ?_
  rcases (long_widen pass inside).1 long with before | far
  · exact justified index inside before
  · exact far

/-- A pass makes no branch long that is short under a valid choice. -/
theorem Wider.widen_of_valid (wider : Wider forms other) (valid : Valid positions other) :
    Wider widened other := by
  intro index inside long
  rcases (long_widen pass inside).1 long with before | far
  · exact wider index inside before
  · exact valid.long_of_outOfReach inside (outOfReach_of_wider wider far)

end Pass

/-! ## Code lengths -/

/-- With more long branches the code is at least as long. -/
theorem codeLength_le {forms other : Forms instructions} (wider : Wider forms other) :
    (offsets instructions forms).back?.getD 0 ≤ (offsets instructions other).back?.getD 0 := by
  have apart := distance_le wider (Nat.zero_le instructions.size) (Nat.le_refl _)
  rw [getD_offsets (Nat.zero_le _), getD_offsets (Nat.zero_le _)] at apart
  simpa only [back?_offsets, Option.getD_some, List.take_zero, List.sum_nil, Nat.add_zero]
    using apart

/-- A branch that reaches its target has a displacement of one byte. -/
theorem displacement_of_short {forms : Forms instructions} {index target : Nat}
    (inside : index < instructions.size) (branch : instructions[index].op.isBranch)
    (short : forms[index] = .short)
    (near : ¬ isLongBranch ((offsets instructions forms).getD index 0) target) :
    -128 ≤ (target : Int) - (offsets instructions forms).getD (index + 1) 0 ∧
      (target : Int) - (offsets instructions forms).getD (index + 1) 0 ≤ 127 := by
  have next : (offsets instructions forms).getD (index + 1) 0 = _ := getD_offsets_succ inside
  have length : instructions[index].encodedLength forms[index] = 2 := by
    rw [short]
    generalize instructions[index] = instruction at branch
    obtain ⟨op, operand⟩ := instruction
    cases op with
    | branch condition form => rfl
    | _ => cases branch
  rw [length] at next
  simp only [isLongBranch, Bool.or_eq_true, decide_eq_true_eq] at near
  omega

/-- **The resolved layout is exact and the shortest.** There is one exactly if the labels that are
named have positions within the instructions. Its offsets are those of a choice of forms, which are
the forms that it records. Under these a branch is long exactly if it does not reach its target in
short form, short branches have displacements of one byte, and every choice of forms under which
short branches reach their targets has all these branches long and code at least as long. -/
theorem resolve_shortest (instructions : Array Instruction) (positions : Array Nat) :
    ((∃ layout, resolve instructions positions [] = .ok layout) ↔
      Within instructions positions) ∧
    ∀ layout, resolve instructions positions [] = .ok layout →
      ∃ settled : Forms instructions, layout.offsets = offsets instructions settled ∧
        (∀ (index : Nat) (inside : index < instructions.size) (label : Label),
          instructions[index].target? = some label →
            layout.formOf? index = some settled[index] ∧
            ∃ target, targetOffset positions layout.offsets label = .ok target ∧
              (settled[index] = .long ↔ isLongBranch (layout.offsets.getD index 0) target) ∧
              (settled[index] = .short → instructions[index].op.isBranch →
                -128 ≤ (target : Int) - layout.offsets.getD (index + 1) 0 ∧
                  (target : Int) - layout.offsets.getD (index + 1) 0 ≤ 127)) ∧
        ∀ other : Forms instructions, Valid positions other →
          Wider settled other ∧
            layout.codeLength ≤ (offsets instructions other).back?.getD 0 := by
  refine ⟨⟨fun ⟨_, resolved⟩ => within_of_resolve resolved, fun within => exists_settle within _ 1⟩,
    fun layout resolved => ?_⟩
  have within := within_of_resolve resolved
  have noneLong : ∀ (index : Nat) (inside : index < instructions.size),
      (seedForms instructions [])[index] ≠ .long := by
    simp [seedForms]
  -- the invariant of the passes: no branch is long without need or beyond a valid choice
  obtain ⟨settled, total, rfl, stable, justified, least⟩ := settle_run
    (fun forms => Justified positions forms ∧ ∀ other, Valid positions other → Wider forms other)
    (fun _ _ kept pass => ⟨kept.1.widen pass,
      fun other valid => (kept.2 other valid).widen_of_valid pass valid⟩)
    ⟨fun index inside long => absurd long (noneLong index inside),
      fun _ _ index inside long => absurd long (noneLong index inside)⟩ resolved
  refine ⟨settled, rfl, fun index inside label names => ?_,
    fun other valid => ⟨least other valid, codeLength_le (least other valid)⟩⟩
  obtain ⟨target, found⟩ : ∃ target,
      targetOffset positions (offsets instructions settled) label = .ok target :=
    ⟨_, within.targetOffset settled inside names⟩
  have longIff : settled[index] = .long ↔
      isLongBranch ((offsets instructions settled).getD index 0) target := by
    rw [← outOfReach_iff inside names found]
    exact ⟨justified index inside, fun far => (long_widen stable inside).2 (.inr far)⟩
  refine ⟨formOf?_records inside names, target, found, longIff, fun short branch =>
    displacement_of_short inside branch short fun far => ?_⟩
  rw [longIff.2 far] at short
  cases short

end ExprCode.Layout
