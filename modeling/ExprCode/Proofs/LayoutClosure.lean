import ExprCode.Proofs.ShortestLayout

/-! # Layouts from a seed

Main statement: `Layout.resolve_isClosure`. For instructions whose operands fit their opcodes and
whose labels have positions within them, resolving branches from a seed is a closure operator on
sets of long branches: what is long in the seed is long in the result, a larger seed has a larger
result, and a second run from the branches of the result changes nothing and takes one pass. The
result is the least valid choice of forms above the seed. None of this can be left out:
`Layout.not_isClosure`.

The passes are counted against the branches that are still short (`shortBranches`): every pass but
the last makes one of them long. All else follows from `Settles`, which says what passes make of any
choice of forms. -/

namespace ExprCode.Layout

variable {instructions : Array Instruction} {positions : Array Nat}

/-! ## Seeds -/

/-- Some record of a seed says that the instruction at an index is long. -/
def SeededLong (seed : List BranchRecord) (source : Nat) : Prop :=
  ∃ record ∈ seed, record.source = source ∧ record.form = .long

/-- Whether a seed makes a branch long can be decided. -/
instance (seed : List BranchRecord) (source : Nat) : Decidable (SeededLong seed source) :=
  inferInstanceAs (Decidable (∃ record ∈ seed, _))

/-- The instruction at an index is a branch: it names a label. -/
def NamesLabel (instructions : Array Instruction) (source : Nat) : Prop :=
  (instructions[source]?.bind Instruction.target?).isSome

/-- Whether an instruction names a label can be decided. -/
instance (instructions : Array Instruction) (source : Nat) :
    Decidable (NamesLabel instructions source) :=
  inferInstanceAs (Decidable (_ = true))

/-- What names a label is an instruction. -/
theorem namesLabel_iff {source : Nat} : NamesLabel instructions source ↔
    ∃ (inside : source < instructions.size) (label : Label),
      instructions[source].target? = some label := by
  by_cases inside : source < instructions.size
  · simp [NamesLabel, inside, Option.isSome_iff_exists]
  · simp [NamesLabel, inside]

/-- The forms of a seed are long where the seed says so, whatever it says of other places. -/
theorem seedForms_eq_long {seed : List BranchRecord} {index : Nat}
    (inside : index < instructions.size) :
    (seedForms instructions seed)[index] = .long ↔ SeededLong seed index := by
  simp [seedForms, SeededLong]

/-- A form that is not long is short. -/
theorem eq_short_iff {form : BranchForm} : form = .short ↔ form ≠ .long := by
  cases form <;> simp

/-! ## What passes make of a choice of forms -/

namespace Wider

variable {forms other third : Forms instructions}

/-- Every choice is as wide as itself. -/
theorem refl (forms : Forms instructions) : Wider forms forms := fun _ _ long => long

/-- What is as wide as a wider choice is wider. -/
theorem trans (first : Wider forms other) (second : Wider other third) : Wider forms third :=
  fun index inside long => second index inside (first index inside long)

end Wider

/-- Forms under which no branch is out of reach but long ones are valid. -/
theorem valid_of_stable {forms : Forms instructions}
    (stable : widen instructions positions forms = .ok forms) : Valid positions forms := by
  intro index inside label target names short found far
  have long : forms[index] = .long :=
    (long_widen stable inside).2 (.inr ((outOfReach_iff inside names found).2 far))
  rw [short] at long
  cases long

/-- The choice of forms that passes make of another: the least valid one that keeps all long
branches long. -/
structure Settles (positions : Array Nat) (forms settled : Forms instructions) : Prop where
  /-- Another pass would change nothing. -/
  stable : widen instructions positions settled = .ok settled
  /-- Long branches stay long. -/
  wider : Wider forms settled
  /-- Every valid choice with these long branches has all the others too. -/
  least : ∀ other, Wider forms other → Valid positions other → Wider settled other

/-- The branches that are short. -/
def shortBranches (forms : Forms instructions) : Finset Nat :=
  (Finset.range instructions.size).filter fun index =>
    NamesLabel instructions index ∧ forms[index]? = some .short

/-- What is a short branch. -/
theorem mem_shortBranches {forms : Forms instructions} {index : Nat}
    (inside : index < instructions.size) :
    index ∈ shortBranches forms ↔ NamesLabel instructions index ∧ forms[index] = .short := by
  simp [shortBranches, inside]

/-- Only what names a label can be out of reach. -/
theorem OutOfReach.namesLabel {forms : Forms instructions} {index : Nat}
    (far : OutOfReach positions forms index) : NamesLabel instructions index := by
  obtain ⟨label, -, names, -⟩ := far
  exact Option.isSome_iff_exists.2 ⟨label, names⟩

section Pass

variable {forms widened settled : Forms instructions}
  (pass : widen instructions positions forms = .ok widened)

include pass

/-- A pass that changes anything makes a short branch long. -/
theorem shortBranches_widen_ssubset (changed : widened ≠ forms) :
    shortBranches widened ⊂ shortBranches forms := by
  obtain ⟨index, inside, differ⟩ : ∃ (index : Nat) (inside : index < instructions.size),
      widened[index] ≠ forms[index] := by
    by_contra same
    push Not at same
    exact changed (Vector.ext same)
  have short : forms[index] = .short := by
    rw [eq_short_iff]
    intro long
    exact differ (by rw [long, wider_widen pass index inside long])
  have long : widened[index] = .long := by
    by_contra notLong
    exact differ (by rw [short, eq_short_iff.2 notLong])
  have far : OutOfReach positions forms index := by
    rcases (long_widen pass inside).1 long with before | far
    · rw [short] at before
      cases before
    · exact far
  rw [Finset.ssubset_iff_of_subset]
  · -- the branch that the pass has made long
    refine ⟨index, (mem_shortBranches inside).2 ⟨far.namesLabel, short⟩, fun stillShort => ?_⟩
    rw [mem_shortBranches inside, long] at stillShort
    cases stillShort.2
  · intro other isShort
    have known : other < instructions.size := Finset.mem_range.1 (Finset.mem_filter.1 isShort).1
    rw [mem_shortBranches known, eq_short_iff] at isShort ⊢
    exact ⟨isShort.1, fun long => isShort.2 (wider_widen pass other known long)⟩

/-- What settles after a pass settles. -/
theorem Settles.of_widen (settles : Settles positions widened settled) :
    Settles positions forms settled where
  stable := settles.stable
  wider := (wider_widen pass).trans settles.wider
  least other wider valid := settles.least other (wider.widen_of_valid pass valid) valid

end Pass

/-- A choice of forms that needs no pass settles at itself. -/
theorem Settles.refl {forms : Forms instructions}
    (stable : widen instructions positions forms = .ok forms) : Settles positions forms forms where
  stable := stable
  wider := .refl forms
  least _ wider _ := wider

/-- Passes end with the forms at which a choice settles, after at most one pass more than there are
short branches. -/
theorem settles_settle {forms : Forms instructions} {passes : Nat} {layout : BranchLayout}
    (h : settle instructions positions forms passes = .ok layout) :
    ∃ settled total, layout = ⟨offsets instructions settled, records instructions settled, total⟩ ∧
      Settles positions forms settled ∧ total ≤ passes + (shortBranches forms).card := by
  induction forms, passes using settle.induct with
  | case1 forms passes ih =>
    cases pass : widen instructions positions forms with
    | error fault =>
      rw [settle, pass] at h
      cases h
    | ok widened =>
      rw [settle_of_widen passes pass] at h
      split at h
      · next same =>
        cases h
        exact ⟨forms, passes, rfl, .refl (same ▸ pass), Nat.le_add_right _ _⟩
      · next changed =>
        obtain ⟨settled, total, rfl, settles, few⟩ :=
          ih widened ((count_widen_lt_iff pass).2 changed) h
        have fewer := Finset.card_lt_card (shortBranches_widen_ssubset pass changed)
        exact ⟨settled, total, rfl, settles.of_widen pass, by omega⟩

/-! ## Resolving again -/

/-- The records of a choice of forms say of branches, and of nothing else, that they are long. -/
theorem seededLong_records (forms : Forms instructions) {index : Nat}
    (inside : index < instructions.size) :
    SeededLong (records instructions forms) index ↔
      NamesLabel instructions index ∧ forms[index] = .long := by
  constructor
  · rintro ⟨record, listed, rfl, long⟩
    obtain ⟨_, names, chosen⟩ := mem_records.1 listed
    exact ⟨namesLabel_iff.2 ⟨_, _, names⟩, chosen.trans long⟩
  · rintro ⟨isBranch, long⟩
    obtain ⟨_, label, names⟩ := namesLabel_iff.1 isBranch
    exact ⟨⟨index, label, forms[index]⟩, mem_records.2 ⟨inside, names, rfl⟩, rfl, long⟩

/-- Branches have the form in the seed of records that they have in the records. -/
theorem seedForms_records (forms : Forms instructions) {index : Nat}
    (inside : index < instructions.size) (names : NamesLabel instructions index) :
    (seedForms instructions (records instructions forms))[index] = forms[index] := by
  have same := (seedForms_eq_long inside).trans (seededLong_records forms inside)
  cases chosen : forms[index] with
  | long => exact same.2 ⟨names, chosen⟩
  | short => simpa [eq_short_iff, chosen] using same

/-- A seed made of the records of a stable choice needs no pass. -/
theorem widen_seedForms_records (within : Within instructions positions)
    {settled : Forms instructions}
    (stable : widen instructions positions settled = .ok settled) :
    widen instructions positions (seedForms instructions (records instructions settled)) =
      .ok (seedForms instructions (records instructions settled)) := by
  have narrower : Wider (seedForms instructions (records instructions settled)) settled :=
    fun index inside long => ((seededLong_records _ inside).1 ((seedForms_eq_long inside).1 long)).2
  refine widen_eq_ok.2 ⟨fun index inside label names _ => ⟨_, within.targetOffset _ inside names⟩,
    fun index inside => ⟨.inl, fun either => either.elim id fun far => ?_⟩⟩
  -- it was out of reach before, so it is long
  rw [seedForms_records settled inside far.namesLabel]
  exact (valid_of_stable stable).long_of_outOfReach inside (outOfReach_of_wider narrower far)

/-- The records of a choice of forms are those of the seed that they are. -/
theorem records_seedForms_records (forms : Forms instructions) :
    records instructions (seedForms instructions (records instructions forms)) =
      records instructions forms := by
  refine List.filterMap_congr fun i _ => ?_
  rw [recordAt?, recordAt?]
  cases names : instructions[i].target? with
  | none => rfl
  | some label =>
    have same := seedForms_records forms i.isLt (namesLabel_iff.2 ⟨i.isLt, label, names⟩)
    simp only [Option.map_some, Fin.getElem_fin, same]

/-- Only instructions that name a label have two lengths, if operands fit opcodes. -/
theorem encodedLength_of_unnamed {instruction : Instruction}
    (fits : instruction.operand.fits instruction.op.operandKind)
    (unnamed : instruction.target? = none) (form other : BranchForm) :
    instruction.encodedLength form = instruction.encodedLength other := by
  obtain ⟨op, operand⟩ := instruction
  cases op with
  | branch condition given =>
    cases operand with
    | label target => cases unnamed
    | _ => cases given <;> cases fits
  | _ => rfl

/-- The records of a choice of forms give the offsets that it has, if operands fit opcodes. -/
theorem offsets_seedForms_records
    (fitting : ∀ instruction ∈ instructions, instruction.operand.fits instruction.op.operandKind)
    (settled : Forms instructions) :
    offsets instructions (seedForms instructions (records instructions settled)) =
      offsets instructions settled := by
  have same : lengths instructions (seedForms instructions (records instructions settled)) =
      lengths instructions settled := by
    refine congrArg List.ofFn (funext fun i => ?_)
    cases names : instructions[i].target? with
    | some label =>
      exact congrArg _ (seedForms_records settled i.isLt (namesLabel_iff.2 ⟨i.isLt, label, names⟩))
    | none => exact encodedLength_of_unnamed (fitting _ (Array.getElem_mem i.isLt)) names _ _
  rw [offsets, offsets, same]

/-- What is found to have a form is a branch. -/
theorem names_of_formOf? {forms : Forms instructions} {passes source : Nat} {form : BranchForm}
    (found : BranchLayout.formOf?
      ⟨offsets instructions forms, records instructions forms, passes⟩ source = some form) :
    ∃ (inside : source < instructions.size) (label : Label),
      instructions[source].target? = some label ∧ forms[source] = form := by
  obtain ⟨record, isFirst, rfl⟩ := Option.map_eq_some_iff.1 found
  have atSource : record.source = source := by simpa using List.find?_some isFirst
  subst atSource
  obtain ⟨inside, names, chosen⟩ := mem_records.1 (List.mem_of_find?_eq_some isFirst)
  exact ⟨inside, _, names, chosen⟩

/-- **Resolving branches from a seed is a closure operator**, for instructions whose operands fit
their opcodes and whose labels have positions within them. It succeeds and takes at most one pass
more than there are branches that the seed does not say are long. Branches that are long in the seed
stay long, a seed that says of all these sources and of more that they are long makes at least the
same branches long, and a branch is made long only if it is long in every valid choice of forms that
follows the seed. Resolving again from the branches of the result takes one pass and gives the same
branches and offsets. -/
theorem resolve_isClosure {instructions : Array Instruction} {positions : Array Nat}
    (fitting : ∀ instruction ∈ instructions, instruction.operand.fits instruction.op.operandKind)
    (within : Within instructions positions) (seed : List BranchRecord) :
    ∃ layout, resolve instructions positions seed = .ok layout ∧
      layout.passes ≤ 1 + ((Finset.range instructions.size).filter fun source =>
        NamesLabel instructions source ∧ ¬ SeededLong seed source).card ∧
      (∀ source, NamesLabel instructions source → SeededLong seed source →
        layout.formOf? source = some .long) ∧
      (∀ more : List BranchRecord, (∀ source, SeededLong seed source → SeededLong more source) →
        ∃ larger, resolve instructions positions more = .ok larger ∧
          ∀ source, layout.formOf? source = some .long → larger.formOf? source = some .long) ∧
      (∀ other : Forms instructions, Valid positions other →
        (∀ (source : Nat) (inside : source < instructions.size),
          SeededLong seed source → other[source] = .long) →
        ∀ source, layout.formOf? source = some .long → other[source]? = some .long) ∧
      ∃ again, resolve instructions positions layout.branches = .ok again ∧
        again.passes = 1 ∧ again.branches = layout.branches ∧ again.offsets = layout.offsets := by
  obtain ⟨layout, resolved⟩ := exists_settle within (seedForms instructions seed) 1
  obtain ⟨settled, total, rfl, settles, few⟩ := settles_settle resolved
  refine ⟨_, resolved, ?_, ?_, ?_, ?_, ?_⟩
  · -- the branches that are short at the start are those that the seed leaves out
    have same : ((Finset.range instructions.size).filter fun source =>
        NamesLabel instructions source ∧ ¬ SeededLong seed source) =
          shortBranches (seedForms instructions seed) := by
      refine Finset.filter_congr fun index listed => ?_
      have inside := Finset.mem_range.1 listed
      rw [Vector.getElem?_eq_getElem inside, Option.some.injEq, eq_short_iff, ne_eq,
        seedForms_eq_long inside]
    rw [same]
    exact few
  · intro source names seeded
    obtain ⟨inside, label, names⟩ := namesLabel_iff.1 names
    rw [formOf?_records inside names]
    exact congrArg some (settles.wider source inside ((seedForms_eq_long inside).2 seeded))
  · intro more larger
    obtain ⟨_, moreResolved⟩ := exists_settle within (seedForms instructions more) 1
    obtain ⟨wider, count, rfl, moreSettles, -⟩ := settles_settle moreResolved
    refine ⟨_, moreResolved, fun source long => ?_⟩
    obtain ⟨inside, label, names, long⟩ := names_of_formOf? long
    have below : Wider (seedForms instructions seed) wider := by
      intro index known start
      refine moreSettles.wider index known ((seedForms_eq_long known).2 ?_)
      exact larger index ((seedForms_eq_long known).1 start)
    -- the larger result is a valid choice above the smaller seed
    have above := settles.least wider below (valid_of_stable moreSettles.stable) source inside long
    rw [formOf?_records inside names, above]
  · intro other valid follows source long
    obtain ⟨inside, -, -, long⟩ := names_of_formOf? long
    have wider : Wider (seedForms instructions seed) other := fun index known start =>
      follows index known ((seedForms_eq_long known).1 start)
    rw [Vector.getElem?_eq_getElem inside, settles.least other wider valid source inside long]
  · have pass := widen_seedForms_records within settles.stable
    refine ⟨_, (settle_of_widen 1 pass).trans (if_pos rfl), rfl, records_seedForms_records settled,
      offsets_seedForms_records fitting settled⟩

/-- A branch over one instruction. -/
def skippingOne : Array Instruction := #[⟨.branch .always .long, .label 0⟩, ⟨.nop, .none⟩]

/-- A branch that would reach its target stays long if the seed says so. Records of what is no
branch, or is not there, change nothing. -/
theorem resolve_skippingOne :
    let seed : List BranchRecord := [⟨0, 0, .long⟩, ⟨1, 0, .long⟩, ⟨9, 0, .long⟩]
    ∃ layout, resolve skippingOne #[2] seed = .ok layout ∧ layout.passes ≤ 1 ∧
      layout.formOf? 0 = some .long ∧
      ∃ again, resolve skippingOne #[2] layout.branches = .ok again ∧
        again.passes = 1 ∧ again.branches = layout.branches ∧ again.offsets = layout.offsets := by
  intro seed
  have within : Within skippingOne #[2] := by
    intro instruction listed label names
    simp only [skippingOne, List.mem_toArray, List.mem_cons, List.not_mem_nil, or_false] at listed
    rcases listed with rfl | rfl
    · cases names
      exact ⟨2, Nat.le_refl _, rfl⟩
    · cases names
  obtain ⟨layout, resolved, few, stays, -, -, again⟩ :=
    resolve_isClosure (by decide) within seed
  exact ⟨layout, resolved, Nat.le_trans few (by decide), stays 0 (by decide) (by decide), again⟩

/-- Three branches over one instruction. -/
def skippingThrice : Array Instruction :=
  #[⟨.branch .always .long, .label 0⟩, ⟨.branch .always .long, .label 0⟩,
    ⟨.branch .always .long, .label 0⟩, ⟨.nop, .none⟩]

/-- **What does not hold of all instructions, positions and seeds.** A branch to a label that is
marked behind the end has no layout, though it has one from a seed that says that it is long.
Opcodes of branches without a label are shorter when they are resolved again, if a seed has made
them long. Of two seeds, the one with more long sources need not have the long branches of the other
one in its result, if it does not have its sources. -/
theorem not_isClosure :
    (resolve #[⟨.branch .always .long, .label 0⟩] #[2] [] = .error ⟨2, 2⟩ ∧
      resolve #[⟨.branch .always .long, .label 0⟩] #[2] [⟨0, 0, .long⟩] =
        .ok ⟨#[0, 5], [⟨0, 0, .long⟩], 1⟩) ∧
    (resolve #[⟨.branch .always .long, .none⟩, ⟨.nop, .none⟩] #[] [⟨0, 0, .long⟩] =
        .ok ⟨#[0, 5, 6], [], 1⟩ ∧
      resolve #[⟨.branch .always .long, .none⟩, ⟨.nop, .none⟩] #[] [] =
        .ok ⟨#[0, 2, 3], [], 1⟩) ∧
    resolve skippingThrice #[4] [⟨0, 0, .long⟩] =
      .ok ⟨#[0, 5, 7, 9, 10], [⟨0, 0, .long⟩, ⟨1, 0, .short⟩, ⟨2, 0, .short⟩], 1⟩ ∧
    resolve skippingThrice #[4] [⟨1, 0, .long⟩, ⟨2, 0, .long⟩] =
      .ok ⟨#[0, 2, 7, 12, 13], [⟨0, 0, .short⟩, ⟨1, 0, .long⟩, ⟨2, 0, .long⟩], 1⟩ := by
  refine ⟨⟨?_, ?_⟩, ⟨?_, ?_⟩, ?_, ?_⟩
  all_goals cbv

end ExprCode.Layout
