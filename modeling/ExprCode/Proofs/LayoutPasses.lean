import Mathlib
import ExprCode.Layout

/-! # Passes over the branches

Offsets are sums of lengths (`Layout.getD_offsets`). One pass finds the targets of all short
branches, or stops at one that has none; it makes those long that are out of reach and keeps all
else (`Layout.widen_eq_ok`). Passes are repeated until one changes nothing (`Layout.settle_run`). If
all labels are inside the code every pass finds its targets (`Layout.exists_settle`). -/

namespace ExprCode

/-! ## Computations that may fail -/

/-- A computation that goes on with the answer of another one succeeds if both do. -/
theorem except_bind_eq_ok {ε α β : Type} {first : Except ε α} {next : α → Except ε β} {answer : β} :
    (first >>= next) = .ok answer ↔ ∃ value, first = .ok value ∧ next value = .ok answer := by
  cases first <;> simp [bind, Except.bind]

/-- A computation that goes on with the answer of another one fails if one of both does. -/
theorem except_bind_eq_error {ε α β : Type} {first : Except ε α} {next : α → Except ε β}
    {error : ε} :
    (first >>= next) = .error error ↔
      first = .error error ∨ ∃ value, first = .ok value ∧ next value = .error error := by
  cases first <;> simp [bind, Except.bind]

/-- What is asked of all indices has an answer if each has one. -/
theorem ofFnM_eq_ok {ε α : Type} {n : Nat} {ask : Fin n → Except ε α} {answers : Vector α n} :
    Vector.ofFnM ask = .ok answers ↔ ∀ i : Fin n, ask i = .ok answers[i] := by
  induction n with
  | zero =>
    rw [Vector.ofFnM_zero]
    exact ⟨fun _ i => i.elim0, fun _ => congrArg _ (Vector.ext fun i inside => by omega)⟩
  | succ n ih =>
    rw [Vector.ofFnM_succ, except_bind_eq_ok]
    constructor
    · rintro ⟨firsts, front, rest⟩ i
      obtain ⟨last, back, pushed⟩ := except_bind_eq_ok.1 rest
      cases pushed
      by_cases inside : i.val < n
      · simpa [Vector.getElem_push, inside] using ih.1 front ⟨i, inside⟩
      · obtain rfl : i = Fin.last n := Fin.ext (by simp only [Fin.val_last]; omega)
        simpa [Vector.getElem_push] using back
    · intro each
      refine ⟨answers.pop, ih.2 fun i => by simpa using each i.castSucc,
        except_bind_eq_ok.2 ⟨_, each (Fin.last n), congrArg _ (Vector.ext fun i inside => ?_)⟩⟩
      by_cases before : i < n
      · simp [before]
      · obtain rfl : i = n := by omega
        simp

/-- What is asked of all indices fails where some index does. -/
theorem exists_of_ofFnM_eq_error {ε α : Type} {n : Nat} {ask : Fin n → Except ε α} {error : ε}
    (h : Vector.ofFnM ask = .error error) : ∃ i : Fin n, ask i = .error error := by
  induction n with
  | zero =>
    rw [Vector.ofFnM_zero] at h
    cases h
  | succ n ih =>
    rw [Vector.ofFnM_succ, except_bind_eq_error] at h
    rcases h with early | ⟨_, -, late⟩
    · obtain ⟨i, failed⟩ := ih early
      exact ⟨_, failed⟩
    · rcases except_bind_eq_error.1 late with last | ⟨_, -, pushed⟩
      · exact ⟨_, last⟩
      · cases pushed

namespace Layout

/-! ## Offsets -/

/-- The running totals of a list are the sums of its initial pieces. -/
theorem runningTotals_getElem? {lengths : List Nat} {start index : Nat}
    (inside : index ≤ lengths.length) :
    (runningTotals start lengths)[index]? = some (start + (lengths.take index).sum) := by
  induction lengths generalizing start index with
  | nil =>
    cases Nat.le_zero.1 inside
    rfl
  | cons length rest ih =>
    cases index with
    | zero => rfl
    | succ index =>
      rw [runningTotals, List.getElem?_cons_succ,
        ih (Nat.le_of_succ_le_succ inside), List.take_succ_cons, List.sum_cons,
        Nat.add_assoc]

/-- There is one running total more than there are lengths. -/
@[simp] theorem length_runningTotals (start : Nat) (lengths : List Nat) :
    (runningTotals start lengths).length = lengths.length + 1 := by
  induction lengths generalizing start with
  | nil => rfl
  | cons length rest ih =>
    rw [runningTotals, List.length_cons, ih, List.length_cons]

variable {instructions : Array Instruction} {positions : Array Nat}

/-- Every instruction has a length. -/
@[simp] theorem length_lengths (forms : Forms instructions) :
    (lengths instructions forms).length = instructions.size := by
  simp [lengths]

/-- Every instruction has an offset, and so has the end. -/
@[simp] theorem size_offsets (forms : Forms instructions) :
    (offsets instructions forms).size = instructions.size + 1 := by
  rw [offsets, List.size_toArray, length_runningTotals, length_lengths]

/-- The offset of an instruction is the length of all instructions before it. -/
theorem getD_offsets {forms : Forms instructions} {index : Nat}
    (inside : index ≤ instructions.size) :
    (offsets instructions forms).getD index 0 =
      ((lengths instructions forms).take index).sum := by
  rw [offsets, Array.getD_eq_getD_getElem?, List.getElem?_toArray,
    runningTotals_getElem? (by simpa using inside), Option.getD_some, Nat.zero_add]

/-- Instructions have offsets, and so has the end of the code. -/
theorem getElem?_offsets {forms : Forms instructions} {index : Nat}
    (inside : index ≤ instructions.size) :
    (offsets instructions forms)[index]? = some ((offsets instructions forms).getD index 0) := by
  have known : index < (offsets instructions forms).size := by
    rw [size_offsets]
    omega
  rw [Array.getD_eq_getD_getElem?, Array.getElem?_eq_getElem known, Option.getD_some]

/-- The last offset is that of the end of the code. -/
theorem back?_offsets (forms : Forms instructions) :
    (offsets instructions forms).back? =
      some ((offsets instructions forms).getD instructions.size 0) := by
  rw [Array.back?, size_offsets, Nat.add_sub_cancel, getElem?_offsets (Nat.le_refl _)]

/-- The end of the code is behind all instructions. -/
theorem getD_offsets_size (forms : Forms instructions) :
    (offsets instructions forms).getD instructions.size 0 = (lengths instructions forms).sum := by
  rw [getD_offsets (Nat.le_refl _), List.take_of_length_le (by rw [length_lengths])]

/-- No offset is greater than the length of the code. -/
theorem getD_offsets_le (forms : Forms instructions) (index : Nat) :
    (offsets instructions forms).getD index 0 ≤ (lengths instructions forms).sum := by
  by_cases inside : index ≤ instructions.size
  · rw [getD_offsets inside]
    calc ((lengths instructions forms).take index).sum
        ≤ ((lengths instructions forms).take index).sum +
            ((lengths instructions forms).drop index).sum := Nat.le_add_right _ _
      _ = (lengths instructions forms).sum := by
        rw [← List.sum_append, List.take_append_drop]
  · have outside : (offsets instructions forms).size ≤ index := by
      rw [size_offsets]
      omega
    rw [Array.getD_eq_getD_getElem?, Array.getElem?_eq_none outside, Option.getD_none]
    exact Nat.zero_le _

/-- The next offset is behind the instruction. -/
theorem getD_offsets_succ {forms : Forms instructions} {index : Nat}
    (inside : index < instructions.size) :
    (offsets instructions forms).getD (index + 1) 0 =
      (offsets instructions forms).getD index 0 +
        instructions[index].encodedLength forms[index] := by
  have known : (lengths instructions forms)[index]? =
      some (instructions[index].encodedLength forms[index]) := by
    simp [lengths, inside]
  rw [getD_offsets inside, getD_offsets (Nat.le_of_lt inside), List.take_add_one, known,
    Option.toList_some, List.sum_append, List.sum_singleton]

/-! ## Look-ups -/

/-- An entry is found exactly if there is one. -/
theorem entryAt_eq_ok {entries : Array Nat} {index entry : Nat} :
    entryAt entries index = .ok entry ↔ entries[index]? = some entry := by
  unfold entryAt
  cases entries[index]? <;> simp

/-- A target is found exactly if the label has a position and the position an offset. -/
theorem targetOffset_eq_ok {places : Array Nat} {label : Label} {target : Nat} :
    targetOffset positions places label = .ok target ↔
      ∃ position, positions[label]? = some position ∧ places[position]? = some target := by
  simp only [targetOffset, except_bind_eq_ok, entryAt_eq_ok]

/-- A target of a label with a position is missing only if the position is behind the end. -/
theorem targetOffset_eq_error {places : Array Nat} {label : Label} {position : Nat}
    {fault : OutOfRange} (known : positions[label]? = some position)
    (h : targetOffset positions places label = .error fault) :
    places.size ≤ position ∧ fault = ⟨position, places.size⟩ := by
  have found : entryAt positions label = .ok position := entryAt_eq_ok.2 known
  rw [targetOffset, found] at h
  change entryAt places position = _ at h
  unfold entryAt at h
  split at h
  · cases h
  · next missing =>
    cases h
    exact ⟨Array.getElem?_eq_none_iff.1 missing, rfl⟩

/-- Every label that an instruction names has a position inside the code or at its end. -/
def Within (instructions : Array Instruction) (positions : Array Nat) : Prop :=
  ∀ instruction ∈ instructions, ∀ label, instruction.target? = some label →
    ∃ position ≤ instructions.size, positions[label]? = some position

/-- Targets inside the code are found, under all forms. -/
theorem Within.targetOffset (within : Within instructions positions) (forms : Forms instructions)
    {index : Nat} {label : Label} (inside : index < instructions.size)
    (names : instructions[index].target? = some label) :
    targetOffset positions (offsets instructions forms) label =
      .ok ((offsets instructions forms).getD (positions.getD label 0) 0) := by
  obtain ⟨position, small, known⟩ := within _ (Array.getElem_mem inside) label names
  have found : positions.getD label 0 = position := by
    rw [Array.getD_eq_getD_getElem?, known, Option.getD_some]
  rw [targetOffset_eq_ok, found]
  exact ⟨position, known, getElem?_offsets small⟩

/-! ## Passes -/

/-- A branch has a target that it does not reach in short form. -/
def OutOfReach (positions : Array Nat) (forms : Forms instructions) (index : Nat) : Prop :=
  ∃ label target, instructions[index]?.bind Instruction.target? = some label ∧
    targetOffset positions (offsets instructions forms) label = .ok target ∧
    isLongBranch ((offsets instructions forms).getD index 0) target

/-- Whether a branch reaches the target that is found for it. -/
theorem outOfReach_iff {forms : Forms instructions} {index target : Nat} {label : Label}
    (inside : index < instructions.size) (names : instructions[index].target? = some label)
    (found : targetOffset positions (offsets instructions forms) label = .ok target) :
    OutOfReach positions forms index ↔
      isLongBranch ((offsets instructions forms).getD index 0) target := by
  simp [OutOfReach, inside, names, found]

/-- What a pass makes of one instruction. A short one with a label must have a target; it becomes
long exactly if the target is out of reach. All else keeps its form. -/
theorem widenAt_eq_ok {forms : Forms instructions} {index : Nat}
    (inside : index < instructions.size)
    {form : BranchForm} :
    widenAt instructions positions (offsets instructions forms) forms ⟨index, inside⟩ = .ok form ↔
      (∀ label, instructions[index].target? = some label → forms[index] = .short →
        ∃ target, targetOffset positions (offsets instructions forms) label = .ok target) ∧
      (form = .long ↔ forms[index] = .long ∨ OutOfReach positions forms index) := by
  have offset : entryAt (offsets instructions forms) index =
      .ok ((offsets instructions forms).getD index 0) :=
    entryAt_eq_ok.2 (getElem?_offsets inside.le)
  unfold widenAt OutOfReach
  simp only [Fin.getElem_fin, Array.getElem?_eq_getElem inside, Option.bind_some]
  cases names : instructions[index].target? with
  | none => cases chosen : forms[index] <;> cases form <;> simp [pure, Except.pure]
  | some label =>
    cases chosen : forms[index] with
    | long => cases form <;> simp [pure, Except.pure]
    | short =>
      cases found : targetOffset positions (offsets instructions forms) label with
      | error fault => simp [bind, Except.bind, found]
      | ok target =>
        simp only [offset, bind, Except.bind, pure, Except.pure]
        split <;> cases form <;> simp_all

/-- A list of forms in which some short ones have become long has fewer short ones. -/
theorem count_short_lt :
    ∀ {before after : List BranchForm}, before.length = after.length →
      (∀ i : Nat, after[i]? = before[i]? ∨ after[i]? = some .long) → after ≠ before →
      after.count .short < before.count .short
  | [], [], _, _, differ => absurd rfl differ
  | [], _ :: _, sameLength, _, _ => by simp at sameLength
  | _ :: _, [], sameLength, _, _ => by simp at sameLength
  | b :: before, a :: after, sameLength, wider, differ => by
    have tailWider : ∀ i : Nat, after[i]? = before[i]? ∨ after[i]? = some .long := fun i => by
      simpa using wider (i + 1)
    have tailLength : before.length = after.length := by simpa using sameLength
    have head := wider 0
    simp only [List.getElem?_cons_zero, Option.some.injEq] at head
    by_cases sameTail : after = before
    · subst sameTail
      have : a ≠ b := fun same => differ (by rw [same])
      cases a <;> cases b <;> simp_all
    · have shorter := count_short_lt tailLength tailWider sameTail
      cases a <;> cases b <;> grind

/-- A pass finds the targets of all short branches, and makes those long that are out of reach. -/
theorem widen_eq_ok {forms widened : Forms instructions} :
    widen instructions positions forms = .ok widened ↔
      (∀ (index : Nat) (inside : index < instructions.size) (label : Label),
        instructions[index].target? = some label → forms[index] = .short →
          ∃ target, targetOffset positions (offsets instructions forms) label = .ok target) ∧
      ∀ (index : Nat) (inside : index < instructions.size),
        widened[index] = .long ↔ forms[index] = .long ∨ OutOfReach positions forms index := by
  rw [widen, ofFnM_eq_ok]
  constructor
  · intro each
    exact ⟨fun index inside => ((widenAt_eq_ok inside).1 (each ⟨index, inside⟩)).1,
      fun index inside => ((widenAt_eq_ok inside).1 (each ⟨index, inside⟩)).2⟩
  · rintro ⟨targets, forms⟩ i
    exact (widenAt_eq_ok i.isLt).2 ⟨targets i i.isLt, forms i i.isLt⟩

/-- After a pass, what is long was long before or did not reach its target. -/
theorem long_widen {forms widened : Forms instructions}
    (pass : widen instructions positions forms = .ok widened) {index : Nat}
    (inside : index < instructions.size) :
    widened[index] = .long ↔ forms[index] = .long ∨ OutOfReach positions forms index :=
  (widen_eq_ok.1 pass).2 index inside

/-- A pass leaves fewer branches short exactly if it changes anything. -/
theorem count_widen_lt_iff {forms widened : Forms instructions}
    (pass : widen instructions positions forms = .ok widened) :
    widened.count .short < forms.count .short ↔ widened ≠ forms := by
  constructor
  · rintro fewer rfl
    exact Nat.lt_irrefl _ fewer
  · intro changed
    rw [← Vector.count_toList, ← Vector.count_toList]
    refine count_short_lt (by simp) (fun i => ?_) (fun same => changed (Vector.toList_inj.1 same))
    by_cases inside : i < instructions.size
    · have wider := long_widen pass inside
      simp only [Vector.getElem?_toList, Vector.getElem?_eq_getElem inside, Option.some.injEq]
      cases before : forms[i] with
      | long => exact .inr (wider.2 (.inl before))
      | short => cases widened[i] <;> simp
    · left
      rw [List.getElem?_eq_none (by simpa using Nat.le_of_not_lt inside),
        List.getElem?_eq_none (by simpa using Nat.le_of_not_lt inside)]

/-- Passes end with the first that changes nothing. -/
theorem settle_of_widen {forms widened : Forms instructions} (passes : Nat)
    (pass : widen instructions positions forms = .ok widened) :
    settle instructions positions forms passes =
      if widened = forms then
        .ok ⟨offsets instructions forms, records instructions forms, passes⟩
      else settle instructions positions widened (passes + 1) := by
  rw [settle, pass]
  show (if widened.count .short < forms.count .short then _ else _) = _
  by_cases same : widened = forms
  · subst same
    rw [if_pos rfl, if_neg (Nat.lt_irrefl _)]
    rfl
  · rw [if_neg same, if_pos ((count_widen_lt_iff pass).2 same)]

/-- What one pass keeps, all passes keep. They end with forms that another pass would not change. -/
theorem settle_run (keeps : Forms instructions → Prop) {layout : BranchLayout}
    (step : ∀ forms widened, keeps forms → widen instructions positions forms = .ok widened →
      keeps widened)
    {forms : Forms instructions} {passes : Nat} (start : keeps forms)
    (h : settle instructions positions forms passes = .ok layout) :
    ∃ settled total, layout = ⟨offsets instructions settled, records instructions settled, total⟩ ∧
      widen instructions positions settled = .ok settled ∧ keeps settled := by
  induction forms, passes using settle.induct with
  | case1 forms passes ih =>
    cases pass : widen instructions positions forms with
    | error fault =>
      rw [settle, pass] at h
      cases h
    | ok widened =>
      rw [settle_of_widen passes pass] at h
      split at h
      · next same =>
        cases h
        exact ⟨forms, passes, rfl, same ▸ pass, start⟩
      · next changed =>
        exact ih widened ((count_widen_lt_iff pass).2 changed)
          (step forms widened start pass) h

/-- A pass stops only at a label without an offset. -/
theorem exists_of_widen_eq_error {forms : Forms instructions} {fault : OutOfRange}
    (h : widen instructions positions forms = .error fault) :
    ∃ (index : Nat) (inside : index < instructions.size) (label : Label),
      instructions[index].target? = some label ∧
        targetOffset positions (offsets instructions forms) label = .error fault := by
  obtain ⟨⟨index, inside⟩, failed⟩ := exists_of_ofFnM_eq_error h
  have offset : entryAt (offsets instructions forms) index =
      .ok ((offsets instructions forms).getD index 0) :=
    entryAt_eq_ok.2 (getElem?_offsets inside.le)
  unfold widenAt at failed
  split at failed
  · next label names _ =>
    refine ⟨index, inside, label, names, ?_⟩
    rcases except_bind_eq_error.1 failed with missing | ⟨target, -, rest⟩
    · exact missing
    · rw [offset] at rest
      cases rest
  · cases failed

/-- Passes stop only at a label without an offset. -/
theorem exists_of_settle_eq_error {forms : Forms instructions} {passes : Nat} {fault : OutOfRange}
    (h : settle instructions positions forms passes = .error fault) :
    ∃ (last : Forms instructions) (index : Nat) (inside : index < instructions.size)
      (label : Label), instructions[index].target? = some label ∧
        targetOffset positions (offsets instructions last) label = .error fault := by
  induction forms, passes using settle.induct with
  | case1 forms passes ih =>
    cases pass : widen instructions positions forms with
    | error earlier =>
      rw [settle, pass] at h
      cases h
      exact ⟨forms, exists_of_widen_eq_error pass⟩
    | ok widened =>
      rw [settle_of_widen passes pass] at h
      split at h
      · cases h
      · next changed =>
        exact ih widened ((count_widen_lt_iff pass).2 changed) h

/-- If all labels are inside the code, passes find all targets. -/
theorem exists_settle (within : Within instructions positions) (forms : Forms instructions)
    (passes : Nat) : ∃ layout, settle instructions positions forms passes = .ok layout := by
  cases outcome : settle instructions positions forms passes with
  | ok layout => exact ⟨layout, rfl⟩
  | error fault =>
    obtain ⟨last, index, inside, label, names, missing⟩ := exists_of_settle_eq_error outcome
    rw [within.targetOffset last inside names] at missing
    cases missing

/-- Forms of an empty seed are short. -/
theorem seedForms_nil {index : Nat} (inside : index < instructions.size) :
    (seedForms instructions [])[index] = .short := by
  simp [seedForms]

/-- Without a seed, the first pass looks for the targets of all branches: they are inside the code
if it finds them. -/
theorem within_of_resolve {layout : BranchLayout}
    (h : resolve instructions positions [] = .ok layout) : Within instructions positions := by
  rw [resolve, settle, except_bind_eq_ok] at h
  obtain ⟨widened, pass, -⟩ := h
  intro instruction listed label names
  obtain ⟨index, inside, rfl⟩ := Array.mem_iff_getElem.1 listed
  obtain ⟨target, found⟩ := (widen_eq_ok.1 pass).1 index inside label names (seedForms_nil inside)
  obtain ⟨position, known, listed⟩ := targetOffset_eq_ok.1 found
  have small := (Array.getElem?_eq_some_iff.1 listed).1
  rw [size_offsets] at small
  exact ⟨position, Nat.le_of_lt_succ small, known⟩

/-! ## Records -/

/-- The records are those of the instructions that name a label, with their forms. -/
theorem mem_records {forms : Forms instructions} {record : BranchRecord} :
    record ∈ records instructions forms ↔ ∃ inside : record.source < instructions.size,
      instructions[record.source].target? = some record.target ∧
        forms[record.source] = record.form := by
  rw [records, List.mem_filterMap]
  constructor
  · rintro ⟨i, -, isRecord⟩
    obtain ⟨label, names, rfl⟩ := Option.map_eq_some_iff.1 isRecord
    exact ⟨i.isLt, names, rfl⟩
  · rintro ⟨inside, names, chosen⟩
    refine ⟨⟨record.source, inside⟩, List.mem_finRange _, ?_⟩
    exact Option.map_eq_some_iff.2 ⟨_, names, by simp only [Fin.getElem_fin, chosen]⟩

/-- The form of a branch is found among the records. -/
theorem formOf?_records {forms : Forms instructions} {passes index : Nat}
    (inside : index < instructions.size) {label : Label}
    (names : instructions[index].target? = some label) :
    BranchLayout.formOf? ⟨offsets instructions forms, records instructions forms, passes⟩ index =
      some forms[index] := by
  have listed : ⟨index, label, forms[index]⟩ ∈ records instructions forms :=
    mem_records.2 ⟨inside, names, rfl⟩
  obtain ⟨record, found⟩ : ∃ record, (records instructions forms).find?
      (fun branch => branch.source == index) = some record :=
    Option.isSome_iff_exists.1 (List.find?_isSome.2 ⟨_, listed, by simp⟩)
  have source : record.source = index := by simpa using List.find?_some found
  obtain ⟨_, -, chosen⟩ := mem_records.1 (List.mem_of_find?_eq_some found)
  subst source
  simp only [BranchLayout.formOf?, found, Option.map_some, chosen]

end Layout

end ExprCode
