import ExprCode.Proofs.ChainLowering
import ExprCode.Proofs.EmitterSteps

/-! # The labels of a chain

Main statement: `Frame.ensures_lower`. The lowering of a chain in which no operand occurs twice
never fails by itself, and it marks all labels that it defines, whatever state carries the emitter
and however operands are emitted, as long as these leave labels as they are.

The invariant is `Branches.Tally`: the labels that mark nothing are those from before the chain and,
one for each, those of the places that have not been reached. A place is branched to only before it
is reached, which is where it matters that no operand occurs twice. -/

namespace ExprCode

/-! ## Unmarked labels -/

namespace Emitter

/-- The labels that are defined and mark nothing yet. -/
def unmarked (emitter : Emitter) : Set Label :=
  {label | emitter.labels[label]? = some none}

/-- Between two states, nothing has changed but instructions and labels. -/
def Coded (before after : Emitter) : Prop :=
  after = { before with
    instructions := after.instructions, labels := after.labels, offset := after.offset }

namespace Coded

variable {first second third : Emitter}

/-- Nothing has changed between a state and itself. -/
theorem refl (emitter : Emitter) : Coded emitter emitter := rfl

/-- What two changes leave alone is left alone. -/
theorem trans (h : Coded first second) (h' : Coded second third) : Coded first third := by
  unfold Coded at h h' ⊢
  rw [h', h]

/-- An instruction is appended to the code. -/
theorem append (emitter : Emitter) (instruction : Instruction) :
    Coded emitter (emitter.append instruction) := rfl

end Coded

variable {emitter before after : Emitter} {label : Label} {allowed : Defect → Prop}

/-- A label that is unmarked is defined. -/
theorem lt_of_unmarked (h : label ∈ emitter.unmarked) : label < emitter.labels.size :=
  (Array.getElem?_eq_some_iff.1 h).1

/-- What is unmarked depends on the labels only. -/
theorem unmarked_of_labels (same : after.labels = before.labels) :
    after.unmarked = before.unmarked := by
  unfold unmarked
  rw [same]

/-- The next label is new. -/
theorem size_labels_notMem_unmarked : emitter.labels.size ∉ emitter.unmarked :=
  fun listed => Nat.lt_irrefl _ (lt_of_unmarked listed)

/-- A new label marks nothing. -/
theorem ensures_defineLabel :
    Ensures allowed defineLabel before fun label after => label = before.labels.size ∧
      after.unmarked = insert label before.unmarked ∧ Coded before after := by
  have run : defineLabel before =
      .ok before.labels.size { before with labels := before.labels.push none } := rfl
  refine .of_ok run ⟨rfl, ?_, rfl⟩
  ext label
  simp only [unmarked, Set.mem_ofPred_eq, Set.mem_insert_iff, Array.getElem?_push]
  split
  · next last => simp [last]
  · next other => simp [other]

/-- A label that marks nothing can be marked. -/
theorem ensures_markLabelAt (unmarked : label ∈ before.unmarked) (position : Nat) :
    Ensures allowed (markLabelAt label position) before fun _ after =>
      after.unmarked = before.unmarked \ {label} ∧
        after = { before with labels := after.labels } := by
  have found : before.labels[label]? = some none := unmarked
  have run : markLabelAt label position before =
      .ok () { before with labels := before.labels.setIfInBounds label (some position) } := by
    rw [markLabelAt_eq, found]
  refine .of_ok run ⟨?_, rfl⟩
  ext other
  simp only [Emitter.unmarked, Set.mem_ofPred_eq, Set.mem_sdiff, Set.mem_singleton_iff,
    Array.getElem?_setIfInBounds]
  by_cases same : label = other
  · subst same
    simp [lt_of_unmarked unmarked]
  · simp [same, Ne.symm same]

/-- A label that marks nothing is marked at the end of the instructions. -/
theorem ensures_markLabel (unmarked : label ∈ before.unmarked) :
    Ensures allowed (markLabel label) before fun _ after =>
      after.unmarked = before.unmarked \ {label} ∧ Coded before after := by
  refine .get_bind ((ensures_markLabelAt unmarked _).mono ?_)
  rintro _ after ⟨rest, same⟩
  refine ⟨rest, ?_⟩
  rw [Coded, same]

/-- An instruction that is not refused is appended. -/
theorem ensures_emit {instruction : Instruction} (accepted : before.refusal? instruction = none) :
    Ensures allowed (emit instruction) before fun _ after => after = before.append instruction := by
  have run : emit instruction before = .ok () (before.append instruction) := by
    rw [emit_eq, accepted]
  exact .of_ok run rfl

/-- A branch to a label that is defined is appended. -/
theorem ensures_emitBranch {condition : BranchCondition} {form : BranchForm}
    (defined : label < before.labels.size) :
    Ensures allowed (emitBranch (.branch condition form) label) before fun _ after =>
      after = before.append ⟨.branch condition .long, .label label⟩ := by
  have accepted : before.refusal? ⟨.branch condition .long, .label label⟩ = none := by
    simp [refusal?, Operand.fits, Opcode.operandKind, Instruction.localIndex?, Instruction.target?,
      Option.filter, defined]
  exact (ensures_emit accepted).bind fun _ after same => .of_ok rfl same

/-- A truth value is appended. -/
theorem ensures_emitLoadBool (value : Bool) :
    Ensures allowed (emitLoadBool value) before fun _ after => after.labels = before.labels ∧
      Coded before after := by
  have accepted : before.refusal? ⟨if value then .ldtrue else .ldfalse, .none⟩ = none := by
    cases value <;> rfl
  refine (ensures_emit accepted).mono fun _ after same => ?_
  subst same
  exact ⟨rfl, .append _ _⟩

end Emitter

/-! ## Places and their labels -/

namespace Branches

/-- The labels that mark nothing are those in `base`, which the chain does not touch, and those of
the places that are not `done`, one for each. Only certain places have labels. -/
structure Tally (base : Set Label) (places done : Set BranchKey) (state : Branches × Emitter) :
    Prop where
  /-- Only these places have labels. -/
  among : ∀ {key label}, state.1.find? key = some label → key ∈ places
  /-- The label of a place that was not reached marks nothing. -/
  waiting : ∀ {key label}, state.1.find? key = some label → key ∉ done →
    label ∈ state.2.unmarked ∧ label ∉ base
  /-- Places that were not reached have different labels. -/
  apart : ∀ {key other label}, state.1.find? key = some label → state.1.find? other = some label →
    key ∉ done → other ∉ done → key = other
  /-- There are no other labels that mark nothing. -/
  accounted : ∀ {label}, label ∈ state.2.unmarked → label ∈ base ∨
    ∃ key ∉ done, state.1.find? key = some label
  /-- The labels from before mark nothing still. -/
  kept : base ⊆ state.2.unmarked

variable {base : Set Label} {places done : Set BranchKey} {state after : Branches × Emitter}
  {key : BranchKey} {label : Label} {allowed : Defect → Prop}

namespace Tally

/-- Other parts of the state do not matter. -/
theorem congr (tally : Tally base places done state) (sameLabels : after.1.labels = state.1.labels)
    (sameUnmarked : after.2.unmarked = state.2.unmarked) : Tally base places done after := by
  have find : ∀ key, after.1.find? key = state.1.find? key := fun key => by
    rw [find?, sameLabels]
    rfl
  constructor
  · intro key label found
    exact tally.among (find key ▸ found)
  · intro key label found waits
    rw [sameUnmarked]
    exact tally.waiting (find key ▸ found) waits
  · intro key other label found foundOther
    exact tally.apart (find key ▸ found) (find other ▸ foundOther)
  · intro label listed
    simp only [find]
    exact tally.accounted (sameUnmarked ▸ listed)
  · rw [sameUnmarked]
    exact tally.kept

/-- A place gets a new label. -/
theorem define (tally : Tally base places done state) (place : key ∈ places)
    (absent : state.1.find? key = none) (waits : key ∉ done)
    (find : ∀ other, after.1.find? other = if other = key then some state.2.labels.size
      else state.1.find? other)
    (unmarked : after.2.unmarked = insert state.2.labels.size state.2.unmarked) :
    Tally base places done after := by
  -- no label that marks nothing has the number of the new one
  have new : ∀ label ∈ state.2.unmarked, label ≠ state.2.labels.size := fun label listed same =>
    Emitter.size_labels_notMem_unmarked (same ▸ listed)
  constructor
  · intro other label found
    rw [find] at found
    split at found
    · next same => exact same ▸ place
    · exact tally.among found
  · intro other label found waits
    rw [find] at found
    rw [unmarked]
    split at found
    · cases found
      exact ⟨Set.mem_insert _ _, fun listed => new _ (tally.kept listed) rfl⟩
    · obtain ⟨listed, outside⟩ := tally.waiting found waits
      exact ⟨Set.mem_insert_of_mem _ listed, outside⟩
  · intro first second label found foundSecond waits waitsSecond
    rw [find] at found foundSecond
    split at found <;> split at foundSecond
    · next same sameSecond => rw [same, sameSecond]
    · cases found
      exact absurd rfl (new _ (tally.waiting foundSecond waitsSecond).1)
    · cases foundSecond
      exact absurd rfl (new _ (tally.waiting found waits).1)
    · exact tally.apart found foundSecond waits waitsSecond
  · intro label listed
    rw [unmarked] at listed
    rcases Set.mem_insert_iff.1 listed with rfl | old
    · exact .inr ⟨key, waits, by rw [find, if_pos rfl]⟩
    · rcases tally.accounted old with inBase | ⟨other, waits, found⟩
      · exact .inl inBase
      · refine .inr ⟨other, waits, ?_⟩
        rw [find, if_neg, found]
        rintro rfl
        rw [absent] at found
        cases found
  · rw [unmarked]
    exact tally.kept.trans (Set.subset_insert _ _)

/-- A place is reached and its label marks it. -/
theorem reach (tally : Tally base places done state) (found : state.1.find? key = some label)
    (keyWaits : key ∉ done) (same : after.1 = state.1)
    (unmarked : after.2.unmarked = state.2.unmarked \ {label}) :
    Tally base places (insert key done) after := by
  constructor
  · intro other
    rw [same]
    exact tally.among
  · intro other otherLabel
    rw [same, unmarked]
    intro foundOther waits
    obtain ⟨differ, waits⟩ := not_or.1 waits
    obtain ⟨listed, outside⟩ := tally.waiting foundOther waits
    refine ⟨⟨listed, ?_⟩, outside⟩
    -- two places that wait do not share a label
    rintro rfl
    exact differ (tally.apart foundOther found waits keyWaits)
  · intro first second otherLabel
    rw [same]
    intro foundFirst foundSecond waits waitsSecond
    exact tally.apart foundFirst foundSecond (fun h => waits (.inr h)) fun h => waitsSecond (.inr h)
  · intro otherLabel listed
    rw [unmarked] at listed
    rcases tally.accounted listed.1 with inBase | ⟨other, waits, foundOther⟩
    · exact .inl inBase
    · -- the label of the place that is reached is no longer among them
      refine .inr ⟨other, ?_, by rw [same, foundOther]⟩
      rintro (rfl | isDone)
      · rw [found] at foundOther
        cases foundOther
        exact listed.2 rfl
      · exact waits isDone
  · rw [unmarked]
    intro old inBase
    refine ⟨tally.kept inBase, ?_⟩
    rintro rfl
    exact (tally.waiting found keyWaits).2 inBase

/-- A place without a label is reached. -/
theorem skip (tally : Tally base places done state) (absent : state.1.find? key = none) :
    Tally base places (insert key done) state := by
  constructor
  · exact tally.among
  · intro other label found waits
    exact tally.waiting found fun h => waits (.inr h)
  · intro first second label found foundSecond waits waitsSecond
    exact tally.apart found foundSecond (fun h => waits (.inr h)) fun h => waitsSecond (.inr h)
  · intro label listed
    rcases tally.accounted listed with inBase | ⟨other, waits, found⟩
    · exact .inl inBase
    · refine .inr ⟨other, ?_, found⟩
      rintro (rfl | isDone)
      · rw [absent] at found
        cases found
      · exact waits isDone
  · exact tally.kept

/-- Once all places are reached, only the labels from before mark nothing. -/
theorem unmarked_eq (tally : Tally base places done state) (all : places ⊆ done) :
    state.2.unmarked = base := by
  refine Set.Subset.antisymm (fun label listed => ?_) tally.kept
  rcases tally.accounted listed with inBase | ⟨key, waits, found⟩
  · exact inBase
  · exact absurd (all (tally.among found)) waits

end Tally

/-! ## Operations on places -/

/-- An operation on the emitter alone. -/
theorem ensures_emitting {α : Type} {operation : Emit α} {post : α → Emitter → Prop}
    (h : Ensures allowed operation state.2 post) :
    Ensures allowed (emitting operation) state fun value after =>
      after.1 = state.1 ∧ post value after.2 := by
  cases run : operation state.2 with
  | ok value emitter =>
    have same : emitting operation state = .ok value (state.1, emitter) := by
      simp only [emitting, run]
    exact .of_ok same ⟨rfl, h.post_of_ok run⟩
  | error defect emitter =>
    have same : emitting operation state = .error defect (state.1, emitter) := by
      simp only [emitting, run]
    exact .of_error same (h.allowed_of_error run)

/-- Labels of places are found in the order in which they were given. -/
theorem find?_append {branches : Branches} (label : Label) (absent : branches.find? key = none)
    (other : BranchKey) :
    Branches.find? { branches with labels := branches.labels ++ [(key, label)] } other =
      if other = key then some label else branches.find? other := by
  have look : Branches.find? { branches with labels := branches.labels ++ [(key, label)] } other =
      (branches.find? other).or ([(key, label)].lookup other) := List.lookup_append
  rw [look]
  split
  · next same =>
    subst same
    rw [absent]
    simp [List.lookup]
  · next differ =>
    have unequal : (other == key) = false := by simpa using differ
    simp [List.lookup, unequal]

/-- A place that was not reached has a label from now on. -/
theorem ensures_label (tally : Tally base places done state) (place : key ∈ places)
    (waits : key ∉ done) :
    Ensures allowed (Branches.label key) state fun label after =>
      Tally base places done after ∧ after.1.find? key = some label ∧ state.2.Coded after.2 := by
  unfold Branches.label
  refine .get_bind ?_
  cases found : state.1.find? key with
  | some label => exact .pure ⟨tally, found, .refl _⟩
  | none =>
    refine (ensures_emitting Emitter.ensures_defineLabel).bind ?_
    rintro label ⟨branches, emitter⟩ ⟨rfl, rfl, unmarked, coded⟩
    have find := find?_append state.2.labels.size found
    refine .bind_ok rfl (.pure ⟨tally.define place found waits find unmarked, ?_, coded⟩)
    exact (find key).trans (if_pos rfl)

/-- A branch to a place that was not reached is appended. -/
theorem ensures_addBranch {condition : BranchCondition} {form : BranchForm}
    (tally : Tally base places done state) (place : key ∈ places) (waits : key ∉ done) :
    Ensures allowed (addBranch (.branch condition form) key) state fun _ after =>
      Tally base places done after ∧ state.2.Coded after.2 := by
  unfold addBranch
  refine (ensures_label tally place waits).bind ?_
  rintro label middle ⟨tally, found, coded⟩
  have defined := Emitter.lt_of_unmarked (tally.waiting found waits).1
  refine (ensures_emitting (Emitter.ensures_emitBranch defined)).bind ?_
  rintro source ⟨branches, emitter⟩ ⟨rfl, rfl⟩
  refine .bind_ok rfl (.pure ⟨?_, coded.trans (.append _ _)⟩)
  exact tally.congr rfl rfl

/-- A place is reached, and its label, if it has one, marks it. -/
theorem ensures_mark (tally : Tally base places done state) (waits : key ∉ done) :
    Ensures allowed (mark key) state fun _ after =>
      Tally base places (insert key done) after ∧ state.2.Coded after.2 := by
  unfold mark
  refine .get_bind ?_
  cases found : state.1.find? key with
  | none => exact .pure ⟨tally.skip found, .refl _⟩
  | some label =>
    have unmarked := (tally.waiting found waits).1
    refine (ensures_emitting (Emitter.ensures_markLabel unmarked)).bind ?_
    rintro _ after ⟨same, unmarked, coded⟩
    exact .pure ⟨tally.reach found waits same unmarked, coded⟩

end Branches

/-! ## Chains in any state -/

/-- A state from which the emitter is read as it was put there. -/
class LawfulHasEmitter (σ : Type) [HasEmitter σ] : Prop where
  /-- The emitter that was put there is found. -/
  emitter_withEmitter : ∀ (state : σ) (emitter : Emitter),
    HasEmitter.emitter (HasEmitter.withEmitter state emitter) = emitter

/-- An emitter lies in itself. -/
instance : LawfulHasEmitter Emitter where
  emitter_withEmitter _ _ := rfl

namespace Frame

open Branches (Tally)

/-- The operands of a chain as places. -/
def operandPlaces (nodes : List NodeId) : Set BranchKey :=
  {key | ∃ node ∈ nodes, key = .operand node}

/-- The places behind a chain. -/
def endPlaces : Set BranchKey := {.falseTerminal, .trueTerminal, .finish}

variable {base : Set Label} {places done : Set BranchKey} {allowed : Defect → Prop}

section Ends

variable {state : Branches × Emitter}

/-- The end of a chain is marked. -/
theorem ensures_emitFinish (tally : Tally base places done state) (place : .finish ∈ places)
    (waits : .finish ∉ done) :
    Ensures allowed emitFinish state fun _ after =>
      Tally base places (insert .finish done) after ∧ state.2.Coded after.2 := by
  refine (Branches.ensures_label tally place waits).bind ?_
  rintro label middle ⟨tally, found, coded⟩
  have unmarked := (tally.waiting found waits).1
  refine (Branches.ensures_emitting (Emitter.ensures_markLabel unmarked)).mono ?_
  rintro _ after ⟨same, unmarked, codedToo⟩
  exact ⟨tally.reach found waits same unmarked, coded.trans codedToo⟩

/-- The place where the result is made true is reached, and then the end. -/
theorem ensures_emitTrue (tally : Tally base places done state) (place : .finish ∈ places)
    (waits : .finish ∉ done) (waitsTrue : .trueTerminal ∉ done) :
    Ensures allowed emitTrue state fun _ after =>
      Tally base places (insert .finish (insert .trueTerminal done)) after ∧
        state.2.Coded after.2 := by
  have waitsBehind : .finish ∉ insert .trueTerminal done := by simpa using waits
  refine (Branches.ensures_mark tally waitsTrue).bind ?_
  rintro marked middle ⟨tally, coded⟩
  cases marked with
  | none =>
    refine (ensures_emitFinish tally place waitsBehind).mono ?_
    exact fun _ _ ⟨tally, codedToo⟩ => ⟨tally, coded.trans codedToo⟩
  | some label =>
    refine (Branches.ensures_emitting (Emitter.ensures_emitLoadBool true)).bind ?_
    rintro _ pushed ⟨same, sameLabels, codedPush⟩
    have tally := tally.congr (congrArg _ same) (Emitter.unmarked_of_labels sameLabels)
    refine (ensures_emitFinish tally place waitsBehind).mono ?_
    exact fun _ _ ⟨tally, codedToo⟩ => ⟨tally, coded.trans (codedPush.trans codedToo)⟩

/-- The places behind a chain are reached. -/
theorem ensures_emitTerminals (tally : Tally base places done state) (ends : endPlaces ⊆ places)
    (waits : ∀ key ∈ endPlaces, key ∉ done) :
    Ensures allowed emitTerminals state fun _ after =>
      Tally base places (done ∪ endPlaces) after ∧ state.2.Coded after.2 := by
  have place : .finish ∈ places := ends (by simp [endPlaces])
  have waitsFinish : .finish ∉ insert .falseTerminal done := by
    simpa using waits .finish (by simp [endPlaces])
  have waitsTrue : .trueTerminal ∉ insert .falseTerminal done := by
    simpa using waits .trueTerminal (by simp [endPlaces])
  have all : insert .finish (insert .trueTerminal (insert .falseTerminal done)) =
      done ∪ endPlaces := by
    ext key
    simp only [endPlaces, Set.mem_insert_iff, Set.mem_union, Set.mem_singleton_iff]
    tauto
  rw [← all]
  -- the places are marked in this order: false, true, finish
  refine .get_bind ((Branches.ensures_mark tally (waits _ (by simp [endPlaces]))).bind ?_)
  rintro marked middle ⟨tally, coded⟩
  cases marked with
  | none =>
    refine (ensures_emitTrue tally place waitsFinish waitsTrue).mono ?_
    exact fun _ _ ⟨tally, codedToo⟩ => ⟨tally, coded.trans codedToo⟩
  | some label =>
    refine (Branches.ensures_emitting (Emitter.ensures_emitLoadBool false)).bind ?_
    rintro _ pushed ⟨same, sameLabels, codedPush⟩
    have coded := coded.trans codedPush
    have tally := tally.congr (congrArg _ same) (Emitter.unmarked_of_labels sameLabels)
    cases hasTrue : (state.1.find? .trueTerminal).isSome with
    | false =>
      refine (ensures_emitTrue tally place waitsFinish waitsTrue).mono ?_
      exact fun _ _ ⟨tally, codedToo⟩ => ⟨tally, coded.trans codedToo⟩
    | true =>
      refine (Branches.ensures_addBranch tally place waitsFinish).bind ?_
      rintro _ left ⟨tally, codedBranch⟩
      refine (ensures_emitTrue tally place waitsFinish waitsTrue).mono ?_
      exact fun _ _ ⟨tally, codedToo⟩ => ⟨tally, coded.trans (codedBranch.trans codedToo)⟩

end Ends

section States

variable {σ : Type} [HasEmitter σ] [LawfulHasEmitter σ] {permitted : CompileError → Prop}
  {within : σ → Prop} {state : Frame × σ}

/-- Code of an operand that fails only as permitted, keeps within some states and leaves as many
labels unmarked as it finds. -/
def Steady (permitted : CompileError → Prop) (within : σ → Prop)
    (code : EStateM CompileError σ Unit) : Prop :=
  ∀ state, within state → Ensures permitted code state fun _ after =>
    within after ∧ (HasEmitter.emitter after).unmarked = (HasEmitter.emitter state).unmarked

/-- Instructions and labels may be added without leaving these states. -/
def Admits (within : σ → Prop) : Prop :=
  ∀ state emitter, within state → (HasEmitter.emitter state).Coded emitter →
    within (HasEmitter.withEmitter state emitter)

/-- An operation on branch targets and the emitter. -/
theorem ensures_branching {α : Type} {operation : Branching α}
    {post : α → Branches × Emitter → Prop}
    (h : Ensures (fun defect => permitted (.defect defect)) operation
      (state.1.branches, HasEmitter.emitter state.2) post) :
    Ensures permitted (branching operation) state fun value after =>
      post value (after.1.branches, HasEmitter.emitter after.2) ∧
        after.2 = HasEmitter.withEmitter state.2 (HasEmitter.emitter after.2) := by
  cases run : operation (state.1.branches, HasEmitter.emitter state.2) with
  | ok value pair =>
    have same : branching operation state = .ok value
        ({ state.1 with branches := pair.1 }, HasEmitter.withEmitter state.2 pair.2) := by
      simp only [branching, run]
    refine .of_ok same ?_
    simp only [LawfulHasEmitter.emitter_withEmitter, and_true]
    exact h.post_of_ok run
  | error defect pair =>
    have same : branching operation state = .error (.defect defect)
        ({ state.1 with branches := pair.1 }, HasEmitter.withEmitter state.2 pair.2) := by
      simp only [branching, run]
    exact .of_error same (h.allowed_of_error run)

omit [HasEmitter σ] [LawfulHasEmitter σ] in
/-- An operation that does not concern the frame. -/
theorem ensures_outside {α : Type} {operation : EStateM CompileError σ α} {post : α → σ → Prop}
    (h : Ensures permitted operation state.2 post) :
    Ensures permitted (outside operation) state fun value after =>
      after.1 = state.1 ∧ post value after.2 := by
  cases run : operation state.2 with
  | ok value rest =>
    have same : outside operation state = .ok value (state.1, rest) := by
      simp only [outside, run]
    exact .of_ok same ⟨rfl, h.post_of_ok run⟩
  | error error rest =>
    have same : outside operation state = .error error (state.1, rest) := by
      simp only [outside, run]
    exact .of_error same (h.allowed_of_error run)

/-- The labels of a frame are accounted for, and its state is one of those that are kept. -/
def Accounted (base : Set Label) (places done : Set BranchKey) (within : σ → Prop)
    (state : Frame × σ) : Prop :=
  Tally base places done (state.1.branches, HasEmitter.emitter state.2) ∧ within state.2

/-- Operations on branch targets keep an account. -/
theorem Accounted.branching {α : Type} {operation : Branching α} {newDone : Set BranchKey}
    (admits : Admits within) (accounted : Accounted base places done within state)
    (h : Tally base places done (state.1.branches, HasEmitter.emitter state.2) →
      Ensures (fun defect => permitted (.defect defect)) operation
        (state.1.branches, HasEmitter.emitter state.2) fun _ after =>
          Tally base places newDone after ∧ (HasEmitter.emitter state.2).Coded after.2) :
    Ensures permitted (branching operation) state fun _ after =>
      Accounted base places newDone within after := by
  refine (ensures_branching (h accounted.1)).mono ?_
  rintro _ after ⟨⟨tally, coded⟩, same⟩
  refine ⟨tally, ?_⟩
  rw [same]
  exact admits _ _ accounted.2 coded

/-- An operand is emitted and reached. -/
theorem ensures_emitOperand {operand : ChainOperand σ} (admits : Admits within)
    (steady : Steady permitted within operand.code) (waits : operand.place ∉ done)
    (accounted : Accounted base places done within state) :
    Ensures permitted (emitOperand operand) state fun _ after =>
      Accounted base places (insert operand.place done) within after := by
  refine (accounted.branching admits fun tally => Branches.ensures_mark tally waits).bind ?_
  rintro _ middle ⟨tally, inside⟩
  refine (ensures_outside (steady _ inside)).mono ?_
  rintro _ after ⟨same, inside, unmarked⟩
  exact ⟨tally.congr (by rw [same]) unmarked, inside⟩

/-- A part of a chain is emitted along its tree, and all its operands are reached. -/
theorem ensures_emitTree {chain : Chain (ChainOperand σ)} {exits : Bool → BranchKey}
    (admits : Admits within)
    (steady : ∀ operand ∈ chain.operands, Steady permitted within operand.code)
    (nodup : chain.nodes.Nodup) (inPlaces : operandPlaces chain.nodes ⊆ places)
    (exitPlaces : ∀ value, exits value ∈ places)
    (fresh : ∀ value, ∀ node ∈ chain.nodes, exits value ≠ .operand node)
    (waits : ∀ node ∈ chain.nodes, .operand node ∉ done) (exitsWait : ∀ value, exits value ∉ done)
    (accounted : Accounted base places done within state) :
    Ensures permitted (emitTree chain exits) state fun _ after =>
      Accounted base places (done ∪ operandPlaces chain.nodes) within after := by
  induction chain generalizing exits done state with
  | operand operand =>
    have reached : insert operand.place done =
        done ∪ operandPlaces (Chain.operand operand).nodes := by
      ext key
      simp [operandPlaces, Chain.nodes, Chain.operands, ChainOperand.place, or_comm]
    rw [emitTree, ← reached]
    exact ensures_emitOperand admits (steady operand List.mem_cons_self)
      (waits operand.node List.mem_cons_self) accounted
  | joined connective left right ihLeft ihRight =>
    rw [Chain.nodes_joined] at nodup inPlaces fresh waits ⊢
    rw [Chain.operands, List.forall_mem_append] at steady
    obtain ⟨leftNodup, rightNodup, disjoint⟩ := List.nodup_append.1 nodup
    obtain ⟨leftWaits, rightWaits⟩ := List.forall_mem_append.1 waits
    have firstPlace : right.first.place ∈ operandPlaces right.nodes := by
      obtain ⟨others, split⟩ := right.nodes_eq_cons
      exact ⟨right.first.node, split ▸ List.mem_cons_self, rfl⟩
    have together : operandPlaces (left.nodes ++ right.nodes) =
        operandPlaces left.nodes ∪ operandPlaces right.nodes := by
      ext key
      simp [operandPlaces, or_and_right, exists_or]
    rw [together] at inPlaces ⊢
    obtain ⟨leftPlaces, rightPlaces⟩ := Set.union_subset_iff.1 inPlaces
    -- behind the left part its operands are done, and none of them is branched to any more
    have exitsWaitBehind : ∀ value, exits value ∉ done ∪ operandPlaces left.nodes := by
      rintro value (isDone | ⟨node, member, same⟩)
      · exact exitsWait value isDone
      · exact fresh value node (List.mem_append_left _ member) same
    have rightWaitsBehind : ∀ node ∈ right.nodes,
        .operand node ∉ done ∪ operandPlaces left.nodes := by
      rintro node member (isDone | ⟨other, inLeft, same⟩)
      · exact rightWaits node member isDone
      · cases same
        exact disjoint node inLeft node member rfl
    have leftExits : ∀ value, Chain.leftExits connective right exits value ∈ places ∧
        Chain.leftExits connective right exits value ∉ done := by
      intro value
      unfold Chain.leftExits
      split
      · exact ⟨exitPlaces value, exitsWait value⟩
      · have isPlace := rightPlaces firstPlace
        obtain ⟨node, member, same⟩ := firstPlace
        exact ⟨isPlace, same ▸ rightWaits node member⟩
    have leftRun : Ensures permitted (emitTree left (Chain.leftExits connective right exits)) state
        fun _ after => Accounted base places (done ∪ operandPlaces left.nodes) within after :=
      ihLeft steady.1 leftNodup leftPlaces (fun value => (leftExits value).1)
        (Chain.leftExits_ne nodup fresh) leftWaits (fun value => (leftExits value).2) accounted
    rw [emitTree, Chain.decidingBranch_eq]
    refine leftRun.bind fun _ tested accounted => ?_
    refine (accounted.branching admits fun tally => Branches.ensures_addBranch tally
      (exitPlaces _) (exitsWaitBehind _)).bind fun _ next accounted => ?_
    rw [← Set.union_assoc]
    exact ihRight steady.2 rightNodup rightPlaces exitPlaces
      (fun value node member => fresh value node (List.mem_append_right _ member))
      rightWaitsBehind exitsWaitBehind accounted

/-- **Lowering marks all its labels.** The code of a chain whose operands are different nodes is
emitted in a new frame; it fails only where the code of an operand does, and in the end as many
labels are unmarked as before. -/
theorem ensures_lower {connective : Connective} {left right : Chain (ChainOperand σ)} {rest : σ}
    (admits : Admits within)
    (steady : ∀ operand ∈ (Chain.joined connective left right).operands,
      Steady permitted within operand.code)
    (nodup : (Chain.joined connective left right).nodes.Nodup) (inside : within rest) :
    Ensures permitted (lower (.joined connective left right)) (({} : Frame), rest) fun _ after =>
      within after.2 ∧
        (HasEmitter.emitter after.2).unmarked = (HasEmitter.emitter rest).unmarked := by
  let chain : Chain (ChainOperand σ) := .joined connective left right
  let places := operandPlaces chain.nodes ∪ endPlaces
  have start : Accounted (HasEmitter.emitter rest).unmarked places ∅ within
      (({ state := .branching } : Frame), rest) :=
    ⟨⟨nofun, nofun, nofun, fun listed => .inl listed, Set.Subset.rfl⟩, inside⟩
  have endsWait : ∀ key ∈ endPlaces, key ∉ ∅ ∪ operandPlaces chain.nodes := by
    rintro key isEnd (h | ⟨node, -, rfl⟩)
    · exact h
    · simp [endPlaces] at isEnd
  have exitPlaces : ∀ value, Chain.terminals value ∈ places := by
    intro value
    cases value <;>
      simp [places, endPlaces, Chain.terminals, Chain.terminal, Chain.decidedConnective]
  -- no place is done at first; those of the operands are done when the tree is emitted
  have tree : Ensures permitted (emitTree chain Chain.terminals) _ _ :=
    ensures_emitTree admits steady nodup Set.subset_union_left exitPlaces
      (fun value _ _ same => by cases value <;> cases same)
      (fun _ _ => Set.notMem_empty _) (fun _ => Set.notMem_empty _) start
  unfold Ensures
  rw [lower_eq]
  refine tree.bind fun _ last accounted => ?_
  refine (accounted.branching admits fun tally => Branches.ensures_addBranch tally
    (.inr (by simp [endPlaces])) (endsWait _ (by simp [endPlaces]))).bind fun _ behind accounted =>
      ?_
  refine (accounted.branching admits fun tally => ensures_emitTerminals tally
    Set.subset_union_right endsWait).bind fun _ stop accounted => ?_
  refine .of_ok rfl ⟨accounted.2, accounted.1.unmarked_eq ?_⟩
  rw [Set.empty_union]

end States

end Frame

end ExprCode
