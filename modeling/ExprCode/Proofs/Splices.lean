import ExprCode.Proofs.CleanOperations
import ExprCode.Proofs.RoundTrip

/-! # What a splice does

Main statement: `splice_eq_ok_iff`. A child is spliced into a parent that is as large as it was when
the child was forked, if no label is marked in both; the parent becomes `graft parent child`. There
the instructions of the child stand behind those of the parent, the marks of both are kept, those of
the child moved along with its instructions, and locals and tables are those of the child. -/

namespace ExprCode.Emitter

/-- The emitter that a splice makes of a parent and a child. -/
def graft (parent child : Emitter) : Emitter :=
  { parent with
    instructions := parent.instructions ++ child.instructions
    labels := Array.ofFn fun label : Fin (max parent.labels.size child.labels.size) =>
      (parent.labelPosition? label).or
        ((child.labelPosition? label).map (parent.instructions.size + ·))
    offset := parent.offset + child.offset
    locals := child.locals
    strings := child.strings
    types := child.types
    functions := child.functions }

/-- No label is marked in both emitters. -/
def Apart (parent child : Emitter) : Prop :=
  ∀ label, parent.labelPosition? label = none ∨ child.labelPosition? label = none

variable {parent child before after : Emitter} {label : Label}

/-! ## Labels -/

/-- Labels are known from their number and from what they mark. -/
theorem labels_eq {first second : Array (Option Nat)} (size : first.size = second.size)
    (marks : ∀ label : Label, first[label]?.join = second[label]?.join) : first = second := by
  refine Array.ext size fun label inFirst inSecond => ?_
  have same := marks label
  rwa [Array.getElem?_eq_getElem inFirst, Array.getElem?_eq_getElem inSecond] at same

/-- A label that is not defined marks nothing. -/
theorem labelPosition?_eq_none_of_le (undefined : before.labels.size ≤ label) :
    before.labelPosition? label = none := by
  rw [labelPosition?, Array.getElem?_eq_none undefined]
  rfl

/-- A label marks nothing if it is waiting to be marked or not defined at all. -/
theorem labelPosition?_eq_none_iff :
    before.labelPosition? label = none ↔ label ∈ before.unmarked ∨ before.labels.size ≤ label := by
  rw [labelPosition?]
  by_cases defined : label < before.labels.size
  · rw [unmarked, Set.mem_ofPred_eq, Array.getElem?_eq_getElem defined]
    cases before.labels[label] <;> simp [defined]
  · have undefined := Nat.le_of_not_lt defined
    simp [undefined]

/-- A graft has the labels of both. -/
@[simp] theorem size_labels_graft :
    (graft parent child).labels.size = max parent.labels.size child.labels.size := by
  simp [graft]

/-- A label marks what it marks in the parent, or else what it marks in the child, moved along. -/
@[simp] theorem labelPosition?_graft :
    (graft parent child).labelPosition? label =
      (parent.labelPosition? label).or
        ((child.labelPosition? label).map (parent.instructions.size + ·)) := by
  by_cases defined : label < max parent.labels.size child.labels.size
  · rw [labelPosition?, graft, Array.getElem?_eq_getElem (by simpa using defined)]
    simp
  · have undefined := Nat.le_of_not_lt defined
    rw [labelPosition?_eq_none_of_le (by simpa using undefined),
      labelPosition?_eq_none_of_le (by omega), labelPosition?_eq_none_of_le (by omega)]
    rfl

/-! ## Marks that a splice makes -/

/-- Labels that were marked one after the other marked nothing before. -/
theorem unmarked_of_forM_markLabelAt {marked : List (Label × Nat)} {base : Nat}
    (h : (marked.forM fun (label, position) => markLabelAt label (base + position)) before =
      .ok () after) :
    ∀ mark ∈ marked, mark.1 ∈ before.unmarked := by
  induction marked generalizing before with
  | nil => exact fun _ listed => absurd listed List.not_mem_nil
  | cons mark marked ih =>
    obtain ⟨label, position⟩ := mark
    obtain ⟨_, middle, markRun, rest⟩ := bind_eq_ok h
    obtain ⟨unmarked, rfl⟩ := markLabelAt_eq_ok markRun
    refine List.forall_mem_cons.2 ⟨unmarked, fun other listed => ?_⟩
    -- what marks nothing later marked nothing before
    have later := ih rest other listed
    rw [Emitter.unmarked, Set.mem_ofPred_eq, Array.getElem?_setIfInBounds] at later
    split at later
    · next same =>
      split at later <;> cases later
    · exact later

/-- What a splice consists of, if it is not stale. -/
theorem splice_of_fresh (fresh : child.forkedFrom = some before.forkPoint) :
    splice child before = (do
      child.marks.forM fun (label, position) =>
        markLabelAt label (before.instructions.size + position)
      modify fun emitter =>
        { emitter with
          instructions := emitter.instructions ++ child.instructions
          offset := emitter.offset + child.offset
          locals := child.locals
          strings := child.strings
          types := child.types
          functions := child.functions } : Emit Unit) (before.extendLabels child.labels.size) := by
  have read : (get : Emit Emitter) before = .ok before before := rfl
  unfold splice
  rw [bind_of_ok read, if_pos fresh]
  rfl

/-- A splice that is stale changes nothing. -/
theorem splice_of_stale (stale : child.forkedFrom ≠ some before.forkPoint) :
    splice child before = .error .staleFork before := by
  have read : (get : Emit Emitter) before = .ok before before := rfl
  unfold splice
  rw [bind_of_ok read, if_neg stale]
  rfl

section Marking

variable {marked : Emitter}
  (marking : (child.marks.forM fun (label, position) =>
    markLabelAt label (before.instructions.size + position))
      (before.extendLabels child.labels.size) =
      .ok () marked)

include marking

/-- The marks of the child can be made only where the parent has none. -/
theorem apart_of_marking : Apart before child := by
  intro label
  cases inChild : child.labelPosition? label with
  | none => exact .inr rfl
  | some position =>
    refine .inl ?_
    have listed := mem_marks.2 (labelPosition?_eq_some.1 inChild)
    have unmarked : label ∈ (before.extendLabels child.labels.size).unmarked :=
      unmarked_of_forM_markLabelAt marking _ listed
    rw [unmarked_extendLabels] at unmarked
    exact labelPosition?_eq_none_iff.2 (unmarked.imp_right And.left)

/-- When they are made, labels are marked as in the graft. -/
theorem labels_of_marking : marked.labels = (graft before child).labels := by
  obtain ⟨-, size, origin⟩ := afterwards_forM_markLabelAt child.marks before.instructions.size
    (before.extendLabels child.labels.size)
  simp only [afterwards, marking] at size origin
  obtain ⟨-, grows, made⟩ : _ ∧ Grows {} _ _ ∧ _ := forM_markLabelAt_eq_ok marking
  refine labels_eq (by rw [size, size_extendLabels, size_labels_graft]) fun label => ?_
  change marked.labelPosition? label = (graft before child).labelPosition? label
  refine Option.ext fun position => ?_
  rw [labelPosition?_eq_some, labelPosition?_graft, Option.or_eq_some_iff,
    Option.map_eq_some_iff]
  constructor
  · intro now
    -- a mark was there before, or it is one of the child
    rcases origin label position now with earlier | ⟨place, listed, rfl⟩
    · exact .inl (labelPosition?_eq_some.2 (marked_of_extendLabels earlier))
    · have inChild := labelPosition?_eq_some.2 (mem_marks.1 listed)
      refine .inr ⟨(apart_of_marking marking label).resolve_right ?_, place, inChild, rfl⟩
      simp [inChild]
  · rintro (inParent | ⟨-, place, inChild, rfl⟩)
    · exact grows.labels label position
        (Extends.append _ _ label _ (labelPosition?_eq_some.1 inParent))
    · exact made label place (mem_marks.2 (labelPosition?_eq_some.1 inChild))

end Marking

/-- What a splice needs and what it makes. -/
theorem graft_of_splice (h : splice child before = .ok () after) :
    child.forkedFrom = some before.forkPoint ∧ Apart before child ∧ after = graft before child := by
  by_cases fresh : child.forkedFrom = some before.forkPoint
  · rw [splice_of_fresh fresh] at h
    obtain ⟨_, marked, marking, last⟩ := bind_eq_ok h
    cases last
    obtain ⟨same, -, -⟩ := afterwards_forM_markLabelAt child.marks before.instructions.size
      (before.extendLabels child.labels.size)
    simp only [afterwards, marking] at same
    refine ⟨fresh, apart_of_marking marking, ?_⟩
    rw [labels_of_marking marking] at same
    rw [same]
    rfl
  · rw [splice_of_stale fresh] at h
    cases h

/-- **What a splice does.** It succeeds if the parent is as large as it was when the child was
forked and no label is marked in both, and it makes the graft of the two. -/
theorem splice_eq_ok_iff :
    splice child before = .ok () after ↔
      child.forkedFrom = some before.forkPoint ∧ Apart before child ∧
        after = graft before child := by
  refine ⟨graft_of_splice, ?_⟩
  rintro ⟨fresh, apart, rfl⟩
  -- it is enough that the splice succeeds: then it makes the graft
  suffices succeeds : ∃ result, splice child before = .ok () result by
    obtain ⟨result, run⟩ := succeeds
    rw [run, (graft_of_splice run).2.2]
  have waiting : ∀ mark ∈ child.marks,
      mark.1 ∈ (before.extendLabels child.labels.size).unmarked := by
    rintro ⟨label, place⟩ listed
    have inChild := mem_marks.1 listed
    have unmarked := (apart label).resolve_right (by simp [labelPosition?_eq_some.2 inChild])
    rw [unmarked_extendLabels]
    refine (labelPosition?_eq_none_iff.1 unmarked).imp_right fun new => ⟨new, ?_⟩
    exact (Array.getElem?_eq_some_iff.1 inChild).1
  have marking : Ensures (fun _ => False) (child.marks.forM fun (label, position) =>
      markLabelAt label (before.instructions.size + position))
      (before.extendLabels child.labels.size) _ :=
    ensures_forM_markLabelAt (nodup_marks child) waiting
  obtain ⟨_, marked, run⟩ := marking.exists_ok
  rw [splice_of_fresh fresh, bind_of_ok run]
  exact ⟨_, rfl⟩

/-- A label that is defined and cannot be marked is marked already. -/
theorem markLabelAt_of_defined {position : Nat} {defect : Defect}
    (defined : label < before.labels.size)
    (failed : markLabelAt label position before = .error defect after) :
    defect = .labelAlreadyMarked label ∧ ∃ mark, before.labelPosition? label = some mark := by
  rw [markLabelAt_eq, Array.getElem?_eq_getElem defined] at failed
  rw [labelPosition?, Array.getElem?_eq_getElem defined, Option.join_some]
  cases mark : before.labels[label] with
  | none =>
    rw [mark] at failed
    cases failed
  | some position =>
    rw [mark] at failed
    cases failed
    exact ⟨rfl, position, rfl⟩

/-- Marking distinct labels fails at one that is marked. -/
theorem forM_markLabelAt_eq_error {marked : List (Label × Nat)} {base : Nat} {defect : Defect}
    (defined : ∀ mark ∈ marked, mark.1 < before.labels.size)
    (distinct : (marked.map Prod.fst).Nodup)
    (h : (marked.forM fun (label, position) => markLabelAt label (base + position)) before =
      .error defect after) :
    ∃ mark ∈ marked, defect = .labelAlreadyMarked mark.1 ∧
      ∃ position, before.labelPosition? mark.1 = some position := by
  induction marked generalizing before with
  | nil => cases h
  | cons mark marked ih =>
    obtain ⟨label, place⟩ := mark
    rcases bind_eq_error h with failed | ⟨_, middle, markRun, rest⟩
    · change markLabelAt label (base + place) before = .error defect after at failed
      have inside : label < before.labels.size := defined (label, place) List.mem_cons_self
      exact ⟨(label, place), List.mem_cons_self, markLabelAt_of_defined inside failed⟩
    · obtain ⟨-, rfl⟩ := markLabelAt_eq_ok markRun
      rw [List.map_cons, List.nodup_cons] at distinct
      obtain ⟨other, listed, reason, position, marks⟩ := ih
        (by simpa using fun label place listed =>
          defined (label, place) (List.mem_cons_of_mem _ listed))
        distinct.2 rest
      refine ⟨other, List.mem_cons_of_mem _ listed, reason, position, ?_⟩
      -- the label that was marked in between is another one
      rcases marked_of_set (labelPosition?_eq_some.1 marks) with ⟨same, -⟩ | old
      · exact absurd (List.mem_map.2 ⟨other, listed, same⟩) distinct.1
      · exact labelPosition?_eq_some.2 old

/-- A splice of a path that has marked a label of its parent fails at such a label, and changes
nothing but labels. -/
theorem splice_of_clash (fresh : child.forkedFrom = some before.forkPoint)
    (clash : ¬ Apart before child) :
    ∃ (label : Label) (after : Emitter),
      splice child before = .error (.labelAlreadyMarked label) after ∧
        after = { before with labels := after.labels } ∧
        (∃ position, before.labelPosition? label = some position) ∧
        ∃ position, child.labelPosition? label = some position := by
  have split := splice_of_fresh fresh
  cases run : (child.marks.forM fun (label, position) =>
      markLabelAt label (before.instructions.size + position))
      (before.extendLabels child.labels.size) with
  | ok value marked =>
    -- all marks can be made only if none of them is there already
    rw [bind_of_ok run] at split
    exact absurd (graft_of_splice split).2.1 clash
  | error defect marked =>
    rw [bind_of_error run] at split
    -- the parent has got all labels of the child, so the one that fails is marked
    have defined : ∀ mark ∈ child.marks,
        mark.1 < (before.extendLabels child.labels.size).labels.size := by
      intro mark listed
      have inside := (Array.getElem?_eq_some_iff.1 (mem_marks.1 listed)).1
      rw [size_extendLabels]
      exact Nat.lt_of_lt_of_le inside (Nat.le_max_right _ _)
    obtain ⟨mark, listed, rfl, position, marks⟩ :=
      forM_markLabelAt_eq_error defined (nodup_marks child) run
    obtain ⟨same, -, -⟩ := afterwards_forM_markLabelAt child.marks before.instructions.size
      (before.extendLabels child.labels.size)
    simp only [afterwards, run] at same
    have marksBefore := marked_of_extendLabels (labelPosition?_eq_some.1 marks)
    exact ⟨mark.1, marked, split, same, ⟨position, labelPosition?_eq_some.2 marksBefore⟩, mark.2,
      labelPosition?_eq_some.2 (mem_marks.1 listed)⟩

/-- A splice that fails changes nothing but labels. -/
theorem eq_of_splice_error {defect : Defect} (h : splice child before = .error defect after) :
    after = { before with labels := after.labels } := by
  by_cases fresh : child.forkedFrom = some before.forkPoint
  · by_cases apart : Apart before child
    · rw [splice_eq_ok_iff.2 ⟨fresh, apart, rfl⟩] at h
      cases h
    · obtain ⟨_, _, failed, same, -⟩ := splice_of_clash fresh apart
      rw [failed] at h
      cases h
      exact same
  · rw [splice_of_stale fresh] at h
    cases h
    rfl

/-! ## What all operations keep -/

/-- What is kept between two states of one emitter: labels stay defined and marked where they are,
and the limit of the locals and the parent stay. -/
structure Keeps (before after : Emitter) : Prop where
  /-- Labels become more. -/
  labels : before.labels.size ≤ after.labels.size
  /-- Marked labels stay where they are. -/
  marks : ∀ {label position}, before.labelPosition? label = some position →
    after.labelPosition? label = some position
  /-- The limit of the locals stays. -/
  limit : after.maxLocals = before.maxLocals
  /-- The parent stays. -/
  forkedFrom : after.forkedFrom = before.forkedFrom

namespace Keeps

variable {middle : Emitter}

/-- An emitter keeps itself. -/
theorem refl (emitter : Emitter) : Keeps emitter emitter := ⟨Nat.le_refl _, id, rfl, rfl⟩

/-- What two changes keep is kept by both. -/
theorem trans (first : Keeps before middle) (second : Keeps middle after) : Keeps before after where
  labels := first.labels.trans second.labels
  marks marked := second.marks (first.marks marked)
  limit := second.limit.trans first.limit
  forkedFrom := second.forkedFrom.trans first.forkedFrom

/-- The labels are as before. -/
theorem of_labels (labels : after.labels = before.labels)
    (limit : after.maxLocals = before.maxLocals)
    (forkedFrom : after.forkedFrom = before.forkedFrom) : Keeps before after where
  labels := by rw [labels]
  marks marked := by rwa [labelPosition?, labels]
  limit := limit
  forkedFrom := forkedFrom

/-- Labels are defined. -/
theorem extendLabels (emitter : Emitter) (count : Nat) :
    Keeps emitter (emitter.extendLabels count) where
  labels := by
    rw [size_extendLabels]
    exact Nat.le_max_left _ _
  marks marked := labelPosition?_eq_some.2
    (Extends.append _ _ _ _ (labelPosition?_eq_some.1 marked))
  limit := rfl
  forkedFrom := rfl

/-- A label that marked nothing is marked. -/
theorem mark (unmarked : before.labels[label]? = some none) (position : Nat) :
    Keeps before { before with labels := before.labels.setIfInBounds label (some position) } where
  labels := by simp
  marks {other old} marked := by
    have differ : label ≠ other := by
      rintro rfl
      simp [labelPosition?, unmarked] at marked
    rw [labelPosition?_eq_some] at marked ⊢
    rw [Array.getElem?_setIfInBounds, if_neg differ, marked]
  limit := rfl
  forkedFrom := rfl

end Keeps

/-- An update keeps the labels, the marks and the origin of an emitter. -/
theorem Update.keeps (step : Update before after) : Keeps before after := by
  cases step with
  | define count => exact .extendLabels before count
  | mark unmarked => exact .mark unmarked _
  | _ => exact .of_labels rfl rfl rfl

/-- Operations that are made of updates keep labels, whatever their outcome. -/
theorem Updates.keeps {α : Type} {operation : Emit α} (updates : Updates operation)
    (before : Emitter) : Keeps before (afterwards operation before) :=
  (updates before).rec (.refl before) fun _ step kept => kept.trans step.keeps

/-- An operation that is made of updates and succeeds keeps labels. -/
theorem Updates.keeps_of_ok {α : Type} {operation : Emit α} {value : α}
    (updates : Updates operation) (h : operation before = .ok value after) :
    Keeps before after := by
  have kept := updates.keeps before
  rwa [afterwards, h] at kept

/-- Marking labels one after the other, also if it breaks off, changes none that is marked. -/
theorem keeps_forM_markLabelAt (marks : List (Label × Nat)) (base : Nat) (before : Emitter) :
    Keeps before (afterwards
      (marks.forM fun (label, position) => markLabelAt label (base + position)) before) := by
  induction marks generalizing before with
  | nil => exact .refl before
  | cons mark marks ih =>
    obtain ⟨label, place⟩ := mark
    rw [afterwards_marks_cons]
    split_ifs with unmarked
    · exact (Keeps.mark unmarked _).trans (ih _)
    · -- it breaks off here, and a mark that fails changes nothing
      exact .refl before

/-- A splice keeps labels, whatever its outcome. -/
theorem keeps_splice (child before : Emitter) :
    Keeps before (afterwards (splice child) before) := by
  by_cases fresh : child.forkedFrom = some before.forkPoint
  · have marking := keeps_forM_markLabelAt child.marks before.instructions.size
      (before.extendLabels child.labels.size)
    have start := (Keeps.extendLabels before child.labels.size).trans marking
    simp only [afterwards] at start ⊢
    rw [splice_of_fresh fresh]
    cases run : (child.marks.forM fun (label, position) =>
        markLabelAt label (before.instructions.size + position))
        (before.extendLabels child.labels.size) with
    | error defect marked =>
      rw [run] at start
      rw [bind_of_error run]
      exact start
    | ok value marked =>
      -- what is appended then are no labels
      rw [run] at start
      rw [bind_of_ok run]
      exact start.trans (.of_labels rfl rfl rfl)
  · rw [afterwards, splice_of_stale fresh]
    exact .refl before

end ExprCode.Emitter
