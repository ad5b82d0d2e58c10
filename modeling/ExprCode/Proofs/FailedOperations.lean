import ExprCode.Proofs.EmitterInvariant
import ExprCode.Proofs.ParallelPaths

/-! # Operations that fail

Main statement: `unchanged_of_error`. A command that fails leaves the emitter as it was. So does a
splice that is stale. A splice that meets a label which is marked in both emitters breaks off at the
lowest such label, and by then it has defined all labels of the child and marked those below: it
leaves `brokenOff`, which is the emitter as it was only if there was nothing to define and nothing
to mark. -/

namespace ExprCode

/-- A table in which there is no room stays as it is. -/
theorem Table.snd_intern_of_full {α κ : Type} [Ord κ] [Std.TransOrd κ] [Std.LawfulEqOrd κ]
    {key : α → κ}
    {table : Table key} {entry : α} (full : (table.intern entry).1 = none) :
    (table.intern entry).2 = table := by
  unfold Table.intern at full ⊢
  split at full
  · cases full
  · dsimp only at full ⊢
    split at full
    · cases full
    · next crowded => simp [crowded]

namespace Emitter

variable {before after parent child : Emitter} {defect : Defect} {label : Label}

/-! ## Commands -/

/-- An operation that fails leaves the emitter as it was. -/
def Atomic {α : Type} (operation : Emit α) : Prop :=
  ∀ (before : Emitter) (defect : Defect) (after : Emitter),
    operation before = .error defect after → after = before

/-- An operation succeeds on every emitter. -/
def Succeeds {α : Type} (operation : Emit α) : Prop :=
  ∀ before, ∃ value after, operation before = .ok value after

section Sequences

variable {α β : Type}

/-- A plain value does not fail. -/
theorem Succeeds.pure (value : α) : Succeeds (pure value : Emit α) :=
  fun before => ⟨value, before, rfl⟩

/-- One operation after another succeeds if both do. -/
theorem Succeeds.bind {first : Emit α} {next : α → Emit β} (start : Succeeds first)
    (rest : ∀ value, Succeeds (next value)) : Succeeds (first >>= next) := by
  intro before
  obtain ⟨value, middle, run⟩ := start before
  rw [bind_of_ok run]
  exact rest value middle

/-- An operation that cannot fail is atomic. -/
theorem Succeeds.atomic {operation : Emit α} (succeeds : Succeeds operation) :
    Atomic operation := by
  intro before defect after failed
  obtain ⟨value, last, run⟩ := succeeds before
  rw [run] at failed
  cases failed

/-- A failure on its own changes nothing. -/
theorem Atomic.throw (defect : Defect) : Atomic (throw defect : Emit α) := by
  rintro before _ after ⟨⟩
  rfl

/-- What has changed the emitter must not be followed by what can fail. -/
theorem Atomic.bind {first : Emit α} {next : α → Emit β} (start : Atomic first)
    (rest : ∀ value, Succeeds (next value)) : Atomic (first >>= next) := by
  intro before defect after failed
  rcases bind_eq_error failed with atFirst | ⟨value, middle, -, behind⟩
  · exact start before defect after atFirst
  · obtain ⟨result, last, run⟩ := rest value middle
    rw [run] at behind
    cases behind

/-- An atomic operation without answer is an atomic command. -/
theorem Atomic.silent {operation : Emit Unit} (atomic : Atomic operation) :
    Atomic (silent operation) :=
  atomic.bind fun _ => .pure none

/-- An atomic operation with an answer is an atomic command. -/
theorem Atomic.answering {operation : Emit Nat} (atomic : Atomic operation) :
    Atomic (answering operation) :=
  atomic.bind fun value => .pure (some value)

end Sequences

/-- An instruction that is refused changes nothing. -/
theorem atomic_emit (instruction : Instruction) : Atomic (emit instruction) := by
  intro before defect after failed
  rw [emit_eq] at failed
  split at failed
  · cases failed
    rfl
  · cases failed

/-- An instruction that names neither a local nor a label can always be appended. -/
theorem succeeds_emit {instruction : Instruction}
    (accepted : ∀ emitter : Emitter, emitter.refusal? instruction = none) :
    Succeeds (emit instruction) := by
  intro before
  rw [emit_eq, accepted]
  exact ⟨_, _, rfl⟩

/-- A branch that is refused changes nothing. -/
theorem atomic_emitBranch (op : Opcode) (target : Label) : Atomic (emitBranch op target) := by
  unfold emitBranch
  split
  · exact (atomic_emit _).bind fun _ before => ⟨_, _, rfl⟩
  · exact .throw _

/-- An instruction that fails its check changes nothing. -/
theorem atomic_emitChecked (instruction : Except Defect Instruction) :
    Atomic (emitChecked instruction) := by
  cases instruction with
  | ok instruction => exact atomic_emit instruction
  | error defect => exact .throw defect

/-- A label that cannot be marked changes nothing. -/
theorem atomic_markLabel (label : Label) : Atomic (markLabel label) := by
  intro before defect after failed
  obtain ⟨_, _, read, marking⟩ := (bind_eq_error failed).resolve_left nofun
  cases read
  exact markLabelAt_eq_error marking

/-- A local that has no room changes nothing. -/
theorem atomic_declareLocal (type : Ty) : Atomic (declareLocal type) := by
  intro before defect after failed
  rw [declareLocal_eq] at failed
  split at failed
  · cases failed
    rfl
  · cases failed

/-- A look-up fails if there is no room in the table, which is then put back as it was. -/
theorem eq_of_lookedUp_error {τ : Type} {table : TableName} {restore : τ → Emitter}
    {found : Option Nat × τ} {entries : τ} (full : found.1 = none → found.2 = entries)
    (failed : lookedUp table restore found = .error defect after) : after = restore entries := by
  obtain ⟨_ | number, looked⟩ := found
  · cases failed
    exact congrArg restore (full rfl)
  · cases failed

/-- A string that has no room changes nothing. -/
theorem atomic_stringToken (value : String) : Atomic (stringToken value) := by
  intro before defect after failed
  rw [stringToken_eq] at failed
  exact eq_of_lookedUp_error Table.snd_intern_of_full failed

/-- A type that has no room changes nothing. -/
theorem atomic_typeToken (type : Ty) : Atomic (typeToken type) := by
  intro before defect after failed
  rw [typeToken_eq] at failed
  exact eq_of_lookedUp_error Table.snd_intern_of_full failed

/-- A function that has no room changes nothing. -/
theorem atomic_functionToken (name : String) (arity : Nat) (function : Handle) :
    Atomic (functionToken name arity function) := by
  intro before defect after failed
  rw [functionToken_eq] at failed
  split at failed
  · cases failed
    rfl
  · exact eq_of_lookedUp_error Table.snd_intern_of_full failed

/-- Every command that fails leaves the emitter as it was: it checks all that it is given before it
changes anything, and a token that has been found is always good for the instruction behind it. -/
theorem Command.atomic (command : Command) : Atomic command.perform := by
  -- where a token is looked up first, emitting the instruction that has it cannot fail
  cases command with
  | emit instruction => exact (atomic_emit instruction).silent
  | branch op target => exact (atomic_emitBranch op target).answering
  | defineLabel => exact Succeeds.atomic fun before => ⟨_, _, rfl⟩
  | markLabel label => exact (atomic_markLabel label).silent
  | declareLocal type => exact (atomic_declareLocal type).answering
  | storeLocal slot | loadLocal slot | loadLocalAddress slot => exact (atomic_emitChecked _).silent
  | loadBool value | loadInt64 value | loadSingle value | loadDouble value =>
    exact (atomic_emit _).silent
  | loadInt32 value =>
    refine Atomic.silent ?_
    unfold emitLoadInt32
    split <;> exact atomic_emit _
  | loadString value =>
    exact ((atomic_stringToken value).bind fun _ => succeeds_emit fun _ => rfl).silent
  | newArray element =>
    exact ((atomic_typeToken element).bind fun _ => succeeds_emit fun _ => rfl).silent
  | arrayLoad element =>
    refine Atomic.silent ?_
    unfold emitArrayLoad
    split
    · exact atomic_emit _
    · exact (atomic_typeToken element).bind fun _ =>
        (succeeds_emit fun _ => rfl).bind fun _ => succeeds_emit fun _ => rfl
  | arrayStore element =>
    refine Atomic.silent ?_
    unfold emitArrayStore
    split
    · exact atomic_emit _
    · exact (atomic_typeToken element).bind fun _ => succeeds_emit fun _ => rfl
  | call name arity function =>
    exact ((atomic_functionToken name arity function).bind fun _ => succeeds_emit fun _ =>
      rfl).silent
  | extendLabels count => exact Succeeds.atomic fun before => ⟨_, _, rfl⟩

/-! ## Splices -/

/-- The lowest label that is marked in both emitters. -/
structure FirstClash (parent child : Emitter) (label : Label) : Prop where
  /-- The parent has marked it. -/
  inParent : ∃ position, parent.labelPosition? label = some position
  /-- The child has marked it. -/
  inChild : ∃ position, child.labelPosition? label = some position
  /-- No lower label is marked in both. -/
  lowest : ∀ lower < label, parent.labelPosition? lower = none ∨ child.labelPosition? lower = none

/-- The emitter that a splice leaves which breaks off at a label: all labels of the child are
defined, and those below are marked as they would be by the whole splice. -/
def brokenOff (parent child : Emitter) (label : Label) : Emitter :=
  { parent with
    labels := Array.ofFn fun other : Fin (max parent.labels.size child.labels.size) =>
      (parent.labelPosition? other).or
        (if other < label then (child.labelPosition? other).map (parent.instructions.size + ·) else
          none) }

/-- Emitters with a clash are not apart. -/
theorem FirstClash.not_apart (clash : FirstClash parent child label) : ¬ Apart parent child := by
  intro apart
  obtain ⟨position, inParent⟩ := clash.inParent
  obtain ⟨place, inChild⟩ := clash.inChild
  have free := apart label
  simp [inParent, inChild] at free

/-- There is one first clash. -/
theorem FirstClash.unique {other : Label} (clash : FirstClash parent child label)
    (same : FirstClash parent child other) : label = other := by
  -- a label that is marked in both is not below the lowest such label
  have least {low high : Label} (lower : FirstClash parent child low)
      (upper : FirstClash parent child high) :
      high ≤ low := by
    by_contra below
    obtain ⟨position, inParent⟩ := lower.inParent
    obtain ⟨place, inChild⟩ := lower.inChild
    have free := upper.lowest low (Nat.lt_of_not_le below)
    simp [inParent, inChild] at free
  exact Nat.le_antisymm (least same clash) (least clash same)

/-- A splice that broke off has made the marks up to the clash. -/
theorem labelPosition?_brokenOff (other : Label) :
    (brokenOff parent child label).labelPosition? other =
      (parent.labelPosition? other).or
        (if other < label then (child.labelPosition? other).map (parent.instructions.size + ·) else
          none) := by
  by_cases defined : other < max parent.labels.size child.labels.size
  · rw [labelPosition?, brokenOff, Array.getElem?_eq_getElem (by simpa using defined)]
    simp
  · have undefined := Nat.le_of_not_lt defined
    rw [labelPosition?_eq_none_of_le (by simpa [brokenOff] using undefined),
      labelPosition?_eq_none_of_le (by omega), labelPosition?_eq_none_of_le (by omega)]
    simp

/-- Marking labels one after the other breaks off behind some of them, at one that cannot be
marked. -/
theorem forM_markLabelAt_breaks {marked : List (Label × Nat)} {base : Nat}
    (failed : (marked.forM fun (label, position) => markLabelAt label (base + position)) before =
      .error defect after) :
    ∃ passed mark rest, marked = passed ++ mark :: rest ∧
      (passed.forM fun (label, position) => markLabelAt label (base + position)) before = .ok
        () after ∧
      markLabelAt mark.1 (base + mark.2) after = .error defect after := by
  induction marked generalizing before with
  | nil => cases failed
  | cons mark marked ih =>
    rcases bind_eq_error failed with here | ⟨_, middle, markRun, behind⟩
    · obtain rfl := markLabelAt_eq_error here
      exact ⟨[], mark, marked, rfl, rfl, here⟩
    · obtain ⟨passed, stop, rest, rfl, made, stops⟩ := ih behind
      exact ⟨mark :: passed, stop, rest, rfl, (bind_of_ok markRun).trans made, stops⟩

/-- When labels have been marked one after the other, marked are those that were marked before and
those listed. -/
theorem labelPosition?_of_marking {marked : List (Label × Nat)} {base : Nat}
    (made : (marked.forM fun (label, position) => markLabelAt label (base + position)) before =
      .ok () after)
    (other : Label) (position : Nat) :
    after.labelPosition? other = some position ↔
      before.labelPosition? other = some position ∨
        ∃ place, (other, place) ∈ marked ∧ position = base + place := by
  obtain ⟨-, -, origin⟩ := afterwards_forM_markLabelAt marked base before
  simp only [afterwards, made] at origin
  obtain ⟨-, grows, listed⟩ : _ ∧ Grows {} _ _ ∧ _ := forM_markLabelAt_eq_ok made
  simp only [labelPosition?_eq_some]
  constructor
  · exact origin other position
  · rintro (earlier | ⟨place, isListed, rfl⟩)
    · exact grows.labels other position earlier
    · exact listed other place isListed

/-- Of marks in ascending order, those before one are those of lower labels. -/
theorem mem_passed_iff {passed rest : List (Label × Nat)} {stop : Label × Nat}
    (ascending : (passed ++ stop :: rest).Pairwise (·.1 < ·.1)) (mark : Label × Nat) :
    mark ∈ passed ↔ mark ∈ passed ++ stop :: rest ∧ mark.1 < stop.1 := by
  rw [List.pairwise_append] at ascending
  obtain ⟨-, behind, before⟩ := ascending
  constructor
  · intro listed
    exact ⟨List.mem_append_left _ listed, before mark listed stop List.mem_cons_self⟩
  · rintro ⟨listed, below⟩
    rcases List.mem_append.1 listed with earlier | later
    · exact earlier
    · -- the mark itself and all behind it are of no lower label
      rcases List.mem_cons.1 later with rfl | isBehind
      · exact absurd below (Nat.lt_irrefl _)
      · exact absurd below (Nat.lt_asymm (List.rel_of_pairwise_cons behind isBehind))

/-- A splice that is not stale breaks off at the lowest label that is marked in both emitters, and
leaves the labels that it has defined and marked by then. -/
theorem brokenOff_of_splice (fresh : child.forkedFrom = some before.forkPoint)
    (failed : splice child before = .error defect after) :
    ∃ label, FirstClash before child label ∧ defect = .labelAlreadyMarked label ∧
      after = brokenOff before child label := by
  rw [splice_of_fresh fresh] at failed
  have marking := (bind_eq_error failed).resolve_right (by rintro ⟨_, _, -, last⟩; cases last)
  obtain ⟨passed, ⟨label, place⟩, rest, split, made, stops⟩ := forM_markLabelAt_breaks marking
  have ascending := split ▸ pairwise_marks child
  have listed : (label, place) ∈ child.marks := split ▸ List.mem_append_right _ List.mem_cons_self
  have isPassed (other : Label) (position : Nat) :
      (other, position) ∈ passed ↔ child.labelPosition? other = some position ∧ other < label := by
    rw [mem_passed_iff ascending, ← split, mem_marks, labelPosition?_eq_some]
  have position (other : Label) (position : Nat) := labelPosition?_of_marking made other position
  simp only [labelPosition?_extendLabels, isPassed] at position
  obtain ⟨same, size, -⟩ := afterwards_forM_markLabelAt passed before.instructions.size
    (before.extendLabels child.labels.size)
  simp only [afterwards, made, size_extendLabels] at same size
  -- what stopped the marking is defined, so it is marked, and was so before
  have inside : label < after.labels.size := by
    rw [size]
    exact lt_max_of_lt_right (Array.getElem?_eq_some_iff.1 (mem_marks.1 listed)).1
  obtain ⟨stopped, isMarked⟩ := markLabelAt_of_defined inside stops
  have inParent : ∃ mark, before.labelPosition? label = some mark := by
    obtain ⟨mark, marked⟩ := isMarked
    refine ⟨mark, ((position label mark).1 marked).resolve_right ?_⟩
    simp
  -- what was marked on the way was free
  have free : ∀ lower < label, before.labelPosition? lower = none ∨
      child.labelPosition? lower = none := by
    intro lower below
    cases inChild : child.labelPosition? lower with
    | none => exact .inr rfl
    | some mark =>
      have unmarked :=
        unmarked_of_forM_markLabelAt made (lower, mark) ((isPassed lower mark).2 ⟨inChild, below⟩)
      refine .inl ?_
      rw [← labelPosition?_extendLabels child.labels.size, labelPosition?_eq_none_iff]
      exact .inl unmarked
  refine ⟨label, ⟨inParent, ⟨place, labelPosition?_eq_some.2 (mem_marks.1 listed)⟩, free⟩, stopped,
    ?_⟩
  have labels : after.labels = (brokenOff before child label).labels := by
    refine labels_eq (by simp [size, brokenOff]) fun other => ?_
    show after.labelPosition? other = (brokenOff before child label).labelPosition? other
    refine Option.ext fun mark => ?_
    rw [position, labelPosition?_brokenOff, Option.or_eq_some_iff]
    constructor
    · rintro (old | ⟨mark, ⟨inChild, below⟩, rfl⟩)
      · exact .inl old
      · refine .inr ⟨(free other below).resolve_right (by simp [inChild]), ?_⟩
        simp [below, inChild]
    · rintro (old | ⟨-, new⟩)
      · exact .inl old
      · obtain ⟨below, mark, inChild, rfl⟩ : other < label ∧ ∃ mark, _ := by
          split at new
          · exact ⟨‹_›, Option.map_eq_some_iff.1 new⟩
          · cases new
        exact .inr ⟨mark, ⟨inChild, below⟩, rfl⟩
  rw [same, labels]
  rfl

/-- How a splice fails and what it leaves: a stale one changes nothing, and any other breaks off at
the lowest label that is marked in both emitters. -/
theorem splice_eq_error_iff :
    splice child before = .error defect after ↔
      (child.forkedFrom ≠ some before.forkPoint ∧ defect = .staleFork ∧ after = before) ∨
        (child.forkedFrom = some before.forkPoint ∧ ∃ label, FirstClash before child label ∧
          defect = .labelAlreadyMarked label ∧ after = brokenOff before child label) := by
  by_cases fresh : child.forkedFrom = some before.forkPoint
  · simp only [fresh, ne_eq, not_true_eq_false, false_and, false_or, true_and]
    refine ⟨brokenOff_of_splice fresh, ?_⟩
    rintro ⟨label, clash, rfl, rfl⟩
    obtain ⟨other, after, failed, -⟩ := splice_of_clash fresh clash.not_apart
    obtain ⟨lowest, first, reason, rfl⟩ := brokenOff_of_splice fresh failed
    obtain rfl := clash.unique first
    rw [failed, reason]
  · rw [splice_of_stale fresh]
    simp [fresh, eq_comm]

/-- A splice that breaks off leaves the emitter as it was only if it had no label to define and none
to mark by then. -/
theorem brokenOff_eq_self_iff (clash : FirstClash parent child label) :
    brokenOff parent child label = parent ↔
      child.labels.size ≤ parent.labels.size ∧ ∀ lower < label,
        child.labelPosition? lower = none := by
  constructor
  · intro same
    constructor
    · have size : (brokenOff parent child label).labels.size =
          max parent.labels.size child.labels.size := by
        simp [brokenOff]
      rw [same] at size
      omega
    · intro lower below
      -- the label is free in the parent if it is marked in the child, and is marked by the splice
      -- then
      rcases clash.lowest lower below with free | free
      · have position : (brokenOff parent child label).labelPosition? lower = _ :=
          labelPosition?_brokenOff lower
        rw [same, free, if_pos below] at position
        simpa using position.symm
      · exact free
  · rintro ⟨noMore, noneBelow⟩
    have labels : (brokenOff parent child label).labels = parent.labels := by
      refine labels_eq (by simp [brokenOff, noMore]) fun other => ?_
      show (brokenOff parent child label).labelPosition? other = parent.labelPosition? other
      rw [labelPosition?_brokenOff]
      by_cases below : other < label
      · simp [noneBelow other below]
      · simp [below]
    calc brokenOff parent child label
        = { parent with labels := (brokenOff parent child label).labels } := rfl
      _ = parent := by rw [labels]

/-! ## All operations -/

/-- **Failed operations.** A command that fails leaves the emitter as it was. A splice fails if it
is stale, and then leaves the emitter as it was; or it breaks off at the lowest label that is marked
in both emitters, and leaves the labels that it has defined and marked by then, which are none only
if the child has no more labels than the emitter and has marked none below. -/
theorem unchanged_of_error (before : Emitter) (defect : Defect) (after : Emitter) :
    (∀ command : Command, command.perform before = .error defect after → after = before) ∧
      ∀ child : Emitter,
        (splice child before = .error defect after ↔
          (child.forkedFrom ≠ some before.forkPoint ∧ defect = .staleFork ∧ after = before) ∨
            (child.forkedFrom = some before.forkPoint ∧ ∃ label, FirstClash before child label ∧
              defect = .labelAlreadyMarked label ∧ after = brokenOff before child label)) ∧
          ∀ label, FirstClash before child label →
            (brokenOff before child label = before ↔
              child.labels.size ≤ before.labels.size ∧
                ∀ lower < label, child.labelPosition? lower = none) :=
  ⟨fun command => command.atomic before defect after,
    fun _ => ⟨splice_eq_error_iff, fun _ => brokenOff_eq_self_iff⟩⟩

/-- A fork that marks the label which its parent has marked, and nothing else. -/
def markingAgain : Emitter := afterwards (Command.perform (.markLabel 1)) halfMarked.fork

/-- A load of a local that was not declared changes nothing, and neither does a splice that breaks
off at the first label that it marks. -/
theorem unchanged_halfMarked :
    (∃ after, (Command.loadLocal 3).perform halfMarked = .error (.unallocatedLocal 3) after ∧
        after = halfMarked) ∧
      FirstClash halfMarked markingAgain 1 ∧
      splice markingAgain halfMarked = .error (.labelAlreadyMarked 1) halfMarked := by
  have clash : FirstClash halfMarked markingAgain 1 := by
    refine ⟨⟨0, rfl⟩, ⟨0, rfl⟩, fun lower below => .inl ?_⟩
    obtain rfl := Nat.lt_one_iff.1 below
    rfl
  have same : brokenOff halfMarked markingAgain 1 = halfMarked := by
    obtain ⟨-, spliced⟩ := unchanged_of_error halfMarked .staleFork halfMarked
    refine ((spliced markingAgain).2 1 clash).2 ⟨by decide, fun lower below => ?_⟩
    obtain rfl := Nat.lt_one_iff.1 below
    rfl
  obtain ⟨-, spliced⟩ := unchanged_of_error halfMarked (.labelAlreadyMarked 1) halfMarked
  exact ⟨⟨_, rfl, (unchanged_of_error halfMarked (.unallocatedLocal 3) _).1 (.loadLocal 3) rfl⟩,
    clash, (spliced markingAgain).1.2 (.inr ⟨rfl, 1, clash, rfl, same.symm⟩)⟩

/-- A splice that breaks off behind other labels leaves them marked, and leaves the labels of the
child defined. -/
theorem labels_of_brokenOff :
    ∃ child after, Reachable true halfMarked ∧ Reachable true child ∧
      splice child halfMarked = .error (.labelAlreadyMarked 1) after ∧
      halfMarked.labels = #[none, some 0] ∧ after.labels = #[some 1, some 0, none] := by
  have parent : Reachable true halfMarked := .perform (.perform (.perform (.new 4) _) _) _
  have child : Reachable true (afterwards (Command.perform .defineLabel) markingBoth) :=
    .perform (.perform (.perform (.perform parent.fork _) _) _) _
  exact ⟨_, _, parent, child, rfl, rfl, rfl⟩

end Emitter

end ExprCode
