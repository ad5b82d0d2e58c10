import ExprCode.Proofs.ForwardGeneration
import ExprCode.Proofs.Splices

/-! # Chains with shared operands

Main statement: `Frame.refines_emitJoined`. A chain in which an operand occurs several times has one
label for all its occurrences, where a chain of different operands has one for each. If the first is
emitted at all, both have the same code.

A label is marked whenever its operand is emitted, and can be marked only once. So in a run that
succeeds, an operand that has a label is still to come at one place at most, and at none if the
label is marked (`Branches.Markable`). This goes backwards through the run: it holds at the end,
where nothing is to come. Then a label given to an operand can only mean the place that the branch
was meant for, and the tables of both chains stay matched. -/

namespace ExprCode

open Emitter (Forward Keeps)

/-- Whenever the first operation succeeds, so does the second, with the same result. -/
def Refines {ε σ α : Type} (first second : EStateM ε σ α) : Prop :=
  ∀ before value after, first before = .ok value after → second before = .ok value after

namespace Branches

/-- A place gets a label, if it has not got this one already. -/
structure Gains (key : BranchKey) (label : Label) (before after : Branches) : Prop where
  /-- The place has the label, and all others are as before. -/
  places : ∀ other, after.find? other = if other = key then some label else before.find? other
  /-- It had no other. -/
  only : ∀ old, before.find? key = some old → old = label

section Operations

variable {branches others after : Branches} {emitter last : Emitter} {key other : BranchKey}

/-- An operation on the emitter does not look at the places. -/
theorem emitting_of_ok {α : Type} {operation : Emit α} {value : α}
    (run : operation emitter = .ok value last) :
    emitting operation (branches, emitter) = .ok value (branches, last) := by
  simp only [emitting, run]

/-- A key with a label is marked by that label. -/
theorem mark_of_label {label : Label} (found : branches.find? key = some label) :
    mark key (branches, emitter) =
      (do emitting (Emitter.markLabel label); return some label : Branching (Option Label))
        (branches, emitter) := by
  have read : (get : Branching (Branches × Emitter)) (branches, emitter) =
      .ok _ (branches, emitter) := rfl
  rw [mark, bind_of_ok read]
  simp only [found]

/-- A key without a label is not marked. -/
theorem mark_of_none (absent : branches.find? key = none) :
    mark key (branches, emitter) = .ok none (branches, emitter) := by
  have read : (get : Branching (Branches × Emitter)) (branches, emitter) =
      .ok _ (branches, emitter) := rfl
  rw [mark, bind_of_ok read]
  simp only [absent]
  rfl

variable {marked : Option Label} {target : Label}

/-- Marking a place marks its label, if it has one. -/
theorem mark_cases (h : mark key (branches, emitter) = .ok marked (after, last)) :
    after = branches ∧ marked = branches.find? key ∧
      (branches.find? key = none ∧ last = emitter ∨
        ∃ label, branches.find? key = some label ∧
          Emitter.markLabel label emitter = .ok () last) := by
  cases found : branches.find? key with
  | none =>
    rw [mark_of_none found] at h
    cases h
    exact ⟨rfl, rfl, .inl ⟨rfl, rfl⟩⟩
  | some label =>
    rw [mark_of_label found] at h
    obtain ⟨_, _, markRun, result⟩ := bind_eq_ok h
    cases result
    obtain ⟨marks, unchanged⟩ := emitting_eq_ok markRun
    exact ⟨unchanged, rfl, .inr ⟨label, rfl, marks⟩⟩

/-- What is marked depends on the label of the place only. -/
theorem mark_mirrored (same : branches.find? key = others.find? other)
    (h : mark key (branches, emitter) = .ok marked (after, last)) :
    after = branches ∧ mark other (others, emitter) = .ok marked (others, last) := by
  obtain ⟨rfl, rfl, ⟨absent, rfl⟩ | ⟨label, found, marks⟩⟩ := mark_cases h
  · exact ⟨rfl, by rw [absent, mark_of_none (same ▸ absent)]⟩
  · refine ⟨rfl, ?_⟩
    rw [found, mark_of_label (same ▸ found), bind_of_ok (emitting_of_ok marks)]
    rfl

/-- Marking a place keeps what is marked. -/
theorem keeps_of_mark (h : mark key (branches, emitter) = .ok marked (after, last)) :
    Keeps emitter last := by
  obtain ⟨-, -, ⟨-, rfl⟩ | ⟨label, -, marks⟩⟩ := mark_cases h
  · exact .refl _
  · exact (Emitter.updates_markLabel label).keeps_of_ok marks

/-- A place that has a label when it is reached was not marked before, and is marked then. -/
theorem marked_of_mark {label : Label} (found : branches.find? key = some label)
    (h : mark key (branches, emitter) = .ok marked (after, last)) :
    emitter.labelPosition? label = none ∧ last.labelPosition? label ≠ none := by
  obtain ⟨-, -, ⟨absent, -⟩ | ⟨_, known, marks⟩⟩ := mark_cases h
  · rw [found] at absent
    cases absent
  · cases found.symm.trans known
    obtain ⟨unmarked, rfl⟩ := Emitter.markLabelAt_eq_ok marks
    have defined : label < emitter.labels.size := (Array.getElem?_eq_some_iff.1 unmarked).1
    exact ⟨by simp [Emitter.labelPosition?, unmarked], by simp [Emitter.labelPosition?, defined]⟩

/-- A label that is known is not defined again. -/
theorem gains_of_find? {label : Label} (found : branches.find? key = some label) :
    Gains key label branches branches := by
  refine ⟨fun place => ?_, fun old known => Option.some.inj (known.symm.trans found)⟩
  split_ifs with isKey
  · rw [isKey, found]
  · rfl

/-- A new label is defined. -/
theorem gains_of_none (label : Label) (absent : branches.find? key = none) :
    Gains key label branches { branches with labels := branches.labels ++ [(key, label)] } :=
  ⟨find?_append label absent, fun old known => by simp [absent] at known⟩

/-- A key with a label has that label. -/
theorem label_of_label (found : branches.find? key = some target) :
    label key (branches, emitter) = .ok target (branches, emitter) := by
  have read : (get : Branching (Branches × Emitter)) (branches, emitter) =
      .ok _ (branches, emitter) := rfl
  rw [label, bind_of_ok read]
  simp only [found]
  rfl

/-- A key without a label gets a new one. -/
theorem label_of_none (absent : branches.find? key = none)
    (defines : Emitter.defineLabel emitter = .ok target last) :
    label key (branches, emitter) =
      .ok target ({ branches with labels := branches.labels ++ [(key, target)] }, last) := by
  have read : (get : Branching (Branches × Emitter)) (branches, emitter) =
      .ok _ (branches, emitter) := rfl
  rw [label, bind_of_ok read]
  simp only [absent]
  rw [bind_of_ok (emitting_of_ok defines)]
  rfl

/-- A new label is the same, whatever place it is for. -/
theorem label_mirrored (same : branches.find? key = others.find? other)
    (h : label key (branches, emitter) = .ok target (after, last)) :
    Gains key target branches after ∧ Keeps emitter last ∧
      ∃ otherAfter, label other (others, emitter) = .ok target (otherAfter, last) ∧
        Gains other target others otherAfter := by
  cases found : branches.find? key with
  | some old =>
    rw [label_of_label found] at h
    cases h
    exact ⟨gains_of_find? found, .refl _, others, label_of_label (same ▸ found),
      gains_of_find? (same ▸ found)⟩
  | none =>
    have defines : Emitter.defineLabel emitter = .ok _ _ := rfl
    rw [label_of_none found defines] at h
    cases h
    exact ⟨gains_of_none _ found, Emitter.updates_defineLabel.keeps_of_ok defines, _,
      label_of_none (same ▸ found) defines, gains_of_none _ (same ▸ found)⟩

/-- A branch is the same, whatever place its label is for. -/
theorem addBranch_mirrored {op : Opcode} (same : branches.find? key = others.find? other)
    (h : addBranch op key (branches, emitter) = .ok target (after, last)) :
    Gains key target branches after ∧ Keeps emitter last ∧
      ∃ otherAfter, addBranch op other (others, emitter) = .ok target (otherAfter, last) ∧
        Gains other target others otherAfter := by
  unfold addBranch at h ⊢
  obtain ⟨label, ⟨labelled, labelling⟩, labelRun, rest⟩ := bind_eq_ok h
  obtain ⟨source, ⟨branched, branching⟩, branchRun, rest⟩ := bind_eq_ok rest
  cases rest
  obtain ⟨gains, keeps, otherLabelled, otherRun, otherGains⟩ := label_mirrored same labelRun
  obtain ⟨emits, unchanged⟩ := emitting_eq_ok branchRun
  simp only at emits unchanged
  refine ⟨?_, keeps.trans ((Emitter.updates_emitBranch op target).keeps_of_ok emits),
    { otherLabelled with origins := otherLabelled.origins ++ [(target, source)] }, ?_, ?_⟩
  · rw [unchanged]
    exact ⟨gains.places, gains.only⟩
  · rw [bind_of_ok otherRun, bind_of_ok (emitting_of_ok emits)]
    rfl
  · exact ⟨otherGains.places, otherGains.only⟩

end Operations

/-! ## Matching tables -/

/-- Operands of two chains at the same place. -/
abbrev NodePairs := List (NodeId × NodeId)

/-- A place of one chain and the same place of another: an operand that is to come, or a place that
is no operand. -/
inductive Corresponds (pairs : NodePairs) : BranchKey → BranchKey → Prop
  | operand {node other : NodeId} (listed : (node, other) ∈ pairs) :
      Corresponds pairs (.operand node) (.operand other)
  | common {key : BranchKey} (noOperand : ∀ node, key ≠ .operand node) : Corresponds pairs key key

/-- Two tables have the same labels at the places that are no operands, and for the operands that
are to come. -/
structure Matches (pairs : NodePairs) (first second : Branches) : Prop where
  /-- Other places. -/
  common : ∀ key, (∀ node, key ≠ .operand node) → first.find? key = second.find? key
  /-- Operands. -/
  operands : ∀ pair ∈ pairs, first.find? (.operand pair.1) = second.find? (.operand pair.2)

/-- Labels of operands can be marked when the operands that are to come are emitted: an operand that
has a label comes once, and its label is not marked. -/
structure Markable (pairs : NodePairs) (branches : Branches) (emitter : Emitter) : Prop where
  /-- It comes once. -/
  once : ∀ first ∈ pairs, ∀ second ∈ pairs, ∀ label, branches.find? (.operand first.1) =
    some label →
    first.1 = second.1 → first = second
  /-- Its label is not marked. -/
  unmarked : ∀ pair ∈ pairs, ∀ label, branches.find? (.operand pair.1) = some label →
    emitter.labelPosition? label = none

section Tables

variable {pairs more : NodePairs} {first second firstAfter secondAfter branches after : Branches}
  {emitter last : Emitter} {key other : BranchKey} {label : Label}

/-- Keys that correspond do so among more pairs. -/
theorem Corresponds.mono (corresponds : Corresponds pairs key other) (subset : pairs ⊆ more) :
    Corresponds more key other := by
  cases corresponds with
  | operand listed => exact .operand (subset listed)
  | common noOperand => exact .common noOperand

/-- Tables that match do so on fewer pairs. -/
theorem Matches.mono (found : Matches more first second) (subset : pairs ⊆ more) :
    Matches pairs first second :=
  ⟨found.common, fun pair listed => found.operands pair (subset listed)⟩

/-- Matching tables have the same label for corresponding keys. -/
theorem Matches.find? (found : Matches pairs first second)
    (corresponds : Corresponds pairs key other) :
    first.find? key = second.find? other := by
  cases corresponds with
  | operand listed => exact found.operands _ listed
  | common noOperand => exact found.common key noOperand

/-- Nothing is to come. -/
theorem Markable.nil (branches : Branches) (emitter : Emitter) : Markable [] branches emitter :=
  ⟨fun _ listed => absurd listed List.not_mem_nil, fun _ listed => absurd listed List.not_mem_nil⟩

/-- What can be marked later could be marked before. -/
theorem Markable.before (markable : Markable pairs after last)
    (known : ∀ key label, branches.find? key = some label → after.find? key = some label)
    (keeps : Keeps emitter last) : Markable pairs branches emitter where
  once first firstListed second secondListed label found :=
    markable.once first firstListed second secondListed label (known _ _ found)
  unmarked pair listed label found := by
    cases marked : emitter.labelPosition? label with
    | none => rfl
    | some position =>
      have stillMarked := keeps.marks marked
      rw [markable.unmarked pair listed label (known _ _ found)] at stillMarked
      cases stillMarked

/-- Labels stay when a place gets one. -/
theorem Gains.known (gains : Gains key label branches after) (place : BranchKey) (old : Label)
    (found : branches.find? place = some old) : after.find? place = some old := by
  rw [gains.places place]
  split_ifs with isKey
  · subst isKey
    rw [gains.only old found]
  · exact found

/-- Two tables that match and get one label at the same place match again, if the operand that gets
it is to come once. -/
theorem Matches.gain (found : Matches pairs first second)
    (corresponds : Corresponds pairs key other)
    (nodup : (pairs.map Prod.snd).Nodup) (firstGains : Gains key label first firstAfter)
    (secondGains : Gains other label second secondAfter)
    (markable : Markable pairs firstAfter last) :
    Matches pairs firstAfter secondAfter := by
  cases corresponds with
  | common noOperand =>
    refine ⟨fun place isCommon => ?_, fun pair listed => ?_⟩
    · rw [firstGains.places, secondGains.places, found.common place isCommon]
    · rw [firstGains.places, secondGains.places, found.operands pair listed,
        if_neg (noOperand _).symm, if_neg (noOperand _).symm]
  | @operand node otherNode listed =>
    refine ⟨fun place isCommon => ?_, fun pair pairListed => ?_⟩
    · rw [firstGains.places, secondGains.places, found.common place isCommon, if_neg (isCommon _),
        if_neg (isCommon _)]
    · have hasLabel : firstAfter.find? (.operand node) = some label := by
        rw [firstGains.places, if_pos rfl]
      -- the label is for this pair and no other, as the node is to come once
      have sameFirst : pair.1 = node ↔ pair = (node, otherNode) :=
        ⟨fun same => (markable.once _ listed pair pairListed label hasLabel same.symm).symm,
          fun same => by rw [same]⟩
      have sameSecond : pair.2 = otherNode ↔ pair = (node, otherNode) :=
        ⟨fun same => List.inj_on_of_nodup_map nodup pairListed listed same,
          fun same => by rw [same]⟩
      simp only [firstGains.places, secondGains.places, BranchKey.operand.injEq, sameFirst,
        sameSecond, found.operands pair pairListed]

end Tables

end Branches

/-! ## Emitting two chains -/

open Branches (NodePairs Corresponds Matches Markable)

/-- Two chains with the same connectives, whose operands do the same, given with the pairs of
operands. -/
inductive Alongside :
    Chain (ChainOperand Emitter) → Chain (ChainOperand Emitter) → NodePairs → Prop
  | operand {node other : NodeId} {code otherCode : Codegen Emitter Unit}
      (refines : Refines code otherCode) :
      Alongside (.operand ⟨node, code⟩) (.operand ⟨other, otherCode⟩) [(node, other)]
  | joined {connective : Connective}
      {left right otherLeft otherRight : Chain (ChainOperand Emitter)}
      {leftPairs rightPairs : NodePairs} (lefts : Alongside left otherLeft leftPairs)
      (rights : Alongside right otherRight rightPairs) :
      Alongside (.joined connective left right) (.joined connective otherLeft otherRight)
        (leftPairs ++ rightPairs)

namespace Alongside

variable {chain other : Chain (ChainOperand Emitter)} {pairs : NodePairs}

/-- The first operands are a pair. -/
theorem first_mem (alongside : Alongside chain other pairs) :
    (chain.first.node, other.first.node) ∈ pairs := by
  induction alongside with
  | operand => exact List.mem_singleton_self _
  | joined _ _ ihLeft => exact List.mem_append_left _ ihLeft

/-- The second nodes of the pairs are those of the second chain. -/
theorem map_snd (alongside : Alongside chain other pairs) : pairs.map Prod.snd = other.nodes := by
  induction alongside with
  | operand => rfl
  | joined _ _ ihLeft ihRight =>
    rw [List.map_append, ihLeft, ihRight, Chain.nodes_joined]

end Alongside

namespace Frame

variable {arguments : Nat} {chain other : Chain (ChainOperand Emitter)} {pairs future : NodePairs}
  {exits otherExits : Bool → BranchKey}

/-- An operation on the places of a frame. -/
theorem branching_of_ok {α : Type} {operation : Branching α} {value : α} {frame : Frame}
    {branches : Branches}
    {emitter last : Emitter}
    (run : operation (frame.branches, emitter) = .ok value (branches, last)) :
    branching operation (frame, emitter) = .ok value ({ frame with branches }, last) := by
  simp only [branching, HasEmitter.emitter, run]
  rfl

/-- Code of an operand, in a frame. -/
theorem outside_of_ok {operation : Codegen Emitter Unit} {frame : Frame} {emitter last : Emitter}
    (run : operation emitter = .ok () last) :
    outside operation (frame, emitter) = .ok () (frame, last) := by
  simp only [outside, run]

/-- If the operands behind a part of a chain can be marked behind it, they and those of the part can
be marked before it. -/
theorem markable_of_emitTree {before after : Frame × Emitter}
    (alongside : Alongside chain other pairs)
    (forward : ∀ operand ∈ chain.operands, Forward arguments operand.code)
    (h : emitTree chain exits before = .ok () after)
    (markable : Markable future after.1.branches after.2) :
    Markable (pairs ++ future) before.1.branches before.2 := by
  induction alongside generalizing exits before after future with
  | @operand node _ code =>
    rw [emitTree, emitOperand] at h
    obtain ⟨marked, middle, markRun, codeRun⟩ := bind_eq_ok h
    have marks := branching_eq_ok markRun
    obtain ⟨coded, sameFrame⟩ := outside_eq_ok codeRun
    have codeKeeps : Keeps middle.2 after.2 :=
      ((forward _ List.mem_cons_self middle.2).post_of_ok coded).toKeeps
    have sameBranches : after.1.branches = before.1.branches := by
      rw [sameFrame]
      exact (Branches.mark_cases marks).1
    have later : Markable future before.1.branches before.2 :=
      markable.before (fun _ _ found => sameBranches ▸ found)
        ((Branches.keeps_of_mark marks).trans codeKeeps)
    -- if the operand has a label, it is marked here, and the operand does not come again
    have notAgain (pair : NodeId × NodeId) (listed : pair ∈ future) (label : Label)
        (found : before.1.branches.find? (.operand node) = some label) : pair.1 ≠ node := by
      rintro rfl
      obtain ⟨-, isMarked⟩ := Branches.marked_of_mark found marks
      obtain ⟨position, marked⟩ := Option.ne_none_iff_exists'.1 isMarked
      have stillMarked := codeKeeps.marks marked
      rw [markable.unmarked pair listed label (sameBranches ▸ found)] at stillMarked
      cases stillMarked
    refine ⟨?_, ?_⟩
    · intro first firstListed second secondListed label found same
      rcases List.mem_cons.1 firstListed with rfl | firstLater <;>
        rcases List.mem_cons.1 secondListed with rfl | secondLater
      · rfl
      · exact absurd same.symm (notAgain second secondLater label found)
      · have isNode : first.1 = node := same
        exact absurd isNode (notAgain first firstLater label (isNode ▸ found))
      · exact later.once first firstLater second secondLater label found same
    · intro pair listed label found
      rcases List.mem_cons.1 listed with rfl | isLater
      · exact (Branches.marked_of_mark found marks).1
      · exact later.unmarked pair isLater label found
  | joined lefts rights ihLeft ihRight =>
    rw [emitTree] at h
    obtain ⟨_, decided, leftRun, rest⟩ := bind_eq_ok h
    obtain ⟨label, joined, branchRun, rightRun⟩ := bind_eq_ok rest
    obtain ⟨gains, keeps, -⟩ := Branches.addBranch_mirrored rfl (branching_eq_ok branchRun)
    have behindLeft :=
      (ihRight (fun operand listed => forward operand (List.mem_append_right _ listed))
      rightRun markable).before gains.known keeps
    rw [List.append_assoc]
    exact ihLeft (fun operand listed => forward operand (List.mem_append_left _ listed)) leftRun
      behindLeft

/-- If a part of a chain is emitted, so is the part of the other chain, with the same code, and the
tables match behind them as they did before. -/
theorem emitTree_mirrored {before after : Frame × Emitter} {frame : Frame}
    (alongside : Alongside chain other pairs)
    (forward : ∀ operand ∈ chain.operands, Forward arguments operand.code)
    (nodup : ((pairs ++ future).map Prod.snd).Nodup)
    (sameExits : ∀ value, Corresponds future (exits value) (otherExits value))
    (h : emitTree chain exits before = .ok () after)
    (markable : Markable future after.1.branches after.2)
    (found : Matches (pairs ++ future) before.1.branches frame.branches) :
    ∃ last : Frame, emitTree other otherExits (frame, before.2) = .ok () (last, after.2) ∧
      Matches future after.1.branches last.branches := by
  induction alongside generalizing exits otherExits before after future frame with
  | @operand node otherNode code otherCode refines =>
    rw [emitTree, emitOperand] at h
    obtain ⟨marked, middle, markRun, codeRun⟩ := bind_eq_ok h
    obtain ⟨coded, sameFrame⟩ := outside_eq_ok codeRun
    obtain ⟨sameBranches, otherMark⟩ := Branches.mark_mirrored
      (found.operands (node, otherNode) List.mem_cons_self) (branching_eq_ok markRun)
    refine ⟨frame, ?_, ?_⟩
    · rw [emitTree, emitOperand]
      exact (bind_of_ok (branching_of_ok otherMark)).trans
        (outside_of_ok (refines _ _ _ coded))
    · rw [sameFrame, sameBranches]
      exact found.mono (List.subset_cons_self _ _)
  | @joined connective left right otherLeft otherRight leftPairs rightPairs lefts rights ihLeft
      ihRight =>
    have leftForward := fun operand listed => forward operand (List.mem_append_left _ listed)
    have rightForward := fun operand listed => forward operand (List.mem_append_right _ listed)
    rw [List.append_assoc] at nodup found
    have restNodup : ((rightPairs ++ future).map Prod.snd).Nodup := by
      rw [List.map_append] at nodup
      exact (List.nodup_append.1 nodup).2.1
    rw [emitTree] at h
    obtain ⟨_, decided, leftRun, rest⟩ := bind_eq_ok h
    obtain ⟨label, joined, branchRun, rightRun⟩ := bind_eq_ok rest
    have markableRight := markable_of_emitTree rights rightForward rightRun markable
    obtain ⟨gains, keeps, -⟩ := Branches.addBranch_mirrored rfl (branching_eq_ok branchRun)
    -- behind the left operand, the right one is to come as well, and is an exit
    have leftExits (value : Bool) : Corresponds (rightPairs ++ future)
        (if value = connective.decidedBy then exits value else right.first.place)
        (if value = connective.decidedBy then otherExits value else otherRight.first.place) := by
      split
      · exact (sameExits value).mono (List.subset_append_right _ _)
      · exact .operand (List.mem_append_left _ rights.first_mem)
    obtain ⟨otherDecided, otherLeftRun, foundLeft⟩ := ihLeft leftForward nodup leftExits leftRun
      (markableRight.before gains.known keeps) found
    have exit := (sameExits connective.decidedBy).mono (List.subset_append_right rightPairs _)
    obtain ⟨-, -, otherBranches, otherBranchRun, otherGains⟩ :=
      Branches.addBranch_mirrored (foundLeft.find? exit) (branching_eq_ok branchRun)
    have foundRight : Matches (rightPairs ++ future) joined.1.branches
        ({ otherDecided with branches := otherBranches } : Frame).branches :=
      foundLeft.gain exit restNodup gains otherGains markableRight
    obtain ⟨last, otherRightRun, foundLast⟩ :=
      ihRight rightForward restNodup sameExits rightRun markable foundRight
    refine ⟨last, ?_, foundLast⟩
    rw [emitTree, bind_of_ok otherLeftRun, bind_of_ok (branching_of_ok otherBranchRun)]
    exact otherRightRun

end Frame

/-! ## The end of a chain -/

namespace Branches

variable {α β : Type}

/-- An operation that does the same on tables that match, however many operands they have. -/
def Blind (operation : Branching α) : Prop :=
  ∀ first second after emitter last value, Matches [] first second →
    operation (first, emitter) = .ok value (after, last) →
      ∃ otherAfter, operation (second, emitter) = .ok value (otherAfter, last) ∧
        Matches [] after otherAfter

/-- One blind operation after another is blind. -/
theorem Blind.bind {operation : Branching α} {next : α → Branching β} (blind : Blind operation)
    (others : ∀ value, Blind (next value)) : Blind (operation >>= next) := by
  intro first second after emitter last result found h
  obtain ⟨value, ⟨middle, between⟩, run, rest⟩ := bind_eq_ok h
  obtain ⟨otherMiddle, otherRun, foundMiddle⟩ := blind _ _ _ _ _ _ found run
  obtain ⟨otherAfter, otherRest, foundAfter⟩ := others value _ _ _ _ _ _ foundMiddle rest
  exact ⟨otherAfter, (bind_of_ok otherRun).trans otherRest, foundAfter⟩

/-- What is read is the same in tables that match. -/
theorem Blind.read {operation : Branches × Emitter → Branching α}
    (same : ∀ first second emitter, Matches [] first second →
      operation (first, emitter) = operation (second, emitter))
    (others : ∀ state, Blind (operation state)) : Blind (get >>= operation) := by
  intro first second after emitter last value found h
  have run : operation (first, emitter) (first, emitter) = .ok value (after, last) := h
  rw [same first second emitter found] at run
  exact others _ _ _ _ _ _ _ found run

/-- What the emitter does is blind. -/
theorem blind_emitting (operation : Emit α) : Blind (emitting operation) := by
  intro first second after emitter last value found h
  obtain ⟨run, unchanged⟩ := emitting_eq_ok h
  exact ⟨second, emitting_of_ok run, by rwa [show after = first from unchanged]⟩

section Keys

variable (key : BranchKey) (noOperand : ∀ node, key ≠ .operand node)
include noOperand

/-- A mark is blind. -/
theorem blind_mark : Blind (mark key) := by
  intro first second after emitter last value found h
  obtain ⟨rfl, otherRun⟩ := mark_mirrored (found.common key noOperand) h
  exact ⟨second, otherRun, found⟩

/-- A label is blind. -/
theorem blind_label : Blind (label key) := by
  intro first second after emitter last target found h
  obtain ⟨gains, -, otherAfter, otherRun, otherGains⟩ :=
    label_mirrored (found.common key noOperand) h
  exact ⟨otherAfter, otherRun,
    found.gain (.common noOperand) List.nodup_nil gains otherGains (.nil after last)⟩

/-- A branch is blind. -/
theorem blind_addBranch (op : Opcode) : Blind (addBranch op key) := by
  intro first second after emitter last target found h
  obtain ⟨gains, -, otherAfter, otherRun, otherGains⟩ :=
    addBranch_mirrored (found.common key noOperand) h
  exact ⟨otherAfter, otherRun,
    found.gain (.common noOperand) List.nodup_nil gains otherGains (.nil after last)⟩

end Keys

end Branches

namespace Frame

open Branches (Blind)

/-- The end for a chain that is true is blind. -/
theorem blind_emitTrue : Blind emitTrue := by
  have finish : Blind emitFinish :=
    (Branches.blind_label .finish nofun).bind fun label => Branches.blind_emitting _
  refine (Branches.blind_mark .trueTerminal nofun).bind fun marked => ?_
  cases marked with
  | none => exact finish
  | some label => exact (Branches.blind_emitting _).bind fun _ => finish

/-- Where a decided chain has its result made depends on no operand. -/
theorem blind_emitTerminals : Blind emitTerminals := by
  refine .read (fun first second emitter found => ?_) fun state => ?_
  · simp only [found.common .trueTerminal nofun]
  · refine (Branches.blind_mark .falseTerminal nofun).bind fun marked => ?_
    cases marked with
    | none => exact blind_emitTrue
    | some label =>
      refine (Branches.blind_emitting _).bind fun _ => ?_
      split
      · exact (Branches.blind_addBranch .finish nofun _).bind fun _ => blind_emitTrue
      · exact blind_emitTrue

/-- A chain is emitted in a frame of its own. -/
theorem emitJoined_eq_ok_iff {chain : Chain (ChainOperand Emitter)} {before after : Emitter} :
    Codegen.emitJoined chain before = .ok () after ↔
      ∃ frame, lower chain (({} : Frame), before) = .ok () (frame, after) := by
  rw [Codegen.emitJoined_eq]
  cases lower chain (({} : Frame), before) <;> simp [Prod.ext_iff]

/-- If a chain with shared operands is emitted, one with different operands is too, with the same
code. -/
theorem refines_emitJoined {arguments : Nat} {connective : Connective}
    {left right otherLeft otherRight : Chain (ChainOperand Emitter)} {pairs : NodePairs}
    (alongside : Alongside (.joined connective left right) (.joined connective otherLeft otherRight)
      pairs)
    (forward : ∀ operand ∈ (Chain.joined connective left right).operands,
      Forward arguments operand.code)
    (nodup : (Chain.joined connective otherLeft otherRight).nodes.Nodup) :
    Refines (Codegen.emitJoined (.joined connective left right))
      (Codegen.emitJoined (.joined connective otherLeft otherRight)) := by
  intro before _ after h
  obtain ⟨frame, lowered⟩ := emitJoined_eq_ok_iff.1 h
  rw [lower_eq] at lowered
  obtain ⟨_, emitted, treeRun, rest⟩ := bind_eq_ok lowered
  obtain ⟨_, branched, branchRun, rest⟩ := bind_eq_ok rest
  obtain ⟨_, ended, terminalsRun, entered⟩ := bind_eq_ok rest
  cases entered
  have start : Matches (pairs ++ []) ({ state := .branching } : Frame).branches
      ({ state := .branching } : Frame).branches := ⟨fun _ _ => rfl, fun _ _ => rfl⟩
  rw [← alongside.map_snd] at nodup
  have noOperand (value : Bool) (node : NodeId) : Chain.terminals value ≠ .operand node := by
    cases value <;> nofun
  -- the runs for the other chain are found in the same order
  obtain ⟨otherEmitted, otherTreeRun, found⟩ := emitTree_mirrored alongside forward
    (by rwa [List.append_nil]) (fun value => .common (noOperand value)) treeRun (.nil _ _) start
  obtain ⟨otherBranches, otherBranchRun, found⟩ :=
    Branches.blind_addBranch .finish nofun _ _ _ _ _ _ _ found (branching_eq_ok branchRun)
  obtain ⟨otherEnd, otherEndRun, -⟩ :=
    blind_emitTerminals _ _ _ _ _ _ found (branching_eq_ok terminalsRun)
  refine emitJoined_eq_ok_iff.2 ⟨⟨.resolved, otherEnd⟩, ?_⟩
  rw [lower_eq, bind_of_ok otherTreeRun, bind_of_ok (branching_of_ok otherBranchRun)]
  exact (bind_of_ok (branching_of_ok otherEndRun)).trans rfl

end Frame

/-- If the code of a chain with shared operands is emitted, that of one with different operands is
the same. -/
theorem Alongside.refines_emitCode {arguments : Nat} {chain other : Chain (ChainOperand Emitter)}
    {pairs : NodePairs} (alongside : Alongside chain other pairs)
    (forward : ∀ operand ∈ chain.operands, Forward arguments operand.code)
    (nodup : other.nodes.Nodup) :
    Refines (Codegen.emitCode chain) (Codegen.emitCode other) := by
  cases alongside with
  | operand refines => exact refines
  | joined lefts rights => exact Frame.refines_emitJoined (.joined lefts rights) forward nodup

end ExprCode
