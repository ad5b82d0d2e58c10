import ExprCode.Proofs.ChainLabels
import ExprCode.Proofs.ExpectedErrors

/-! # Operations that leave an emitter in order

`Clean allowed slots operation` says of an operation, on any emitter with as many locals, that it
fails only as allowed and leaves the emitter in order: all labels that it defines it marks, locals
only become more, and a fork stays one of the same parent. Between the definition of a label and its
mark an emitter is not in order; `Emitter.Since` says which labels are still open there.

There is one lemma for every operation of the emitter that code generation uses. The last one is
`Emitter.ensures_splice`: a fork that is in order can be spliced into its parent. -/

namespace ExprCode

namespace Emitter

/-! ## Emitters in order -/

/-- There are no more locals than allowed, and instructions can number them. -/
structure Fits (emitter : Emitter) : Prop where
  /-- There are no more than allowed. -/
  few : emitter.locals.size ≤ emitter.maxLocals
  /-- Two bytes number them. -/
  numbered : emitter.maxLocals ≤ maxSlots

/-- Locals have become more, within the limit, and the parent is the same. -/
structure Follows (start emitter : Emitter) : Prop where
  /-- Locals become more. -/
  locals : start.locals.size ≤ emitter.locals.size
  /-- There are no more than allowed. -/
  few : emitter.locals.size ≤ emitter.maxLocals
  /-- The limit stays. -/
  limit : emitter.maxLocals = start.maxLocals
  /-- The parent stays. -/
  forkedFrom : emitter.forkedFrom = start.forkedFrom

/-- An emitter has gone on from a start, and of the labels defined since then, the open ones mark
nothing yet. -/
structure Since (start : Emitter) (opened : Set Label) (emitter : Emitter) : Prop
    extends Follows start emitter where
  /-- These labels and those from before mark nothing. -/
  unmarked : emitter.unmarked = start.unmarked ∪ opened
  /-- They have been defined since the start. -/
  apart : Disjoint start.unmarked opened

variable {start emitter before middle after child : Emitter} {opened : Set Label} {label : Label}

namespace Follows

/-- An emitter follows itself. -/
theorem refl (fits : emitter.Fits) : Follows emitter emitter :=
  ⟨Nat.le_refl _, fits.few, rfl, rfl⟩

/-- What follows an emitter that follows another follows that one. -/
theorem trans (first : Follows start middle) (second : Follows middle after) :
    Follows start after :=
  ⟨first.locals.trans second.locals, second.few, second.limit.trans first.limit,
    second.forkedFrom.trans first.forkedFrom⟩

/-- What follows an emitter that fits fits. -/
theorem fits (follows : Follows start emitter) (fits : start.Fits) : emitter.Fits :=
  ⟨follows.few, follows.limit.trans_le fits.numbered⟩

/-- A change of instructions and labels leaves an emitter behind the same start. -/
theorem coded (follows : Follows start before) (coded : Coded before after) :
    Follows start after := by
  rw [coded]
  exact ⟨follows.locals, follows.few, follows.limit, follows.forkedFrom⟩

end Follows

namespace Since

/-- Labels and locals are as before. -/
theorem of_same (fits : before.Fits) (labels : after.labels = before.labels)
    (locals : after.locals = before.locals) (limit : after.maxLocals = before.maxLocals)
    (forkedFrom : after.forkedFrom = before.forkedFrom) : Since before ∅ after where
  locals := by rw [locals]
  few := by
    rw [locals, limit]
    exact fits.few
  limit := limit
  forkedFrom := forkedFrom
  unmarked := by rw [unmarked_of_labels labels, Set.union_empty]
  apart := Set.disjoint_empty _

/-- Nothing has been opened since an emitter itself. -/
theorem refl (fits : emitter.Fits) : Since emitter ∅ emitter := of_same fits rfl rfl rfl rfl

/-- If nothing has been opened, the same labels are unmarked. -/
theorem unmarked_eq (since : Since start ∅ emitter) : emitter.unmarked = start.unmarked := by
  rw [since.unmarked, Set.union_empty]

/-- An operation that marks all its labels leaves the open ones as they are. -/
theorem trans (first : Since start opened middle) (second : Since middle ∅ after) :
    Since start opened after where
  toFollows := first.toFollows.trans second.toFollows
  unmarked := second.unmarked_eq.trans first.unmarked
  apart := first.apart

/-- A label that has been opened is unmarked. -/
theorem mem_unmarked (since : Since start opened emitter) (isOpen : label ∈ opened) :
    label ∈ emitter.unmarked := by
  rw [since.unmarked]
  exact .inr isOpen

/-- A label is defined. -/
theorem define (since : Since start opened before)
    (unmarked : after.unmarked = insert before.labels.size before.unmarked)
    (coded : Coded before after) : Since start (insert before.labels.size opened) after where
  toFollows := since.toFollows.coded coded
  unmarked := by rw [unmarked, since.unmarked, Set.union_insert]
  apart := by
    have new : before.labels.size ∉ start.unmarked := by
      intro old
      have listed : before.labels.size ∈ before.unmarked := since.unmarked ▸ Or.inl old
      exact size_labels_notMem_unmarked listed
    exact Set.disjoint_insert_right.2 ⟨new, since.apart⟩

/-- A label is marked. -/
theorem mark (since : Since start opened before) (isOpen : label ∈ opened)
    (unmarked : after.unmarked = before.unmarked \ {label}) (coded : Coded before after) :
    Since start (opened \ {label}) after where
  toFollows := since.toFollows.coded coded
  unmarked := by
    have new : label ∉ start.unmarked := fun old => Set.disjoint_left.1 since.apart old isOpen
    rw [unmarked, since.unmarked, Set.union_sdiff_distrib, Set.sdiff_singleton_eq_self new]
  apart := since.apart.mono_right Set.sdiff_subset

/-- Both of two open labels are marked. -/
theorem both {first second : Label}
    (since : Since start (({second, first} \ {first} : Set Label) \ {second}) emitter) :
    Since start ∅ emitter := by
  have none : (({second, first} \ {first} : Set Label) \ {second}) = ∅ := by
    ext label
    simp only [Set.mem_sdiff, Set.mem_insert_iff, Set.mem_singleton_iff, Set.mem_empty_iff_false]
    tauto
  rwa [none] at since

end Since

end Emitter

/-! ## Clean operations -/

open Emitter (Fits Since)

/-- On an emitter with as many locals, an operation fails only as allowed, and it leaves the emitter
in order. -/
def Clean {ε α : Type} (allowed : ε → Prop) (slots : Nat) (operation : EStateM ε Emitter α) :
    Prop :=
  ∀ before : Emitter, before.Fits → slots ≤ before.locals.size →
    Ensures allowed operation before fun _ after => Since before ∅ after

namespace Clean

variable {ε α β : Type} {allowed : ε → Prop} {slots : Nat} {operation : EStateM ε Emitter α}
  {next : α → EStateM ε Emitter β}

/-- A plain value is clean. -/
theorem pure (value : α) : Clean allowed slots (Pure.pure value : EStateM ε Emitter α) :=
  fun _ fits _ => .pure (.refl fits)

/-- An operation that fails with a permitted error is clean. -/
theorem throw {error : ε} (permitted : allowed error) :
    Clean allowed slots (MonadExcept.throw error : EStateM ε Emitter α) :=
  fun _ _ _ => .throw permitted

/-- More locals do no harm. -/
theorem mono {more : Nat} (clean : Clean allowed slots operation) (h : slots ≤ more) :
    Clean allowed more operation :=
  fun before fits room => clean before fits (h.trans room)

/-- A clean operation while labels are open. -/
theorem since {start before : Emitter} {opened : Set Label} (clean : Clean allowed slots operation)
    (fits : start.Fits) (room : slots ≤ start.locals.size) (since : Since start opened before) :
    Ensures allowed operation before fun _ after => Since start opened after :=
  (clean before (since.fits fits) (room.trans since.locals)).mono fun _ _ more => since.trans more

/-- One operation after another is clean. -/
theorem bind (first : Clean allowed slots operation)
    (second : ∀ value, Clean allowed slots (next value)) :
    Clean allowed slots (operation >>= next) :=
  fun before fits room => (first before fits room).bind fun value _ since =>
    (second value).since fits room since

end Clean

namespace Emitter

variable {start before after child : Emitter} {opened : Set Label} {label : Label} {slots : Nat}

/-! ## Instructions and locals -/

/-- An instruction with an operand that it takes. -/
theorem clean_emit {instruction : Instruction}
    (fitting : instruction.operand.fits instruction.op.operandKind)
    (noLabel : instruction.target? = none)
    (allocated : ∀ slot, instruction.localIndex? = some slot → slot < slots) :
    Clean Defect.FromInput slots (emit instruction) := by
  intro before fits room
  have allocatedHere : instruction.localIndex?.filter (before.locals.size ≤ ·) = none := by
    rw [Option.filter_eq_none_iff]
    intro slot found
    have small := allocated slot found
    simp only [decide_eq_true_eq, not_le]
    omega
  have accepted : before.refusal? instruction = none := by
    rw [refusal?, if_pos fitting, allocatedHere, noLabel]
    rfl
  refine (ensures_emit accepted).mono ?_
  rintro _ _ rfl
  exact .of_same fits rfl rfl rfl rfl

/-- An access to a local that is there. -/
theorem clean_localAccess {slot : Nat} {fixed : Fin 4 → Opcode} {near far : Opcode}
    (plain : ∀ index, (fixed index).operandKind = .none)
    (numbered : ∀ index : Fin 4, Instruction.localIndex? ⟨fixed index, .none⟩ = some index.val)
    (nearKind : near.operandKind = .u8) (farKind : far.operandKind = .u16)
    (nearNumbered : ∀ index, Instruction.localIndex? ⟨near, .u8 index⟩ = some index.toNat)
    (farNumbered : ∀ index, Instruction.localIndex? ⟨far, .u16 index⟩ = some index.toNat)
    (declared : slot < slots) :
    Clean Defect.FromInput slots (emitChecked (localAccess slot fixed near far)) := by
  intro before fits room
  have inRange : slot < maxSlots := by
    have few := fits.few
    have limit := fits.numbered
    omega
  suffices clean : Clean Defect.FromInput slots (emitChecked (localAccess slot fixed near far)) from
    clean before fits room
  -- the shortest of three forms is chosen that can hold the number
  unfold localAccess
  split
  · next small =>
    refine clean_emit (by rw [plain]; rfl) rfl fun index found => ?_
    rw [numbered, Option.some.injEq] at found
    exact found ▸ declared
  · split
    · next small =>
      refine clean_emit (by rw [nearKind]; rfl) rfl fun index found => ?_
      rw [nearNumbered, Option.some.injEq] at found
      have same : (UInt8.ofNat slot).toNat = slot := by simpa using small
      omega
    · refine clean_emit (by rw [farKind]; rfl) rfl fun index found => ?_
      rw [farNumbered, Option.some.injEq] at found
      have same : (UInt16.ofNat slot).toNat = slot := by
        simpa using (show slot < 65536 from inRange)
      omega

/-- Loading a local that is declared is clean. -/
theorem clean_emitLoadLocal {slot : Nat} (declared : slot < slots) :
    Clean Defect.FromInput slots (emitLoadLocal slot) :=
  clean_localAccess (fun _ => rfl) (fun _ => rfl) rfl rfl (fun _ => rfl) (fun _ => rfl) declared

/-- Storing a local that is declared is clean. -/
theorem clean_emitStoreLocal {slot : Nat} (declared : slot < slots) :
    Clean Defect.FromInput slots (emitStoreLocal slot) :=
  clean_localAccess (fun _ => rfl) (fun _ => rfl) rfl rfl (fun _ => rfl) (fun _ => rfl) declared

/-- A local is declared if there is room for it. -/
theorem ensures_declareLocal (type : Ty) :
    Ensures Defect.FromInput (declareLocal type) before fun slot after =>
      slot < after.locals.size ∧ Since before ∅ after := by
  refine .get_bind ?_
  by_cases full : before.maxLocals ≤ before.locals.size
  · simp only [if_pos full]
    exact .throw (.locals _)
  · simp only [if_neg full]
    have pushed : (before.locals.push type).size = before.locals.size + 1 := Array.size_push _
    refine .of_ok rfl ⟨?_, ⟨⟨?_, ?_, rfl, rfl⟩, (Set.union_empty _).symm, Set.disjoint_empty _⟩⟩
    all_goals
      simp only [pushed]
      omega

/-- An integer is clean. -/
theorem clean_emitLoadInt32 (value : Int32) :
    Clean Defect.FromInput slots (emitLoadInt32 value) := by
  unfold emitLoadInt32
  split
  · exact clean_emit rfl rfl nofun
  · exact clean_emit rfl rfl nofun

/-! ## Tables -/

/-- A look-up fails only where there is no room, and changes only its table. -/
theorem ensures_lookedUp {τ : Type} {operation : Emit UInt16} {table : TableName}
    {restore : τ → Emitter} {found : Option Nat × τ} {final : UInt16 → Emitter → Prop}
    (looksUp : operation before = lookedUp table restore found)
    (changed : ∀ token entries, final token (restore entries)) :
    Ensures Defect.FromInput operation before final := by
  unfold Ensures
  rw [looksUp]
  obtain ⟨_ | number, entries⟩ := found
  · exact .table _
  · exact changed _ _

/-- The token of a string is clean. -/
theorem clean_stringToken (value : String) : Clean Defect.FromInput slots (stringToken value) :=
  fun before fits _ => ensures_lookedUp (stringToken_eq value before) fun _ _ =>
    .of_same fits rfl rfl rfl rfl

/-- The token of a type is clean. -/
theorem clean_typeToken (type : Ty) : Clean Defect.FromInput slots (typeToken type) :=
  fun before fits _ => ensures_lookedUp (typeToken_eq type before) fun _ _ =>
    .of_same fits rfl rfl rfl rfl

/-- The token of a function is clean. -/
theorem clean_functionToken (name : String) (arity : Nat) (function : Handle) :
    Clean Defect.FromInput slots (functionToken name arity function) := by
  intro before fits _
  have looksUp := functionToken_eq name arity function before
  split at looksUp
  · unfold Ensures
    rw [looksUp]
    exact .table _
  · exact ensures_lookedUp looksUp fun _ _ => .of_same fits rfl rfl rfl rfl

/-- A string is clean. -/
theorem clean_emitLoadString (value : String) :
    Clean Defect.FromInput slots (emitLoadString value) :=
  (clean_stringToken value).bind fun _ => clean_emit rfl rfl nofun

/-- A call is clean. -/
theorem clean_emitCall (name : String) (arity : Nat) (function : Handle) :
    Clean Defect.FromInput slots (emitCall name arity function) :=
  (clean_functionToken name arity function).bind fun _ => clean_emit rfl rfl nofun

/-- A new array is clean. -/
theorem clean_emitNewArray (element : Ty) : Clean Defect.FromInput slots (emitNewArray element) :=
  (clean_typeToken element).bind fun _ => clean_emit rfl rfl nofun

/-- Loading an element is clean. -/
theorem clean_emitArrayLoad (element : Ty) :
    Clean Defect.FromInput slots (emitArrayLoad element) := by
  unfold emitArrayLoad
  split
  · exact clean_emit rfl rfl nofun
  · exact (clean_typeToken element).bind fun _ => Clean.bind (clean_emit rfl rfl nofun) fun _ =>
      clean_emit rfl rfl nofun

/-- Storing an element is clean. -/
theorem clean_emitArrayStore (element : Ty) :
    Clean Defect.FromInput slots (emitArrayStore element) := by
  unfold emitArrayStore
  split
  · exact clean_emit rfl rfl nofun
  · exact (clean_typeToken element).bind fun _ => clean_emit rfl rfl nofun

/-! ## Labels -/

section Labels

variable {allowed : Defect → Prop}

/-- A new label is open. -/
theorem since_defineLabel (since : Since start opened before) :
    Ensures allowed defineLabel before fun label after =>
      label ∉ opened ∧ Since start (insert label opened) after := by
  refine ensures_defineLabel.mono ?_
  rintro label after ⟨rfl, unmarked, coded⟩
  exact ⟨fun isOpen => size_labels_notMem_unmarked (since.mem_unmarked isOpen),
    since.define unmarked coded⟩

/-- A branch to an open label. -/
theorem since_emitBranch {condition : BranchCondition} {form : BranchForm} (fits : start.Fits)
    (since : Since start opened before) (isOpen : label ∈ opened) :
    Ensures allowed (emitBranch (.branch condition form) label) before fun _ after =>
      Since start opened after := by
  refine (ensures_emitBranch (lt_of_unmarked (since.mem_unmarked isOpen))).mono ?_
  rintro _ _ rfl
  exact since.trans (.of_same (since.fits fits) rfl rfl rfl rfl)

/-- An open label is marked. -/
theorem since_markLabel (since : Since start opened before) (isOpen : label ∈ opened) :
    Ensures allowed (markLabel label) before fun _ after =>
      Since start (opened \ {label}) after := by
  refine (ensures_markLabel (since.mem_unmarked isOpen)).mono ?_
  rintro _ after ⟨unmarked, coded⟩
  exact since.mark isOpen unmarked coded

end Labels

/-! ## Forks -/

/-- The marks of an emitter are listed from the lowest label to the highest. -/
theorem pairwise_marks (emitter : Emitter) : emitter.marks.Pairwise (·.1 < ·.1) := by
  have numbers : (emitter.labels.toList.zipIdx.map (·.2)).Pairwise (· < ·) := by
    rw [List.zipIdx_map_snd]
    exact List.pairwise_lt_range'
  rw [List.pairwise_map] at numbers
  refine numbers.filterMap _ ?_
  rintro ⟨mark, label⟩ ⟨otherMark, otherLabel⟩ below entry found otherEntry foundOther
  obtain ⟨_, -, rfl⟩ := Option.map_eq_some_iff.1 found
  obtain ⟨_, -, rfl⟩ := Option.map_eq_some_iff.1 foundOther
  exact below

/-- No label is marked twice. -/
theorem nodup_marks (emitter : Emitter) : (emitter.marks.map (·.1)).Nodup := by
  rw [List.Nodup, List.pairwise_map]
  exact (pairwise_marks emitter).imp Nat.ne_of_lt

/-- Different labels that mark nothing can be marked one after the other. -/
theorem ensures_forM_markLabelAt {allowed : Defect → Prop} {marks : List (Label × Nat)} {base : Nat}
    (nodup : (marks.map (·.1)).Nodup) (unmarked : ∀ mark ∈ marks, mark.1 ∈ before.unmarked) :
    Ensures allowed (marks.forM fun (label, position) => markLabelAt label (base + position)) before
      fun _ after => after.unmarked = before.unmarked \ {label | label ∈ marks.map (·.1)} ∧
        after = { before with labels := after.labels } := by
  induction marks generalizing before with
  | nil => exact .pure ⟨by simp, rfl⟩
  | cons mark marks ih =>
    obtain ⟨label, position⟩ := mark
    obtain ⟨new, laterNodup⟩ := List.nodup_cons.1 nodup
    obtain ⟨first, later⟩ := List.forall_mem_cons.1 unmarked
    refine (ensures_markLabelAt first _).bind ?_
    rintro _ middle ⟨rest, same⟩
    -- labels differ, so marking the first one leaves the others unmarked
    have laterUnmarked : ∀ mark ∈ marks, mark.1 ∈ middle.unmarked := by
      intro other listed
      rw [rest]
      refine ⟨later other listed, ?_⟩
      rintro equal
      exact new (List.mem_map.2 ⟨other, listed, equal⟩)
    refine (ih laterNodup laterUnmarked).mono ?_
    rintro _ after ⟨others, sameToo⟩
    refine ⟨?_, ?_⟩
    · rw [others, rest]
      ext other
      simp only [Set.mem_sdiff, Set.mem_singleton_iff, Set.mem_ofPred_eq, List.map_cons,
        List.mem_cons, not_or, and_assoc]
    · rw [sameToo, same]

/-- In a fork every label is unmarked. -/
theorem unmarked_fork : before.fork.unmarked = {label | label < before.labels.size} := by
  ext label
  simp [unmarked, fork, Array.getElem?_replicate]

/-- More labels are defined. -/
theorem unmarked_extendLabels (count : Nat) :
    (before.extendLabels count).unmarked =
      before.unmarked ∪ {label | before.labels.size ≤ label ∧ label < count} := by
  ext label
  simp only [unmarked, extendLabels, Set.mem_union, Set.mem_ofPred_eq, Array.getElem?_append,
    Array.getElem?_replicate]
  by_cases old : label < before.labels.size
  · simp [old, Nat.not_le.2 old]
  · have outside : before.labels[label]? = none := Array.getElem?_eq_none (Nat.le_of_not_lt old)
    simp only [if_neg old, outside, Nat.le_of_not_lt old]
    have within : label - before.labels.size < count - before.labels.size ↔ label < count :=
      Nat.sub_lt_sub_iff_right (Nat.le_of_not_lt old)
    simp [within]

/-- A fork that has been left in order can be spliced into its parent, and then the parent is in
order. -/
theorem ensures_splice {allowed : Defect → Prop} (since : Since before.fork ∅ child) :
    Ensures allowed (splice child) before fun _ after => Since before ∅ after := by
  have fresh : child.forkedFrom = some before.forkPoint := since.forkedFrom
  have unmarked : child.unmarked = {label | label < before.labels.size} := by
    rw [since.unmarked_eq, unmarked_fork]
  -- the fork has marked all labels that are new in it, and none that are not
  have marked : ∀ label, label ∈ child.marks.map (·.1) ↔
      before.labels.size ≤ label ∧ label < child.labels.size := by
    intro label
    have old : child.labels[label]? = some none ↔ label < before.labels.size :=
      Set.ext_iff.1 unmarked label
    have isMarked : label ∈ child.marks.map (·.1) ↔
        ∃ position, child.labels[label]? = some (some position) := by
      simp [← mem_marks]
    rw [isMarked, ← Nat.not_lt, ← old]
    by_cases inside : label < child.labels.size
    · rw [Array.getElem?_eq_getElem inside]
      cases child.labels[label] <;> simp [inside]
    · rw [Array.getElem?_eq_none (Nat.le_of_not_lt inside)]
      simp [inside]
  have unmarkedHere : ∀ mark ∈ child.marks,
      mark.1 ∈ (before.extendLabels child.labels.size).unmarked := by
    intro mark listed
    rw [unmarked_extendLabels]
    exact .inr ((marked mark.1).1 (List.mem_map_of_mem listed))
  -- the parent defines the labels that are new in the fork, and marks just these
  refine .get_bind ?_
  simp only [if_pos fresh]
  refine .bind_ok rfl
    (.get_bind ((ensures_forM_markLabelAt (nodup_marks child) unmarkedHere).bind ?_))
  rintro _ middle ⟨rest, same⟩
  have limit : middle.maxLocals = before.maxLocals := by
    rw [same]
    rfl
  have parent : middle.forkedFrom = before.forkedFrom := by
    rw [same]
    rfl
  have few : child.locals.size ≤ middle.maxLocals := by
    rw [limit]
    exact since.few.trans_eq since.limit
  have allMarked : middle.unmarked = before.unmarked ∪ ∅ := by
    rw [rest, unmarked_extendLabels, Set.union_empty]
    ext label
    simp only [marked, Set.mem_sdiff, Set.mem_union, Set.mem_ofPred_eq]
    constructor
    · rintro ⟨old | new, notNew⟩
      · exact old
      · exact absurd new notNew
    · intro old
      exact ⟨.inl old, fun new => Nat.not_lt.2 new.1 (lt_of_unmarked old)⟩
  exact .of_ok rfl ⟨⟨since.locals, few, limit, parent⟩, allMarked, Set.disjoint_empty _⟩

end Emitter

end ExprCode
