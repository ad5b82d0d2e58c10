import ExprCode.Proofs.Splices

/-! # Parallel paths are transparent

Main statement: `inFork_eq_ok_iff_of_script`. Operations that are performed on a fork which is
spliced at once do what they do without the fork, however deep forks are nested: the one succeeds
exactly if the other does, and both lead to the same emitter.

The invariant is `Alongside`: as long as a path has marked no label of its parent that is marked
there, performing an operation on the path and on the graft of the two goes the same way
(`Mirrors`). A path that does mark such a label goes on where the parent has failed, and cannot be
spliced any more. -/

namespace ExprCode.Emitter

/-! ## Operations with parallel paths -/

/-- Perform an operation on a fork and splice the fork. -/
def inFork (operation : Emit Unit) : Emit Unit := fun emitter =>
  match operation emitter.fork with
  | .ok _ child => splice child emitter
  | .error defect _ => .error defect emitter

/-- Operations one after the other, of which some are performed on a fork that is spliced behind
them. -/
inductive Script where
  /-- Nothing is left to do. -/
  | done
  /-- A command, and the rest. -/
  | step (command : Command) (rest : Script)
  /-- A parallel path, and the rest. -/
  | path (inner rest : Script)

/-- Perform operations, up to the first that fails. -/
def Script.perform : Script → Emit Unit
  | .done => pure ()
  | .step command rest => do
      let _ ← command.perform
      rest.perform
  | .path inner rest => do
      inFork inner.perform
      rest.perform

/-! ## Paths alongside their parents -/

/-- A path has all labels of its parent, may have as many locals, and has marked no label that the
parent has marked. -/
structure Alongside (parent child : Emitter) : Prop where
  /-- The path has all labels of its parent. -/
  labels : parent.labels.size ≤ child.labels.size
  /-- The path may have as many locals as its parent. -/
  limit : child.maxLocals = parent.maxLocals
  /-- No label is marked in both. -/
  apart : Apart parent child

variable {parent child later before after : Emitter}

/-- A label that is marked in both was not unmarked by what came later. -/
theorem Apart.of_keeps (apart : Apart parent later) (keeps : Keeps child later) :
    Apart parent child := by
  intro label
  refine (apart label).imp_right fun free => ?_
  cases marked : child.labelPosition? label with
  | none => rfl
  | some position =>
    rw [keeps.marks marked] at free
    cases free

/-- What is kept alongside a parent stays alongside it. -/
theorem Alongside.keeps (alongside : Alongside parent child) (keeps : Keeps child later)
    (apart : Apart parent later) : Alongside parent later where
  labels := alongside.labels.trans keeps.labels
  limit := keeps.limit.trans alongside.limit
  apart := apart

/-- A fork has marked nothing. -/
theorem labelPosition?_fork (label : Label) : before.fork.labelPosition? label = none := by
  rw [labelPosition?_eq_none_iff, unmarked_fork]
  simpa [fork] using Nat.lt_or_ge label before.labels.size

/-- A fork is alongside its parent. -/
theorem alongside_fork (parent : Emitter) : Alongside parent parent.fork where
  labels := by simp [fork]
  limit := rfl
  apart label := .inr (labelPosition?_fork label)

/-- A fork adds nothing to its parent. -/
theorem graft_fork (parent : Emitter) : graft parent parent.fork = parent := by
  have labels : (graft parent parent.fork).labels = parent.labels := by
    refine labels_eq (by simp [fork]) fun label => ?_
    change (graft parent parent.fork).labelPosition? label = parent.labelPosition? label
    rw [labelPosition?_graft, labelPosition?_fork, Option.map_none, Option.or_none]
  have instructions : (graft parent parent.fork).instructions = parent.instructions := by
    simp [graft, fork]
  calc graft parent parent.fork
      = { parent with
          instructions := (graft parent parent.fork).instructions
          labels := (graft parent parent.fork).labels } := rfl
    _ = parent := by rw [labels, instructions]

/-! ## Operations that go the same way -/

/-- The outcomes of an operation on a path and on the graft of its parent and the path: both succeed
and the graft stays one, both fail, or the path has marked a label of the parent where the parent
fails. -/
inductive Mirrored (parent : Emitter) {α : Type} :
    EStateM.Result Defect Emitter α → EStateM.Result Defect Emitter α → Prop
  /-- Both succeed. -/
  | both {value : α} {later : Emitter} (apart : Apart parent later) :
      Mirrored parent (.ok value later) (.ok value (graft parent later))
  /-- Both fail. -/
  | neither {defect other : Defect} {later after : Emitter} :
      Mirrored parent (.error defect later) (.error other after)
  /-- The path goes on with a label that is marked in both. -/
  | clash {value : α} {defect : Defect} {later after : Emitter} (clash : ¬ Apart parent later) :
      Mirrored parent (.ok value later) (.error defect after)

/-- Only what succeeds matters. -/
theorem Mirrored.of_ok_iff {α : Type}
    {onPath direct onPath' direct' : EStateM.Result Defect Emitter α}
    (mirrored : Mirrored parent onPath direct)
    (samePath : ∀ value last, onPath' = .ok value last ↔ onPath = .ok value last)
    (sameDirect : ∀ value last, direct' = .ok value last ↔ direct = .ok value last) :
    Mirrored parent onPath' direct' := by
  cases onPath' with
  | ok value last =>
    cases (samePath value last).1 rfl
    cases direct' with
    | ok other after =>
      cases (sameDirect other after).1 rfl
      exact mirrored
    | error defect after =>
      -- a success on the other side would be one here
      cases mirrored with
      | both apart => cases (sameDirect _ _).2 rfl
      | clash clash => exact .clash clash
  | error defect last =>
    cases direct' with
    | error other after => exact .neither
    | ok value after =>
      cases (sameDirect value after).1 rfl
      cases mirrored with
      | both apart => cases (samePath _ _).2 rfl

/-- An operation goes the same way on a path and on the graft of its parent and the path. -/
structure Mirrors {α : Type} (operation : Emit α) : Prop where
  /-- Labels are kept. -/
  keeps : ∀ {before after value}, operation before = .ok value after → Keeps before after
  /-- It goes the same way. -/
  mirrored : ∀ {parent child}, Alongside parent child →
    Mirrored parent (operation child) (operation (graft parent child))

namespace Mirrors

variable {α β : Type} {operation : Emit α} {next : α → Emit β}

/-- A plain value goes the same way. -/
theorem pure (value : α) : Mirrors (Pure.pure value : Emit α) where
  keeps h := by
    cases h
    exact .refl _
  mirrored alongside := .both alongside.apart

/-- A failure goes the same way. -/
theorem throw (defect : Defect) : Mirrors (MonadExcept.throw defect : Emit α) where
  keeps h := by cases h
  mirrored _ := .neither

/-- One operation after another goes the same way. -/
theorem bind (first : Mirrors operation) (second : ∀ value, Mirrors (next value)) :
    Mirrors (operation >>= next) where
  keeps h := by
    obtain ⟨value, middle, firstRun, secondRun⟩ := bind_eq_ok h
    exact (first.keeps firstRun).trans ((second value).keeps secondRun)
  mirrored {parent child} alongside := by
    have start := first.mirrored alongside
    cases onPath : operation child with
    | error defect later =>
      cases direct : operation (graft parent child) with
      | error other after =>
        rw [bind_of_error onPath, bind_of_error direct]
        exact .neither
      | ok value after =>
        rw [onPath, direct] at start
        cases start
    | ok value later =>
      rw [bind_of_ok onPath]
      cases direct : operation (graft parent child) with
      | ok other after =>
        rw [onPath, direct] at start
        rw [bind_of_ok direct]
        cases start with
        | both apart => exact (second value).mirrored (alongside.keeps (first.keeps onPath) apart)
      | error defect after =>
        rw [onPath, direct] at start
        rw [bind_of_error direct]
        cases start with
        | clash clash =>
          -- whatever the path does now, the label stays marked
          cases rest : next value later with
          | error other last => exact .neither
          | ok result last =>
            exact .clash fun apart => clash (apart.of_keeps ((second value).keeps rest))

end Mirrors

/-! ## Single operations -/

/-- Labels that are defined in the graft are those of the path. -/
theorem getElem?_labels_graft (labels : parent.labels.size ≤ child.labels.size) (label : Label) :
    (graft parent child).labels[label]? = child.labels[label]?.map fun mark =>
      (parent.labelPosition? label).or (mark.map (parent.instructions.size + ·)) := by
  have size : (graft parent child).labels.size = child.labels.size := by
    rw [size_labels_graft, Nat.max_eq_right labels]
  have position : (graft parent child).labelPosition? label = _ := labelPosition?_graft
  by_cases defined : label < child.labels.size
  · have inGraft : label < (graft parent child).labels.size := size ▸ defined
    have inChild : child.labelPosition? label = child.labels[label] := by
      rw [labelPosition?, Array.getElem?_eq_getElem defined, Option.join_some]
    rw [labelPosition?, Array.getElem?_eq_getElem inGraft, inChild] at position
    rw [Array.getElem?_eq_getElem inGraft, Array.getElem?_eq_getElem defined]
    exact congrArg some position
  · have undefined := Nat.le_of_not_lt defined
    rw [Array.getElem?_eq_none undefined, Array.getElem?_eq_none (size ▸ undefined)]
    rfl

/-- An instruction on a path is one on the graft. -/
theorem graft_append (instruction : Instruction) :
    graft parent (child.append instruction) = (graft parent child).append instruction := by
  simp [graft, append, labelPosition?, Array.push_append, Nat.add_assoc]

/-- An instruction goes the same way. -/
theorem mirrors_emit (instruction : Instruction) : Mirrors (emit instruction) where
  keeps := (composable_updates.emit instruction).keeps_of_ok
  mirrored {parent child} alongside := by
    have same : (graft parent child).refusal? instruction = child.refusal? instruction := by
      rw [refusal?, refusal?, size_labels_graft, Nat.max_eq_right alongside.labels]
      rfl
    rw [emit_eq, emit_eq, same]
    cases child.refusal? instruction with
    | some defect => exact .neither
    | none =>
      rw [← graft_append]
      exact .both alongside.apart

/-- Labels that are new mark nothing. -/
theorem labelPosition?_extendLabels (count : Nat) (label : Label) :
    (before.extendLabels count).labelPosition? label = before.labelPosition? label := by
  refine Option.ext fun position => ?_
  rw [labelPosition?_eq_some, labelPosition?_eq_some]
  exact ⟨marked_of_extendLabels, Extends.append _ _ label _⟩

/-- New labels on a path are new labels on the graft. -/
theorem graft_extendLabels (labels : parent.labels.size ≤ child.labels.size) (count : Nat) :
    graft parent (child.extendLabels count) = (graft parent child).extendLabels count := by
  have same : (graft parent (child.extendLabels count)).labels =
      ((graft parent child).extendLabels count).labels := by
    refine labels_eq ?_ fun label => ?_
    · rw [size_labels_graft, size_extendLabels, size_extendLabels, size_labels_graft]
      omega
    · change (graft parent (child.extendLabels count)).labelPosition? label =
        ((graft parent child).extendLabels count).labelPosition? label
      rw [labelPosition?_graft, labelPosition?_extendLabels, labelPosition?_extendLabels,
        labelPosition?_graft]
  calc graft parent (child.extendLabels count)
      = { graft parent child with labels := (graft parent (child.extendLabels count)).labels } :=
        rfl
    _ = (graft parent child).extendLabels count := by
      rw [same]
      rfl

/-- New labels are marked by neither side. -/
theorem apart_extendLabels (apart : Apart parent child) (count : Nat) :
    Apart parent (child.extendLabels count) := fun label => by
  rw [labelPosition?_extendLabels]
  exact apart label

/-- New labels go the same way. -/
theorem mirrors_extendLabels (count : Nat) :
    Mirrors (modify (·.extendLabels count) : Emit Unit) where
  keeps h := by
    cases h
    exact .extendLabels _ count
  mirrored {parent child} alongside := by
    have onPath : (modify (·.extendLabels count) : Emit Unit) child =
        .ok () (child.extendLabels count) := rfl
    have direct : (modify (·.extendLabels count) : Emit Unit) (graft parent child) =
        .ok () ((graft parent child).extendLabels count) := rfl
    rw [onPath, direct, ← graft_extendLabels alongside.labels]
    exact .both (apart_extendLabels alongside.apart count)

/-- A new label goes the same way. -/
theorem mirrors_defineLabel : Mirrors defineLabel where
  keeps := updates_defineLabel.keeps_of_ok
  mirrored {parent child} alongside := by
    rw [defineLabel_eq, defineLabel_eq, size_labels_graft, Nat.max_eq_right alongside.labels,
      ← graft_extendLabels alongside.labels]
    exact .both (apart_extendLabels alongside.apart _)

/-- The label that is marked marks its place, and no other label changes. -/
theorem labelPosition?_mark (label other : Label) (position : Nat) :
    labelPosition? { before with labels := before.labels.setIfInBounds label (some position) }
      other =
      if label = other ∧ label < before.labels.size then some position
      else before.labelPosition? other := by
  simp only [labelPosition?, Array.getElem?_setIfInBounds]
  by_cases same : label = other
  · subst same
    by_cases defined : label < before.labels.size <;> simp [defined]
  · simp [same]

/-- A mark on a path is a mark on the graft. -/
theorem graft_mark {label : Label} (labels : parent.labels.size ≤ child.labels.size)
    (free : parent.labelPosition? label = none) (unmarked : child.labels[label]? = some none) :
    graft parent { child with
        labels := child.labels.setIfInBounds label (some child.instructions.size) } =
      { graft parent child with
        labels := (graft parent child).labels.setIfInBounds label
          (some (graft parent child).instructions.size) } := by
  have defined : label < child.labels.size := (Array.getElem?_eq_some_iff.1 unmarked).1
  have size : (graft parent child).labels.size = child.labels.size := by
    rw [size_labels_graft, Nat.max_eq_right labels]
  have behind : (graft parent child).instructions.size =
      parent.instructions.size + child.instructions.size := Array.size_append
  have same : (graft parent { child with
      labels := child.labels.setIfInBounds label (some child.instructions.size) }).labels =
      (graft parent child).labels.setIfInBounds label
        (some (graft parent child).instructions.size) := by
    refine labels_eq (by simp) fun other => ?_
    change labelPosition? (graft parent _) other = labelPosition? { graft parent child with
      labels := (graft parent child).labels.setIfInBounds label
        (some (graft parent child).instructions.size) } other
    rw [labelPosition?_graft, labelPosition?_mark, labelPosition?_mark, labelPosition?_graft, size]
    by_cases here : label = other
    · -- the mark of the path counts from the end of the parent's code
      subst here
      simp [defined, free, behind]
    · simp [here]
  calc graft parent { child with
          labels := child.labels.setIfInBounds label (some child.instructions.size) }
      = { graft parent child with labels := (graft parent { child with
          labels := child.labels.setIfInBounds label (some child.instructions.size) }).labels } :=
            rfl
    _ = _ := by rw [same]

/-- A mark goes the same way, unless the parent has made it. -/
theorem mirrors_markLabel (label : Label) : Mirrors (markLabel label) where
  keeps := (updates_markLabel label).keeps_of_ok
  mirrored {parent child} alongside := by
    rw [markLabel_eq, markLabel_eq, markLabelAt_eq, markLabelAt_eq,
      getElem?_labels_graft alongside.labels]
    cases inChild : child.labels[label]? with
    | none => exact .neither
    | some mark =>
      cases mark with
      | some position =>
        -- marked in the path, so marked in the graft
        cases parent.labelPosition? label <;> exact .neither
      | none =>
        have defined : label < child.labels.size := (Array.getElem?_eq_some_iff.1 inChild).1
        cases inParent : parent.labelPosition? label with
        | none =>
          dsimp only [Option.map_some, Option.map_none, Option.or_none]
          rw [← graft_mark alongside.labels inParent inChild]
          refine .both fun other => ?_
          rw [labelPosition?_mark]
          by_cases here : label = other
          · subst here
            exact .inl inParent
          · rw [if_neg fun both => here both.1]
            exact alongside.apart other
        | some position =>
          -- the path marks a label that its parent has marked
          refine .clash fun apart => ?_
          rcases apart label with free | free
          · rw [inParent] at free
            cases free
          · rw [labelPosition?_mark, if_pos ⟨rfl, defined⟩] at free
            cases free

/-- A new local goes the same way. -/
theorem mirrors_declareLocal (type : Ty) : Mirrors (declareLocal type) where
  keeps := (updates_declareLocal type).keeps_of_ok
  mirrored {parent child} alongside := by
    have alike : (graft parent child).maxLocals ≤ (graft parent child).locals.size ↔
        child.maxLocals ≤ child.locals.size := by
      rw [alongside.limit]
      rfl
    have apart : Apart parent { child with locals := child.locals.push type } := alongside.apart
    rw [declareLocal_eq, declareLocal_eq]
    by_cases full : child.maxLocals ≤ child.locals.size
    · rw [if_pos full, if_pos (alike.2 full)]
      exact .neither
    · rw [if_neg full, if_neg (mt alike.1 full)]
      exact .both apart

/-! ## Tokens -/

/-- A path and the graft have the same tables, so look-ups go the same way. -/
theorem mirrored_lookedUp {τ : Type} {table : TableName} {onPath direct : τ → Emitter}
    (alike : ∀ entries, direct entries = graft parent (onPath entries))
    (apart : ∀ entries, Apart parent (onPath entries)) (found : Option Nat × τ) :
    Mirrored parent (lookedUp table onPath found) (lookedUp table direct found) := by
  obtain ⟨_ | number, entries⟩ := found
  · exact .neither
  · rw [lookedUp, lookedUp, alike]
    exact .both (apart entries)

/-- The token of a string goes the same way. -/
theorem mirrors_stringToken (value : String) : Mirrors (stringToken value) where
  keeps := (composable_updates.stringToken value).keeps_of_ok
  mirrored alongside := by
    rw [stringToken_eq, stringToken_eq]
    refine mirrored_lookedUp (fun _ => rfl) (fun _ => ?_) _
    exact alongside.apart

/-- The token of a type goes the same way. -/
theorem mirrors_typeToken (type : Ty) : Mirrors (typeToken type) where
  keeps := (composable_updates.typeToken type).keeps_of_ok
  mirrored alongside := by
    rw [typeToken_eq, typeToken_eq]
    refine mirrored_lookedUp (fun _ => rfl) (fun _ => ?_) _
    exact alongside.apart

/-- The token of a function goes the same way. -/
theorem mirrors_functionToken (name : String) (arity : Nat) (function : Handle) :
    Mirrors (functionToken name arity function) where
  keeps := (composable_updates.functionToken name arity function).keeps_of_ok
  mirrored {parent child} alongside := by
    have same : (graft parent child).functions = child.functions := rfl
    rw [functionToken_eq, functionToken_eq, same]
    split
    · exact .neither
    · refine mirrored_lookedUp (fun _ => rfl) (fun _ => ?_) _
      exact alongside.apart

/-! ## Commands -/

/-- What an operation does, without its answer. -/
def effect {α : Type} (operation : Emit α) : Emit Unit := do
  let _ ← operation

/-- A branch goes the same way, though its number is another one in the graft. -/
theorem mirrors_emitBranch (op : Opcode) (target : Label) :
    Mirrors (effect (answering (emitBranch op target))) := by
  by_cases branch : op.isBranch
  · -- without its answer, a branch is one instruction
    have same : effect (answering (emitBranch op target)) =
        emit ⟨op.withForm .long, .label target⟩ := by
      funext before
      rw [effect, answering, emitBranch, if_pos branch]
      cases run : emit ⟨op.withForm .long, .label target⟩ before with
      | ok value after => exact bind_of_ok (bind_of_ok (bind_of_ok run))
      | error defect after => exact bind_of_error (bind_of_error (bind_of_error run))
    rw [same]
    exact mirrors_emit _
  · have same : emitBranch op target = throw (.operandMismatch op (.label target)) := by
      rw [emitBranch, if_neg branch]
    rw [same]
    exact (Mirrors.bind (.throw _) fun _ => .pure _).bind fun _ => .pure ()

/-- Operations that are put together go the same way if their parts do. -/
theorem composable_mirrors : Composable fun _ => Mirrors where
  pure := .pure
  throw := .throw
  bind := .bind
  emit := mirrors_emit
  stringToken := mirrors_stringToken
  typeToken := mirrors_typeToken
  functionToken := mirrors_functionToken

/-- Every command goes the same way on a path and on the graft of its parent and the path. -/
theorem Command.mirrors (command : Command) : Mirrors (effect command.perform) := by
  by_cases branch : ∃ op target, command = .branch op target
  · obtain ⟨op, target, rfl⟩ := branch
    exact mirrors_emitBranch op target
  · have noBranch : ∀ op target, command = .branch op target → Mirrors (emitBranch op target) :=
      fun op target same => absurd ⟨op, target, same⟩ branch
    have mirrors := composable_mirrors.perform noBranch mirrors_defineLabel mirrors_markLabel
      mirrors_declareLocal mirrors_extendLabels
    exact mirrors.bind fun _ => .pure ()

/-! ## Forks -/

/-- An operation that goes the same way on paths does on a fork what it does without. -/
theorem Mirrors.inFork_eq_ok_iff {operation : Emit Unit} (mirrors : Mirrors operation) :
    inFork operation before = .ok () after ↔ operation before = .ok () after := by
  have mirrored := mirrors.mirrored (alongside_fork before)
  rw [graft_fork] at mirrored
  unfold inFork
  cases onFork : operation before.fork with
  | error defect child =>
    rw [onFork] at mirrored
    cases direct : operation before with
    | error other last => simp
    | ok value last =>
      rw [direct] at mirrored
      cases mirrored
  | ok value child =>
    rw [onFork] at mirrored
    -- nothing has happened to the parent, so the splice fails only at a label that both have marked
    have fresh : child.forkedFrom = some before.forkPoint := (mirrors.keeps onFork).forkedFrom
    simp only [splice_eq_ok_iff, fresh, true_and]
    cases direct : operation before with
    | ok other last =>
      rw [direct] at mirrored
      cases mirrored with
      | both apart =>
        simp only [apart, true_and, EStateM.Result.ok.injEq]
        exact eq_comm
    | error other last =>
      rw [direct] at mirrored
      cases mirrored with
      | clash clash => simp [clash]

/-- A parallel path goes the same way as what is on it. -/
theorem Mirrors.inFork {operation : Emit Unit} (mirrors : Mirrors operation) :
    Mirrors (inFork operation) where
  keeps h := mirrors.keeps (mirrors.inFork_eq_ok_iff.1 h)
  mirrored {parent child} alongside := by
    -- neither side notices the fork
    exact (mirrors.mirrored alongside).of_ok_iff (fun _ _ => mirrors.inFork_eq_ok_iff)
      fun _ _ => mirrors.inFork_eq_ok_iff

/-- Operations with forks nested in them go the same way on a path and on the graft of its parent
and the path. -/
theorem Script.mirrors (script : Script) : Mirrors script.perform := by
  induction script with
  | done => exact .pure ()
  | step command rest restMirrors =>
    have same : (Script.step command rest).perform = effect command.perform >>= fun _ =>
        rest.perform := by
      simp [Script.perform, effect]
    rw [same]
    exact command.mirrors.bind fun _ => restMirrors
  | path inner rest innerMirrors restMirrors => exact innerMirrors.inFork.bind fun _ => restMirrors

/-- **Parallel paths are transparent.** Operations with forks nested in them, performed on a fork
that is spliced at once, succeed exactly if they do on the emitter itself, and lead to the same
emitter. -/
theorem inFork_eq_ok_iff_of_script (script : Script) (before after : Emitter) :
    inFork script.perform before = .ok () after ↔ script.perform before = .ok () after :=
  script.mirrors.inFork_eq_ok_iff

end ExprCode.Emitter
