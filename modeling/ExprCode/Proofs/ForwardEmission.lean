import ExprCode.Proofs.EmitterInvariant
import ExprCode.Proofs.ParallelPaths

/-! # Code that goes forward

`Emitter.Advances` says what holds of the code that was emitted since an earlier state: it refers to
what is there, and its branches lead to labels that were defined since and are marked behind the
branch. A branch is emitted before its label is marked, so meanwhile its label is *owed*: nothing is
known of where it leads. A mark that succeeds settles a label, since it stands behind all that was
emitted before and no label is marked twice. That no label is owed at the end is the property
`Emitter.Forward` of operations; it passes from a fork to the parent, because the labels of the fork
are new there.

In a chain, places owe their labels. `Frame.owing_emitTree` says that a part of a chain leaves to be
marked only the places where it is left. It asks neither for distinct operands nor for labels that
mark nothing: an operand that occurs twice has one label, and marking it again is what fails. -/

namespace ExprCode

/-! ## What instructions refer to -/

/-- What instructions refer to by a number. -/
inductive ReferenceKind where
  /-- An argument. -/
  | argument
  /-- A local. -/
  | slot
  /-- An entry of the string table. -/
  | string
  /-- An entry of the type table. -/
  | type
  /-- An entry of the function table. -/
  | function
  deriving DecidableEq

namespace Instruction

/-- What an instruction refers to. -/
def reference? (instruction : Instruction) : Option (ReferenceKind × Nat) :=
  match instruction.op, instruction.operand with
  | .ldarg, .u16 index => some (.argument, index.toNat)
  | .ldstr, .token token => some (.string, token.toNat)
  | .call, .token token => some (.function, token.toNat)
  | _, .token token => some (.type, token.toNat)
  | _, _ => instruction.localIndex?.map fun slot => (.slot, slot)

/-- What is referred to as a local is one. -/
theorem localIndex?_of_reference? {instruction : Instruction} {slot : Nat}
    (refers : instruction.reference? = some (.slot, slot)) :
    instruction.localIndex? = some slot := by
  unfold reference? at refers
  split at refers
  · cases refers
  · cases refers
  · cases refers
  · cases refers
  · obtain ⟨found, isLocal, same⟩ := Option.map_eq_some_iff.1 refers
    cases same
    exact isLocal

/-- An instruction refers to nothing but locals. -/
def OnlyLocals (instruction : Instruction) : Prop :=
  ∀ kind number, instruction.reference? = some (kind, number) → kind = .slot

/-- An instruction without an operand. -/
theorem onlyLocals_plain (op : Opcode) : OnlyLocals ⟨op, .none⟩ := by
  intro kind number refers
  have isLocal : reference? ⟨op, .none⟩ = (localIndex? ⟨op, .none⟩).map fun slot =>
      (.slot, slot) := by
    cases op <;> rfl
  obtain ⟨slot, -, same⟩ := Option.map_eq_some_iff.1 (isLocal.symm.trans refers)
  cases same
  rfl

/-- An instruction may stand before the end of closed code: its operand is of the right kind, it is
no return, and what it refers to is there. -/
structure Admitted (sizes : ReferenceKind → Nat) (instruction : Instruction) : Prop where
  /-- The operand is of the right kind. -/
  fits : instruction.operand.fits instruction.op.operandKind
  /-- It is no return. -/
  goesOn : instruction.op ≠ .ret
  /-- What it refers to is there. -/
  inBounds : ∀ kind number, instruction.reference? = some (kind, number) → number < sizes kind

/-- What is admitted with some entries is admitted with more. -/
theorem Admitted.mono {sizes larger : ReferenceKind → Nat} {instruction : Instruction}
    (admitted : instruction.Admitted sizes) (more : ∀ kind, sizes kind ≤ larger kind) :
    instruction.Admitted larger :=
  { admitted with
    inBounds := fun kind number refers =>
      Nat.lt_of_lt_of_le (admitted.inBounds kind number refers) (more kind) }

end Instruction

namespace Emitter

/-- How many there are of what instructions refer to. -/
def sizes (emitter : Emitter) (arguments : Nat) : ReferenceKind → Nat
  | .argument => arguments
  | .slot => emitter.locals.size
  | .string => emitter.strings.size
  | .type => emitter.types.size
  | .function => emitter.functions.size

variable {arguments : Nat} {owed more : Set Label}
  {start before middle after now parent child : Emitter}
  {label : Label} {instruction : Instruction}

/-- What is built on an emitter has at least its entries. -/
theorem BuildsOn.sizes_le (builds : BuildsOn before after) (kind : ReferenceKind) :
    before.sizes arguments kind ≤ after.sizes arguments kind := by
  cases kind with
  | argument => exact Nat.le_refl _
  | slot => exact builds.locals.size_le
  | string => exact builds.strings.size_le
  | type => exact builds.types.size_le
  | function => exact builds.functions.size_le

/-! ## Emitters that have gone forward -/

/-- A label is marked behind an instruction, inside the code. -/
def MarkedBehind (emitter : Emitter) (index : Nat) (label : Label) : Prop :=
  ∃ position, emitter.labelPosition? label = some position ∧ index < position ∧
    position ≤ emitter.instructions.size

/-- A label that is marked behind an index stays marked there. -/
theorem MarkedBehind.mono {index : Nat} (marked : before.MarkedBehind index label)
    (keeps : Keeps before after) (builds : BuildsOn before after) :
    after.MarkedBehind index label := by
  obtain ⟨position, isMarked, behind, inside⟩ := marked
  exact ⟨position, keeps.marks isMarked, behind, inside.trans builds.instructions.size_le⟩

/-- An emitter has grown from an earlier state. All instructions since are admitted, and their
branches name labels that were defined since and are marked behind the branch or owed. -/
structure Advances (arguments : Nat) (owed : Set Label) (start now : Emitter) : Prop
    extends Keeps start now, BuildsOn start now where
  /-- What was added is admitted. -/
  admitted : ∀ {index instruction}, start.instructions.size ≤ index →
    now.instructions[index]? = some instruction → instruction.Admitted (now.sizes arguments)
  /-- Branches lead forward, as far as their labels are not owed. -/
  ahead : ∀ {index instruction label}, start.instructions.size ≤ index →
    now.instructions[index]? = some instruction → instruction.target? = some label →
      start.labels.size ≤ label ∧ (label ∈ owed ∨ now.MarkedBehind index label)

namespace Advances

/-- No instruction was added. -/
theorem of_same (keeps : Keeps before after) (builds : BuildsOn before after)
    (same : after.instructions = before.instructions) : Advances arguments owed before after := by
  have none {index : Nat} {instruction : Instruction} (added : before.instructions.size ≤ index)
      (found : after.instructions[index]? = some instruction) : False := by
    rw [same, Array.getElem?_eq_none added] at found
    cases found
  exact
    { keeps, builds with
      admitted := fun added found => (none added found).elim
      ahead := fun added found => (none added found).elim }

/-- Nothing is owed where nothing happens. -/
theorem refl (emitter : Emitter) : Advances arguments owed emitter emitter :=
  .of_same (.refl _) (.refl _) rfl

/-- More may be owed than is. -/
theorem mono (advances : Advances arguments owed start now) (weaker : owed ⊆ more) :
    Advances arguments more start now :=
  { advances with
    ahead := fun added found names =>
      (advances.ahead added found names).imp_right (Or.imp_left fun listed => weaker listed) }

/-- What was added between two states is what was there in the middle, or what came behind it. -/
theorem trans (first : Advances arguments owed start middle)
    (second : Advances arguments ∅ middle now) :
    Advances arguments owed start now := by
  have keeps := second.toKeeps
  have builds := second.toBuildsOn
  -- an instruction that is found now and stood there in the middle is the same one
  have earlier {index : Nat} {instruction : Instruction} (inside : index < middle.instructions.size)
      (found : now.instructions[index]? = some instruction) :
      middle.instructions[index]? = some instruction := by
    have here := Array.getElem?_eq_getElem inside
    rw [builds.instructions index _ here, Option.some.injEq] at found
    rw [here, found]
  exact
    { first.toKeeps.trans keeps, first.toBuildsOn.trans builds with
      admitted := by
        intro index instruction added found
        by_cases inside : index < middle.instructions.size
        · exact (first.admitted added (earlier inside found)).mono builds.sizes_le
        · exact second.admitted (Nat.le_of_not_lt inside) found
      ahead := by
        intro index instruction label added found names
        by_cases inside : index < middle.instructions.size
        · refine (first.ahead added (earlier inside found) names).imp_right
            (Or.imp_right fun marked => ?_)
          exact marked.mono keeps builds
        · obtain ⟨new, listed | marked⟩ := second.ahead (Nat.le_of_not_lt inside) found names
          · cases listed
          · exact ⟨first.labels.trans new, .inr marked⟩ }

/-- An instruction is appended. A label that it names is owed from now on. -/
theorem append (advances : Advances arguments owed start before)
    (admitted : instruction.Admitted (before.sizes arguments))
    (names : ∀ label, instruction.target? = some label → start.labels.size ≤ label ∧ label ∈ owed) :
    Advances arguments owed start (before.append instruction) := by
  have keeps : Keeps before (before.append instruction) := .of_labels rfl rfl rfl
  have builds : BuildsOn before (before.append instruction) :=
    { BuildsOn.refl before with instructions := .push _ _ }
  -- what is found at an index was there, or it is the new instruction
  have cases_of {index : Nat} {found : Instruction}
      (isFound : (before.append instruction).instructions[index]? = some found) :
      before.instructions[index]? = some found ∨ found = instruction := by
    rw [Emitter.append, Array.getElem?_push] at isFound
    split at isFound
    · cases isFound
      exact .inr rfl
    · exact .inl isFound
  exact
    { advances.toKeeps.trans keeps, advances.toBuildsOn.trans builds with
      admitted := by
        intro index found added isFound
        rcases cases_of isFound with old | rfl
        · exact (advances.admitted added old).mono builds.sizes_le
        · exact admitted
      ahead := by
        intro index found label added isFound isNamed
        rcases cases_of isFound with old | rfl
        · exact (advances.ahead added old isNamed).imp_right
            (Or.imp_right fun marked => marked.mono keeps builds)
        · exact (names label isNamed).imp_right .inl }

/-- A label is marked behind all instructions, so it is not owed any more. -/
theorem mark (advances : Advances arguments owed start before)
    (unmarked : before.labels[label]? = some none) :
    Advances arguments (owed \ {label}) start { before with
      labels := before.labels.setIfInBounds label (some before.instructions.size) } := by
  have keeps := Keeps.mark unmarked before.instructions.size
  have builds := BuildsOn.update (.mark unmarked)
  exact
    { advances.toKeeps.trans keeps, advances.toBuildsOn.trans builds with
      admitted := advances.admitted
      ahead := by
        intro index found other added isFound isNamed
        refine (advances.ahead added isFound isNamed).imp_right fun known => ?_
        by_cases same : other = label
        · -- every instruction stands before the place that is marked
          subst same
          have inside := (Array.getElem?_eq_some_iff.1 isFound).1
          refine .inr ⟨before.instructions.size, ?_, inside, Nat.le_refl _⟩
          simp [labelPosition?, (Array.getElem?_eq_some_iff.1 unmarked).1]
        · exact known.imp (fun listed => ⟨listed, same⟩) fun marked => marked.mono keeps builds }

/-- What was added to a fork is added to the parent. The labels that it names are not labels of the
parent, so they are marked where the fork has marked them. -/
theorem splice (advances : Advances arguments ∅ parent.fork child)
    (h : Emitter.splice child parent = .ok () after) :
    Advances arguments ∅ parent after := by
  have keeps := keeps_splice child parent
  simp only [afterwards, h] at keeps
  obtain ⟨-, -, rfl⟩ := splice_eq_ok_iff.1 h
  -- behind the instructions of the parent are those of the fork
  have split {index : Nat} {instruction : Instruction} (added : parent.instructions.size ≤ index)
      (found : (graft parent child).instructions[index]? = some instruction) :
      child.instructions[index - parent.instructions.size]? = some instruction := by
    rwa [graft, Array.getElem?_append_right added] at found
  exact
    { keeps with
      instructions := .append _ _
      locals := advances.locals
      strings := advances.strings
      types := advances.types
      functions := advances.functions
      admitted := fun added found =>
        (advances.admitted (Nat.zero_le _) (split added found)).mono fun kind => by
          cases kind <;> exact Nat.le_refl _
      ahead := by
        intro index instruction label added found names
        obtain ⟨new, listed | ⟨position, marked, behind, inside⟩⟩ :=
          advances.ahead (Nat.zero_le _) (split added found) names
        · cases listed
        · have unknown : parent.labels.size ≤ label := by simpa [fork] using new
          -- the branch and its target have moved by the same distance
          refine ⟨unknown, .inr ⟨parent.instructions.size + position, ?_, by omega, ?_⟩⟩
          · rw [labelPosition?_graft, labelPosition?_eq_none_of_le unknown, marked]
            rfl
          · simpa [graft] using inside }

end Advances

/-! ## Operations that go forward -/

/-- Whenever an operation succeeds, the emitter has advanced and no label is owed. -/
def Forward (arguments : Nat) {ε α : Type} (operation : EStateM ε Emitter α) : Prop :=
  ∀ before, EndsAs operation before fun _ after => before.Advances arguments ∅ after

namespace Forward

variable {ε α β : Type} {operation : EStateM ε Emitter α} {next : α → EStateM ε Emitter β}

/-- A plain value goes forward. -/
theorem pure (value : α) : Forward arguments (Pure.pure value : EStateM ε Emitter α) :=
  fun before => .pure (.refl before)

/-- An operation that fails goes forward. -/
theorem throw (error : ε) : Forward arguments (MonadExcept.throw error : EStateM ε Emitter α) :=
  fun _ => .throw trivial

/-- An operation that goes forward, behind what was emitted before it. -/
theorem since (forward : Forward arguments operation)
    (advances : Advances arguments owed start before) :
    EndsAs operation before fun _ after => Advances arguments owed start after :=
  (forward before).mono fun _ _ further => advances.trans further

/-- One operation after another goes forward. -/
theorem bind (first : Forward arguments operation)
    (second : ∀ value, Forward arguments (next value)) :
    Forward arguments (operation >>= next) :=
  fun before => (first before).bind fun value _ advances => (second value).since advances

end Forward

/-- What is accepted is of the right kind, and the local that it refers to is declared. -/
theorem admitted_of_refusal? (accepted : before.refusal? instruction = none)
    (goesOn : instruction.op ≠ .ret)
    (elsewhere : ∀ kind number, instruction.reference? = some (kind, number) → kind ≠ .slot →
      number < before.sizes arguments kind) : instruction.Admitted (before.sizes arguments) where
  fits := (accepted_of_refusal? accepted).1
  goesOn := goesOn
  inBounds kind number refers := by
    by_cases isLocal : kind = .slot
    · -- emission refuses locals that are not declared, but checks no other numbers
      subst isLocal
      exact declared_of_refusal? accepted (Instruction.localIndex?_of_reference? refers)
    · exact elsewhere kind number refers isLocal

/-- An instruction that is no return and refers to what is there. A label that it names is owed. -/
theorem endsAs_emit_owing (advances : Advances arguments owed start before)
    (goesOn : instruction.op ≠ .ret)
    (elsewhere : ∀ kind number, instruction.reference? = some (kind, number) → kind ≠ .slot →
      number < before.sizes arguments kind)
    (names : ∀ label, instruction.target? = some label → start.labels.size ≤ label ∧ label ∈ owed) :
    EndsAs (emit instruction) before fun _ after => Advances arguments owed start after := by
  refine .of_forall_ok fun _ after h => ?_
  rw [emit_eq] at h
  cases accepted : before.refusal? instruction with
  | some defect =>
    rw [accepted] at h
    cases h
  | none =>
    rw [accepted] at h
    cases h
    exact advances.append (admitted_of_refusal? accepted goesOn elsewhere) names

/-- An instruction that names no label. -/
theorem endsAs_emit_plain (noLabel : instruction.target? = none) (goesOn : instruction.op ≠ .ret)
    (elsewhere : ∀ kind number, instruction.reference? = some (kind, number) → kind ≠ .slot →
      number < before.sizes arguments kind) :
    EndsAs (emit instruction) before fun _ after => before.Advances arguments ∅ after :=
  endsAs_emit_owing (.refl before) goesOn elsewhere fun label names => by
    rw [noLabel] at names
    cases names

/-- An instruction without a label goes forward, unless it returns. -/
theorem forward_emit (noLabel : instruction.target? = none) (goesOn : instruction.op ≠ .ret)
    (onlyLocals : instruction.OnlyLocals) : Forward arguments (emit instruction) :=
  fun _ => endsAs_emit_plain noLabel goesOn fun kind number refers other =>
    absurd (onlyLocals kind number refers) other

/-- An instruction without operand goes forward, unless it returns. -/
theorem forward_emitOp {op : Opcode} (goesOn : op ≠ .ret) : Forward arguments (emitOp op) :=
  forward_emit rfl goesOn (Instruction.onlyLocals_plain op)

/-- A branch to a label that was defined since a state, which is owed from then on. -/
theorem endsAs_emitBranch {condition : BranchCondition} {form : BranchForm}
    (advances : Advances arguments owed start before) (new : start.labels.size ≤ label) :
    EndsAs (emitBranch (.branch condition form) label) before fun _ after =>
      Advances arguments (insert label owed) start after := by
  have owing := advances.mono (Set.subset_insert label owed)
  refine Ensures.bind (endsAs_emit_owing owing ?_ ?_ ?_) fun _ _ advances => .of_ok rfl advances
  · rintro ⟨⟩
  · rintro kind number ⟨⟩
  · rintro other ⟨⟩
    exact ⟨new, Set.mem_insert _ _⟩

/-- A label that is marked is not owed. -/
theorem endsAs_markLabel_owed (advances : Advances arguments owed start before) :
    EndsAs (markLabel label) before fun _ after =>
      Advances arguments (owed \ {label}) start after := by
  refine .get_bind (.of_forall_ok fun _ after h => ?_)
  obtain ⟨unmarked, rfl⟩ := markLabelAt_eq_ok h
  exact advances.mark unmarked

/-- An update that appends nothing. -/
theorem Advances.update (step : Update before after)
    (same : after.instructions = before.instructions) :
    Advances arguments owed before after :=
  .of_same step.keeps (.update step) same

/-- A label is defined behind those that are there. -/
theorem endsAs_defineLabel_new :
    EndsAs defineLabel before fun label after =>
      label = before.labels.size ∧ before.Advances arguments ∅ after := by
  have step : Update before _ := .define (before.labels.size + 1)
  have pushed : before.extendLabels (before.labels.size + 1) =
      { before with labels := before.labels.push none } := by simp [extendLabels]
  rw [pushed] at step
  exact .of_ok rfl ⟨rfl, .update step rfl⟩

/-- A new local goes forward. -/
theorem forward_declareLocal (type : Ty) : Forward arguments (declareLocal type) := by
  intro before
  unfold EndsAs Ensures
  rw [declareLocal_eq]
  by_cases full : before.maxLocals ≤ before.locals.size
  · rw [if_pos full]
    trivial
  · rw [if_neg full]
    exact .update (.declare type (Nat.lt_of_not_le full)) rfl

/-- Every encoding of an access to a local goes forward. -/
theorem forward_localAccess {slot : Nat} {fixed : Fin 4 → Opcode} {near far : Opcode}
    (fixedGoesOn : ∀ index, fixed index ≠ .ret) (nearGoesOn : near ≠ .ret) (farGoesOn : far ≠ .ret)
    (nearLocal : ∀ index, Instruction.OnlyLocals ⟨near, .u8 index⟩)
    (farLocal : ∀ index, Instruction.OnlyLocals ⟨far, .u16 index⟩) :
    Forward arguments (emitChecked (localAccess slot fixed near far)) := by
  unfold localAccess
  split
  · exact forward_emitOp (fixedGoesOn _)
  · split
    · exact forward_emit rfl nearGoesOn (nearLocal _)
    · split
      · exact forward_emit rfl farGoesOn (farLocal _)
      · exact .throw _

/-- Loading a local goes forward. -/
theorem forward_emitLoadLocal (slot : Nat) : Forward arguments (emitLoadLocal slot) :=
  forward_localAccess nofun nofun nofun (by rintro _ _ _ ⟨⟩; rfl) (by rintro _ _ _ ⟨⟩; rfl)

/-- Storing a local goes forward. -/
theorem forward_emitStoreLocal (slot : Nat) : Forward arguments (emitStoreLocal slot) :=
  forward_localAccess nofun nofun nofun (by rintro _ _ _ ⟨⟩; rfl) (by rintro _ _ _ ⟨⟩; rfl)

/-- A truth value goes forward. -/
theorem forward_emitLoadBool (value : Bool) : Forward arguments (emitLoadBool value) :=
  forward_emitOp (by cases value <;> nofun)

/-- An integer goes forward. -/
theorem forward_emitLoadInt32 (value : Int32) : Forward arguments (emitLoadInt32 value) := by
  unfold emitLoadInt32
  split <;> exact forward_emit rfl nofun nofun

/-! ## Tokens -/

/-- A number in two bytes is no greater than the number that was put there. -/
theorem toNat_ofNat_lt {number size : Nat} (small : number < size) :
    (UInt16.ofNat number).toNat < size := by
  rw [UInt16.toNat_ofNat']
  exact Nat.lt_of_le_of_lt (Nat.mod_le _ _) small

/-- What is interned has a number below the size of the table. -/
theorem lt_size_of_intern {α κ : Type} [Ord κ] [Std.TransOrd κ] [Std.LawfulEqOrd κ] {key : α → κ}
    {table interned : Table key} {entry : α} {number : Nat}
    (h : table.intern entry = (some number, interned)) : number < interned.size := by
  obtain ⟨-, listed, -⟩ := Table.intern_eq_some h
  obtain ⟨found, isFound, -⟩ := Option.map_eq_some_iff.1 listed
  exact (Array.getElem?_eq_some_iff.1 isFound).1

/-- An operation gives tokens of entries that are there. -/
def Lists (arguments : Nat) (kind : ReferenceKind) (operation : Emit UInt16) : Prop :=
  ∀ before, EndsAs operation before fun token after =>
    before.Advances arguments ∅ after ∧ token.toNat < after.sizes arguments kind

/-- The token of an interned entry is below the size of the table that is put back. -/
theorem endsAs_lookedUp {α κ : Type} [Ord κ] [Std.TransOrd κ] [Std.LawfulEqOrd κ] {key : α → κ}
    {table : Table key} {entry : α} {operation : Emit UInt16} {name : TableName}
    {restore : Table key → Emitter}
    {kind : ReferenceKind} (looksUp : operation before = lookedUp name restore (table.intern entry))
    (step : Update before (restore (table.intern entry).2))
    (same : ∀ entries, (restore entries).instructions = before.instructions)
    (size : ∀ entries, (restore entries).sizes arguments kind = entries.size) :
    EndsAs operation before fun token after =>
      before.Advances arguments ∅ after ∧ token.toNat < after.sizes arguments kind := by
  unfold EndsAs Ensures
  rw [looksUp]
  cases interned : table.intern entry with
  | mk number? entries =>
    rw [interned] at step
    cases number? with
    | none => trivial
    | some number =>
      exact ⟨.update step (same entries),
      size entries ▸ toNat_ofNat_lt (lt_size_of_intern interned)⟩

/-- The token of a string is below the number of strings. -/
theorem lists_stringToken (value : String) : Lists arguments .string (stringToken value) :=
  fun before =>
  endsAs_lookedUp (stringToken_eq value before) (.strings value) (fun _ => rfl) fun _ => rfl

/-- The token of a type is below the number of types. -/
theorem lists_typeToken (type : Ty) : Lists arguments .type (typeToken type) := fun before =>
  endsAs_lookedUp (typeToken_eq type before) (.types type) (fun _ => rfl) fun _ => rfl

/-- The token of a function is below the number of functions. -/
theorem lists_functionToken (name : String) (arity : Nat) (function : Handle) :
    Lists arguments .function (functionToken name arity function) := by
  intro before
  have looksUp := functionToken_eq name arity function before
  split at looksUp
  · -- too many parameters for a new entry
    unfold EndsAs Ensures
    rw [looksUp]
    trivial
  · exact endsAs_lookedUp looksUp (.functions _) (fun _ => rfl) fun _ => rfl

/-- An instruction with a token of an entry that is there. -/
theorem endsAs_emit_token (op : Opcode) {token : UInt16} {kind : ReferenceKind} (goesOn : op ≠ .ret)
    (refers : Instruction.reference? ⟨op, .token token⟩ = some (kind, token.toNat))
    (listed : token.toNat < before.sizes arguments kind) :
    EndsAs (emit ⟨op, .token token⟩) before fun _ after => before.Advances arguments ∅ after := by
  refine endsAs_emit_plain rfl goesOn fun other number isOther _ => ?_
  rw [refers] at isOther
  cases isOther
  exact listed

/-- An instruction behind the look-up of its token. -/
theorem forward_emit_token {op : Opcode} {kind : ReferenceKind} {lookup : Emit UInt16}
    (lists : Lists arguments kind lookup) (goesOn : op ≠ .ret)
    (refers : ∀ token, Instruction.reference? ⟨op, .token token⟩ = some (kind, token.toNat)) :
    Forward arguments (do emit ⟨op, .token (← lookup)⟩) := by
  intro before
  refine (lists before).bind ?_
  rintro token middle ⟨advances, listed⟩
  exact (endsAs_emit_token op goesOn (refers token) listed).mono fun _ _ further =>
    advances.trans further

/-- A string goes forward. -/
theorem forward_emitLoadString (value : String) : Forward arguments (emitLoadString value) :=
  forward_emit_token (lists_stringToken value) nofun fun _ => rfl

/-- A call goes forward. -/
theorem forward_emitCall (name : String) (arity : Nat) (function : Handle) :
    Forward arguments (emitCall name arity function) :=
  forward_emit_token (lists_functionToken name arity function) nofun fun _ => rfl

/-- A new array goes forward. -/
theorem forward_emitNewArray (element : Ty) : Forward arguments (emitNewArray element) :=
  forward_emit_token (lists_typeToken element) nofun fun _ => rfl

/-- Loading an element goes forward. -/
theorem forward_emitArrayLoad (element : Ty) : Forward arguments (emitArrayLoad element) := by
  unfold emitArrayLoad
  split
  · exact forward_emitOp nofun
  · intro before
    have lists : Lists arguments .type (typeToken element) := lists_typeToken element
    refine (lists before).bind ?_
    rintro token middle ⟨advances, listed⟩
    refine (endsAs_emit_token .ldelema nofun rfl listed).bind fun _ addressed further => ?_
    -- the token is still that of an entry when it is used again
    have stillListed := Nat.lt_of_lt_of_le listed (further.toBuildsOn.sizes_le .type)
    exact (endsAs_emit_token .ldobj nofun rfl stillListed).mono fun _ _ last =>
      (advances.trans further).trans last

/-- Storing an element goes forward. -/
theorem forward_emitArrayStore (element : Ty) : Forward arguments (emitArrayStore element) := by
  unfold emitArrayStore
  split
  · exact forward_emitOp nofun
  · exact forward_emit_token (lists_typeToken element) nofun fun _ => rfl

end Emitter

/-! ## Places of a chain -/

section Places

open Emitter (Advances Forward)

variable {arguments : Nat} {start : Emitter} {keys more : Set BranchKey} {key : BranchKey}

namespace Branches

/-- The labels of certain places. -/
def labelsOf (branches : Branches) (keys : Set BranchKey) : Set Label :=
  {label | ∃ key ∈ keys, branches.find? key = some label}

/-- Since an earlier state, the emitter has advanced, and the labels that are owed are those of
certain places. All labels of places were defined since. -/
structure Owing (arguments : Nat) (start : Emitter) (keys : Set BranchKey)
    (state : Branches × Emitter) :
    Prop where
  /-- The emitter has advanced. -/
  advances : start.Advances arguments (state.1.labelsOf keys) state.2
  /-- Labels of places are new. -/
  new : ∀ {key label}, state.1.find? key = some label → start.labels.size ≤ label

variable {state : Branches × Emitter}

/-- More keys may be owed than are. -/
theorem Owing.mono (owing : Owing arguments start keys state) (weaker : keys ⊆ more) :
    Owing arguments start more state where
  advances := owing.advances.mono fun _ ⟨key, listed, found⟩ => ⟨key, weaker listed, found⟩
  new := owing.new

/-- The emitter goes forward and places stay as they are. -/
theorem Owing.emitting {α : Type} {operation : Emit α} (owing : Owing arguments start keys state)
    (forward : Forward arguments operation) :
    EndsAs (Branches.emitting operation) state fun _ after => Owing arguments start keys after := by
  refine (ensures_emitting (forward.since owing.advances)).mono ?_
  rintro _ after ⟨same, advances⟩
  exact ⟨same ▸ advances, fun found => owing.new (same ▸ found)⟩

/-- A place whose label is not owed any more is not owed. -/
theorem Owing.reach {branches : Branches} {before after : Emitter} {label : Label}
    (owing : Owing arguments start keys (branches, before))
    (found : branches.find? key = some label)
    (advances : start.Advances arguments (branches.labelsOf keys \ {label}) after) :
    Owing arguments start (keys \ {key}) (branches, after) := by
  refine ⟨advances.mono ?_, owing.new⟩
  rintro other ⟨⟨place, listed, known⟩, differ⟩
  refine ⟨place, ⟨listed, ?_⟩, known⟩
  rintro rfl
  exact differ (Option.some.inj (known.symm.trans found))

/-- The label of a key is defined, and nothing more is owed. -/
theorem owing_label (owing : Owing arguments start keys state) :
    EndsAs (label key) state fun label after =>
      Owing arguments start keys after ∧ after.1.find? key = some label := by
  unfold label
  refine .get_bind ?_
  cases found : state.1.find? key with
  | some label => exact .pure ⟨owing, found⟩
  | none =>
    have defined : EndsAs Emitter.defineLabel state.2 fun label after =>
        label = state.2.labels.size ∧ state.2.Advances arguments ∅ after :=
          Emitter.endsAs_defineLabel_new
    refine (ensures_emitting defined).bind ?_
    rintro label ⟨branches, emitter⟩ ⟨rfl, rfl, advances⟩
    have find := find?_append state.2.labels.size found
    -- places that have a label keep it
    have kept : ∀ other otherLabel, state.1.find? other = some otherLabel → Branches.find?
        { state.1 with labels := state.1.labels ++ [(key, state.2.labels.size)] } other =
          some otherLabel := by
      intro other otherLabel known
      rw [find, if_neg, known]
      rintro rfl
      rw [found] at known
      cases known
    refine .bind_ok rfl (.pure ⟨⟨?_, ?_⟩, (find key).trans (if_pos rfl)⟩)
    · refine (owing.advances.trans advances).mono ?_
      rintro label ⟨other, listed, known⟩
      exact ⟨other, listed, kept other label known⟩
    · intro other label known
      rw [find] at known
      split at known
      · cases known
        exact owing.advances.labels
      · exact owing.new known

/-- A branch to a place, which is owed from then on. -/
theorem owing_addBranch {condition : BranchCondition} {form : BranchForm}
    (owing : Owing arguments start keys state) :
    EndsAs (addBranch (.branch condition form) key) state fun _ after =>
      Owing arguments start (insert key keys) after := by
  refine (owing_label owing).bind ?_
  rintro label labelled ⟨owing, found⟩
  refine (ensures_emitting (Emitter.endsAs_emitBranch owing.advances (owing.new found))).bind ?_
  rintro source ⟨branches, emitter⟩ ⟨rfl, advances⟩
  refine .bind_ok rfl (.pure ⟨advances.mono ?_, owing.new⟩)
  rintro other (rfl | ⟨place, listed, known⟩)
  · exact ⟨key, Set.mem_insert _ _, found⟩
  · exact ⟨place, Set.mem_insert_of_mem _ listed, known⟩

/-- A place that is reached is not owed. -/
theorem owing_mark (owing : Owing arguments start keys state) :
    EndsAs (mark key) state fun _ after => Owing arguments start (keys \ {key}) after := by
  unfold mark
  refine .get_bind ?_
  cases found : state.1.find? key with
  | none =>
    -- no branch leads to a place without a label
    refine .pure ⟨owing.advances.mono ?_, owing.new⟩
    rintro label ⟨place, listed, known⟩
    refine ⟨place, ⟨listed, ?_⟩, known⟩
    rintro rfl
    rw [found] at known
    cases known
  | some label =>
    refine (ensures_emitting (Emitter.endsAs_markLabel_owed owing.advances)).bind ?_
    rintro _ ⟨branches, emitter⟩ ⟨rfl, advances⟩
    exact .pure (owing.reach found advances)

end Branches

namespace Frame

open Branches (Owing owing_label owing_addBranch owing_mark)

section Ends

variable {state : Branches × Emitter}

/-- The end of a chain is reached. -/
theorem owing_emitFinish (owing : Owing arguments start keys state) :
    EndsAs emitFinish state fun _ after => Owing arguments start (keys \ {.finish}) after := by
  refine (owing_label owing).bind ?_
  rintro label ⟨branches, emitter⟩ ⟨owing, found⟩
  refine (Branches.ensures_emitting (Emitter.endsAs_markLabel_owed owing.advances)).mono ?_
  rintro _ ⟨_, after⟩ ⟨rfl, advances⟩
  exact owing.reach found advances

/-- The end for a chain that is true settles its own key and that of the finish. -/
theorem owing_emitTrue (owing : Owing arguments start keys state) :
    EndsAs emitTrue state fun _ after =>
      Owing arguments start ((keys \ {.trueTerminal}) \ {.finish}) after := by
  refine (owing_mark owing).bind fun marked middle owing => ?_
  cases marked with
  | none => exact owing_emitFinish owing
  | some label =>
    exact (owing.emitting (Emitter.forward_emitLoadBool true)).bind fun _ _ owing =>
      owing_emitFinish owing

/-- Behind a chain, the places where its result is made are reached, and its end. -/
theorem owing_emitTerminals (owing : Owing arguments start keys state) :
    EndsAs emitTerminals state fun _ after =>
      Owing arguments start (keys \ {.falseTerminal, .trueTerminal, .finish}) after := by
  -- a branch to the end may be owed behind the first of the two results
  have reached : (insert BranchKey.finish (keys \ {.falseTerminal}) \ {.trueTerminal}) \ {.finish} ⊆
      keys \ {.falseTerminal, .trueTerminal, .finish} := by
    rintro key ⟨⟨(rfl | ⟨listed, notFalse⟩), notTrue⟩, notFinish⟩
    · exact absurd rfl notFinish
    · refine ⟨listed, ?_⟩
      rintro (same | same | same)
      · exact notFalse same
      · exact notTrue same
      · exact notFinish same
  have rest {state : Branches × Emitter}
      (owing : Owing arguments start (insert .finish (keys \ {.falseTerminal})) state) :
      EndsAs emitTrue state fun _ after =>
        Owing arguments start (keys \ {.falseTerminal, .trueTerminal, .finish}) after :=
    (owing_emitTrue owing).mono fun _ _ owing => owing.mono reached
  refine .get_bind ((owing_mark owing).bind fun marked middle owing => ?_)
  cases marked with
  | none => exact rest (owing.mono (Set.subset_insert _ _))
  | some label =>
    refine (owing.emitting (Emitter.forward_emitLoadBool false)).bind fun _ pushed owing => ?_
    cases (state.1.find? .trueTerminal).isSome with
    | false => exact rest (owing.mono (Set.subset_insert _ _))
    | true => exact (owing_addBranch owing).bind fun _ _ owing => rest owing

end Ends

/-- What a frame owes. -/
abbrev FrameOwing (arguments : Nat) (start : Emitter) (keys : Set BranchKey)
    (state : Frame × Emitter) : Prop :=
  Owing arguments start keys (state.1.branches, state.2)

variable {state : Frame × Emitter}

/-- An operation on branch targets and the emitter. -/
theorem owing_branching {α : Type} {operation : Branching α}
    (h : EndsAs operation (state.1.branches, state.2) fun _ after =>
      Owing arguments start keys after) :
    EndsAs (branching operation : Lowering Emitter α) state fun _ after =>
      FrameOwing arguments start keys after :=
  (ensures_branching h).mono fun _ _ ⟨owing, _⟩ => owing

/-- An operand is reached, and its code goes forward. -/
theorem owing_emitOperand {operand : ChainOperand Emitter}
    (forward : Forward arguments operand.code)
    (owing : FrameOwing arguments start keys state) :
    EndsAs (emitOperand operand) state fun _ after =>
      FrameOwing arguments start (keys \ {operand.place}) after := by
  refine (owing_branching (owing_mark owing)).bind fun _ middle owing => ?_
  refine (ensures_outside (forward.since owing.advances)).mono ?_
  rintro _ ⟨frame, after⟩ ⟨rfl, advances⟩
  exact ⟨advances, owing.new⟩

/-- A part of a chain reaches its first operand, and owes the places where it is left. -/
theorem owing_emitTree {chain : Chain (ChainOperand Emitter)} {exits : Bool → BranchKey}
    (forward : ∀ operand ∈ chain.operands, Forward arguments operand.code)
    (owing : FrameOwing arguments start keys state) :
    EndsAs (emitTree chain exits) state fun _ after =>
      FrameOwing arguments start (keys \ {chain.first.place} ∪ Set.range exits) after := by
  induction chain generalizing exits keys state with
  | operand operand =>
    refine (owing_emitOperand (forward operand List.mem_cons_self) owing).mono fun _ _ owing => ?_
    exact owing.mono Set.subset_union_left
  | joined connective left right ihLeft ihRight =>
    rw [Chain.operands, List.forall_mem_append] at forward
    rw [emitTree, Chain.decidingBranch_eq]
    refine (ihLeft forward.1 owing).bind fun _ tested owing => ?_
    refine (owing_branching (owing_addBranch owing)).bind fun _ branched owing => ?_
    refine (ihRight forward.2 owing).mono fun _ _ owing => owing.mono ?_
    -- what the left part owes besides its exits is the start of the right part
    rintro key (⟨rfl | ⟨listed⟩ | ⟨value, rfl⟩, notRight⟩ | isExit)
    · exact .inr ⟨_, rfl⟩
    · exact .inl ‹_›
    · dsimp only at notRight ⊢
      split at notRight
      · next decides => exact .inr ⟨value, by rw [if_pos decides]⟩
      · exact absurd rfl notRight
    · exact .inr isExit

/-- The code of a chain goes forward, if that of its operands does. -/
theorem forward_emitJoined {connective : Connective} {left right : Chain (ChainOperand Emitter)}
    (forward : ∀ operand ∈ (Chain.joined connective left right).operands,
      Forward arguments operand.code) :
    Forward arguments (Codegen.emitJoined (.joined connective left right)) := by
  intro before
  have started : FrameOwing arguments before ∅ (({ state := .branching } : Frame), before) :=
    ⟨.refl before, nofun⟩
  have lowered : EndsAs (lower (.joined connective left right)) (({} : Frame), before)
      fun _ after =>
      before.Advances arguments ∅ after.2 := by
    unfold EndsAs Ensures
    rw [lower_eq]
    refine (owing_emitTree forward started).bind fun _ _ owing => ?_
    refine (owing_branching (owing_addBranch owing)).bind fun _ _ owing => ?_
    refine (owing_branching (owing_emitTerminals owing)).bind fun _ _ owing => ?_
    refine .of_ok rfl (owing.advances.mono ?_)
    -- the exits of a whole chain are the places behind it
    rintro label ⟨key, ⟨rfl | ⟨⟨⟨⟩, -⟩ | ⟨value, rfl⟩⟩, notReached⟩, -⟩
    · simp at notReached
    · cases value <;> simp [Chain.terminals, Chain.terminal, Chain.decidedConnective] at notReached
  refine .of_forall_ok fun _ after h => ?_
  cases run : lower (.joined connective left right) (({} : Frame), before) with
  | error error last =>
    rw [Codegen.emitJoined_eq, run] at h
    cases h
  | ok value last =>
    rw [Codegen.emitJoined_eq, run] at h
    cases h
    exact lowered.post_of_ok run

end Frame

end Places

end ExprCode
