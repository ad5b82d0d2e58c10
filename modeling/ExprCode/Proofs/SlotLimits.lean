import ExprCode.Proofs.ChainLowering
import ExprCode.Proofs.ParallelPaths

/-! # Operations under other limits

`Declares count operation` says that an operation, whenever it succeeds, declares so many locals,
and what it does where another number of locals is allowed: the same, if there is room for them all,
and otherwise it fails at the limit. Nothing but the declaration of a local looks at the limit, so
operations can be counted one after the other (`Declares.bind`), in forks
(`Codegen.declares_emitArm`) and along chains (`Codegen.declares_emitJoined`). -/

namespace ExprCode

/-- A state in which locals are declared up to a limit. -/
class Slotted (σ : Type) where
  /-- The number of locals. -/
  slots : σ → Nat
  /-- The state with another limit. -/
  withLimit : Nat → σ → σ

/-- An error for too many locals. -/
class SlotError (ε : Type) where
  /-- More locals were asked for than a limit allows. -/
  tooMany : Nat → ε

export Slotted (slots withLimit)
export SlotError (tooMany)

/-- An emitter counts its locals. -/
instance : Slotted Emitter where
  slots emitter := emitter.locals.size
  withLimit limit emitter := { emitter with maxLocals := limit }

/-- A state beside an emitter counts those of the emitter. -/
instance {β σ : Type} [Slotted σ] : Slotted (β × σ) where
  slots state := slots state.2
  withLimit limit state := (state.1, withLimit limit state.2)

/-- The defect of an emitter that is full. -/
instance : SlotError Defect := ⟨.tooManyLocals⟩

/-- The same defect, as an error of a compilation. -/
instance : SlotError CompileError := ⟨fun limit => .defect (.tooManyLocals limit)⟩

section Declares

variable {ε σ α β : Type} [Slotted σ] [SlotError ε]

/-- What an operation that succeeded has declared, and what it does under other limits. -/
structure DeclaresFrom (count : Nat) (operation : EStateM ε σ α) (before : σ) (value : α)
    (after : σ) : Prop where
  /-- So many locals have been declared. -/
  slots_eq : slots after = slots before + count
  /-- Where there is room for them, the limit changes nothing else. -/
  room : ∀ limit, slots before + count ≤ limit →
    operation (withLimit limit before) = .ok value (withLimit limit after)
  /-- Where there is not, the operation fails at the limit. -/
  full : ∀ limit, slots before ≤ limit → limit < slots before + count →
    ∃ stopped, operation (withLimit limit before) = .error (tooMany limit) stopped

/-- An operation declares so many locals whenever it succeeds, and looks at the limit for nothing
else. -/
def Declares (count : Nat) (operation : EStateM ε σ α) : Prop :=
  ∀ before value after, operation before = .ok value after →
    DeclaresFrom count operation before value after

namespace Declares

variable {count rest : Nat} {operation : EStateM ε σ α} {following : α → EStateM ε σ β}

/-- An operation that declares no local and does not look at the limit. -/
theorem of_neutral (neutral : ∀ before value after, operation before = .ok value after →
    slots after = slots before ∧
      ∀ limit, operation (withLimit limit before) = .ok value (withLimit limit after)) :
    Declares 0 operation := by
  intro before value after run
  obtain ⟨same, unlimited⟩ := neutral before value after run
  exact ⟨same, fun limit _ => unlimited limit, fun limit _ _ => by omega⟩

/-- A plain value declares nothing. -/
theorem pure (value : α) : Declares 0 (Pure.pure value : EStateM ε σ α) := by
  refine of_neutral fun before result after run => ?_
  cases run
  exact ⟨rfl, fun _ => rfl⟩

/-- What fails declares nothing that counts. -/
theorem throw (error : ε) : Declares count (MonadExcept.throw error : EStateM ε σ α) := by
  intro before value after run
  cases run

/-- The number of locals may be written in another way. -/
theorem of_eq (declares : Declares count operation) (same : count = rest) :
    Declares rest operation :=
  same ▸ declares

/-- One operation after the other declares the locals of both. -/
theorem bind (first : Declares count operation)
    (second : ∀ value, Declares rest (following value)) :
    Declares (count + rest) (operation >>= following) := by
  intro before result after run
  obtain ⟨value, middle, firstRun, nextRun⟩ := bind_eq_ok run
  obtain ⟨firstSlots, firstRoom, firstFull⟩ := first _ _ _ firstRun
  obtain ⟨nextSlots, nextRoom, nextFull⟩ := second value _ _ _ nextRun
  refine ⟨by omega, fun limit enough => ?_, fun limit low high => ?_⟩
  · rw [bind_of_ok (firstRoom limit (by omega))]
    exact nextRoom limit (by omega)
  · -- the limit is met in the first operation or in the second
    by_cases reached : slots before + count ≤ limit
    · rw [bind_of_ok (firstRoom limit reached)]
      exact nextFull limit (by omega) (by omega)
    · obtain ⟨stopped, failed⟩ := firstFull limit low (by omega)
      exact ⟨stopped, bind_of_error failed⟩

/-- Behind an operation that declares nothing. -/
theorem next (first : Declares 0 operation) (second : ∀ value, Declares count (following value)) :
    Declares count (operation >>= following) :=
  (first.bind second).of_eq (Nat.zero_add _)

/-- Operations behind it declare nothing. -/
theorem done (first : Declares count operation) (second : ∀ value, Declares 0 (following value)) :
    Declares count (operation >>= following) :=
  first.bind second

/-- Reading the state is harmless, if the limit is not looked at. -/
theorem get_bind {following : σ → EStateM ε σ β}
    (second : ∀ state, Declares count (following state))
    (unlimited : ∀ limit state, following (withLimit limit state) = following state) :
    Declares count (get >>= following) := by
  intro before value after run
  have read (state : σ) : (get >>= following) state = following state state := rfl
  have declared := second before before value after (by rwa [read] at run)
  refine ⟨declared.slots_eq, fun limit enough => ?_, fun limit low high => ?_⟩
  · rw [read, unlimited]
    exact declared.room limit enough
  · rw [read, unlimited]
    exact declared.full limit low high

/-- An operation on a part of the state declares what it declares by itself. -/
theorem lift {ε' τ : Type} [Slotted τ] [SlotError ε'] {outer : EStateM ε' τ α} (view : τ → σ)
    (put : τ → σ → τ)
    (wrap : ε → ε') (declares : Declares count operation)
    (runs : ∀ state, outer state =
      match operation (view state) with
      | .ok value part => .ok value (put state part)
      | .error error part => .error (wrap error) (put state part))
    (views : ∀ limit state, slots (view state) = slots state ∧
      view (withLimit limit state) = withLimit limit (view state))
    (puts : ∀ limit state part, slots (put state part) = slots part ∧
      put (withLimit limit state) (withLimit limit part) = withLimit limit (put state part))
    (wraps : ∀ limit, wrap (tooMany limit) = tooMany limit) : Declares count outer := by
  intro before value after run
  rw [runs] at run
  -- the view shows limit and slots, and putting a part back keeps both
  cases inner : operation (view before) with
  | error error last =>
    rw [inner] at run
    cases run
  | ok result last =>
    rw [inner] at run
    cases run
    obtain ⟨size, room, full⟩ := declares _ _ _ inner
    rw [(views 0 before).1] at size room full
    refine ⟨(puts 0 before last).1.trans size, fun limit enough => ?_, fun limit low high => ?_⟩
    · rw [runs, (views limit before).2, room limit enough, ← (puts limit before last).2]
    · obtain ⟨stopped, failed⟩ := full limit low high
      refine ⟨put (withLimit limit before) stopped, ?_⟩
      rw [runs, (views limit before).2, failed, ← wraps]

end Declares

end Declares

/-! ## Operations on the emitter -/

namespace Emitter

/-- An instruction declares nothing. -/
theorem declares_emit (instruction : Instruction) : Declares 0 (emit instruction) := by
  refine .of_neutral fun before value after run => ?_
  -- whether an instruction is refused does not depend on the limit
  have same (limit : Nat) : (withLimit limit before).refusal? instruction =
      before.refusal? instruction := rfl
  simp only [emit_eq, same] at run ⊢
  cases refused : before.refusal? instruction with
  | some defect =>
    rw [refused] at run
    cases run
  | none =>
    rw [refused] at run
    cases run
    exact ⟨rfl, fun _ => rfl⟩

/-- An instruction without operand declares nothing. -/
theorem declares_emitOp (op : Opcode) : Declares 0 (emitOp op) := declares_emit _

/-- A branch declares nothing. -/
theorem declares_emitBranch (op : Opcode) (target : Label) : Declares 0 (emitBranch op target) := by
  unfold emitBranch
  split
  · exact (declares_emit _).next fun _ => .get_bind (fun _ => .pure _) fun _ _ => rfl
  · exact .throw _

/-- A new label declares nothing. -/
theorem declares_defineLabel : Declares 0 defineLabel := by
  refine .of_neutral fun before value after run => ?_
  rw [defineLabel_eq] at run
  cases run
  exact ⟨rfl, fun _ => defineLabel_eq _⟩

/-- A mark declares nothing. -/
theorem declares_markLabel (label : Label) : Declares 0 (markLabel label) := by
  refine .of_neutral fun before value after run => ?_
  have same (limit : Nat) : (withLimit limit before).labels[label]? = before.labels[label]? := rfl
  simp only [markLabel_eq, markLabelAt_eq, same] at run ⊢
  rcases found : before.labels[label]? with _ | _ | position
  · rw [found] at run
    cases run
  · rw [found] at run
    cases run
    exact ⟨rfl, fun _ => rfl⟩
  · rw [found] at run
    cases run

/-- The one operation that looks at the limit. -/
theorem declares_declareLocal (type : Ty) : Declares 1 (declareLocal type) := by
  intro before value after run
  rw [declareLocal_eq] at run
  split at run
  · cases run
  · cases run
    refine ⟨Array.size_push _, fun limit room => ?_, fun limit low high => ?_⟩
    · rw [declareLocal_eq]
      exact if_neg (by simp only [slots, withLimit] at room ⊢; omega)
    · rw [declareLocal_eq]
      exact ⟨_, if_pos (by simp only [slots, withLimit] at high ⊢; omega)⟩

/-- The token of a string declares nothing. -/
theorem declares_stringToken (value : String) : Declares 0 (stringToken value) := by
  refine .of_neutral fun before token after run => ?_
  rw [stringToken_eq] at run
  obtain ⟨number, strings, found, rfl, rfl⟩ := lookedUp_eq_ok run
  refine ⟨rfl, fun limit => ?_⟩
  rw [stringToken_eq, show (withLimit limit before).strings.intern value = _ from found]
  rfl

/-- The token of a type declares nothing. -/
theorem declares_typeToken (type : Ty) : Declares 0 (typeToken type) := by
  refine .of_neutral fun before token after run => ?_
  rw [typeToken_eq] at run
  obtain ⟨number, types, found, rfl, rfl⟩ := lookedUp_eq_ok run
  refine ⟨rfl, fun limit => ?_⟩
  rw [typeToken_eq, show (withLimit limit before).types.intern type = _ from found]
  rfl

/-- The token of a function declares nothing. -/
theorem declares_functionToken (name : String) (arity : Nat) (function : Handle) :
    Declares 0 (functionToken name arity function) := by
  refine .of_neutral fun before token after run => ?_
  rw [functionToken_eq] at run
  split at run
  · cases run
  · next counted =>
    obtain ⟨number, functions, found, rfl, rfl⟩ := lookedUp_eq_ok run
    refine ⟨rfl, fun limit => ?_⟩
    rw [functionToken_eq, show (withLimit limit before).functions.intern _ = _ from found]
    exact if_neg counted

/-- Operations that are put together declare nothing if their parts declare nothing. -/
theorem composable_declares : Composable fun _ => Declares 0 where
  pure := .pure
  throw := .throw
  bind := .next
  emit := declares_emit
  stringToken := declares_stringToken
  typeToken := declares_typeToken
  functionToken := declares_functionToken

end Emitter

/-! ## Branch targets -/

namespace Branches

variable {α : Type} {count : Nat}

/-- An operation on the emitter next to branch targets. -/
theorem declares_emitting {operation : Emit α} (declares : Declares count operation) :
    Declares count (emitting operation) := by
  refine declares.lift Prod.snd (fun state emitter => (state.1, emitter)) id (fun state => ?_)
    (fun _ _ => ⟨rfl, rfl⟩) (fun _ _ _ => ⟨rfl, rfl⟩) fun _ => rfl
  obtain ⟨branches, emitter⟩ := state
  cases inner : operation emitter <;> simp [emitting, inner]

/-- A change of the branches declares nothing. -/
theorem declares_update (change : Branches → Branches) : Declares 0 (update change) := by
  refine .of_neutral fun before value after run => ?_
  cases run
  exact ⟨rfl, fun _ => rfl⟩

/-- The label of a branch declares nothing. -/
theorem declares_label (key : BranchKey) : Declares 0 (label key) := by
  refine .get_bind (fun state => ?_) fun _ _ => rfl
  split
  · exact .pure _
  · exact (declares_emitting Emitter.declares_defineLabel).next fun _ =>
      (declares_update _).next fun _ => .pure _

/-- A branch that is noted down declares nothing. -/
theorem declares_addBranch (op : Opcode) (key : BranchKey) : Declares 0 (addBranch op key) :=
  (declares_label key).next fun target =>
    (declares_emitting (Emitter.declares_emitBranch op target)).next fun _ =>
      (declares_update _).next fun _ => .pure _

/-- The mark of a branch declares nothing. -/
theorem declares_mark (key : BranchKey) : Declares 0 (mark key) := by
  refine .get_bind (fun state => ?_) fun _ _ => rfl
  split
  · exact (declares_emitting (Emitter.declares_markLabel _)).next fun _ => .pure _
  · exact .pure _

end Branches

/-! ## Chains -/

namespace Frame

variable {α : Type} {count : Nat}

/-- A state that is entered declares nothing. -/
theorem declares_enter (state : FrameState) : Declares 0 (enter state : Lowering Emitter Unit) := by
  refine .of_neutral fun before value after run => ?_
  cases run
  exact ⟨rfl, fun _ => rfl⟩

/-- An operation on branch targets within a frame. -/
theorem declares_branching {operation : Branching α} (declares : Declares count operation) :
    Declares count (branching operation : Lowering Emitter α) := by
  refine declares.lift (fun state => (state.1.branches, state.2))
    (fun state part => ({ state.1 with branches := part.1 }, part.2)) CompileError.defect
      (fun state => ?_)
    (fun _ _ => ⟨rfl, rfl⟩) (fun _ _ _ => ⟨rfl, rfl⟩) fun _ => rfl
  obtain ⟨frame, emitter⟩ := state
  cases inner : operation (frame.branches, emitter) <;>
    simp [branching, HasEmitter.emitter, HasEmitter.withEmitter, inner]

/-- An operation that does not concern the frame. -/
theorem declares_outside {operation : EStateM CompileError Emitter α}
    (declares : Declares count operation) :
    Declares count (outside operation) := by
  refine declares.lift Prod.snd (fun state emitter => (state.1, emitter)) id (fun state => ?_)
    (fun _ _ => ⟨rfl, rfl⟩) (fun _ _ _ => ⟨rfl, rfl⟩) fun _ => rfl
  obtain ⟨frame, emitter⟩ := state
  cases inner : operation emitter <;> simp [outside, inner]

/-- The two ends of a chain declare nothing. -/
theorem declares_emitTerminals : Declares 0 emitTerminals := by
  have loadBool (value : Bool) : Declares 0 (Branches.emitting (Emitter.emitLoadBool value)) :=
    Branches.declares_emitting (Emitter.declares_emitOp _)
  have finish : Declares 0 emitFinish :=
    (Branches.declares_label .finish).next fun label =>
      Branches.declares_emitting (Emitter.declares_markLabel label)
  have makeTrue : Declares 0 emitTrue := by
    refine (Branches.declares_mark .trueTerminal).next fun found => ?_
    split
    · exact (loadBool true).next fun _ => finish
    · exact finish
  refine .get_bind (fun state => ?_) fun _ _ => rfl
  refine (Branches.declares_mark .falseTerminal).next fun found => ?_
  split
  · refine (loadBool false).next fun _ => ?_
    split
    · exact (Branches.declares_addBranch _ _).next fun _ => makeTrue
    · exact makeTrue
  · exact makeTrue

/-- The code of a chain declares the locals that its operands declare. -/
inductive DeclaresPlan : Nat → Chain (ChainOperand Emitter) → Prop
  /-- An operand has its own code. -/
  | operand {count : Nat} {operand : ChainOperand Emitter}
      (declares : Declares count operand.code) :
      DeclaresPlan count (.operand operand)
  /-- Two chains that are joined. -/
  | joined {leftCount rightCount : Nat} {connective : Connective}
      {left right : Chain (ChainOperand Emitter)}
      (leftPlan : DeclaresPlan leftCount left) (rightPlan : DeclaresPlan rightCount right) :
      DeclaresPlan (leftCount + rightCount) (.joined connective left right)

/-- A chain declares what its operands declare. -/
theorem declares_emitTree {chain : Chain (ChainOperand Emitter)} (plan : DeclaresPlan count chain)
    (exits : Bool → BranchKey) : Declares count (emitTree chain exits) := by
  induction plan generalizing exits with
  | operand declares =>
    exact (declares_branching (Branches.declares_mark _)).next fun _ => declares_outside declares
  | joined _ _ ihLeft ihRight =>
    exact (ihLeft _).bind fun _ =>
      (declares_branching (Branches.declares_addBranch _ _)).next fun _ => ihRight exits

/-- What is done for a chain in a frame that has been entered. -/
def emitWhole (chain : Chain (ChainOperand Emitter)) : Lowering Emitter Unit := do
  emitTree chain Chain.terminals
  let _ ← branching (Branches.addBranch (.branch .always .long) .finish)
  branching emitTerminals
  enter .resolved

/-- A chain with its ends declares what its operands declare. -/
theorem declares_emitWhole {chain : Chain (ChainOperand Emitter)}
    (plan : DeclaresPlan count chain) :
    Declares count (emitWhole chain) :=
  (declares_emitTree plan _).done fun _ =>
    (declares_branching (Branches.declares_addBranch _ _)).next fun _ =>
      (declares_branching declares_emitTerminals).next fun _ => declares_enter _

end Frame

/-! ## Code generation -/

namespace Codegen

variable {α : Type} {count : Nat}

/-- Code generation with an emitter as its state declares so many locals. -/
abbrev Declares (count : Nat) (operation : Codegen Emitter α) : Prop :=
  ExprCode.Declares count operation

/-- An operation on the emitter. -/
theorem declares_ofEmit {operation : Emit α} (declares : ExprCode.Declares count operation) :
    Declares count (ofEmit operation) := by
  refine declares.lift id (fun _ emitter => emitter) CompileError.defect (fun emitter => ?_)
    (fun _ _ => ⟨rfl, rfl⟩) (fun _ _ _ => ⟨rfl, rfl⟩) fun _ => rfl
  cases inner : operation emitter <;> simp [ofEmit_eq, inner]

/-- A chain in a frame of its own. -/
theorem declares_emitJoined {connective : Connective} {left right : Chain (ChainOperand Emitter)}
    (plan : Frame.DeclaresPlan count (.joined connective left right)) :
    Declares count (emitJoined (.joined connective left right)) := by
  refine (Frame.declares_emitWhole plan).lift
    (fun emitter => (({ state := .branching } : Frame), emitter))
    (fun _ part => part.2) id (fun emitter => ?_) (fun _ _ => ⟨rfl, rfl⟩) (fun _ _ _ => ⟨rfl, rfl⟩)
      fun _ => rfl
  have lowers : Frame.lower (.joined connective left right) (({} : Frame), emitter) =
      Frame.emitWhole (.joined connective left right)
        (({ state := .branching } : Frame), emitter) :=
    Frame.lower_eq
  rw [emitJoined_eq, lowers]
  cases Frame.emitWhole (.joined connective left right) (({ state := .branching } : Frame), emitter)
    <;> rfl

/-- A plan that is emitted by itself. -/
theorem declares_emitCode {chain : Chain (ChainOperand Emitter)}
    (plan : Frame.DeclaresPlan count chain) :
    Declares count (emitCode chain) := by
  cases chain with
  | operand operand =>
    cases plan with
    | operand declares => exact declares
  | joined connective left right => exact declares_emitJoined plan

/-- A fork may declare as many locals as its parent, and the parent takes over those of the fork. -/
theorem declares_emitArm {arm : Codegen Emitter Unit} (declares : Declares count arm) :
    Declares count (emitArm arm) := by
  intro before value after run
  cases inner : arm before.fork with
  | error error child =>
    rw [emitArm_eq, inner] at run
    cases run
  | ok result child =>
    rw [emitArm_eq, inner] at run
    cases spliced : Emitter.splice child before with
    | error defect last =>
      simp only [ofEmit_eq, spliced] at run
      cases run
    | ok _ last =>
      simp only [ofEmit_eq, spliced] at run
      cases run
      obtain ⟨fresh, apart, rfl⟩ := Emitter.splice_eq_ok_iff.1 spliced
      obtain ⟨size, room, full⟩ := declares _ _ _ inner
      refine ⟨size, fun limit enough => ?_, fun limit low high => ?_⟩
      -- the fork has the limit of its parent, and splicing looks at no limit
      · have arms : arm (withLimit limit before).fork = .ok result (withLimit limit child) :=
          room limit enough
        have splices : Emitter.splice (withLimit limit child) (withLimit limit before) =
            .ok () (withLimit limit (Emitter.graft before child)) :=
          Emitter.splice_eq_ok_iff.2 ⟨fresh, apart, rfl⟩
        simp only [emitArm_eq, arms, ofEmit_eq, splices]
      · obtain ⟨stopped, failed⟩ := full limit low high
        have arms : arm (withLimit limit before).fork = .error (tooMany limit) stopped := failed
        exact ⟨withLimit limit before, by rw [emitArm_eq, arms]⟩

end Codegen

end ExprCode
