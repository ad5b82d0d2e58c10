import ExprCode.Proofs.ChainLowering
import ExprCode.Proofs.Runs
import ExprCode.Proofs.Traversal

/-! # The frames of chains

Main statement: `compile_eq`. Code generation takes the frame of a chain from a pool and gives it
back cleared, also if the chain has no code. So all frames in the pool are as new
(`Generator.Mirrored`), no chain meets a frame that is in use, and what is emitted is what is
emitted with a new frame for every chain. Whoever reasons about the code can therefore leave the
pool out.

Both go in step (`InStep`), which code generation keeps (`traversal_mirrorsBare`). -/

namespace ExprCode

/-! ## Frames -/

/-- A generator has this emitter, and all its frames are as new. -/
structure Generator.Mirrored (generator : Generator) (emitter : Emitter) : Prop where
  /-- The emitter is the same. -/
  emitter : generator.emitter = emitter
  /-- No frame holds anything of a chain. -/
  idle : ∀ frame ∈ generator.frames, frame = {}

/-- A frame that is cleared is as new. -/
@[simp] theorem Frame.clear_eq (frame : Frame) : frame.clear = {} := rfl

namespace Generator.Mirrored

variable {generator : Generator} {emitter : Emitter}

/-- Another emitter takes the place of the same one. -/
theorem withEmitter (mirrored : generator.Mirrored emitter) (next : Emitter) :
    (HasEmitter.withEmitter generator next).Mirrored next :=
  ⟨rfl, mirrored.idle⟩

/-- A frame that is taken is as new. -/
theorem takeFrame (mirrored : generator.Mirrored emitter) :
    ∃ rest, HasFrames.takeFrame generator = ({}, rest) ∧ rest.Mirrored emitter := by
  obtain ⟨_, frames⟩ := generator
  cases frames with
  | nil => exact ⟨_, rfl, mirrored⟩
  | cons frame frames =>
    obtain rfl := mirrored.idle frame List.mem_cons_self
    exact ⟨_, rfl, mirrored.emitter, fun other member =>
      mirrored.idle other (List.mem_cons_of_mem _ member)⟩

/-- A frame that was cleared can be given back. -/
theorem giveBack (mirrored : generator.Mirrored emitter) (frame : Frame) :
    (HasFrames.giveBack frame.clear generator).Mirrored emitter := by
  refine ⟨mirrored.emitter, fun other member => ?_⟩
  rcases List.mem_cons.1 member with rfl | member
  · exact frame.clear_eq
  · exact mirrored.idle other member

end Generator.Mirrored

/-- Code generation with a pool of frames, and with new frames only. -/
abbrev Codegen.MirrorsBare {α : Type} (pooled : Codegen Generator α) (bare : Codegen Emitter α) :
    Prop :=
  InStep Generator.Mirrored Eq pooled bare

/-- Two chains of the same connectives and nodes, whose operands have the same code. -/
abbrev Chain.MirrorsBare :
    Chain (ChainOperand Generator) → Chain (ChainOperand Emitter) → Prop :=
  Chain.Alike Codegen.MirrorsBare

/-- The first operands are at the same place. -/
theorem Chain.Alike.place_first {pooled : Chain (ChainOperand Generator)}
    {bare : Chain (ChainOperand Emitter)} (chains : pooled.MirrorsBare bare) :
    pooled.first.place = bare.first.place := by
  induction chains with
  | operand => rfl
  | joined _ _ ihLeft _ => exact ihLeft

namespace Frame

/-- The frames are the same, and the generator has the emitter. -/
def Mirrored (state : Frame × Generator) (other : Frame × Emitter) : Prop :=
  state.1 = other.1 ∧ state.2.Mirrored other.2

/-- Operations on branch targets and the emitter do not see the pool. -/
theorem mirrors_branching {α : Type} (operation : Branching α) :
    InStep Mirrored Eq (branching operation) (branching operation) := by
  rintro ⟨frame, generator⟩ ⟨_, emitter⟩ ⟨rfl, mirrored⟩
  have same : HasEmitter.emitter generator = emitter := mirrored.emitter
  simp only [branching, same, HasEmitter.emitter_eq]
  cases operation (frame.branches, emitter) with
  | ok value after => exact .ok rfl ⟨rfl, mirrored.withEmitter after.2⟩
  | error defect after => exact .error ⟨rfl, mirrored.withEmitter after.2⟩

/-- Code of operands keeps the frame. -/
theorem mirrors_outside {pooled : Codegen Generator Unit} {bare : Codegen Emitter Unit}
    (codes : Codegen.MirrorsBare pooled bare) :
    InStep Mirrored Eq (outside pooled) (outside bare) := by
  rintro ⟨frame, generator⟩ ⟨_, emitter⟩ ⟨rfl, mirrored⟩
  have ends := codes generator emitter mirrored
  simp only [outside]
  generalize pooled generator = result at ends
  generalize bare emitter = otherResult at ends
  cases ends with
  | ok result states => exact .ok rfl ⟨rfl, states⟩
  | error states => exact .error ⟨rfl, states⟩

/-- A part of a chain is emitted alike. -/
theorem mirrors_emitTree {pooled : Chain (ChainOperand Generator)}
    {bare : Chain (ChainOperand Emitter)} (chains : pooled.MirrorsBare bare)
    (exits : Bool → BranchKey) :
    InStep Mirrored Eq (emitTree pooled exits) (emitTree bare exits) := by
  induction chains generalizing exits with
  | operand codes => exact (mirrors_branching _).next fun _ => mirrors_outside codes
  | joined _ rights ihLeft ihRight =>
    rw [emitTree, emitTree, rights.place_first]
    exact (ihLeft _).next fun _ => (mirrors_branching _).next fun _ => ihRight exits

/-- A chain is lowered alike in a new frame. -/
theorem mirrors_lower {pooled : Chain (ChainOperand Generator)}
    {bare : Chain (ChainOperand Emitter)}
    (chains : pooled.MirrorsBare bare) {generator : Generator} {emitter : Emitter}
    (mirrored : generator.Mirrored emitter) :
    EndsAlike Mirrored Eq (lower pooled ({}, generator)) (lower bare ({}, emitter)) := by
  cases id chains with
  | operand codes => exact .error ⟨rfl, mirrored⟩
  | joined lefts rights =>
    rw [lower_eq, lower_eq]
    have resolves : InStep Mirrored Eq (enter .resolved) (enter .resolved) := by
      rintro ⟨frame, _⟩ ⟨_, _⟩ ⟨rfl, states⟩
      exact .ok rfl ⟨rfl, states⟩
    refine ((mirrors_emitTree chains _).next fun _ => (mirrors_branching _).next fun _ =>
      (mirrors_branching _).next fun _ => resolves) _ _ ⟨rfl, mirrored⟩

end Frame

/-! ## Code generation -/

namespace Codegen

/-- An operation on the emitter does not see the pool. -/
theorem mirrors_ofEmit {α : Type} (operation : Emit α) :
    MirrorsBare (ofEmit operation) (ofEmit operation) := by
  intro generator emitter mirrored
  have same : HasEmitter.emitter generator = emitter := mirrored.emitter
  simp only [ofEmit, same, HasEmitter.emitter_eq]
  cases operation emitter with
  | ok value after => exact .ok rfl (mirrored.withEmitter after)
  | error defect after => exact .error (mirrored.withEmitter after)

/-- An arm is emitted into a fork alike; the pool stays when the parent comes back. -/
theorem mirrors_emitArm {pooled : Codegen Generator Unit} {bare : Codegen Emitter Unit}
    (codes : MirrorsBare pooled bare) : MirrorsBare (emitArm pooled) (emitArm bare) := by
  intro generator emitter mirrored
  have same : HasEmitter.emitter generator = emitter := mirrored.emitter
  have ends := codes _ _ (mirrored.withEmitter emitter.fork)
  simp only [emitArm, same, HasEmitter.emitter_eq, HasEmitter.withEmitter_eq]
  generalize pooled _ = result at ends ⊢
  generalize bare emitter.fork = otherResult at ends ⊢
  cases ends with
  | @ok _ _ after child result states =>
    have spliced : HasEmitter.emitter after = child := states.emitter
    simp only [spliced]
    exact mirrors_ofEmit _ _ _ (states.withEmitter emitter)
  | error states => exact .error (states.withEmitter emitter)

/-- A chain is emitted alike in a frame of the pool and in a new one. -/
theorem mirrors_emitJoined {pooled : Chain (ChainOperand Generator)}
    {bare : Chain (ChainOperand Emitter)} (chains : pooled.MirrorsBare bare) :
    MirrorsBare (emitJoined pooled) (emitJoined bare) := by
  intro generator emitter mirrored
  obtain ⟨rest, taken, others⟩ := mirrored.takeFrame
  have ends := Frame.mirrors_lower chains others
  simp only [emitJoined, taken, HasFrames.takeFrame_eq, HasFrames.giveBack_eq]
  generalize Frame.lower pooled ({}, rest) = result at ends ⊢
  generalize Frame.lower bare ({}, emitter) = otherResult at ends ⊢
  cases ends with
  | ok result states => exact .ok rfl (states.2.giveBack _)
  | error states => exact .error (states.2.giveBack _)

section Expressions

variable {env : Environment} {typing : Typing} {scope : SlotScope}

/-- Sequences and basic operations do not see the pool. -/
theorem congruence_mirrorsBare (arguments : Nat) :
    Congruence arguments fun _ => InStep Generator.Mirrored Eq where
  pure _ := .pure rfl
  throw _ := .throw _
  bind := .next
  basic _ := mirrors_ofEmit _

/-- The tests of a membership test are emitted alike. -/
theorem mirrors_emitItems {items : List Expr}
    (each : ∀ item ∈ items, MirrorsBare (emitCode (plan env typing item scope))
      (emitCode (plan env typing item scope))) (operandType : Ty)
    (operandSpan : Span) (slot : Nat) (found : Label) :
    MirrorsBare (emitItems env typing operandType operandSpan slot found items scope)
      (emitItems env typing operandType operandSpan slot found items scope) := by
  induction items with
  | nil =>
    rw [emitItems, emitItems]
    exact .pure rfl
  | cons item items ih =>
    obtain ⟨here, rest⟩ := List.forall_mem_cons.1 each
    rw [emitItems, emitItems]
    exact ((congruence_mirrorsBare 0).emitItemTest _ _ _ _ _ _ here).next fun _ =>
      (mirrors_ofEmit _).next fun _ => ih rest

/-- Code generation does not see the pool. -/
theorem traversal_mirrorsBare :
    Traversal env typing fun _ => InStep Generator.Mirrored Eq where
  toCongruence := congruence_mirrorsBare _
  declareLocal _ := mirrors_ofEmit _
  joined lefts rights := mirrors_emitJoined (.joined lefts rights)
  conditional node condition thenBranch elseBranch scope conditions thens elses := by
    have keeps := congruence_mirrorsBare 0
    rw [plan, plan]
    exact (keeps.known _ _).next fun type => conditions.next fun _ =>
      (mirrors_ofEmit _).next fun _ => (mirrors_ofEmit _).next fun _ =>
      (mirrors_ofEmit _).next fun _ =>
      (mirrors_emitArm (keeps.emitConverted _ _ thens type)).next fun _ =>
      (mirrors_ofEmit _).next fun _ => (mirrors_ofEmit _).next fun _ =>
      (mirrors_emitArm (keeps.emitConverted _ _ elses type)).next fun _ => mirrors_ofEmit _
  member node operand items scope operands each := by
    rw [plan, plan]
    exact ((congruence_mirrorsBare 0).known _ _).next fun _ => operands.next fun _ =>
      (mirrors_ofEmit _).next fun _ => (mirrors_ofEmit _).next fun _ =>
      (mirrors_ofEmit _).next fun _ => (mirrors_ofEmit _).next fun _ =>
      (mirrors_emitItems each _ _ _ _).next fun _ => (mirrors_ofEmit _).next fun _ =>
      (mirrors_ofEmit _).next fun _ => (mirrors_ofEmit _).next fun _ =>
      (mirrors_ofEmit _).next fun _ => mirrors_ofEmit _

/-- With a pool of frames that are all as new, an expression is emitted as with new frames for all
chains, and the frames are as new again. -/
theorem mirrors_program (expr : Expr) :
    MirrorsBare (program env typing expr) (program env typing expr) :=
  have keeps := traversal_mirrorsBare
  (keeps.emitCode (keeps.plans expr [])).next fun _ => mirrors_ofEmit _

end Expressions

end Codegen

section Compile

variable {env : Environment} {expr : Expr} {maxLocals : Nat}

/-- **The frames of chains.** Compilation, which uses the frames of chains again, has the outcome of
code generation with a new frame for every chain. -/
theorem compile_eq (env : Environment) (expr : Expr) (maxLocals : Nat) :
    compile env expr maxLocals =
      match (Typing.typeOf env expr []).run {} with
      | .error error _ => .error error
      | .ok _ typing =>
          match Codegen.program env typing expr (Emitter.withMaxLocals maxLocals) with
          | .error error _ => .error error
          | .ok _ emitter => emitter.finalize.mapError .ofFinishError := by
  unfold compile
  cases (Typing.typeOf env expr []).run {} with
  | error error typing => rfl
  | ok type typing =>
    -- there are no frames yet
    have ends := @Codegen.mirrors_program env typing expr
      { emitter := Emitter.withMaxLocals maxLocals } (Emitter.withMaxLocals maxLocals) ⟨rfl, nofun⟩
    dsimp only
    generalize Codegen.program (σ := Generator) env typing expr _ = result at ends ⊢
    generalize Codegen.program (σ := Emitter) env typing expr _ = bareResult at ends ⊢
    cases ends with
    | ok _ states =>
      obtain ⟨rfl, -⟩ := states
      rfl
    | error _ => rfl

/-- Compilation of a typed expression emits its code and finishes it. -/
theorem compile_of_typed {type : Ty} {typing : Typing}
    (typed : (Typing.typeOf env expr []).run {} = .ok type typing) :
    compile env expr maxLocals =
      match Codegen.program env typing expr (Emitter.withMaxLocals maxLocals) with
      | .error error _ => .error error
      | .ok _ emitter => emitter.finalize.mapError .ofFinishError := by
  rw [compile_eq, typed]

/-- The stages of a compilation that succeeds. -/
theorem compile_eq_ok {code : Code} (h : compile env expr maxLocals = .ok code) :
    ∃ type typing emitter, (Typing.typeOf env expr []).run {} = .ok type typing ∧
      Codegen.program env typing expr (Emitter.withMaxLocals maxLocals) = .ok () emitter ∧
      emitter.finalize = .ok code := by
  rw [compile_eq] at h
  cases typed : (Typing.typeOf env expr []).run {} with
  | error error typing =>
    rw [typed] at h
    cases h
  | ok type typing =>
    simp only [typed] at h
    cases run : Codegen.program env typing expr (Emitter.withMaxLocals maxLocals) with
    | error error emitter =>
      rw [run] at h
      cases h
    | ok _ emitter =>
      simp only [run] at h
      cases finished : emitter.finalize with
      | error error =>
        rw [finished] at h
        cases h
      | ok result =>
        rw [finished] at h
        cases h
        exact ⟨type, typing, emitter, rfl, run, finished⟩

end Compile

end ExprCode
