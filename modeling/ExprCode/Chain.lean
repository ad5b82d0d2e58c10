import ExprCode.Chain.Branches

/-! # Short-circuit chains

Code for conjunctions and disjunctions of truth values that evaluates no more operands than needed.
A chain is flattened onto two stacks, operands and connectives, with what is evaluated first on top.
Its code evaluates one operand after the other and branches as soon as an operand decides the
connective behind it: `and` is decided by false, `or` by true.

A branch leads past the right operand of the decided connective and outwards past all connectives of
the same kind, which are decided as well. The first of the other kind goes on with its right
operand; if there is none the chain is decided, and the branch leads to the place where its result
is made. -/

namespace ExprCode

/-- A tree of connectives over operands. -/
inductive Chain (α : Type) where
  /-- An operand. -/
  | operand (operand : α)
  /-- Two chains joined by a connective. -/
  | joined (connective : Connective) (left right : Chain α)

/-- A connective that waits on the stack, with its right operand. -/
structure Pending (α : Type) where
  /-- The connective. -/
  connective : Connective
  /-- The chain to its right. -/
  right : Chain α

/-- The connectives and the operands that have not been emitted, next first. -/
structure Stacks (α : Type) where
  /-- The connectives. -/
  operators : List (Pending α) := []
  /-- The operands. -/
  operands : List α := []

namespace Chain

variable {α : Type}

/-- The operands of a chain, left to right. -/
def operands : Chain α → List α
  | operand a => [a]
  | joined _ left right => left.operands ++ right.operands

/-- Push a chain onto the stacks: the right side, the connective, the left side. -/
def populate : Chain α → Stacks α → Stacks α
  | operand a, stack => { stack with operands := a :: stack.operands }
  | joined connective left right, stack =>
      let stack := right.populate stack
      left.populate { stack with operators := ⟨connective, right⟩ :: stack.operators }

/-- Pop a chain from the stacks. -/
def pop : Chain α → Stacks α → Except Defect (Stacks α)
  | operand _, stack =>
      match stack.operands with
      | [] => .error .operandStackUnderflow
      | _ :: operands => .ok { stack with operands }
  | joined _ left right, stack =>
      match stack.operators with
      | [] => .error .operatorStackUnderflow
      | _ :: operators => do
          let stack ← left.pop { stack with operators }
          right.pop stack

/-- Popping a chain adds no connective. -/
theorem length_operators_le_of_pop {chain : Chain α} {stack rest : Stacks α}
    (h : chain.pop stack = .ok rest) : rest.operators.length ≤ stack.operators.length := by
  induction chain generalizing stack rest with
  | operand a =>
    rw [pop] at h
    split at h
    · cases h
    · cases h
      exact Nat.le_refl _
  | joined connective left right ihLeft ihRight =>
    rw [pop] at h
    split at h
    · cases h
    · next head operators found =>
      cases leftPopped : left.pop { stack with operators } with
      | error defect =>
        rw [leftPopped] at h
        cases h
      | ok middle =>
        rw [leftPopped] at h
        have leftBound := ihLeft leftPopped
        have rightBound := ihRight h
        rw [found, List.length_cons]
        simp only at leftBound
        omega

/-- The place where a decided chain has its result made: false for `and`, true for `or`. -/
def terminal : Connective → BranchKey
  | .and => .falseTerminal
  | .or => .trueTerminal

/-- The place behind all connectives of one kind on top of the stacks. -/
def outwards (place : α → BranchKey) (connective : Connective) :
    List (Pending α) → List α → Except Defect BranchKey
  | [], _ => .ok (terminal connective)
  | outer :: operators, operands =>
      if outer.connective = connective then
        match popped : outer.right.pop ⟨operators, operands⟩ with
        | .error defect => .error defect
        | .ok rest =>
            have : rest.operators.length ≤ operators.length := length_operators_le_of_pop popped
            outwards place connective rest.operators rest.operands
      else
        match operands with
        | [] => .error .operandStackUnderflow
        | next :: _ => .ok (place next)
termination_by operators => operators.length

/-- The place to go to when the operand before a connective decides it. -/
def target (place : α → BranchKey) (pending : Pending α) (stack : Stacks α) :
    Except Defect BranchKey := do
  let rest ← pending.right.pop stack
  outwards place pending.connective rest.operators rest.operands

/-- The branch that is taken when an operand decides a connective. -/
def decidingBranch : Connective → Opcode
  | .and => .branch .ifFalse .long
  | .or => .branch .ifTrue .long

end Chain

/-- A state that holds an emitter. -/
class HasEmitter (σ : Type) where
  /-- The emitter. -/
  emitter : σ → Emitter
  /-- The state with another emitter. -/
  withEmitter : σ → Emitter → σ

/-- An emitter is a state with nothing beside it. -/
instance : HasEmitter Emitter where
  emitter emitter := emitter
  withEmitter _ emitter := emitter

/-- An emitter holds itself. -/
@[simp] theorem HasEmitter.emitter_eq (emitter : Emitter) : HasEmitter.emitter emitter = emitter :=
  rfl

/-- An emitter takes the place of another one. -/
@[simp] theorem HasEmitter.withEmitter_eq (emitter next : Emitter) :
    HasEmitter.withEmitter emitter next = next :=
  rfl

/-- An operand of a chain: the node that it is, and how its code is emitted. -/
structure ChainOperand (σ : Type) where
  /-- Identity of the node. -/
  node : NodeId
  /-- Emits code that leaves the value on the stack. -/
  code : EStateM CompileError σ Unit

/-- The place of an operand. -/
def ChainOperand.place {σ : Type} (operand : ChainOperand σ) : BranchKey := .operand operand.node

/-- How far the lowering of a chain has come. -/
inductive FrameState where
  | idle | collecting | branching | resolved
  deriving DecidableEq

/-- Name of a state. -/
def FrameState.name : FrameState → String
  | idle => "Idle"
  | collecting => "Collecting"
  | branching => "Branching"
  | resolved => "Resolved"

/-- Holds what belongs to the lowering of one chain. -/
structure Frame where
  /-- How far the lowering has come. -/
  state : FrameState := .idle
  /-- The branch targets. -/
  branches : Branches := {}

/-- A step of the lowering of a chain. -/
abbrev Lowering (σ : Type) := EStateM CompileError (Frame × σ)

namespace Frame

variable {σ : Type} [HasEmitter σ]

/-- Forget what belonged to a chain, so that another one can be lowered. -/
def clear (frame : Frame) : Frame :=
  { frame with state := .idle, branches := frame.branches.clear }

/-- Note how far the lowering has come. -/
def enter (state : FrameState) : Lowering σ Unit :=
  modify fun (frame, rest) => ({ frame with state }, rest)

/-- The result of a look-up on the stacks. -/
def ofExcept {α : Type} : Except Defect α → Lowering σ α
  | .ok value => pure value
  | .error defect => throw (.defect defect)

/-- Perform an operation on the branch targets and the emitter. -/
def branching {α : Type} (operation : Branching α) : Lowering σ α := fun (frame, rest) =>
  match operation (frame.branches, HasEmitter.emitter rest) with
  | .ok value (branches, emitter) =>
      .ok value ({ frame with branches }, HasEmitter.withEmitter rest emitter)
  | .error defect (branches, emitter) =>
      .error (.defect defect) ({ frame with branches }, HasEmitter.withEmitter rest emitter)

/-- Perform an operation that does not concern the frame. -/
def outside {α : Type} (operation : EStateM CompileError σ α) : Lowering σ α :=
  fun (frame, rest) =>
    match operation rest with
    | .ok value rest => .ok value (frame, rest)
    | .error error rest => .error error (frame, rest)

/-- Emit an operand, behind its label if branches lead to it. -/
def emitOperand (operand : ChainOperand σ) : Lowering σ Unit := do
  let _ ← branching (Branches.mark operand.place)
  outside operand.code

/-- Emit all that is on the stacks. -/
def emitChain : List (Pending (ChainOperand σ)) → List (ChainOperand σ) → Lowering σ Unit
  | [], last :: _ => do
      emitOperand last
      let _ ← branching (Branches.addBranch (.branch .always .long) .finish)
  | pending :: operators, operand :: operands => do
      emitOperand operand
      let target ← ofExcept (Chain.target ChainOperand.place pending ⟨operators, operands⟩)
      let _ ← branching (Branches.addBranch (Chain.decidingBranch pending.connective) target)
      emitChain operators operands
  | _, [] => throw (.defect .operandStackUnderflow)

/-- Emit the places where the result of a decided chain is made, and the end of the chain. -/
def emitTerminals : Branching Unit := do
  let hasTrue := ((← get).1.find? .trueTerminal).isSome
  if (← Branches.mark .falseTerminal).isSome then
    Branches.emitting (Emitter.emitLoadBool false)
    if hasTrue then
      let _ ← Branches.addBranch (.branch .always .long) .finish
  if (← Branches.mark .trueTerminal).isSome then
    Branches.emitting (Emitter.emitLoadBool true)
  let finish ← Branches.label .finish
  Branches.emitting (Emitter.markLabel finish)

/-- Emit the code of a chain in an idle frame. -/
def lower (chain : Chain (ChainOperand σ)) : Lowering σ Unit := do
  if (← get).1.state = .idle then
    match chain with
    | .operand _ => throw (.defect .operatorStackUnderflow)
    | .joined _ _ _ =>
        enter .collecting
        let stack := chain.populate {}
        enter .branching
        emitChain stack.operators stack.operands
        branching emitTerminals
        enter .resolved
  else throw (.defect .frameInUse)

end Frame

end ExprCode
