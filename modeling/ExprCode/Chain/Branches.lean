import ExprCode.Emitter

/-! # Branch targets of a chain

The places to which branches of a chain lead, with the labels given to them and the branches that
name each label. A place gets its label when it is first needed. -/

namespace ExprCode

/-- A place to which a chain may branch. -/
inductive BranchKey where
  /-- The code of an operand. -/
  | operand (node : NodeId)
  /-- Where the result is made true. -/
  | trueTerminal
  /-- Where the result is made false. -/
  | falseTerminal
  /-- Behind the chain. -/
  | finish
  deriving DecidableEq

/-- The labels of places and the branches that name them. -/
structure Branches where
  /-- Places with their labels, in the order in which they were first needed. -/
  labels : List (BranchKey × Label) := []
  /-- Labels with the instructions that branch to them, in the order of the instructions. -/
  origins : List (Label × Nat) := []

/-- An operation on branch targets and the emitter that defines their labels. -/
abbrev Branching := EStateM Defect (Branches × Emitter)

namespace Branches

/-- The label of a place, if it has one. -/
def find? (branches : Branches) (key : BranchKey) : Option Label :=
  branches.labels.lookup key

/-- The instructions that branch to a label. -/
def originsOf (branches : Branches) (label : Label) : List Nat :=
  branches.origins.filterMap fun (target, source) => if target = label then some source else none

/-- Number of places that have a label. -/
def size (branches : Branches) : Nat := branches.labels.length

/-- Forget all places and branches. -/
def clear (branches : Branches) : Branches := { branches with labels := [], origins := [] }

/-- Perform an operation on the emitter. -/
def emitting {α : Type} (operation : Emit α) : Branching α := fun (branches, emitter) =>
  match operation emitter with
  | .ok value emitter => .ok value (branches, emitter)
  | .error defect emitter => .error defect (branches, emitter)

/-- Change the branch targets. -/
def update (change : Branches → Branches) : Branching Unit :=
  modify fun (branches, emitter) => (change branches, emitter)

/-- The label of a place, which is defined if the place has none. -/
def label (key : BranchKey) : Branching Label := do
  match (← get).1.find? key with
  | some label => return label
  | none =>
      let label ← emitting Emitter.defineLabel
      update fun branches => { branches with labels := branches.labels ++ [(key, label)] }
      return label

/-- Append a branch to a place. -/
def addBranch (op : Opcode) (key : BranchKey) : Branching Label := do
  let target ← label key
  let source ← emitting (Emitter.emitBranch op target)
  update fun branches => { branches with origins := branches.origins ++ [(target, source)] }
  return target

/-- Let the label of a place, if it has one, mark the next instruction. -/
def mark (key : BranchKey) : Branching (Option Label) := do
  match (← get).1.find? key with
  | some label =>
      emitting (Emitter.markLabel label)
      return some label
  | none => return none

end Branches

end ExprCode
