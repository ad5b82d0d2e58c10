import ExprCode.Instruction

/-! # Branch layout

A branch reaches a nearby target with a one-byte displacement and any target with four bytes. Which
form a branch needs depends on the offsets of all instructions, and these on the forms. The layout
starts with short branches and makes those long that do not reach their target, pass by pass, until
none is left. Long branches stay long, so every pass but the last lowers the number of short ones.

Positions of labels and offsets of instructions are looked up by index. A label with a position
behind the end of the code has no offset, and the look-up stops the program. -/

namespace ExprCode

/-- The form that was chosen for one branch. -/
structure BranchRecord where
  /-- Index of the branch instruction. -/
  source : Nat
  /-- The label that it names. -/
  target : Label
  /-- The form chosen. -/
  form : BranchForm
  deriving DecidableEq

/-- Where all instructions lie once the forms of the branches are fixed. -/
structure BranchLayout where
  /-- Offset of every instruction, and behind them the length of the code. -/
  offsets : Array Nat
  /-- The branches, in the order of the instructions. -/
  branches : List BranchRecord
  /-- Number of passes over the instructions. -/
  passes : Nat

namespace BranchLayout

/-- The form of the branch at an instruction index. -/
def formOf? (layout : BranchLayout) (source : Nat) : Option BranchForm :=
  (layout.branches.find? fun branch => branch.source == source).map (·.form)

/-- Length of the code. -/
def codeLength (layout : BranchLayout) : Nat := layout.offsets.back?.getD 0

end BranchLayout

/-- An index behind the end of what it is an index of. The program stops there. -/
structure OutOfRange where
  /-- The index. -/
  index : Nat
  /-- How many entries there are. -/
  size : Nat
  deriving DecidableEq

/-- What the program says when it stops. -/
def OutOfRange.message (fault : OutOfRange) : String :=
  "index out of bounds: the len is " ++ toString fault.size ++ " but the index is " ++
    toString fault.index

/-- The entry at an index. -/
def entryAt (entries : Array Nat) (index : Nat) : Except OutOfRange Nat :=
  match entries[index]? with
  | some entry => .ok entry
  | none => .error ⟨index, entries.size⟩

/-- Whether a branch at an offset needs four bytes to reach a target offset. A short branch is two
bytes long and its displacement counts from its end. -/
def isLongBranch (branchOffset targetOffset : Nat) : Bool :=
  let distance : Int := targetOffset - branchOffset
  127 < distance || distance < -126

namespace Layout

/-- The sums of all initial pieces of a list, from a start. -/
def runningTotals (start : Nat) : List Nat → List Nat
  | [] => [start]
  | length :: rest => start :: runningTotals (start + length) rest

variable (instructions : Array Instruction) (positions : Array Nat)

/-- A form for every instruction; only branches have two. -/
abbrev Forms := Vector BranchForm instructions.size

/-- Lengths of the instructions under a choice of forms. -/
def lengths (forms : Forms instructions) : List Nat :=
  List.ofFn fun i : Fin instructions.size => instructions[i].encodedLength forms[i]

/-- Offsets of the instructions under a choice of forms, and behind them the length of the code. -/
def offsets (forms : Forms instructions) : Array Nat :=
  (runningTotals 0 (lengths instructions forms)).toArray

/-- Offset of the place that a label marks. -/
def targetOffset (offsets : Array Nat) (label : Label) : Except OutOfRange Nat := do
  entryAt offsets (← entryAt positions label)

/-- The form of the instruction at an index after a pass. A short branch that does not reach its
target becomes long; the target of a long one is not looked up. -/
def widenAt (offsets : Array Nat) (forms : Forms instructions) (i : Fin instructions.size) :
    Except OutOfRange BranchForm :=
  match instructions[i].target?, forms[i] with
  | some label, .short => do
      let target ← targetOffset positions offsets label
      return if isLongBranch (← entryAt offsets i) target then .long else .short
  | _, form => return form

/-- One pass: make every branch long that does not reach its target. -/
def widen (forms : Forms instructions) : Except OutOfRange (Forms instructions) :=
  let offsets := offsets instructions forms
  Vector.ofFnM fun i => widenAt instructions positions offsets forms i

/-- The instruction at an index with its form, if it is a branch. -/
def recordAt? (forms : Forms instructions) (i : Fin instructions.size) : Option BranchRecord :=
  instructions[i].target?.map fun target => ⟨i, target, forms[i]⟩

/-- The branches with their forms. -/
def records (forms : Forms instructions) : List BranchRecord :=
  (List.finRange instructions.size).filterMap (recordAt? instructions forms)

/-- Repeat passes until one leaves as many branches short as there were. -/
def settle (forms : Forms instructions) (passes : Nat) : Except OutOfRange BranchLayout := do
  let widened ← widen instructions positions forms
  if widened.count .short < forms.count .short then settle widened (passes + 1)
  else return ⟨offsets instructions forms, records instructions forms, passes⟩
termination_by forms.count .short

/-- The forms that records ask for: long where one says so. -/
def seedForms (seed : List BranchRecord) : Forms instructions :=
  Vector.ofFn fun i =>
    if seed.any fun record => record.source == i && record.form == .long then .long else .short

/-- The layout of instructions, starting with the branches long that the records say are. -/
def resolve (seed : List BranchRecord) : Except OutOfRange BranchLayout :=
  settle instructions positions (seedForms instructions seed) 1

end Layout

end ExprCode
