import ExprCode.Emitter

/-! # Encoding

From an emitter to finished code: labels become positions, the layout fixes the form of every
branch, and instructions become bytes. The records of the layout are consumed in the order of the
branches. -/

namespace ExprCode

/-- The bytes of an operand; a label has none of its own. -/
def Operand.encode : Operand → List UInt8
  | .none | .label _ => []
  | .i8 n => Bytes.ofInt 1 n.toInt
  | .u8 n => [n]
  | .u16 n | .token n => Bytes.toBytes 2 n.toNat
  | .i32 n => Bytes.ofInt 4 n.toInt
  | .i64 n => Bytes.ofInt 8 n.toInt
  | .f32 x => Bytes.toBytes 4 x.bits.toNat
  | .f64 x => Bytes.toBytes 8 x.bits.toNat
  | .typeCode code => [code.toByte]

namespace Emitter

/-- The instruction indices of all labels. The lowest label that marks nothing is a defect. -/
def labelPositions (emitter : Emitter) : Except Defect (Array Nat) :=
  match emitter.labels.findIdx? Option.isNone with
  | some label => .error (.unresolvedLabel label)
  | none => .ok (emitter.labels.map (·.getD 0))

/-- The layout of the branches, starting with those long that the records say are. -/
def resolveBranches (emitter : Emitter) (seed : List BranchRecord) :
    Except FinishError BranchLayout := do
  Layout.resolve emitter.instructions (← emitter.labelPositions) seed

/-- Bytes of the displacement in each form. -/
def displacementSize : BranchForm → Nat
  | .short => 1
  | .long => 4

/-- Something without which a branch to a label has no code. -/
def required {α : Type} (label : Label) : Option α → Except FinishError α
  | some value => .ok value
  | none => .error (.defect (.unknownLabel label))

/-- The record of the branch at an index, if it comes next, and the records behind it. -/
def nextRecord? (index : Nat) : List BranchRecord → Option (BranchRecord × List BranchRecord)
  | record :: records => if record.source = index then some (record, records) else none
  | [] => none

/-- The bytes of the instruction at an index, and the records of the branches behind it. The
displacement of a branch counts from its end. -/
def encodeAt (positions offsets : Array Nat) (index : Nat) (instruction : Instruction)
    (records : List BranchRecord) : Except FinishError (List UInt8 × List BranchRecord) := do
  let _ ← entryAt offsets index
  let stop ← entryAt offsets (index + 1)
  match instruction.operand with
  | .label label =>
      let (record, records) ← required label (nextRecord? index records)
      let forms ← required label instruction.op.branchForms?
      let target ← Layout.targetOffset positions offsets label
      let displacement : Int := target - stop
      return ((forms record.form).toByte ::
        Bytes.ofInt (displacementSize record.form) displacement, records)
  | operand => return (instruction.op.toByte :: operand.encode, records)

/-- The bytes so far and behind them those of instructions from an index on. -/
def encodeFrom (positions offsets : Array Nat) :
    List Instruction → Nat → List BranchRecord → Array UInt8 → Except FinishError (Array UInt8)
  | [], _, _, bytes => return bytes
  | instruction :: instructions, index, records, bytes => do
      let (encoded, records) ← encodeAt positions offsets index instruction records
      encodeFrom positions offsets instructions (index + 1) records (bytes ++ encoded)

/-- The finished code. -/
def finalize (emitter : Emitter) : Except FinishError Code := do
  let positions ← emitter.labelPositions
  let layout ← Layout.resolve emitter.instructions positions []
  let bytes ← encodeFrom positions layout.offsets emitter.instructions.toList 0 layout.branches #[]
  return {
    version := formatVersion
    bytes
    locals := emitter.locals.map Ty.code
    strings := emitter.strings.entries
    types := emitter.types.entries
    functions := emitter.functions.entries
    branches := layout.branches }

end Emitter

end ExprCode
