import ExprCode.Opcode
import ExprCode.Ty
import ExprCode.Decimal.Text

/-! # Instructions

An instruction before it is encoded: an opcode with an operand, in which branches name labels and
not yet displacements. -/

namespace ExprCode

/-- A place in the code, named before it is known; labels are numbered from zero. -/
abbrev Label := Nat

/-- Name of a label in listings. -/
def labelText (label : Label) : String := "L" ++ toString label

/-- An operand before it is encoded. -/
inductive Operand where
  | none
  | i8 (n : Int8)
  | u8 (n : UInt8)
  | u16 (n : UInt16)
  | i32 (n : Int32)
  | i64 (n : Int64)
  | f32 (x : Single)
  | f64 (x : Double)
  | typeCode (code : TypeCode)
  | token (n : UInt16)
  | label (target : Label)
  deriving DecidableEq

namespace Operand

/-- Whether an opcode that takes operands of the given kind takes this one. -/
def fits : Operand → OperandKind → Bool
  | none, .none | i8 _, .i8 | u8 _, .u8 | u16 _, .u16 | i32 _, .i32 | i64 _, .i64 | f32 _, .f32
  | f64 _, .f64 | typeCode _, .typeCode | token _, .token | label _, .target8
  | label _, .target32 => true
  | _, _ => false

/-- Text after the mnemonic, with the blank that separates them. -/
def text : Operand → String
  | none => ""
  | i8 n => " " ++ toString n.toInt
  | u8 n => " " ++ toString n.toNat
  | u16 n => " " ++ toString n.toNat
  | i32 n => " " ++ toString n.toInt
  | i64 n => " " ++ toString n.toInt
  | f32 x => " " ++ x.render .plain
  | f64 x => " " ++ x.render .plain
  | typeCode code => " " ++ code.text
  | token n => " #" ++ toString n.toNat
  | label target => " " ++ labelText target

/-- Text that also tells the kind, for reports of a misplaced operand. -/
def description : Operand → String
  | none => "None"
  | i8 n => "I8(" ++ toString n.toInt ++ ")"
  | u8 n => "U8(" ++ toString n.toNat ++ ")"
  | u16 n => "U16(" ++ toString n.toNat ++ ")"
  | i32 n => "I32(" ++ toString n.toInt ++ ")"
  | i64 n => "I64(" ++ toString n.toInt ++ ")"
  | f32 x => "F32(" ++ x.render .marked ++ ")"
  | f64 x => "F64(" ++ x.render .marked ++ ")"
  | typeCode code => "TypeCode(" ++ code.name ++ ")"
  | token n => "Token(" ++ toString n.toNat ++ ")"
  | label target => "Label(Label(" ++ toString target ++ "))"

end Operand

/-- An opcode with its operand. -/
structure Instruction where
  /-- What to do. -/
  op : Opcode
  /-- With what. -/
  operand : Operand := .none
  deriving DecidableEq

namespace Instruction

/-- The label that the instruction names. -/
def target? (instruction : Instruction) : Option Label :=
  match instruction.operand with
  | .label label => some label
  | _ => none

/-- Bytes that the instruction takes, a branch taking the given form. -/
def encodedLength (instruction : Instruction) (form : BranchForm) : Nat :=
  (instruction.op.withForm form).encodedLength

/-- The local that the instruction refers to. -/
def localIndex? (instruction : Instruction) : Option Nat :=
  match instruction.op, instruction.operand with
  | .ldlocAt slot, _ | .stlocAt slot, _ => some slot.val
  | .ldlocS, .u8 index | .stlocS, .u8 index | .ldlocaS, .u8 index => some index.toNat
  | .ldloc, .u16 index | .stloc, .u16 index | .ldloca, .u16 index => some index.toNat
  | _, _ => none

/-- The instruction as listings before encoding write it. -/
def text (instruction : Instruction) : String :=
  instruction.op.mnemonic ++ instruction.operand.text

end Instruction

end ExprCode
