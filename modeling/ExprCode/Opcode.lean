/-! # Opcodes

The instruction set of the machine: which opcodes exist, their bytes, their mnemonics and the shape
of the immediate operand that follows each of them. Opcodes of one family (arithmetic, comparison,
branches, element access) are one constructor with a parameter. -/

namespace ExprCode

/-- Shape of the immediate operand of an opcode. -/
inductive OperandKind where
  | none | i8 | u8 | u16 | i32 | i64 | f32 | f64
  /-- A type code in one byte. -/
  | typeCode
  /-- An index into one of the tables of the code. -/
  | token
  /-- A branch displacement in one byte. -/
  | target8
  /-- A branch displacement in four bytes. -/
  | target32
  deriving DecidableEq

namespace OperandKind

/-- Bytes that the immediate takes. -/
def size : OperandKind → Nat
  | none => 0
  | i8 | u8 | typeCode | target8 => 1
  | u16 | token => 2
  | i32 | f32 | target32 => 4
  | i64 | f64 => 8

/-- Name of the kind. -/
def name : OperandKind → String
  | none => "None"
  | i8 => "I8"
  | u8 => "U8"
  | u16 => "U16"
  | i32 => "I32"
  | i64 => "I64"
  | f32 => "F32"
  | f64 => "F64"
  | typeCode => "TypeCode"
  | token => "Token"
  | target8 => "Target8"
  | target32 => "Target32"

end OperandKind

/-- Functions of two operands of one type. -/
inductive BinaryFunction where
  | add | sub | mul | div | rem | pow | and | or | xor
  deriving DecidableEq

/-- Direction of a shift. -/
inductive ShiftDirection where
  | left | right
  deriving DecidableEq

/-- Relations between two values of one type. -/
inductive Relation where
  | eq | ne | lt | gt | le | ge
  deriving DecidableEq

/-- When a branch is taken. -/
inductive BranchCondition where
  | always | ifTrue | ifFalse
  deriving DecidableEq

/-- Width of a branch displacement. -/
inductive BranchForm where
  | short | long
  deriving DecidableEq

/-- The kind of element that a load from an array names. -/
inductive ElementLoad where
  | i1 | u1 | i2 | u2 | i4 | u4 | i8 | r4 | r8 | ref
  deriving DecidableEq

/-- The kind of element that a store into an array names. -/
inductive ElementStore where
  | i1 | i2 | i4 | i8 | r4 | r8 | ref
  deriving DecidableEq

/-- An instruction without its operand. -/
inductive Opcode where
  /-- Stop; no finished code reaches it. -/
  | halt
  /-- Do nothing. -/
  | nop
  /-- Return the top of the stack. -/
  | ret
  /-- Push the top of the stack again. -/
  | dup
  /-- Drop the top of the stack. -/
  | pop
  /-- Push a truth value or the null reference. -/
  | ldtrue | ldfalse | ldnull
  /-- Push a number, from one byte, four or eight. -/
  | ldcI4S | ldcI4 | ldcI8 | ldcR4 | ldcR8
  /-- Push a string of the string table. -/
  | ldstr
  /-- Push one of the first four locals. -/
  | ldlocAt (slot : Fin 4)
  /-- Store into one of the first four locals. -/
  | stlocAt (slot : Fin 4)
  /-- Access a local by a one-byte index. -/
  | ldlocS | stlocS | ldlocaS
  /-- Access a local by a two-byte index. -/
  | ldloc | stloc | ldloca
  /-- Push an argument. -/
  | ldarg
  /-- Replace an address by the value there. -/
  | ldobj
  /-- Apply a function of two operands. -/
  | binary (function : BinaryFunction)
  /-- Negate a number. -/
  | neg
  /-- Complement a truth value or the bits of an integer. -/
  | not
  /-- Shift an integer by an Int32 count. -/
  | shift (direction : ShiftDirection)
  /-- Compare two values. -/
  | compare (relation : Relation)
  /-- Convert a number to the type of the operand. -/
  | conv
  /-- Continue elsewhere. -/
  | branch (condition : BranchCondition) (form : BranchForm)
  /-- Make an array of a length. -/
  | newarr
  /-- Length of an array. -/
  | ldlen
  /-- Load an element. -/
  | ldelem (kind : ElementLoad)
  /-- Address of an element. -/
  | ldelema
  /-- Store an element. -/
  | stelemAt (kind : ElementStore)
  /-- Store an element of a named type. -/
  | stelem
  /-- Call a host function of the function table. -/
  | call
  deriving DecidableEq

namespace Opcode

/-- The byte that stands for an opcode. -/
def toByte : Opcode → UInt8
  | halt => 0x00
  | nop => 0x01
  | ret => 0x02
  | dup => 0x03
  | pop => 0x04
  | ldtrue => 0x10
  | ldfalse => 0x11
  | ldnull => 0x12
  | ldcI4S => 0x13
  | ldcI4 => 0x14
  | ldcI8 => 0x15
  | ldcR4 => 0x16
  | ldcR8 => 0x17
  | ldstr => 0x18
  | ldlocAt slot => 0x20 + .ofNat slot
  | stlocAt slot => 0x24 + .ofNat slot
  | ldlocS => 0x28
  | stlocS => 0x29
  | ldlocaS => 0x2A
  | ldloc => 0x2B
  | stloc => 0x2C
  | ldloca => 0x2D
  | ldarg => 0x2E
  | ldobj => 0x2F
  | binary .add => 0x30
  | binary .sub => 0x31
  | binary .mul => 0x32
  | binary .div => 0x33
  | binary .rem => 0x34
  | binary .pow => 0x35
  | neg => 0x36
  | binary .and => 0x37
  | binary .or => 0x38
  | binary .xor => 0x39
  | not => 0x3A
  | shift .left => 0x3B
  | shift .right => 0x3C
  | compare .eq => 0x40
  | compare .ne => 0x41
  | compare .lt => 0x42
  | compare .gt => 0x43
  | compare .le => 0x44
  | compare .ge => 0x45
  | conv => 0x48
  | branch .always .short => 0x50
  | branch .ifTrue .short => 0x51
  | branch .ifFalse .short => 0x52
  | branch .always .long => 0x53
  | branch .ifTrue .long => 0x54
  | branch .ifFalse .long => 0x55
  | newarr => 0x60
  | ldlen => 0x61
  | ldelem .i1 => 0x62
  | ldelem .u1 => 0x63
  | ldelem .i2 => 0x64
  | ldelem .u2 => 0x65
  | ldelem .i4 => 0x66
  | ldelem .u4 => 0x67
  | ldelem .i8 => 0x68
  | ldelem .r4 => 0x69
  | ldelem .r8 => 0x6A
  | ldelem .ref => 0x6B
  | ldelema => 0x6C
  | stelemAt .i1 => 0x70
  | stelemAt .i2 => 0x71
  | stelemAt .i4 => 0x72
  | stelemAt .i8 => 0x73
  | stelemAt .r4 => 0x74
  | stelemAt .r8 => 0x75
  | stelemAt .ref => 0x76
  | stelem => 0x77
  | call => 0x80

/-- Every opcode, in the order of their bytes. -/
def all : List Opcode :=
  [halt, nop, ret, dup, pop,
    ldtrue, ldfalse, ldnull, ldcI4S, ldcI4, ldcI8, ldcR4, ldcR8, ldstr,
    ldlocAt 0, ldlocAt 1, ldlocAt 2, ldlocAt 3, stlocAt 0, stlocAt 1, stlocAt 2, stlocAt 3,
    ldlocS, stlocS, ldlocaS, ldloc, stloc, ldloca, ldarg, ldobj,
    binary .add, binary .sub, binary .mul, binary .div, binary .rem, binary .pow, neg,
    binary .and, binary .or, binary .xor, not, shift .left, shift .right,
    compare .eq, compare .ne, compare .lt, compare .gt, compare .le, compare .ge, conv,
    branch .always .short, branch .ifTrue .short, branch .ifFalse .short,
    branch .always .long, branch .ifTrue .long, branch .ifFalse .long,
    newarr, ldlen, ldelem .i1, ldelem .u1, ldelem .i2, ldelem .u2, ldelem .i4, ldelem .u4,
    ldelem .i8, ldelem .r4, ldelem .r8, ldelem .ref, ldelema,
    stelemAt .i1, stelemAt .i2, stelemAt .i4, stelemAt .i8, stelemAt .r4, stelemAt .r8,
    stelemAt .ref, stelem, call]

/-- The opcode that a byte stands for. -/
def ofByte? (byte : UInt8) : Option Opcode := all.find? fun op => op.toByte == byte

/-- Every opcode is read back from its byte. -/
@[simp] theorem ofByte?_toByte (op : Opcode) : ofByte? op.toByte = some op := by
  cases op with
  | ldlocAt slot | stlocAt slot => revert slot; decide
  | binary function => cases function <;> rfl
  | shift direction => cases direction <;> rfl
  | compare relation => cases relation <;> rfl
  | branch condition form => cases condition <;> cases form <;> rfl
  | ldelem kind | stelemAt kind => cases kind <;> rfl
  | _ => rfl

/-- Name of an opcode in listings. -/
def mnemonic : Opcode → String
  | halt => "halt"
  | nop => "nop"
  | ret => "ret"
  | dup => "dup"
  | pop => "pop"
  | ldtrue => "ldtrue"
  | ldfalse => "ldfalse"
  | ldnull => "ldnull"
  | ldcI4S => "ldc.i4.s"
  | ldcI4 => "ldc.i4"
  | ldcI8 => "ldc.i8"
  | ldcR4 => "ldc.r4"
  | ldcR8 => "ldc.r8"
  | ldstr => "ldstr"
  | ldlocAt slot => "ldloc." ++ toString slot.val
  | stlocAt slot => "stloc." ++ toString slot.val
  | ldlocS => "ldloc.s"
  | stlocS => "stloc.s"
  | ldlocaS => "ldloca.s"
  | ldloc => "ldloc"
  | stloc => "stloc"
  | ldloca => "ldloca"
  | ldarg => "ldarg"
  | ldobj => "ldobj"
  | binary .add => "add"
  | binary .sub => "sub"
  | binary .mul => "mul"
  | binary .div => "div"
  | binary .rem => "rem"
  | binary .pow => "pow"
  | neg => "neg"
  | binary .and => "and"
  | binary .or => "or"
  | binary .xor => "xor"
  | not => "not"
  | shift .left => "shl"
  | shift .right => "shr"
  | compare .eq => "ceq"
  | compare .ne => "cne"
  | compare .lt => "clt"
  | compare .gt => "cgt"
  | compare .le => "cle"
  | compare .ge => "cge"
  | conv => "conv"
  | branch .always .short => "br.s"
  | branch .ifTrue .short => "brtrue.s"
  | branch .ifFalse .short => "brfalse.s"
  | branch .always .long => "br"
  | branch .ifTrue .long => "brtrue"
  | branch .ifFalse .long => "brfalse"
  | newarr => "newarr"
  | ldlen => "ldlen"
  | ldelem .i1 => "ldelem.i1"
  | ldelem .u1 => "ldelem.u1"
  | ldelem .i2 => "ldelem.i2"
  | ldelem .u2 => "ldelem.u2"
  | ldelem .i4 => "ldelem.i4"
  | ldelem .u4 => "ldelem.u4"
  | ldelem .i8 => "ldelem.i8"
  | ldelem .r4 => "ldelem.r4"
  | ldelem .r8 => "ldelem.r8"
  | ldelem .ref => "ldelem.ref"
  | ldelema => "ldelema"
  | stelemAt .i1 => "stelem.i1"
  | stelemAt .i2 => "stelem.i2"
  | stelemAt .i4 => "stelem.i4"
  | stelemAt .i8 => "stelem.i8"
  | stelemAt .r4 => "stelem.r4"
  | stelemAt .r8 => "stelem.r8"
  | stelemAt .ref => "stelem.ref"
  | stelem => "stelem"
  | call => "call"

/-- The opcode with a given mnemonic. -/
def ofMnemonic? (text : String) : Option Opcode := all.find? fun op => op.mnemonic == text

/-- The kind of operand that an opcode takes. -/
def operandKind : Opcode → OperandKind
  | ldcI4S => .i8
  | ldcI4 => .i32
  | ldcI8 => .i64
  | ldcR4 => .f32
  | ldcR8 => .f64
  | ldlocS | stlocS | ldlocaS => .u8
  | ldloc | stloc | ldloca | ldarg => .u16
  | ldstr | ldobj | newarr | ldelema | stelem | call => .token
  | conv => .typeCode
  | branch _ .short => .target8
  | branch _ .long => .target32
  | _ => .none

/-- Bytes that the opcode and its operand take. -/
def encodedLength (op : Opcode) : Nat := 1 + op.operandKind.size

/-- A branch opcode in the given form; other opcodes have one form only. -/
def withForm (form : BranchForm) : Opcode → Opcode
  | branch condition _ => branch condition form
  | op => op

/-- The opcodes of a branch, by its form. -/
def branchForms? : Opcode → Option (BranchForm → Opcode)
  | branch condition _ => some (branch condition)
  | _ => none

/-- Whether the opcode is a branch. -/
def isBranch : Opcode → Bool
  | branch _ _ => true
  | _ => false

end Opcode

end ExprCode
