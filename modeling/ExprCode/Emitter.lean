import ExprCode.Code
import ExprCode.Defect
import ExprCode.Emitter.Table
import ExprCode.Ty.Order

/-! # The emitter

Collects the instructions of one piece of code, with the labels that branches name, the locals, and
the tables that instructions refer to. Every operation either changes the emitter or reports a
defect.

Parallel paths are emitted into *forks*: a fork starts without instructions, knows the locals and
tables of its parent, and is later spliced behind the instructions of the parent, which must not
have grown since. -/

namespace ExprCode

/-- Greatest number of locals that instructions can number. -/
def maxSlots : Nat := 65536

/-- How far an emitter had grown when it was forked. -/
structure ForkPoint where
  /-- Number of instructions. -/
  instructions : Nat
  /-- Number of locals. -/
  locals : Nat
  /-- Number of strings. -/
  strings : Nat
  /-- Number of types. -/
  types : Nat
  /-- Number of functions. -/
  functions : Nat
  deriving DecidableEq

/-- Code in the making. -/
structure Emitter where
  /-- The instructions so far. -/
  instructions : Array Instruction := #[]
  /-- For every label the index of the instruction that it marks, once it is marked. -/
  labels : Array (Option Nat) := #[]
  /-- Types of the locals. -/
  locals : Array Ty := #[]
  /-- Greatest number of locals allowed. -/
  maxLocals : Nat := maxSlots
  /-- Length of the code if all branches were short. -/
  offset : Nat := 0
  /-- String table. -/
  strings : Table (id : String → String) := .empty
  /-- Type table. -/
  types : Table (id : Ty → Ty) := .empty
  /-- Function table. -/
  functions : Table FunctionEntry.key := .empty
  /-- Size of the parent when this emitter was forked from it. -/
  forkedFrom : Option ForkPoint := none

/-- An operation on an emitter. -/
abbrev Emit := EStateM Defect Emitter

namespace Emitter

/-- The emitter without instructions, with a limit on its locals. -/
def withMaxLocals (maxLocals : Nat) : Emitter := { maxLocals := min maxLocals maxSlots }

/-! ## Instructions -/

/-- Why an instruction cannot be appended. -/
def refusal? (emitter : Emitter) (instruction : Instruction) : Option Defect :=
  if instruction.operand.fits instruction.op.operandKind then
    match instruction.localIndex?.filter (emitter.locals.size ≤ ·) with
    | some slot => some (.unallocatedLocal slot)
    | none => (instruction.target?.filter (emitter.labels.size ≤ ·)).map .unknownLabel
  else some (.operandMismatch instruction.op instruction.operand)

/-- The emitter with one more instruction. -/
def append (emitter : Emitter) (instruction : Instruction) : Emitter :=
  { emitter with
    instructions := emitter.instructions.push instruction
    offset := emitter.offset + instruction.encodedLength .short }

/-- Append an instruction. Its operand must be of the right kind, and the local or label that it
names must exist. -/
def emit (instruction : Instruction) : Emit Unit := do
  match (← get).refusal? instruction with
  | some defect => throw defect
  | none => modify (·.append instruction)

/-- Append an instruction without an operand. -/
def emitOp (op : Opcode) : Emit Unit := emit ⟨op, .none⟩

/-- Append a branch to a label; the answer is the index of the instruction. -/
def emitBranch (op : Opcode) (target : Label) : Emit Nat := do
  if op.isBranch then
    emit ⟨op.withForm .long, .label target⟩
    return (← get).instructions.size - 1
  else throw (.operandMismatch op (.label target))

/-! ## Labels -/

/-- Define a label that marks nothing yet. -/
def defineLabel : Emit Label := do
  let label := (← get).labels.size
  modify fun emitter => { emitter with labels := emitter.labels.push none }
  return label

/-- Let a label mark an instruction index. -/
def markLabelAt (label : Label) (position : Nat) : Emit Unit := do
  match (← get).labels[label]? with
  | none => throw (.unknownLabel label)
  | some (some _) => throw (.labelAlreadyMarked label)
  | some none =>
      modify fun emitter =>
        { emitter with labels := emitter.labels.setIfInBounds label (some position) }

/-- Let a label mark the next instruction. -/
def markLabel (label : Label) : Emit Unit := do
  markLabelAt label (← get).instructions.size

/-- The instruction index that a label marks. -/
def labelPosition? (emitter : Emitter) (label : Label) : Option Nat :=
  (emitter.labels[label]?).join

/-- The emitter with labels defined until there are as many as asked for. -/
def extendLabels (emitter : Emitter) (count : Nat) : Emitter :=
  { emitter with
    labels := emitter.labels ++ Array.replicate (count - emitter.labels.size) none }

/-! ## Locals -/

/-- Declare a local. -/
def declareLocal (type : Ty) : Emit Nat := do
  let emitter ← get
  let slot := emitter.locals.size
  if emitter.maxLocals ≤ slot then throw (.tooManyLocals emitter.maxLocals)
  else
    modify fun emitter => { emitter with locals := emitter.locals.push type }
    return slot

/-- The access to a local by the shortest instruction: by an opcode of its own for the first four,
by one byte, or by two. -/
def localAccess (slot : Nat) (fixed : Fin 4 → Opcode) (near far : Opcode) :
    Except Defect Instruction :=
  if h : slot < 4 then .ok ⟨fixed ⟨slot, h⟩, .none⟩
  else if slot < 256 then .ok ⟨near, .u8 (.ofNat slot)⟩
  else if slot < maxSlots then .ok ⟨far, .u16 (.ofNat slot)⟩
  else .error (.localOutOfRange slot)

/-- The address of a local, by one byte or by two. -/
def localAddress (slot : Nat) : Except Defect Instruction :=
  if slot < 256 then .ok ⟨.ldlocaS, .u8 (.ofNat slot)⟩
  else if slot < maxSlots then .ok ⟨.ldloca, .u16 (.ofNat slot)⟩
  else .error (.localOutOfRange slot)

/-- Append an instruction, if there is one. -/
def emitChecked : Except Defect Instruction → Emit Unit
  | .ok instruction => emit instruction
  | .error defect => throw defect

/-- Append a store into a local. -/
def emitStoreLocal (slot : Nat) : Emit Unit :=
  emitChecked (localAccess slot .stlocAt .stlocS .stloc)

/-- Append a load of a local. -/
def emitLoadLocal (slot : Nat) : Emit Unit :=
  emitChecked (localAccess slot .ldlocAt .ldlocS .ldloc)

/-- Append a load of the address of a local. -/
def emitLoadLocalAddress (slot : Nat) : Emit Unit :=
  emitChecked (localAddress slot)

/-! ## Constants -/

/-- Append a truth value. -/
def emitLoadBool (value : Bool) : Emit Unit :=
  emitOp (if value then .ldtrue else .ldfalse)

/-- Append an Int32, in one byte if it fits. -/
def emitLoadInt32 (value : Int32) : Emit Unit :=
  if -128 ≤ value ∧ value ≤ 127 then emit ⟨.ldcI4S, .i8 value.toInt8⟩
  else emit ⟨.ldcI4, .i32 value⟩

/-- Append an Int64. -/
def emitLoadInt64 (value : Int64) : Emit Unit := emit ⟨.ldcI8, .i64 value⟩

/-- Append a four-byte number. -/
def emitLoadSingle (value : Single) : Emit Unit := emit ⟨.ldcR4, .f32 value⟩

/-- Append an eight-byte number. -/
def emitLoadDouble (value : Double) : Emit Unit := emit ⟨.ldcR8, .f64 value⟩

/-! ## Tables -/

/-- The token of a string. The table is taken out of the emitter while it is changed. -/
def stringToken (value : String) : Emit UInt16 := do
  let table ← modifyGet fun emitter => (emitter.strings, { emitter with strings := .empty })
  let (number?, strings) := table.intern value
  modify fun emitter => { emitter with strings }
  match number? with
  | some number => return .ofNat number
  | none => throw (.tableOverflow .strings)

/-- The token of a type. The table is taken out of the emitter while it is changed. -/
def typeToken (type : Ty) : Emit UInt16 := do
  let table ← modifyGet fun emitter => (emitter.types, { emitter with types := .empty })
  let (number?, types) := table.intern type
  modify fun emitter => { emitter with types }
  match number? with
  | some number => return .ofNat number
  | none => throw (.tableOverflow .types)

/-- The token of a function. An entry with the same name and handle is used again, whatever its
arity. The table is taken out of the emitter while it is changed. -/
def functionToken (name : String) (arity : Nat) (function : Handle) : Emit UInt16 := do
  let table ← modifyGet fun emitter => (emitter.functions, { emitter with functions := .empty })
  let isNew := (table.find? ⟨name, function⟩).isNone
  if isNew && table.size < maxEntries && maxEntries ≤ arity then
    modify fun emitter => { emitter with functions := table }
    throw (.tableOverflow .arguments)
  let (number?, functions) := table.intern ⟨name, arity, function⟩
  modify fun emitter => { emitter with functions }
  match number? with
  | some number => return .ofNat number
  | none => throw (.tableOverflow .functions)

/-- Append a string. -/
def emitLoadString (value : String) : Emit Unit := do
  emit ⟨.ldstr, .token (← stringToken value)⟩

/-- Append a call. -/
def emitCall (name : String) (arity : Nat) (function : Handle) : Emit Unit := do
  emit ⟨.call, .token (← functionToken name arity function)⟩

/-! ## Arrays -/

/-- Append the making of an array. -/
def emitNewArray (element : Ty) : Emit Unit := do
  emit ⟨.newarr, .token (← typeToken element)⟩

/-- The load of an element, for types that the machine knows. -/
def loadKind? : Ty → Option ElementLoad
  | .bool | .int .i8 => some .i1
  | .int .u8 => some .u1
  | .int .i16 => some .i2
  | .int .u16 => some .u2
  | .int .i32 => some .i4
  | .int .u32 => some .u4
  | .int .i64 | .int .u64 => some .i8
  | .single => some .r4
  | .double => some .r8
  | .str | .array _ => some .ref
  | .named _ => none

/-- The store of an element, for types that the machine knows. -/
def storeKind? : Ty → Option ElementStore
  | .bool | .int .i8 | .int .u8 => some .i1
  | .int .i16 | .int .u16 => some .i2
  | .int .i32 | .int .u32 => some .i4
  | .int .i64 | .int .u64 => some .i8
  | .single => some .r4
  | .double => some .r8
  | .str | .array _ => some .ref
  | .named _ => none

/-- Append the load of an element. Elements of named types are loaded through their address. -/
def emitArrayLoad (element : Ty) : Emit Unit := do
  match loadKind? element with
  | some kind => emitOp (.ldelem kind)
  | none =>
      let token ← typeToken element
      emit ⟨.ldelema, .token token⟩
      emit ⟨.ldobj, .token token⟩

/-- Append the store of an element. -/
def emitArrayStore (element : Ty) : Emit Unit := do
  match storeKind? element with
  | some kind => emitOp (.stelemAt kind)
  | none => emit ⟨.stelem, .token (← typeToken element)⟩

/-! ## Parallel paths -/

/-- How far the emitter has grown. -/
def forkPoint (emitter : Emitter) : ForkPoint where
  instructions := emitter.instructions.size
  locals := emitter.locals.size
  strings := emitter.strings.size
  types := emitter.types.size
  functions := emitter.functions.size

/-- An emitter for a parallel path. -/
def fork (emitter : Emitter) : Emitter :=
  { emitter with
    instructions := #[]
    labels := Array.replicate emitter.labels.size none
    offset := 0
    forkedFrom := some emitter.forkPoint }

/-- The marked labels with the indices that they mark. -/
def marks (emitter : Emitter) : List (Label × Nat) :=
  emitter.labels.toList.zipIdx.filterMap fun (position, label) => position.map (label, ·)

/-- Append the instructions of a fork and take over its locals, tables and labels. The labels that
the fork marked are marked one after the other before anything else is taken over. -/
def splice (child : Emitter) : Emit Unit := do
  if child.forkedFrom = some (← get).forkPoint then
    modify (·.extendLabels child.labels.size)
    let base := (← get).instructions.size
    child.marks.forM fun (label, position) => markLabelAt label (base + position)
    modify fun emitter =>
      { emitter with
        instructions := emitter.instructions ++ child.instructions
        offset := emitter.offset + child.offset
        locals := child.locals
        strings := child.strings
        types := child.types
        functions := child.functions }
  else throw .staleFork

end Emitter

end ExprCode
