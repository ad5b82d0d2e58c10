import ExprCode.Emitter

/-! # Commands

The operations on an emitter as data. -/

namespace ExprCode

namespace Emitter

/-- An operation on one emitter. -/
inductive Command where
  /-- Append an instruction. -/
  | emit (instruction : Instruction)
  /-- Append a branch. -/
  | branch (op : Opcode) (target : Label)
  /-- Define a label. -/
  | defineLabel
  /-- Let a label mark the next instruction. -/
  | markLabel (label : Label)
  /-- Declare a local. -/
  | declareLocal (type : Ty)
  /-- Append a store into a local. -/
  | storeLocal (slot : Nat)
  /-- Append a load of a local. -/
  | loadLocal (slot : Nat)
  /-- Append a load of the address of a local. -/
  | loadLocalAddress (slot : Nat)
  /-- Append a constant. -/
  | loadBool (value : Bool)
  /-- Append a constant. -/
  | loadInt32 (value : Int32)
  /-- Append a constant. -/
  | loadInt64 (value : Int64)
  /-- Append a constant. -/
  | loadSingle (value : Single)
  /-- Append a constant. -/
  | loadDouble (value : Double)
  /-- Append a constant. -/
  | loadString (value : String)
  /-- Append the making of an array. -/
  | newArray (element : Ty)
  /-- Append the load of an element. -/
  | arrayLoad (element : Ty)
  /-- Append the store of an element. -/
  | arrayStore (element : Ty)
  /-- Append a call. -/
  | call (name : String) (arity : Nat) (function : Handle)
  /-- Define labels until there are as many as given. -/
  | extendLabels (count : Nat)

/-- An operation without an answer. -/
def silent (operation : Emit Unit) : Emit (Option Nat) := do
  operation
  return none

/-- An operation that answers a number. -/
def answering (operation : Emit Nat) : Emit (Option Nat) := do
  return some (← operation)

/-- Perform an operation. The answer is the number of the branch, label or local that was made. -/
def Command.perform : Command → Emit (Option Nat)
  | .emit instruction => silent (Emitter.emit instruction)
  | .branch op target => answering (emitBranch op target)
  | .defineLabel => answering Emitter.defineLabel
  | .markLabel label => silent (Emitter.markLabel label)
  | .declareLocal type => answering (Emitter.declareLocal type)
  | .storeLocal slot => silent (emitStoreLocal slot)
  | .loadLocal slot => silent (emitLoadLocal slot)
  | .loadLocalAddress slot => silent (emitLoadLocalAddress slot)
  | .loadBool value => silent (emitLoadBool value)
  | .loadInt32 value => silent (emitLoadInt32 value)
  | .loadInt64 value => silent (emitLoadInt64 value)
  | .loadSingle value => silent (emitLoadSingle value)
  | .loadDouble value => silent (emitLoadDouble value)
  | .loadString value => silent (emitLoadString value)
  | .newArray element => silent (emitNewArray element)
  | .arrayLoad element => silent (emitArrayLoad element)
  | .arrayStore element => silent (emitArrayStore element)
  | .call name arity function => silent (emitCall name arity function)
  | .extendLabels count => silent (modify (·.extendLabels count))

/-- Perform operations one after the other, up to the first that reports a defect. The answer is
that of the last one. -/
def performAll (commands : List Command) : Emit (Option Nat) :=
  commands.foldlM (fun _ command => command.perform) none

end Emitter

end ExprCode
