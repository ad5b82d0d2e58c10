import ExprCode.Action
import ExprCode.Value.Arithmetic

/-! # The machine

A stack machine for code. Locals start with the default value of their kind, arguments are given by
the host, and every malformed situation ends the run with an error. One step decodes one instruction
and performs its action; a run repeats steps up to a limit. -/

namespace ExprCode

/-- The state of a run. -/
structure Machine where
  /-- Offset of the next instruction. -/
  pc : Nat
  /-- The operand stack, top first. -/
  stack : List Value
  /-- The locals. -/
  locals : Array Value
  /-- The arrays. -/
  heap : Heap
  /-- The host calls made so far, first to last. -/
  calls : Array HostCall

/-- What does not change during a run. -/
structure Program where
  /-- The code. -/
  code : Code
  /-- The arguments. -/
  arguments : Array Value
  /-- The host. -/
  host : Host

namespace Machine

/-- An operation of the machine, which changes the state and may end the run. -/
abbrev Operation := EStateM RuntimeError Machine

/-- End the run because the code is malformed. -/
def fault {α : Type} (fault : Fault) : Operation α := throw (.invalidProgram fault)

/-- A value that must be there. -/
def require {α : Type} (fault : Fault) : Option α → Operation α
  | some value => pure value
  | none => Machine.fault fault

/-- The result of a function on values. -/
def ofExcept {α : Type} : Except RuntimeError α → Operation α
  | .ok value => pure value
  | .error error => throw error

/-- Push a value. -/
def push (value : Value) : Operation Unit :=
  modify fun machine => { machine with stack := value :: machine.stack }

/-- Pop the top of the stack. -/
def pop : Operation Value := do
  match (← get).stack with
  | value :: rest =>
      modify fun machine => { machine with stack := rest }
      return value
  | [] => fault .stackUnderflow

/-- Pop a truth value. -/
def popBool : Operation Bool := do
  require .expectedBoolean (← pop).bool?

/-- Pop an Int32. -/
def popInt32 : Operation Int := do
  require .expectedInt32 ((← pop).int? .i32)

/-- Pop an array. -/
def popArray : Operation ArrayRef := do
  match ← pop with
  | .array array => return array
  | .null => throw .nullReference
  | _ => fault .expectedArray

/-- Pop an index of any integer type and an array which has an element there. An index beyond the
range of Int64 is reported as the greatest Int64. -/
def popElement : Operation (ArrayRef × Nat) := do
  let index ← require .expectedIntegerIndex (← pop).integer?
  let array ← popArray
  let length := (← get).heap.length array
  if 0 ≤ index ∧ index.toNat < length then return (array, index.toNat)
  else throw (.indexOutOfBounds (min index IntType.i64.maxValue) length)

/-- The value of a local. -/
def localValue (slot : Nat) : Operation Value := do
  require .localOutOfRange (← get).locals[slot]?

/-- The entry of a table that a token refers to. -/
def entry {α : Type} (table : Array α) (token : Nat) : Operation α :=
  require .tokenOutOfRange table[token]?

/-- Continue at a displacement from the next instruction. -/
def jump (displacement : Int) : Operation Unit := do
  let target := (← get).pc + displacement
  if target < 0 then fault .branchBeforeStart
  else modify fun machine => { machine with pc := target.toNat }

/-- Read the value at an address. -/
def dereference : Operation Value := do
  match ← pop with
  | .localAddress slot => localValue slot
  | .elementAddress array index =>
      let heap := (← get).heap
      match (heap.items array)[index]? with
      | some value => return value
      | none => throw (.indexOutOfBounds index (heap.length array))
  | .null => throw .nullReference
  | _ => fault .expectedAddress

/-- Store into a local. -/
def storeLocal (slot : Nat) : Operation Unit := do
  let value ← pop
  if slot < (← get).locals.size then
    modify fun machine => { machine with locals := machine.locals.setIfInBounds slot value }
  else fault .localOutOfRange

/-- The value that an array with elements of the given kind keeps when a value is stored: numbers
are converted, anything else is kept as it is. -/
def elementValue (element : TypeCode) (value : Value) : Operation Value :=
  if element.isNumeric then require .invalidElementStore (value.convert? element) else pure value

/-- Store into an array. -/
def storeElement : Operation Unit := do
  let value ← pop
  let (array, index) ← popElement
  let stored ← elementValue array.element value
  modify fun machine => { machine with heap := machine.heap.store array index stored }

/-- Make an array. -/
def newArray (element : TypeCode) : Operation Unit := do
  let length ← popInt32
  if length < 0 then throw (.negativeArrayLength length)
  else
    let (array, heap) := (← get).heap.allocDefault element length.toNat
    modify fun machine => { machine with heap }
    push (.array array)

/-- Call a host function with arguments from the stack. -/
def callFunction (host : Host) (function : FunctionEntry) : Operation Unit := do
  let machine ← get
  if machine.stack.length < function.arity then fault .stackUnderflow
  else
    let arguments := (machine.stack.take function.arity).reverse
    let (result, heap) := host.call function.function arguments machine.heap
    set { machine with
      stack := machine.stack.drop function.arity
      heap
      calls := machine.calls.push ⟨function.function, arguments, machine.heap⟩ }
    push (← ofExcept result)

/-- Whether a branch is taken; a condition is popped. -/
def taken : BranchCondition → Operation Bool
  | .always => pure true
  | .ifTrue => popBool
  | .ifFalse => do return !(← popBool)

/-- Perform the action of an instruction. The answer is the value returned, if any. -/
def perform (program : Program) : Action → Operation (Option Value)
  | .halt => fault .reachedHalt
  | .nop => return none
  | .ret => do return some (← pop)
  | .dup => do
      let value ← require .stackUnderflow (← get).stack.head?
      push value
      return none
  | .pop => do
      let _ ← pop
      return none
  | .push value => do
      push value
      return none
  | .pushString token => do
      push (.str (← entry program.code.strings token))
      return none
  | .loadLocal slot => do
      push (← localValue slot)
      return none
  | .storeLocal slot => do
      storeLocal slot
      return none
  | .loadLocalAddress slot => do
      if slot < (← get).locals.size then push (.localAddress slot) else fault .localOutOfRange
      return none
  | .loadArgument index => do
      push (← require .argumentOutOfRange program.arguments[index]?)
      return none
  | .dereference => do
      push (← dereference)
      return none
  | .binary function => do
      let right ← pop
      let left ← pop
      push (← ofExcept (left.binary function right))
      return none
  | .negate => do
      push (← ofExcept (← pop).negate)
      return none
  | .complement => do
      push (← ofExcept (← pop).complement)
      return none
  | .shift direction => do
      let count ← popInt32
      push (← ofExcept ((← pop).shift direction (.ofInt count)))
      return none
  | .compare relation => do
      let right ← pop
      let left ← pop
      push (.bool (relation.holds (← ofExcept (left.compare right))))
      return none
  | .convert typeByte => do
      let code ← require .unknownTypeCode (TypeCode.ofByte? typeByte)
      push (← require .invalidConversion ((← pop).convert? code))
      return none
  | .branch condition displacement => do
      if ← taken condition then jump displacement
      return none
  | .newArray token => do
      newArray (← entry program.code.types token).code
      return none
  | .length => do
      let array ← popArray
      push (.i32 ((← get).heap.length array))
      return none
  | .loadElement => do
      let (array, index) ← popElement
      push (((← get).heap.items array).getD index .null)
      return none
  | .elementAddress token => do
      let _ ← entry program.code.types token
      let (array, index) ← popElement
      push (.elementAddress array index)
      return none
  | .storeElement => do
      storeElement
      return none
  | .call token => do
      callFunction program.host (← entry program.code.functions token)
      return none

/-- Decode and perform the next instruction. -/
def step (program : Program) : Operation (Option Value) := do
  match program.code.decodeAt? (← get).pc with
  | none => fault .undecodable
  | some decoded =>
      modify fun machine => { machine with pc := decoded.next }
      perform program (.read decoded.op decoded.immediate)

/-- The state before the first step. -/
def initial (code : Code) (heap : Heap) : Machine where
  pc := 0
  stack := []
  locals := code.locals.map Value.default
  heap := heap
  calls := #[]

/-- How a run ended: with a value or an error, and the state then. -/
structure Outcome where
  /-- The value or the error. -/
  result : Except RuntimeError Value
  /-- The heap at the end. -/
  heap : Heap
  /-- The host calls made, first to last. -/
  calls : Array HostCall

/-- Run for at most `limit` steps; none if the run has not ended then. -/
def run (program : Program) : (limit : Nat) → Machine → Option Outcome
  | 0, _ => none
  | limit + 1, machine =>
      match (step program).run machine with
      | .ok none machine => run program limit machine
      | .ok (some value) machine => some ⟨.ok value, machine.heap, machine.calls⟩
      | .error error machine => some ⟨.error error, machine.heap, machine.calls⟩

/-- Execute code of the right version from its start, for at most `limit` steps. -/
def execute (limit : Nat) (program : Program) (heap : Heap) : Option Outcome :=
  if program.code.version = formatVersion then run program limit (initial program.code heap)
  else some ⟨.error (.versionMismatch program.code.version formatVersion), heap, #[]⟩

end Machine

end ExprCode
