import ExprCode.Proofs.StackEffects

/-! # The bare machine

The machine once more, as an implementation carries it out that reads and computes without a net:
the bytes of an operand, the entries of a table, the elements of an array and the arguments on the
stack are taken by their position, positions are computed with integers of 64 bits, and whatever is
not there, does not fit or cannot be divided is a `Crash`. What the machine looks up by asking first
is taken over as it is (`Bare.guarded`).

Main result: `Bare.execute_eq`. On every code whose offsets fit into 64 bits, well-formed or not,
the bare machine never crashes, and it does what the machine does. -/

namespace ExprCode

/-- What goes wrong when something is used that is not there. -/
inductive Crash where
  /-- A byte, an entry, an element or an argument is taken from behind the last one. -/
  | missing
  /-- The result of an integer operation is not in its type. -/
  | overflow
  /-- An integer is divided by zero. -/
  | zeroDivisor

/-- Why the bare machine stops. -/
inductive Stop where
  /-- By a crash. -/
  | crash (crash : Crash)
  /-- By an error that it reports. -/
  | error (error : RuntimeError)

/-- The range of a 32-bit integer. -/
theorem IntType.inRange_i32_iff {n : Int} : IntType.i32.InRange n ↔ -2 ^ 31 ≤ n ∧ n < 2 ^ 31 := by
  simp only [InRange, minValue, maxValue, signed, bits, ↓reduceIte]
  constructor <;> intro bounds <;> omega

/-- The range of a 64-bit integer. -/
theorem IntType.inRange_i64_iff {n : Int} : IntType.i64.InRange n ↔ -2 ^ 63 ≤ n ∧ n < 2 ^ 63 := by
  simp only [InRange, minValue, maxValue, signed, bits, ↓reduceIte]
  constructor <;> intro bounds <;> omega

/-- Replace an element that is there. -/
def Heap.replace? (heap : Heap) (array : ArrayRef) (index : Nat) (value : Value) : Option Heap :=
  if index < heap.length array then some (heap.store array index value) else none

/-- How many bytes of its operand the machine reads for an opcode. -/
def Opcode.bytesRead : Opcode → Nat
  | ldcI4S | ldlocS | stlocS | ldlocaS | conv | branch _ .short => 1
  | ldstr | ldloc | stloc | ldloca | ldarg | newarr | ldelema | call => 2
  | ldcI4 | ldcR4 | branch _ .long => 4
  | ldcI8 | ldcR8 => 8
  | _ => 0

namespace Bare

/-- An operation of the bare machine. -/
abbrev Operation := EStateM Stop Machine

/-- Use something that should be there. -/
def access {α : Type} (crash : Crash) : Option α → Operation α
  | some value => pure value
  | none => throw (.crash crash)

/-- An operation of the machine that asks before it uses anything. -/
def guarded {α : Type} (operation : Machine.Operation α) : Operation α := fun machine =>
  match operation machine with
  | .ok value after => .ok value after
  | .error error after => .error (.error error) after

/-- The sum of two lengths, which has 64 bits. -/
def sum? (length other : Nat) : Option Nat :=
  if length + other < 2 ^ 64 then some (length + other) else none

/-- The sum of two signed integers of 64 bits. -/
def signedSum? (n m : Int) : Option Int :=
  if IntType.i64.InRange (n + m) then some (n + m) else none

/-- The difference of two lengths. -/
def difference? (length other : Nat) : Option Nat :=
  if other ≤ length then some (length - other) else none

/-- The values before a position and those from it on. -/
def splitOff? {α : Type} (values : List α) (position : Nat) : Option (List α × List α) :=
  if position ≤ values.length then some (values.splitAt position) else none

/-- A quotient or remainder of two words. -/
def divide? (operation : Word → Word → Word) (left right : Word) : Option Word :=
  if right.value = 0 then none else some (operation left right)

/-! ## Instructions -/

/-- Decode the instruction at an offset. -/
def decode (code : Code) (offset : Nat) : Operation Decoded :=
  match code.bytes[offset]?.bind Opcode.ofByte? with
  | none => guarded (Machine.fault .undecodable)
  | some op => do
      let next ← access .overflow (sum? offset op.encodedLength)
      let first ← access .overflow (sum? offset 1)
      if first ≤ next ∧ next ≤ code.bytes.size then
        return ⟨op, (code.bytes.extract first next).toList, next⟩
      else guarded (Machine.fault .undecodable)

/-- The number of a local whose access is an opcode of its own: its distance from the byte of the
first such opcode. -/
def slot? (op : Opcode) (first : UInt8) : Option Nat := difference? op.toByte.toNat first.toNat

/-- The action of an opcode, from the bytes that are read for it. -/
def action (op : Opcode) (immediate : List UInt8) : Operation Action := do
  let (operand, _) ← access .missing (splitOff? immediate op.bytesRead)
  match op with
  | .ldlocAt _ => return .loadLocal (← access .overflow (slot? op 0x20))
  | .stlocAt _ => return .storeLocal (← access .overflow (slot? op 0x24))
  | _ => return .read op operand

/-! ## Actions -/

/-- The entry of a table that a token refers to. -/
def entry {α : Type} (table : Array α) (token : Nat) : Operation α :=
  if token < table.size then access .missing table[token]?
  else guarded (Machine.fault .tokenOutOfRange)

/-- A function of two integers. -/
def apply (function : BinaryFunction) (left right : Word) : Operation Word :=
  match function with
  | .div =>
      if right.value = 0 then guarded (throw .divisionByZero)
      else access .zeroDivisor (divide? Word.div left right)
  | .rem =>
      if right.value = 0 then guarded (throw .divisionByZero)
      else access .zeroDivisor (divide? Word.rem left right)
  | _ => guarded (Machine.ofExcept (left.apply function right))

/-- A function of two operands. -/
def binary (function : BinaryFunction) : Value → Value → Operation Value
  | .int left, .int right =>
      if left.type = right.type then return .int (← apply function left right)
      else guarded (Machine.fault .operandTypesDiffer)
  | left, right => guarded (Machine.ofExcept (left.binary function right))

/-- Continue at a displacement from the next instruction. -/
def jump (displacement : Int) : Operation Unit := do
  let target ← access .overflow (signedSum? (IntType.i64.wrap (← get).pc) displacement)
  if target < 0 then guarded (Machine.fault .branchBeforeStart)
  else modify fun machine => { machine with pc := target.toNat }

/-- Store into an array. -/
def storeElement : Operation Unit := do
  let value ← guarded Machine.pop
  let (array, index) ← guarded Machine.popElement
  let stored ← guarded (Machine.elementValue array.element value)
  let machine ← get
  let heap ← access .missing (machine.heap.replace? array index stored)
  set { machine with heap }

/-- Call a host function with arguments from the stack, which are split off from its bottom up. -/
def callFunction (host : Host) (function : FunctionEntry) : Operation Unit := do
  let machine ← get
  if machine.stack.length < function.arity then guarded (Machine.fault .stackUnderflow)
  else
    let height ← access .overflow (difference? machine.stack.length function.arity)
    let (below, arguments) ← access .missing (splitOff? machine.stack.reverse height)
    let (result, heap) := host.call function.function arguments machine.heap
    set { machine with
      stack := below.reverse
      heap
      calls := machine.calls.push ⟨function.function, arguments, machine.heap⟩ }
    guarded do Machine.push (← Machine.ofExcept result)

/-- Perform an action. -/
def perform (program : Program) : Action → Operation (Option Value)
  | .pushString token => do
      let text ← entry program.code.strings token
      guarded do
        Machine.push (.str text)
        return none
  | .binary function => do
      let right ← guarded Machine.pop
      let left ← guarded Machine.pop
      let result ← binary function left right
      guarded do
        Machine.push result
        return none
  | .branch condition displacement => do
      if ← guarded (Machine.taken condition) then jump displacement
      return none
  | .newArray token => do
      let type ← entry program.code.types token
      guarded do
        Machine.newArray type.code
        return none
  | .loadElement => do
      let (array, index) ← guarded Machine.popElement
      let value ← access .missing ((← get).heap.items array)[index]?
      guarded do
        Machine.push value
        return none
  | .elementAddress token => do
      let _ ← entry program.code.types token
      guarded do
        let (array, index) ← Machine.popElement
        Machine.push (.elementAddress array index)
        return none
  | .storeElement => do
      storeElement
      return none
  | .call token => do
      callFunction program.host (← entry program.code.functions token)
      return none
  | action => guarded (Machine.perform program action)

/-- Decode and perform the next instruction. -/
def step (program : Program) : Operation (Option Value) := do
  let decoded ← decode program.code (← get).pc
  modify fun machine => { machine with pc := decoded.next }
  perform program (← action decoded.op decoded.immediate)

/-- Run for at most `limit` steps; none if the run has not ended then. -/
def run (program : Program) : (limit : Nat) → Machine → Except Crash (Option Machine.Outcome)
  | 0, _ => .ok none
  | limit + 1, machine =>
      match (step program).run machine with
      | .ok none machine => run program limit machine
      | .ok (some value) machine => .ok (some ⟨.ok value, machine.heap, machine.calls⟩)
      | .error (.error error) machine => .ok (some ⟨.error error, machine.heap, machine.calls⟩)
      | .error (.crash crash) _ => .error crash

/-- Execute code of the right version from its start, for at most `limit` steps. -/
def execute (limit : Nat) (program : Program) (heap : Heap) :
    Except Crash (Option Machine.Outcome) :=
  if program.code.version = formatVersion then run program limit (.initial program.code heap)
  else .ok (some ⟨.error (.versionMismatch program.code.version formatVersion), heap, #[]⟩)

/-! ## Guarded operations -/

section Guarded

variable {α β : Type}

/-- A read is guarded. -/
theorem get_eq : (get : Operation Machine) = guarded get := rfl

/-- What is there can be used. -/
theorem access_some (crash : Crash) (value : α) : access crash (some value) = pure value := rfl

/-- Sequences agree if their first parts do and the rest does wherever the first part succeeds. -/
theorem guarded_bind {operation : Machine.Operation α} {next : α → Machine.Operation β}
    {first : Operation α} {rest : α → Operation β} {machine : Machine}
    (same : first machine = guarded operation machine)
    (agrees : ∀ value after, operation machine = .ok value after →
      rest value after = guarded (next value) after) :
    (first >>= rest) machine = guarded (operation >>= next) machine := by
  cases run : operation machine with
  | ok value after =>
    have succeeds : first machine = .ok value after := by rw [same, guarded, run]
    rw [bind_of_ok succeeds, agrees value after run, guarded, guarded, bind_of_ok run]
  | error error after =>
    have fails : first machine = .error (.error error) after := by rw [same, guarded, run]
    rw [bind_of_error fails, guarded, bind_of_error run]

end Guarded

/-! ## Agreement of the parts -/

/-- Nothing is split off from behind the last value. -/
theorem splitOff?_eq {α : Type} {values : List α} {position : Nat}
    (inside : position ≤ values.length) :
    splitOff? values position = some (values.take position, values.drop position) := by
  rw [splitOff?, if_pos inside, List.splitAt_eq]

/-- A look-up by token is guarded. -/
theorem entry_eq {α : Type} (table : Array α) (token : Nat) :
    entry table token = guarded (Machine.entry table token) := by
  unfold entry Machine.entry
  by_cases inside : token < table.size
  · rw [if_pos inside, Array.getElem?_eq_getElem inside]
    rfl
  · rw [if_neg inside, Array.getElem?_eq_none (Nat.le_of_not_lt inside)]
    rfl

/-- The divisor is asked for before it is used. -/
theorem apply_eq (function : BinaryFunction) (left right : Word) :
    apply function left right = guarded (Machine.ofExcept (left.apply function right)) := by
  cases function with
  | div | rem =>
    by_cases zero : right.value = 0
    · simp only [apply, Word.apply, if_pos zero]
      rfl
    · simp only [apply, Word.apply, divide?, if_neg zero]
      rfl
  | _ => rfl

/-- An arithmetic operation is guarded. -/
theorem binary_eq (function : BinaryFunction) (left right : Value) :
    binary function left right = guarded (Machine.ofExcept (left.binary function right)) := by
  unfold binary
  split
  next left right =>
    by_cases same : left.type = right.type
    · rw [if_pos same, apply_eq, Value.binary, if_pos same]
      cases left.apply function right <;> rfl
    · rw [if_neg same, Value.binary, if_neg same]
      rfl
  · rfl

/-- A displacement of four bytes leads nowhere beyond 64 bits. -/
theorem jump_eq {displacement : Int} {machine : Machine} (near : IntType.i32.InRange displacement)
    (room : machine.pc + 2 ^ 31 ≤ 2 ^ 63) :
    jump displacement machine = guarded (Machine.jump displacement) machine := by
  rw [IntType.inRange_i32_iff] at near
  have address : IntType.i64.wrap machine.pc = machine.pc :=
    IntType.wrap_eq_self (IntType.inRange_i64_iff.2 (by omega))
  have target : signedSum? (IntType.i64.wrap machine.pc) displacement =
      some (machine.pc + displacement) := by
    rw [address]
    exact if_pos (IntType.inRange_i64_iff.2 (by omega))
  refine guarded_bind (congrFun get_eq _) fun state after read => ?_
  cases read
  rw [target, access_some, pure_bind]
  by_cases negative : (machine.pc : Int) + displacement < 0
  · rw [if_pos negative, if_pos negative]
  · rw [if_neg negative, if_neg negative]
    rfl

/-- The arguments split off from the bottom up are those taken from the top down. -/
theorem callFunction_eq (host : Host) (function : FunctionEntry) :
    callFunction host function = guarded (Machine.callFunction host function) := by
  funext machine
  refine guarded_bind (congrFun get_eq _) fun state after read => ?_
  cases read
  by_cases short : machine.stack.length < function.arity
  · rw [if_pos short, if_pos short]
  · rw [if_neg short, if_neg short]
    have height : difference? machine.stack.length function.arity =
        some (machine.stack.length - function.arity) := if_pos (Nat.le_of_not_lt short)
    have split : splitOff? machine.stack.reverse (machine.stack.length - function.arity) =
        some ((machine.stack.drop function.arity).reverse,
          (machine.stack.take function.arity).reverse) := by
      rw [splitOff?_eq (by simp), List.reverse_drop, List.reverse_take]
    rw [height, access_some, pure_bind, split, access_some, pure_bind]
    simp only [List.reverse_reverse]
    cases (host.call function.function (machine.stack.take function.arity).reverse machine.heap).1
      <;> rfl

/-- An element that was popped by its index is there. -/
theorem lt_of_popElement {before after : Machine} {array : ArrayRef} {index : Nat}
    (popped : Machine.popElement before = .ok (array, index) after) :
    index < after.heap.length array := by
  obtain ⟨_, _, _, rest⟩ := bind_eq_ok popped
  obtain ⟨position, _, _, rest⟩ := bind_eq_ok rest
  obtain ⟨reference, machine, _, rest⟩ := bind_eq_ok rest
  obtain ⟨_, _, read, rest⟩ := bind_eq_ok rest
  cases read
  by_cases inside : 0 ≤ position ∧ position.toNat < machine.heap.length reference
  · rw [if_pos inside] at rest
    cases rest
    exact inside.2
  · rw [if_neg inside] at rest
    cases rest

/-- Finding out what an array keeps changes nothing. -/
theorem state_of_elementValue {element : TypeCode} {value stored : Value} {before after : Machine}
    (found : Machine.elementValue element value before = .ok stored after) : after = before := by
  unfold Machine.elementValue at found
  by_cases number : element.isNumeric
  · rw [if_pos number] at found
    cases converted : value.convert? element <;> rw [converted] at found <;> cases found
    rfl
  · rw [if_neg number] at found
    cases found
    rfl

/-- An element is stored where there is one. -/
theorem storeElement_eq : storeElement = guarded Machine.storeElement := by
  funext machine
  refine guarded_bind rfl fun value _ _ => guarded_bind rfl fun (array, index) popped found => ?_
  refine guarded_bind rfl fun stored after converted => ?_
  obtain rfl := state_of_elementValue converted
  have replaced : after.heap.replace? array index stored =
      some (after.heap.store array index stored) :=
    if_pos (lt_of_popElement found)
  show ((access .missing (after.heap.replace? array index stored) : Operation Heap) >>= fun heap =>
    set { after with heap }) after = _
  rw [replaced]
  rfl

/-! ## Agreement of steps -/

/-- The displacements of an action have at most four bytes. -/
def Near : Action → Prop
  | .branch _ displacement => IntType.i32.InRange displacement
  | _ => True

variable {program : Program} {op : Opcode} {immediate : List UInt8}

/-- Where there is room for four bytes of displacement, the bare machine performs actions as the
machine does. -/
theorem perform_eq {action : Action} {machine : Machine} (near : Near action)
    (room : machine.pc + 2 ^ 31 ≤ 2 ^ 63) :
    perform program action machine = guarded (Machine.perform program action) machine := by
  cases action with
  | pushString token | newArray token | elementAddress token =>
    exact guarded_bind (congrFun (entry_eq _ _) _) fun _ _ _ => rfl
  | binary function =>
    refine guarded_bind rfl fun right _ _ => guarded_bind rfl fun left _ _ => ?_
    exact guarded_bind (congrFun (binary_eq _ _ _) _) fun _ _ _ => rfl
  | branch condition displacement =>
    refine guarded_bind rfl fun jumps after chosen => ?_
    -- popping the condition does not move control
    have place : after.pc = machine.pc := (Machine.hasEffect_taken condition _ _ _ chosen).2
    cases jumps with
    | true =>
      have jumped : jump displacement after = guarded (Machine.jump displacement) after :=
        jump_eq near (by rw [place]; exact room)
      rw [if_pos rfl, if_pos rfl]
      exact guarded_bind jumped fun _ _ _ => rfl
    | false => rfl
  | loadElement =>
    refine guarded_bind rfl fun (array, index) popped found => ?_
    refine guarded_bind (congrFun get_eq _) fun state _ read => ?_
    cases read
    have element : (popped.heap.items array)[index]? =
        some ((popped.heap.items array).getD index .null) := by
      simp [Array.getElem?_eq_getElem (lt_of_popElement found)]
    rw [element]
    rfl
  | storeElement => exact guarded_bind (congrFun storeElement_eq _) fun _ _ _ => rfl
  | call token =>
    refine guarded_bind (congrFun (entry_eq _ _) _) fun function _ _ => ?_
    exact guarded_bind (congrFun (callFunction_eq _ _) _) fun _ _ _ => rfl
  | _ => rfl

/-- An opcode is followed by as many bytes as its operand takes. -/
theorem length_immediate {code : Code} {offset : Nat} {decoded : Decoded}
    (decodes : code.decodeAt? offset = some decoded) :
    decoded.immediate.length = decoded.op.operandKind.size := by
  unfold Code.decodeAt? at decodes
  split at decodes
  · cases decodes
  · next op _ =>
    by_cases inside : offset + op.encodedLength ≤ code.bytes.size
    · rw [if_pos inside] at decodes
      cases decodes
      simp only [Opcode.encodedLength] at inside
      simp [Opcode.encodedLength]
      omega
    · rw [if_neg inside] at decodes
      cases decodes

/-- Where the offsets of the code fit into 64 bits, so do those of the operand. -/
theorem decode_eq {code : Code} (fits : code.bytes.size + 2 ^ 31 ≤ 2 ^ 63) (offset : Nat) :
    decode code offset = guarded (Machine.require .undecodable (code.decodeAt? offset)) := by
  unfold decode Code.decodeAt?
  cases found : code.bytes[offset]?.bind Opcode.ofByte? with
  | none => rfl
  | some op =>
    obtain ⟨byte, there, -⟩ := Option.bind_eq_some_iff.1 found
    obtain ⟨inside, -⟩ := Array.getElem?_eq_some_iff.1 there
    have short : op.encodedLength ≤ 9 := by
      unfold Opcode.encodedLength OperandKind.size
      split <;> decide
    have next : sum? offset op.encodedLength = some (offset + op.encodedLength) := if_pos (by omega)
    have first : sum? offset 1 = some (offset + 1) := if_pos (by omega)
    have positive : offset + 1 ≤ offset + op.encodedLength := by
      unfold Opcode.encodedLength
      omega
    simp only [next, first, access_some, pure_bind, positive, true_and]
    by_cases whole : offset + op.encodedLength ≤ code.bytes.size
    · rw [if_pos whole, if_pos whole]
      rfl
    · rw [if_neg whole, if_neg whole]
      rfl

/-- Those bytes of an operand that are not read do not count. -/
theorem read_take (size : immediate.length = op.operandKind.size) :
    Action.read op (immediate.take op.bytesRead) = .read op immediate := by
  cases op with
  | ldobj | stelem => rfl
  | branch condition form =>
    cases form <;> exact congrArg (Action.read _) (List.take_of_length_le (Nat.le_of_eq size))
  | _ => exact congrArg (Action.read _) (List.take_of_length_le (Nat.le_of_eq size))

/-- The opcodes for the first locals follow each other. -/
theorem slot?_eq (slot : Fin 4) :
    slot? (.ldlocAt slot) 0x20 = some slot.val ∧ slot? (.stlocAt slot) 0x24 = some slot.val := by
  revert slot
  decide

/-- The bytes that are read for an opcode are there. -/
theorem action_eq (size : immediate.length = op.operandKind.size) :
    action op immediate = pure (.read op immediate) := by
  have enough : op.bytesRead ≤ immediate.length := by
    rw [size]
    cases op with
    | branch condition form => cases form <;> exact Nat.le_refl _
    | _ => simp [Opcode.bytesRead, Opcode.operandKind, OperandKind.size]
  rw [action, splitOff?_eq enough, access_some, pure_bind, ← read_take size]
  cases op with
  | ldlocAt slot => simp only [(slot?_eq slot).1, access_some, pure_bind, Action.read]
  | stlocAt slot => simp only [(slot?_eq slot).2, access_some, pure_bind, Action.read]
  | _ => rfl

/-- Displacements have one byte or four. -/
theorem near_read (size : immediate.length = op.operandKind.size) : Near (.read op immediate) := by
  cases op with
  | branch condition form =>
    have bounds (count : Nat) (all : immediate.length = count) (few : Bytes.range count ≤ 2 ^ 32)
        (positive : 0 < Bytes.range count) : IntType.i32.InRange (Bytes.toInt immediate) := by
      rw [IntType.inRange_i32_iff, Bytes.toInt, all]
      have low : -(Bytes.range count / 2 : Int) ≤ Int.bmod (Bytes.ofBytes immediate)
          (Bytes.range count) :=
        Int.le_bmod positive
      have high : Int.bmod (Bytes.ofBytes immediate) (Bytes.range count) <
          ((Bytes.range count : Int) + 1) / 2 :=
        Int.bmod_lt positive
      omega
    cases form with
    | short => exact bounds 1 size (by decide) (by decide)
    | long => exact bounds 4 size (by decide) (by decide)
  | _ => trivial

/-- The bare machine takes every step that the machine takes. -/
theorem step_eq (fits : program.code.bytes.size + 2 ^ 31 ≤ 2 ^ 63) (machine : Machine) :
    step program machine = guarded (Machine.step program) machine := by
  refine guarded_bind (congrFun get_eq _) fun state _ read => ?_
  cases read
  rw [decode_eq fits]
  cases decodes : program.code.decodeAt? machine.pc with
  | none => rfl
  | some decoded =>
    have size := length_immediate decodes
    have inside := (Code.lt_next_of_decodeAt? decodes).2
    have found : guarded (Machine.require .undecodable (some decoded)) = pure decoded := rfl
    rw [found, pure_bind]
    refine guarded_bind rfl fun _ after moved => ?_
    cases moved
    rw [action_eq size, pure_bind]
    exact perform_eq (near_read size) (show decoded.next + 2 ^ 31 ≤ 2 ^ 63 by omega)

/-- What holds of a step holds of a run. -/
theorem run_eq (fits : program.code.bytes.size + 2 ^ 31 ≤ 2 ^ 63) (limit : Nat)
    (machine : Machine) : run program limit machine = .ok (Machine.run program limit machine) := by
  induction limit generalizing machine with
  | zero => rfl
  | succ limit ih =>
    have same : (step program).run machine = guarded (Machine.step program) machine :=
      step_eq fits machine
    have lawful : (Machine.step program).run machine = Machine.step program machine := rfl
    rw [run, Machine.run, same, guarded, lawful]
    rcases Machine.step program machine with ⟨_ | value, after⟩ | ⟨error, after⟩
    · exact ih after
    · rfl
    · rfl

/-- The bare machine never crashes and gives the outcome that the machine gives. -/
theorem execute_eq (fits : program.code.bytes.size + 2 ^ 31 ≤ 2 ^ 63) (limit : Nat) (heap : Heap) :
    execute limit program heap = .ok (Machine.execute limit program heap) := by
  unfold execute Machine.execute
  by_cases version : program.code.version = formatVersion
  · rw [if_pos version, if_pos version, run_eq fits]
  · rw [if_neg version, if_neg version]

end Bare

end ExprCode
