import ExprCode.Proofs.BareMachine

/-! # Safety on arbitrary code

Code need not come from a compiler. Whatever its bytes and tables are, a run uses nothing that is
not there: that is what `Bare.execute_eq` says of every access. This module adds that every
malformed situation ends the run with an error. `Action.Impossible` lists the situations in which an
action cannot be carried out, `Demands` says how many values an operation must find on the stack,
and `execute_safe` puts both together. -/

namespace ExprCode

/-- An action that cannot be carried out: it asks for more values than the stack has, or refers to
something that is not there. The next instruction starts where the state is. -/
inductive Action.Impossible (program : Program) (machine : Machine) : Action → Prop
  /-- The end that no compiled code reaches. -/
  | halt : Impossible program machine .halt
  /-- There is nothing to return. -/
  | ret (empty : machine.stack = []) : Impossible program machine .ret
  /-- The stack is too short. -/
  | underflow {action : Action} {pops pushes : Nat}
      (effect : action.effect? program.code = some (pops, pushes))
      (short : machine.stack.length < pops) : Impossible program machine action
  /-- There is no such string. -/
  | string {token : Nat} (beyond : program.code.strings.size ≤ token) :
      Impossible program machine (.pushString token)
  /-- There is no such type for an array. -/
  | arrayType {token : Nat} (beyond : program.code.types.size ≤ token) :
      Impossible program machine (.newArray token)
  /-- There is no such type for an address. -/
  | addressType {token : Nat} (beyond : program.code.types.size ≤ token) :
      Impossible program machine (.elementAddress token)
  /-- There is no such function. -/
  | function {token : Nat} (beyond : program.code.functions.size ≤ token) :
      Impossible program machine (.call token)
  /-- There is no such local to load. -/
  | loadLocal {slot : Nat} (beyond : machine.locals.size ≤ slot) :
      Impossible program machine (.loadLocal slot)
  /-- There is no such local to store into. -/
  | storeLocal {slot : Nat} (beyond : machine.locals.size ≤ slot) :
      Impossible program machine (.storeLocal slot)
  /-- There is no such local to take the address of. -/
  | localAddress {slot : Nat} (beyond : machine.locals.size ≤ slot) :
      Impossible program machine (.loadLocalAddress slot)
  /-- There is no local at the address. -/
  | dereference {slot : Nat} {rest : List Value} (top : machine.stack = .localAddress slot :: rest)
      (beyond : machine.locals.size ≤ slot) : Impossible program machine .dereference
  /-- There is no such argument. -/
  | argument {index : Nat} (beyond : program.arguments.size ≤ index) :
      Impossible program machine (.loadArgument index)
  /-- There is no such kind of value. -/
  | typeCode {byte : UInt8} (unknown : TypeCode.ofByte? byte = none) :
      Impossible program machine (.convert byte)
  /-- The jump leads before the start. -/
  | jump {displacement : Int} (before : machine.pc + displacement < 0) :
      Impossible program machine (.branch .always displacement)
  /-- The jump is taken, as the condition holds, and leads before the start. -/
  | jumpIfTrue {displacement : Int} {rest : List Value} (top : machine.stack = .bool true :: rest)
      (before : machine.pc + displacement < 0) :
      Impossible program machine (.branch .ifTrue displacement)
  /-- The jump is taken, as the condition does not hold, and leads before the start. -/
  | jumpIfFalse {displacement : Int} {rest : List Value} (top : machine.stack = .bool false :: rest)
      (before : machine.pc + displacement < 0) :
      Impossible program machine (.branch .ifFalse displacement)

namespace Machine

/-- A state whose next instruction is cut off, unknown or cannot be carried out. -/
inductive Malformed (program : Program) (machine : Machine) : Prop
  /-- There is no instruction. -/
  | undecodable (unknown : program.code.decodeAt? machine.pc = none)
  /-- The instruction cannot be carried out. -/
  | impossible {decoded : Decoded} (decodes : program.code.decodeAt? machine.pc = some decoded)
      (fails : (Action.read decoded.op decoded.immediate).Impossible program
        { machine with pc := decoded.next })

variable {program : Program} {α β : Type} {operation : Operation α} {next : α → Operation β}

/-! ## Faults -/

/-- An operation ends the run because the code is malformed. -/
def Faults (operation : Operation α) (machine : Machine) : Prop :=
  ∃ fault after, operation machine = .error (.invalidProgram fault) after

/-- A required value that is absent is a fault. -/
theorem Faults.of_require {fault : Fault} {value? : Option α} (absent : value? = none)
    (machine : Machine) :
    Faults (require fault value?) machine := by
  subst absent
  exact ⟨fault, machine, rfl⟩

variable {machine : Machine} {count : Nat}

/-- A fault in the first operation is a fault. -/
theorem Faults.bind (first : Faults operation machine) : Faults (operation >>= next) machine := by
  obtain ⟨fault, after, failed⟩ := first
  exact ⟨fault, after, bind_of_error failed⟩

/-- A fault behind an operation that succeeds is a fault. -/
theorem Faults.after {middle : Machine} {value : α} (first : operation machine = .ok value middle)
    (rest : Faults (next value) middle) : Faults (operation >>= next) machine := by
  obtain ⟨fault, after, failed⟩ := rest
  exact ⟨fault, after, (bind_of_ok first).trans failed⟩

/-- A fault behind a read is a fault. -/
theorem Faults.get {next : Machine → Operation β} (rest : Faults (next machine) machine) :
    Faults (get >>= next) machine :=
  .after rfl rest

/-! ## What operations demand of the stack -/

/-- An operation faults on a stack of fewer values. -/
def Demands (operation : Operation α) (count : Nat) : Prop :=
  ∀ machine, machine.stack.length < count → Faults operation machine

/-- An operation faults or takes so many values from the stack; there is no other way for it to
end. -/
def Takes (operation : Operation α) (count : Nat) : Prop :=
  ∀ machine, Faults operation machine ∨
    ∃ value after, operation machine = .ok value after ∧
      after.stack.length + count = machine.stack.length

/-- No operation demands less than nothing. -/
theorem demands_zero (operation : Operation α) : Demands operation 0 :=
  fun _ short => absurd short (Nat.not_lt_zero _)

/-- What an operation takes, it demands. -/
theorem Takes.demands (takes : Takes operation count) : Demands operation count := by
  intro machine short
  rcases takes machine with faults | ⟨value, after, -, height⟩
  · exact faults
  · omega

/-- What is demanded first is demanded. -/
theorem Demands.bind (first : Demands operation count) : Demands (operation >>= next) count :=
  fun machine short => (first machine short).bind

/-- What the second part demands is on top of what the first part takes. -/
theorem Takes.bind_demands {taken : Nat} (first : Takes operation taken)
    (rest : ∀ value, Demands (next value) count) :
    Demands (operation >>= next) (taken + count) := by
  intro machine short
  rcases first machine with faults | ⟨value, after, succeeded, height⟩
  · exact faults.bind
  · exact .after succeeded (rest value after (by omega))

/-- What two operations take in turn, they take together. -/
theorem Takes.bind {taken : Nat} (first : Takes operation taken)
    (rest : ∀ value, Takes (next value) count) : Takes (operation >>= next) (taken + count) := by
  intro machine
  rcases first machine with faults | ⟨value, middle, succeeded, height⟩
  · exact .inl faults.bind
  rcases rest value middle with faults | ⟨result, after, finished, left⟩
  · exact .inl (.after succeeded faults)
  · exact .inr ⟨result, after, (bind_of_ok succeeded).trans finished, by omega⟩

/-- A check takes nothing. -/
theorem takes_require (fault : Fault) (value? : Option α) : Takes (require fault value?) 0 := by
  intro machine
  cases value? with
  | none => exact .inl (.of_require rfl machine)
  | some value => exact .inr ⟨value, machine, rfl, rfl⟩

/-- The value on top is popped. -/
theorem pop_eq {value : Value} {rest : List Value} (top : machine.stack = value :: rest) :
    pop machine = .ok value { machine with stack := rest } := by
  have read : (get : Operation Machine) machine = .ok machine machine := rfl
  rw [pop, bind_of_ok read, top]
  rfl

/-- A pop takes one value. -/
theorem takes_pop : Takes pop 1 := by
  intro machine
  cases stack : machine.stack with
  | nil =>
    refine .inl (.get ?_)
    rw [stack]
    exact ⟨.stackUnderflow, machine, rfl⟩
  | cons value rest => exact .inr ⟨value, _, pop_eq stack, rfl⟩

/-- Popping a truth value takes one value. -/
theorem takes_popBool : Takes popBool 1 := takes_pop.bind fun _ => takes_require _ _

/-- Popping an integer takes one value. -/
theorem takes_popInt32 : Takes popInt32 1 := takes_pop.bind fun _ => takes_require _ _

/-- Popping an array demands one value. -/
theorem demands_popArray : Demands popArray 1 := takes_pop.demands.bind

/-- Popping a place in an array demands two values. -/
theorem demands_popElement : Demands popElement 2 :=
  takes_pop.bind_demands fun _ => (takes_require _ _).bind_demands fun _ => demands_popArray.bind

/-- A call demands the arguments that the entry of the function table counts. -/
theorem demands_callFunction (host : Host) (function : FunctionEntry) :
    Demands (callFunction host function) function.arity := by
  intro machine short
  refine .get ?_
  rw [if_pos short]
  exact ⟨.stackUnderflow, machine, rfl⟩

/-- Every action demands the values that it takes. -/
theorem demands_perform {action : Action} {pops pushes : Nat}
    (effect : action.effect? program.code = some (pops, pushes)) :
    Demands (perform program action) pops := by
  -- an action stops at the first value that is missing, if not before
  cases action with
  | halt | ret => cases effect
  | nop | push _ | pushString _ | loadLocal _ | loadLocalAddress _ | loadArgument _ =>
    cases effect
    exact demands_zero _
  | dup =>
    cases effect
    intro machine short
    have empty : machine.stack = [] := List.length_eq_zero_iff.1 (by omega)
    refine .get (Faults.of_require ?_ machine).bind
    rw [empty]
    rfl
  | pop | storeLocal _ | dereference | negate | complement =>
    cases effect
    first | exact takes_pop.demands.bind | exact takes_pop.demands.bind.bind
  | length =>
    cases effect
    exact demands_popArray.bind
  | branch condition displacement =>
    cases condition with
    | always =>
      cases effect
      exact demands_zero _
    | ifTrue =>
      cases effect
      exact takes_popBool.demands.bind
    | ifFalse =>
      cases effect
      exact takes_popBool.demands.bind.bind
  | binary _ | compare _ =>
    cases effect
    exact takes_pop.bind_demands fun _ => takes_pop.demands.bind
  | shift _ =>
    cases effect
    exact takes_popInt32.bind_demands fun _ => takes_pop.demands.bind
  | convert _ =>
    cases effect
    exact (takes_require _ _).bind_demands fun _ => takes_pop.demands.bind
  | newArray _ =>
    cases effect
    exact (takes_require _ _).bind_demands fun _ => takes_popInt32.demands.bind.bind
  | loadElement =>
    cases effect
    exact demands_popElement.bind
  | elementAddress _ =>
    cases effect
    exact (takes_require _ _).bind_demands fun _ => demands_popElement.bind
  | storeElement =>
    cases effect
    exact (takes_pop.bind_demands fun _ => demands_popElement.bind).bind
  | call token =>
    obtain ⟨entry, listed, same⟩ := Option.map_eq_some_iff.1 effect
    cases same
    intro machine short
    have found : Machine.entry program.code.functions token machine = .ok entry machine := by
      rw [Machine.entry, listed]
      rfl
    exact .after found (demands_callFunction program.host entry machine short).bind

/-! ## Malformed situations -/

/-- A token beyond its table is a fault. -/
theorem faults_entry {table : Array α} {token : Nat} (beyond : table.size ≤ token)
    (machine : Machine) :
    Faults (entry table token) machine :=
  .of_require (Array.getElem?_eq_none beyond) machine

/-- A slot beyond the locals is a fault. -/
theorem faults_localValue {slot : Nat} (beyond : machine.locals.size ≤ slot) :
    Faults (localValue slot) machine :=
  .get (.of_require (Array.getElem?_eq_none beyond) machine)

/-- A jump to a place before the code is a fault. -/
theorem faults_jump {displacement : Int} (before : machine.pc + displacement < 0) :
    Faults (jump displacement) machine := by
  refine .get ?_
  rw [if_pos before]
  exact ⟨.branchBeforeStart, machine, rfl⟩

/-- A branch that is taken faults where the jump does. -/
theorem faults_branch {condition : BranchCondition} {displacement : Int} {middle : Machine}
    (chosen : taken condition machine = .ok true middle) (before : middle.pc + displacement < 0) :
    Faults (perform program (.branch condition displacement)) machine :=
  .after chosen (faults_jump before).bind

end Machine

open Machine in
/-- What cannot be carried out ends the run. -/
theorem Action.Impossible.faults {program : Program} {machine : Machine} {action : Action}
    (impossible : action.Impossible program machine) : Faults (perform program action) machine := by
  cases impossible with
  | halt => exact ⟨.reachedHalt, machine, rfl⟩
  | ret empty => exact takes_pop.demands.bind machine (by simp [empty])
  | underflow effect short => exact demands_perform effect machine short
  | string beyond | arrayType beyond | addressType beyond | function beyond =>
    exact (faults_entry beyond machine).bind
  | loadLocal beyond => exact (faults_localValue beyond).bind
  | storeLocal beyond =>
    -- the value is popped first, so the stack may be what is missing
    cases stack : machine.stack with
    | nil => exact takes_pop.demands.bind.bind machine (by simp [stack])
    | cons value rest =>
      refine (Faults.after (pop_eq stack) (.get ?_)).bind
      rw [if_neg (Nat.not_lt_of_le beyond)]
      exact ⟨.localOutOfRange, _, rfl⟩
  | localAddress beyond =>
    refine .get ?_
    rw [if_neg (Nat.not_lt_of_le beyond)]
    exact ⟨.localOutOfRange, machine, rfl⟩
  | @dereference slot rest top beyond =>
    have absent : Faults (localValue slot) { machine with stack := rest } :=
      faults_localValue beyond
    exact (Faults.after (pop_eq top) absent).bind
  | argument beyond => exact (Faults.of_require (Array.getElem?_eq_none beyond) machine).bind
  | typeCode unknown => exact (Faults.of_require unknown machine).bind
  | jump before => exact faults_branch rfl before
  | jumpIfTrue top before => exact faults_branch (taken_eq true top) before
  | jumpIfFalse top before => exact faults_branch (taken_eq false top) before

namespace Machine

/-- A step from a malformed situation faults. -/
theorem Malformed.faults {program : Program} {machine : Machine}
    (malformed : Malformed program machine) :
    Faults (step program) machine := by
  cases malformed with
  | undecodable unknown =>
    refine .get ?_
    rw [unknown]
    exact ⟨.undecodable, machine, rfl⟩
  | impossible decodes fails =>
    obtain ⟨fault, after, failed⟩ := fails.faults
    exact ⟨fault, after, (step_of_decodes decodes).trans failed⟩

/-- A run that comes to a malformed situation ends there. -/
theorem execute_of_malformed {program : Program} {heap : Heap} {machine : Machine}
    (version : program.code.version = formatVersion)
    (reaches : Reaches program (initial program.code heap) machine)
    (malformed : Malformed program machine) :
    ∃ fault steps after calls, ∀ limit, steps ≤ limit →
      execute limit program heap = some ⟨.error (.invalidProgram fault), after, calls⟩ := by
  obtain ⟨fault, after, failed⟩ := malformed.faults
  obtain ⟨steps, same⟩ := reaches.run_eq
  refine ⟨fault, steps + 1, after.heap, after.calls, fun limit enough => ?_⟩
  obtain ⟨more, rfl⟩ : ∃ more, limit = steps + (more + 1) := ⟨limit - (steps + 1), by omega⟩
  have failedRun : (step program).run machine = .error (.invalidProgram fault) after := failed
  rw [execute, if_pos version, same, run, failedRun]

end Machine

open Machine in
/-- The machine is safe on arbitrary code. Carried out without a net, it never uses a byte, an
entry, an element or an argument that is not there, never leaves the range of an integer and never
divides by zero, however many steps it takes; code of another version is refused; and every run that
comes to a malformed situation ends with an error. -/
theorem execute_safe (program : Program) (heap : Heap)
    (fits : program.code.bytes.size + 2 ^ 31 ≤ 2 ^ 63) :
    (∀ limit, Bare.execute limit program heap = .ok (execute limit program heap)) ∧
    (program.code.version ≠ formatVersion → ∀ limit, execute limit program heap =
      some ⟨.error (.versionMismatch program.code.version formatVersion), heap, #[]⟩) ∧
    ∀ machine, program.code.version = formatVersion →
      Reaches program (initial program.code heap) machine → Malformed program machine →
      ∃ fault steps after calls, ∀ limit, steps ≤ limit →
        execute limit program heap = some ⟨.error (.invalidProgram fault), after, calls⟩ :=
  ⟨fun limit => Bare.execute_eq fits limit heap, fun other _ => if_neg other,
    fun _ version reaches malformed => execute_of_malformed version reaches malformed⟩

/-- Code that no compiler makes: a truth value is pushed, and if it is true, control goes back
before the start. -/
def runaway : Program where
  code := ⟨formatVersion, #[0x10, 0x51, 0xF6], #[], #[], #[], #[], []⟩
  arguments := #[]
  host := ⟨fun _ _ heap => (.ok .null, heap)⟩

/-- Whether the code is run with a net or without, it ends with an error behind the second
instruction. -/
theorem execute_safe_runaway :
    runaway.code.bytes.size + 2 ^ 31 ≤ 2 ^ 63 ∧
    (∀ limit, Bare.execute limit runaway ⟨#[]⟩ = .ok (Machine.execute limit runaway ⟨#[]⟩)) ∧
    ∃ fault steps after calls, ∀ limit, steps ≤ limit →
      Machine.execute limit runaway ⟨#[]⟩ =
        some ⟨.error (.invalidProgram fault), after, calls⟩ := by
  have fits : runaway.code.bytes.size + 2 ^ 31 ≤ 2 ^ 63 := by decide
  have pushed : Machine.step runaway (.initial runaway.code ⟨#[]⟩) =
      .ok none ⟨1, [.bool true], #[], ⟨#[]⟩, #[]⟩ := by cbv
  have decodes : runaway.code.decodeAt? 1 = some ⟨.branch .ifTrue .short, [0xF6], 3⟩ := by decide
  have backwards : Machine.Malformed runaway ⟨1, [.bool true], #[], ⟨#[]⟩, #[]⟩ :=
    .impossible decodes (.jumpIfTrue rfl (show (3 : Int) + Bytes.toInt [0xF6] < 0 by decide))
  have safe := execute_safe runaway ⟨#[]⟩ fits
  exact ⟨fits, safe.1, safe.2.2 _ rfl (.head pushed (.refl _)) backwards⟩

end ExprCode
