import ExprCode.Proofs.Execution

/-! # Writes to arrays

What a step does to the arrays and to the record of host calls, whether it succeeds or fails
(`WorldChange`): most instructions do nothing, one makes an array, one stores into the array that
lies third on the stack, and a call hands the arrays to the host. From this follows which arrays a
run leaves as they were, as far as its host functions do. -/

namespace ExprCode

/-! ## Heaps -/

namespace Heap

/-- All arrays of a heap have the same contents in another, which may have more arrays. -/
structure Kept (before after : Heap) : Prop where
  /-- No array is missing. -/
  size : before.arrays.size ≤ after.arrays.size
  /-- The contents are the same. -/
  items : ∀ array : ArrayRef, array.index < before.arrays.size →
    after.items array = before.items array

variable {before heap after : Heap}

/-- A heap keeps its own arrays. -/
theorem Kept.refl (heap : Heap) : Kept heap heap := ⟨Nat.le_refl _, fun _ _ => rfl⟩

/-- What two changes keep in turn is kept by both. -/
theorem Kept.trans (first : Kept before heap) (second : Kept heap after) : Kept before after where
  size := Nat.le_trans first.size second.size
  items array known :=
    (second.items array (Nat.lt_of_lt_of_le known first.size)).trans (first.items array known)

/-- A store adds no array. -/
@[simp] theorem size_store (heap : Heap) (array : ArrayRef) (index : Nat) (value : Value) :
    (heap.store array index value).arrays.size = heap.arrays.size :=
  Array.size_modify

/-- A new array is behind all others. -/
theorem kept_alloc (heap : Heap) (element : TypeCode) (items : Array Value) :
    Kept heap (heap.alloc element items).2 where
  size := by simp [alloc]
  items array known := (items_alloc heap element items array).trans (if_neg (Nat.ne_of_lt known))

/-- A store into an array that there was not is not seen. -/
theorem Kept.store (kept : Kept before heap) {array : ArrayRef}
    (later : before.arrays.size ≤ array.index) (index : Nat) (value : Value) :
    Kept before (heap.store array index value) where
  size := by simpa using kept.size
  items other known := by
    rw [items_store, if_neg (by omega), kept.items other known]

end Heap

/-- The host functions that were called have changed no array. -/
def Host.Spares (host : Host) (calls : Array HostCall) : Prop :=
  ∀ call ∈ calls, call.heap.Kept (host.call call.function call.arguments call.heap).2

/-- Whether an instruction may do something to arrays or call the host. -/
def Action.touchesArrays : Action → Bool
  | .newArray _ | .storeElement | .call _ => true
  | _ => false

namespace Machine

variable {program : Program} {α β : Type}

/-! ## Operations that leave arrays alone -/

/-- The state in which an operation ends, with a value or an error. -/
def lastState {ε σ : Type} : EStateM.Result ε σ α → σ
  | .ok _ state => state
  | .error _ state => state

/-- However an operation ends, arrays and host calls are those of before. -/
def KeepsWorld (operation : Operation α) : Prop :=
  ∀ before, (lastState (operation before)).world = before.world

namespace KeepsWorld

variable {operation : Operation α} {next : α → Operation β}

/-- A plain value leaves the world as it is. -/
theorem pure (value : α) : KeepsWorld (Pure.pure value) := fun _ => rfl

/-- A failure leaves the world as it is. -/
theorem throw (error : RuntimeError) : KeepsWorld (MonadExcept.throw error : Operation α) :=
  fun _ => rfl

/-- A check leaves the world as it is. -/
theorem require {fault : Fault} (value? : Option α) :
    KeepsWorld (Machine.require fault value?) := by
  cases value? with
  | some value => exact .pure value
  | none => exact .throw _

/-- A result that is lifted leaves the world as it is. -/
theorem ofExcept (result : Except RuntimeError α) : KeepsWorld (Machine.ofExcept result) := by
  cases result with
  | ok value => exact .pure value
  | error error => exact .throw error

/-- Reading the machine leaves the world as it is. -/
theorem get : KeepsWorld (MonadState.get : Operation Machine) := fun _ => rfl

/-- A change of the other parts leaves the world as it is. -/
theorem change {change : Machine → Machine}
    (world : ∀ machine, (change machine).world = machine.world) :
    KeepsWorld (modify change) := world

/-- The world after an operation that succeeds. -/
theorem world_of_ok {before after : Machine} {value : α} (keeps : KeepsWorld operation)
    (run : operation before = .ok value after) : after.world = before.world := by
  have kept := keeps before
  rwa [run] at kept

/-- One operation after another leaves the world as it is. -/
theorem bind (first : KeepsWorld operation) (second : ∀ value, KeepsWorld (next value)) :
    KeepsWorld (operation >>= next) := by
  intro before
  cases run : operation before with
  | ok value middle =>
    rw [bind_of_ok run, second value middle]
    exact first.world_of_ok run
  | error error after =>
    have kept := first before
    rw [run] at kept
    rw [bind_of_error run]
    exact kept

/-- A sequence whose first part leaves arrays alone fails there, or does what its second part
does. -/
theorem bind_cases (first : KeepsWorld operation) (next : α → Operation β) (before : Machine) :
    (lastState ((operation >>= next) before)).world = before.world ∨
      ∃ value middle, operation before = .ok value middle ∧ middle.world = before.world ∧
        lastState ((operation >>= next) before) = lastState (next value middle) := by
  cases run : operation before with
  | ok value middle =>
    exact .inr ⟨value, middle, rfl, first.world_of_ok run, by rw [bind_of_ok run]⟩
  | error error after =>
    have kept := first before
    rw [run] at kept
    rw [bind_of_error run]
    exact .inl kept

/-- A choice between two operations leaves the world as it is. -/
theorem ite {condition : Prop} [Decidable condition] {first second : Operation α}
    (whenTrue : KeepsWorld first) (whenFalse : KeepsWorld second) :
    KeepsWorld (if condition then first else second) := by
  split
  · exact whenTrue
  · exact whenFalse

end KeepsWorld

/-- Pushing a value leaves the world as it is. -/
theorem keepsWorld_push (value : Value) : KeepsWorld (push value) := .change fun _ => rfl

/-- Popping a value leaves the world as it is. -/
theorem keepsWorld_pop : KeepsWorld pop := by
  refine .bind .get fun machine => ?_
  cases machine.stack with
  | nil => exact .throw _
  | cons value values => exact .bind (.change fun _ => rfl) fun _ => .pure value

/-- Popping a truth value leaves the world as it is. -/
theorem keepsWorld_popBool : KeepsWorld popBool := .bind keepsWorld_pop fun _ => .require _

/-- Popping an integer leaves the world as it is. -/
theorem keepsWorld_popInt32 : KeepsWorld popInt32 := .bind keepsWorld_pop fun _ => .require _

/-- Popping an array leaves the world as it is. -/
theorem keepsWorld_popArray : KeepsWorld popArray := by
  refine .bind keepsWorld_pop fun value => ?_
  cases value with
  | array reference => exact .pure reference
  | _ => exact .throw _

/-- Popping a place in an array leaves the world as it is. -/
theorem keepsWorld_popElement : KeepsWorld popElement :=
  .bind keepsWorld_pop fun _ => .bind (.require _) fun _ => .bind keepsWorld_popArray fun _ =>
    .bind .get fun _ => .ite (.pure _) (.throw _)

/-- Following an address leaves the world as it is. -/
theorem keepsWorld_dereference : KeepsWorld dereference := by
  refine .bind keepsWorld_pop fun value => ?_
  cases value with
  | localAddress slot => exact .bind .get fun _ => .require _
  | elementAddress array index =>
    refine .bind .get fun machine => ?_
    dsimp only
    split
    · exact .pure _
    · exact .throw _
  | _ => exact .throw _

/-- Storing a local leaves the world as it is. -/
theorem keepsWorld_storeLocal (slot : Nat) : KeepsWorld (storeLocal slot) :=
  .bind keepsWorld_pop fun _ => .bind .get fun _ => .ite (.change fun _ => rfl) (.throw _)

/-- The test of a branch leaves the world as it is. -/
theorem keepsWorld_taken (condition : BranchCondition) : KeepsWorld (taken condition) := by
  cases condition with
  | always => exact .pure true
  | ifTrue => exact keepsWorld_popBool
  | ifFalse => exact .bind keepsWorld_popBool fun _ => .pure _

/-- A jump leaves the world as it is. -/
theorem keepsWorld_jump (displacement : Int) : KeepsWorld (jump displacement) :=
  .bind .get fun _ => .ite (.throw _) (.change fun _ => rfl)

/-- All other instructions leave arrays alone. -/
theorem keepsWorld_perform {action : Action} (untouched : action.touchesArrays = false) :
    KeepsWorld (perform program action) := by
  have finish (operation : Operation Unit) (h : KeepsWorld operation) :
      KeepsWorld (do operation; return (none : Option Value)) := h.bind fun _ => .pure _
  cases action with
  | newArray | storeElement | call => cases untouched
  | halt => exact .throw _
  | nop => exact .pure _
  | ret | pop => exact .bind keepsWorld_pop fun _ => .pure _
  | dup => exact .bind .get fun _ => .bind (.require _) fun _ => finish _ (keepsWorld_push _)
  | push value => exact finish _ (keepsWorld_push value)
  | pushString | loadArgument => exact .bind (.require _) fun _ => finish _ (keepsWorld_push _)
  | loadLocal slot =>
    exact .bind (.bind .get fun _ => .require _) fun _ => finish _ (keepsWorld_push _)
  | storeLocal slot => exact finish _ (keepsWorld_storeLocal slot)
  | loadLocalAddress slot =>
    exact .bind .get fun _ => .ite (finish _ (keepsWorld_push _)) (.throw _)
  | dereference => exact .bind keepsWorld_dereference fun _ => finish _ (keepsWorld_push _)
  | binary | compare =>
    exact .bind keepsWorld_pop fun _ => .bind keepsWorld_pop fun _ => .bind (.ofExcept _) fun _ =>
      finish _ (keepsWorld_push _)
  | negate | complement =>
    exact .bind keepsWorld_pop fun _ => .bind (.ofExcept _) fun _ => finish _ (keepsWorld_push _)
  | shift direction =>
    exact .bind keepsWorld_popInt32 fun _ => .bind keepsWorld_pop fun _ =>
      .bind (.ofExcept _) fun _ =>
      finish _ (keepsWorld_push _)
  | convert typeByte =>
    exact .bind (.require _) fun _ => .bind keepsWorld_pop fun _ => .bind (.require _) fun _ =>
      finish _ (keepsWorld_push _)
  | branch condition displacement =>
    exact .bind (keepsWorld_taken condition) fun _ =>
      .ite (finish _ (keepsWorld_jump displacement)) (.pure _)
  | length =>
    exact .bind keepsWorld_popArray fun _ => .bind .get fun _ => finish _ (keepsWorld_push _)
  | loadElement =>
    exact .bind keepsWorld_popElement fun _ => .bind .get fun _ => finish _ (keepsWorld_push _)
  | elementAddress token =>
    exact .bind (.require _) fun _ => .bind keepsWorld_popElement fun _ =>
      finish _ (keepsWorld_push _)

/-! ## What a step does -/

/-- The action of the next instruction, if there is one. -/
def next? (program : Program) (machine : Machine) : Option Action :=
  (program.code.decodeAt? machine.pc).map fun decoded => .read decoded.op decoded.immediate

/-- All that a step may do to arrays and to the record of host calls. -/
inductive WorldChange (program : Program) (machine : Machine) : World → Prop
  /-- Nothing. -/
  | none : WorldChange program machine machine.world
  /-- It makes an array. -/
  | made (element : TypeCode) (length : Nat) :
      WorldChange program machine ⟨(machine.heap.allocDefault element length).2, machine.calls⟩
  /-- It stores into an array on the stack. -/
  | stored {value index : Value} {array : ArrayRef} {rest : List Value} (position : Nat)
      (element : Value)
      (next : machine.next? program = some .storeElement)
      (stack : machine.stack = value :: index :: .array array :: rest) :
      WorldChange program machine ⟨machine.heap.store array position element, machine.calls⟩
  /-- It calls a host function, which answers unless this ends the run. -/
  | called (function : Handle) (arguments : List Value)
      (answered : ∀ value? after, step program machine = .ok value? after →
        ∃ answer, (program.host.call function arguments machine.heap).1 = .ok answer) :
      WorldChange program machine ⟨(program.host.call function arguments machine.heap).2,
        machine.calls.push ⟨function, arguments, machine.heap⟩⟩

variable {machine after : Machine}

/-- A pop that succeeds takes the top of the stack. -/
theorem pop_eq_ok {value : Value} (popped : pop machine = .ok value after) :
    machine.stack = value :: after.stack := by
  obtain ⟨_, _, read, rest⟩ := bind_eq_ok popped
  cases read
  cases stack : machine.stack with
  | nil =>
    rw [stack] at rest
    cases rest
  | cons top values =>
    rw [stack] at rest
    cases rest
    rfl

/-- An array that is popped was on top of the stack. -/
theorem popArray_eq_ok {array : ArrayRef} (popped : popArray machine = .ok array after) :
    machine.stack = .array array :: after.stack := by
  obtain ⟨value, _, first, rest⟩ := bind_eq_ok popped
  cases value with
  | array reference =>
    cases rest
    exact pop_eq_ok first
  | _ => cases rest

/-- A value that must be there is there. -/
theorem require_eq_ok {fault : Fault} {value? : Option α} {value : α}
    (required : require fault value? machine = .ok value after) :
    value? = some value ∧ after = machine := by
  cases value? with
  | none => cases required
  | some found =>
    cases required
    exact ⟨rfl, rfl⟩

/-- A result that succeeds is there. -/
theorem ofExcept_eq_ok {result : Except RuntimeError α} {value : α}
    (h : ofExcept result machine = .ok value after) : result = .ok value := by
  cases result with
  | error => cases h
  | ok found =>
    cases h
    rfl

/-- An index and an array are taken from the stack. -/
theorem popElement_eq_ok {array : ArrayRef} {position : Nat}
    (popped : popElement machine = .ok (array, position) after) :
    ∃ index, machine.stack = index :: .array array :: after.stack := by
  obtain ⟨index, _, first, rest⟩ := bind_eq_ok popped
  obtain ⟨place, _, integer, rest⟩ := bind_eq_ok rest
  obtain ⟨reference, found, second, rest⟩ := bind_eq_ok rest
  obtain ⟨_, _, read, rest⟩ := bind_eq_ok rest
  obtain ⟨-, rfl⟩ := require_eq_ok integer
  cases read
  dsimp only at rest
  split at rest
  · cases rest
    exact ⟨index, by rw [pop_eq_ok first, popArray_eq_ok second]⟩
  · cases rest

/-- A store changes nothing, or one element of the array that is third on the stack. -/
theorem storeElement_world (machine : Machine) :
    (lastState (storeElement machine)).world = machine.world ∨
      ∃ value index array rest position element, machine.stack = value :: index :: .array array ::
        rest ∧
        (lastState (storeElement machine)).world =
          ⟨machine.heap.store array position element, machine.calls⟩ := by
  unfold storeElement
  rcases keepsWorld_pop.bind_cases _ machine with kept | ⟨value, popped, first, firstWorld, ends⟩
  · exact .inl kept
  rw [ends]
  rcases keepsWorld_popElement.bind_cases _ popped with kept |
    ⟨⟨array, position⟩, found, second, secondWorld, ends⟩
  · exact .inl (kept.trans firstWorld)
  rw [ends]
  obtain ⟨index, stack⟩ := popElement_eq_ok second
  -- up to here nothing has changed; the write is the last thing that is done
  let write (element : Value) : Operation Unit :=
    modify fun machine => { machine with heap := machine.heap.store array position element }
  have elementWorld : KeepsWorld (elementValue array.element value) := .ite (.require _) (.pure _)
  change (lastState ((elementValue array.element value >>= write) found)).world = _ ∨ _
  rcases elementWorld.bind_cases write found with kept | ⟨element, checked, third, thirdWorld, ends⟩
  · exact .inl (kept.trans (secondWorld.trans firstWorld))
  · have sameWorld : checked.world = machine.world :=
      thirdWorld.trans (secondWorld.trans firstWorld)
    refine .inr
      ⟨value, index, array, found.stack, position, element, by rw [pop_eq_ok first, stack], ?_⟩
    change (lastState ((elementValue array.element value >>= write) found)).world = _
    rw [ends]
    exact congrArg (fun world : World =>
      (⟨world.heap.store array position element, world.calls⟩ : World)) sameWorld

/-- An array is made behind all others, or nothing changes. -/
theorem newArray_world (element : TypeCode) (machine : Machine) :
    (lastState (newArray element machine)).world = machine.world ∨
      ∃ length, (lastState (newArray element machine)).world =
        ⟨(machine.heap.allocDefault element length).2, machine.calls⟩ := by
  unfold newArray
  rcases keepsWorld_popInt32.bind_cases _ machine with kept |
    ⟨length, popped, first, firstWorld, ends⟩
  · exact .inl kept
  rw [ends]
  split
  · exact .inl firstWorld
  · refine .inr ⟨length.toNat, ?_⟩
    exact congrArg (fun world : World =>
      (⟨(world.heap.allocDefault element length.toNat).2, world.calls⟩ : World))
      firstWorld

/-- A call hands the arrays to the host and is recorded, whatever the answer. -/
theorem callFunction_world (host : Host) (function : FunctionEntry) (machine : Machine) :
    (lastState (callFunction host function machine)).world = machine.world ∨
      ∃ arguments, (lastState (callFunction host function machine)).world =
          ⟨(host.call function.function arguments machine.heap).2,
            machine.calls.push ⟨function.function, arguments, machine.heap⟩⟩ ∧
        ∀ after, callFunction host function machine = .ok () after →
          ∃ answer, (host.call function.function arguments machine.heap).1 = .ok answer := by
  have read : (get : Operation Machine) machine = .ok machine machine := rfl
  unfold callFunction
  rw [bind_of_ok read]
  split
  · exact .inl rfl
  · refine .inr ⟨(machine.stack.take function.arity).reverse, ?_, fun after called => ?_⟩
    · -- arrays and record are set by now; what is left only looks at the answer
      have answered : KeepsWorld (do push (← ofExcept (host.call function.function
          (machine.stack.take function.arity).reverse machine.heap).1)) :=
        .bind (.ofExcept _) fun _ => keepsWorld_push _
      exact answered _
    · obtain ⟨_, _, recorded, rest⟩ := bind_eq_ok called
      obtain ⟨answer, _, found, -⟩ := bind_eq_ok rest
      exact ⟨answer, ofExcept_eq_ok found⟩

/-- An instruction that returns nothing ends in the state in which its operation ends. -/
theorem lastState_finish (operation : Operation Unit) (machine : Machine) :
    lastState ((do operation; return (none : Option Value)) machine) =
      lastState (operation machine) := by
  cases run : operation machine with
  | ok value after =>
    rw [bind_of_ok run]
    rfl
  | error error after =>
    rw [bind_of_error run]
    rfl

/-- What the next instruction may do to arrays and to the record of host calls. -/
theorem step_world (program : Program) (machine : Machine) :
    WorldChange program machine (lastState (step program machine)).world := by
  cases decodes : program.code.decodeAt? machine.pc with
  | none =>
    have read : (get : Operation Machine) machine = .ok machine machine := rfl
    rw [step, bind_of_ok read, decodes]
    exact .none
  | some decoded =>
    have next : machine.next? program = some (.read decoded.op decoded.immediate) := by
      rw [next?, decodes]
      rfl
    rw [step_of_decodes decodes]
    generalize reads : Action.read decoded.op decoded.immediate = action at next
    -- only three actions can change arrays or make calls
    cases action with
    | newArray token =>
      rw [perform, entry]
      rcases (KeepsWorld.require _).bind_cases _ _ with kept | ⟨type, _, required, -, ends⟩
      · rw [kept]
        exact .none
      · obtain ⟨-, rfl⟩ := require_eq_ok required
        rw [ends, lastState_finish]
        rcases newArray_world type.code _ with kept | ⟨length, made⟩
        · rw [kept]
          exact .none
        · rw [made]
          exact .made type.code length
    | storeElement =>
      rw [perform, lastState_finish]
      rcases storeElement_world _ with kept |
        ⟨value, index, array, rest, position, element, stack, stored⟩
      · rw [kept]
        exact .none
      · rw [stored]
        exact .stored position element next stack
    | call token =>
      rw [perform, entry]
      rcases (KeepsWorld.require _).bind_cases _ _ with kept | ⟨function, _, required, -, ends⟩
      · rw [kept]
        exact .none
      · obtain ⟨-, rfl⟩ := require_eq_ok required
        rw [ends, lastState_finish]
        rcases callFunction_world program.host function _ with kept | ⟨arguments, called, answers⟩
        · rw [kept]
          exact .none
        · rw [called]
          refine .called function.function arguments fun value? after stepped => ?_
          rw [step_of_decodes decodes, reads] at stepped
          obtain ⟨_, _, sameEntry, rest⟩ := bind_eq_ok stepped
          cases required.symm.trans sameEntry
          obtain ⟨_, _, run, -⟩ := bind_eq_ok rest
          exact answers _ run
    | _ =>
      rw [keepsWorld_perform rfl]
      exact .none

/-- A step changes the world in one of the listed ways. -/
theorem worldChange_of_step (stepped : step program machine = .ok none after) :
    WorldChange program machine after.world := by
  have change := step_world program machine
  rwa [stepped] at change

/-! ## Runs -/

namespace WorldChange

variable {world : World}

/-- Host calls stay on record. -/
theorem calls_subset (change : WorldChange program machine world) :
    ∀ call ∈ machine.calls, call ∈ world.calls := by
  intro call listed
  cases change with
  | none | made | stored => exact listed
  | called => exact Array.mem_push.2 (.inl listed)

/-- A step keeps arrays if the one that it stores into, if any, is not among them. -/
theorem kept {heap : Heap} (change : WorldChange program machine world)
    (spares : program.host.Spares world.calls) (kept : heap.Kept machine.heap)
    (later : ∀ value index array rest, machine.next? program = some .storeElement →
      machine.stack = value :: index :: .array array :: rest → heap.arrays.size ≤ array.index) :
    heap.Kept world.heap := by
  cases change with
  | none => exact kept
  | made element length => exact kept.trans (Heap.kept_alloc _ element _)
  | stored position element next stack =>
    exact kept.store (later _ _ _ _ next stack) position element
  | called => exact kept.trans (spares _ Array.mem_push_self)

/-- No array gets lost. -/
theorem size_le (change : WorldChange program machine world)
    (spares : program.host.Spares world.calls) :
    machine.heap.arrays.size ≤ world.heap.arrays.size := by
  cases change with
  | none => exact Nat.le_refl _
  | made element length => exact (Heap.kept_alloc _ element _).size
  | stored => exact Nat.le_of_eq (Heap.size_store _ _ _ _).symm
  | called => exact (spares _ Array.mem_push_self).size

end WorldChange

/-- Calls that were made stay recorded. -/
theorem Reaches.calls_subset (reaches : Reaches program machine after) :
    ∀ call ∈ machine.calls, call ∈ after.calls := by
  induction reaches with
  | refl => exact fun _ listed => listed
  | head first _ ih =>
    exact fun call listed => ih call ((worldChange_of_step first).calls_subset call listed)

/-- Along a run whose host functions change no arrays there are more and more arrays. -/
theorem Reaches.size_le (reaches : Reaches program machine after)
    (spares : program.host.Spares after.calls) :
    machine.heap.arrays.size ≤ after.heap.arrays.size := by
  induction reaches with
  | refl => exact Nat.le_refl _
  | head first rest ih =>
    have early := (worldChange_of_step first).size_le fun call listed =>
      spares call (rest.calls_subset call listed)
    exact Nat.le_trans early (ih spares)

/-- A run that ends does so with the step of a state that it reaches; a value is what that step
returns. -/
theorem exists_step_of_run {limit : Nat} {outcome : Outcome}
    (ended : run program limit machine = some outcome) :
    ∃ last, Reaches program machine last ∧
      (lastState (step program last)).world = ⟨outcome.heap, outcome.calls⟩ ∧
      ∀ value, outcome.result = .ok value →
        ∃ after, step program last = .ok (some value) after := by
  -- a run makes one step for each unit of its limit
  induction limit generalizing machine with
  | zero => cases ended
  | succ limit ih =>
    unfold run EStateM.run at ended
    cases stepped : step program machine with
    | ok value? next =>
      rw [stepped] at ended
      cases value? with
      | none =>
        obtain ⟨last, reaches, ends⟩ := ih ended
        exact ⟨last, .head stepped reaches, ends⟩
      | some value =>
        cases ended
        refine ⟨machine, .refl _, by rw [stepped]; rfl, fun result same => ?_⟩
        cases same
        exact ⟨next, stepped⟩
    | error error next =>
      rw [stepped] at ended
      cases ended
      refine ⟨machine, .refl _, by rw [stepped]; rfl, fun result same => ?_⟩
      cases same

/-- A run that ends does so in a state behind one that it reaches. -/
theorem exists_last_of_run {limit : Nat} {outcome : Outcome}
    (ended : run program limit machine = some outcome) :
    ∃ last, Reaches program machine last ∧
      (lastState (step program last)).world = ⟨outcome.heap, outcome.calls⟩ := by
  obtain ⟨last, reaches, world, -⟩ := exists_step_of_run ended
  exact ⟨last, reaches, world⟩

end Machine

end ExprCode
