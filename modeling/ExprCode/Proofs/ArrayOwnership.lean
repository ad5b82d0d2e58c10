import ExprCode.Proofs.ArrayWrites
import ExprCode.Proofs.StackDiscipline

/-! # Arrays that code may write to

Main statement: `sparesArrays_of_compile`. Compiled code stores into arrays only that its own array
literals have made, so whatever is passed to it is left as it was, unless a host function changes
it.

The instruction that stores takes its array from the stack, with arbitrary code between the
instruction that copied it there and the store. All ways through the code of an expression store
only where the stack is known to hold an array made by a literal (`CodeAt.guards`), and the machine,
which goes one of these ways, has such arrays there (`Machine.Guarded`). -/

namespace ExprCode

variable {literals : Nat → Prop}

/-! ## Runs -/

namespace Machine

variable {program : Program} {start machine after : Machine} {array : ArrayRef}
  {stop finish : Cursor}

/-- A run has made an array at one of certain offsets: it came to a state, the array was behind all
arrays there were in that state, and one step later it was on top of the stack. -/
def Made (program : Program) (literals : Nat → Prop) (start machine : Machine) (array : ArrayRef) :
    Prop :=
  ∃ before next, Reaches program start before ∧ literals before.pc ∧
    before.heap.arrays.size = array.index ∧ step program before = .ok none next ∧
    next.stack.head? = some (.array array) ∧ Reaches program next machine

/-- What is known of a value is true. -/
def Known (program : Program) (literals : Nat → Prop) (start machine : Machine) :
    Mark → Value → Prop
  | .made, value => ∃ array, value = .array array ∧ Made program literals start machine array
  | .unknown, _ => True

/-- What is known of the values on the stack is true, and all ways from here obey the marks. -/
def Guarded (program : Program) (literals : Nat → Prop) (stop : Nat) (start machine : Machine) :
    Prop :=
  ∃ marks, Guards program.code literals stop NoExit machine.pc marks ∧
    List.Forall₂ (Known program literals start machine) marks machine.stack

/-- An array that was made stays one. -/
theorem Made.onward (made : Made program literals start machine array)
    (stepped : step program machine = .ok none after) :
    Made program literals start after array := by
  obtain ⟨before, next, reaches, literal, behind, makes, onTop, rest⟩ := made
  exact ⟨before, next, reaches, literal, behind, makes, onTop, rest.trans (.head stepped (.refl _))⟩

/-- What is known of a value is still known after a step. -/
theorem Known.onward {mark : Mark} {value : Value}
    (known : Known program literals start machine mark value)
    (stepped : step program machine = .ok none after) :
    Known program literals start after mark value := by
  cases mark with
  | made =>
    obtain ⟨array, isArray, made⟩ := known
    exact ⟨array, isArray, made.onward stepped⟩
  | unknown => trivial

/-- Nothing is known of some values. -/
theorem known_unknown (values : List Value) :
    List.Forall₂ (Known program literals start machine) (List.replicate values.length .unknown)
      values := by
  induction values with
  | nil => exact .nil
  | cons value values ih => exact .cons trivial ih

/-- A copy is put on the stack. -/
theorem stack_of_dup (performed : perform program .dup machine = .ok none after) :
    ∃ value rest, machine.stack = value :: rest ∧ after.stack = value :: value :: rest := by
  obtain ⟨_, _, read, rest⟩ := bind_eq_ok performed
  cases read
  cases stack : machine.stack with
  | nil =>
    rw [stack] at rest
    cases rest
  | cons value values =>
    rw [stack] at rest
    cases rest
    exact ⟨value, values, rfl, by rw [← stack]⟩

/-- An array that is made is behind all others and takes the place of its length on the stack. -/
theorem stack_of_newArray {token : Nat}
    (performed : perform program (.newArray token) machine = .ok none after) :
    ∃ length rest element, machine.stack = length :: rest ∧
      after.stack = .array ⟨element, machine.heap.arrays.size⟩ :: rest := by
  obtain ⟨type, _, required, rest⟩ := bind_eq_ok performed
  obtain ⟨-, rfl⟩ := require_eq_ok required
  obtain ⟨_, _, makes, done⟩ := bind_eq_ok rest
  cases done
  obtain ⟨count, popped, first, rest⟩ := bind_eq_ok makes
  obtain ⟨length, _, pops, integer⟩ := bind_eq_ok first
  obtain ⟨-, rfl⟩ := require_eq_ok integer
  have sameHeap := congrArg World.heap (keepsWorld_pop.world_of_ok pops)
  split at rest
  · cases rest
  · cases rest
    refine ⟨length, popped.stack, type.code, pop_eq_ok pops, ?_⟩
    exact congrArg (fun heap : Heap => Value.array ⟨type.code, heap.arrays.size⟩ :: popped.stack)
      sameHeap

/-- What is known of the stack stays true, and something new is known of what an instruction puts
there. -/
theorem known_of_marks {action : Action} {marks later : List Mark}
    (known : List.Forall₂ (Known program literals start machine) marks machine.stack)
    (reaches : Reaches program start machine)
    (changes : action.Marks program.code literals machine.pc marks later) {decoded : Decoded}
    (decodes : program.code.decodeAt? machine.pc = some decoded)
    (reads : Action.read decoded.op decoded.immediate = action)
    (stepped : step program machine = .ok none after) :
    List.Forall₂ (Known program literals start after) later after.stack := by
  have onward : List.Forall₂ (Known program literals start after) marks machine.stack :=
    known.imp fun _ _ holds => holds.onward stepped
  have performed : perform program action { machine with pc := decoded.next } = .ok none after := by
    rw [← stepped, step_of_decodes decodes, reads]
  cases changes with
  | plain taken _ effect =>
    obtain ⟨_, _, sameEffect, ⟨-, pushed, afterStack, rfl⟩, -⟩ := perform_effect performed
    cases effect.symm.trans sameEffect
    have below := List.forall₂_drop taken.length onward
    rw [List.drop_left] at below
    rw [afterStack]
    exact List.rel_append (known_unknown pushed) below
  | dup =>
    obtain ⟨value, rest, stack, afterStack⟩ := stack_of_dup performed
    rw [show machine.stack = value :: rest from stack] at onward
    rw [afterStack]
    cases onward with
    | cons first others => exact .cons first (.cons first others)
  | newArray literal =>
    obtain ⟨length, rest, element, stack, afterStack⟩ := stack_of_newArray performed
    rw [show machine.stack = length :: rest from stack] at onward
    rw [afterStack]
    cases onward with
    | cons _ others =>
      -- the array that is made counts as made from the next state on
      have made : Made program literals start after ⟨element, machine.heap.arrays.size⟩ :=
        ⟨machine, after, reaches, literal, rfl, stepped, by rw [afterStack]; rfl, .refl _⟩
      exact .cons ⟨_, rfl, made⟩ others
  | storeElement =>
    obtain ⟨_, _, sameEffect, ⟨-, pushed, afterStack, count⟩, -⟩ := perform_effect performed
    cases sameEffect
    rw [List.length_eq_zero_iff.1 count] at afterStack
    rw [afterStack]
    exact List.forall₂_drop 3 onward

/-- The next instruction of a guarded state obeys the marks, unless it is the return at the stop. -/
theorem Guarded.obeys {decoded : Decoded}
    (guarded : Guarded program literals stop.offset start machine)
    (returned : ActionAt program.code stop .ret finish)
    (decodes : program.code.decodeAt? machine.pc = some decoded)
    (goesOn : Action.read decoded.op decoded.immediate ≠ .ret) :
    ∃ marks later, List.Forall₂ (Known program literals start machine) marks machine.stack ∧
      (Action.read decoded.op decoded.immediate).Marks program.code literals machine.pc marks
        later ∧
      ∀ place : Nat, (place : Int) ∈ (Action.read decoded.op decoded.immediate).targets
        decoded.next →
        Guards program.code literals stop.offset NoExit place later := by
  obtain ⟨marks, guards, known⟩ := guarded
  generalize place : machine.pc = offset at guards
  cases guards with
  | arrived =>
    obtain ⟨_, sameDecodes, returns, -⟩ := returned
    rw [← place] at sameDecodes
    cases sameDecodes.symm.trans decodes
    exact absurd returns goesOn
  | left leads _ => exact leads.elim
  | @step _ _ later _ _ sameDecodes changes _ onward =>
    subst place
    cases sameDecodes.symm.trans decodes
    exact ⟨marks, later, known, changes, onward⟩

/-- A step goes on to a state that is guarded as well. -/
theorem Guarded.step (guarded : Guarded program literals stop.offset start machine)
    (returned : ActionAt program.code stop .ret finish) (reaches : Reaches program start machine)
    (stepped : step program machine = .ok none after) :
    Guarded program literals stop.offset start after := by
  obtain ⟨decoded, _, _, decodes, effect, -, target⟩ := step_effect stepped
  have goesOn : Action.read decoded.op decoded.immediate ≠ .ret := by
    intro returns
    rw [returns] at effect
    cases effect
  obtain ⟨marks, later, known, changes, onward⟩ := guarded.obeys returned decodes goesOn
  exact ⟨later, onward after.pc target, known_of_marks known reaches changes decodes rfl stepped⟩

/-- All states of a run from a guarded state are guarded. -/
theorem Guarded.reaches (guarded : Guarded program literals stop.offset start machine)
    (returned : ActionAt program.code stop .ret finish) (before : Reaches program start machine)
    (reaches : Reaches program machine after) :
    Guarded program literals stop.offset start after := by
  induction reaches with
  | refl => exact guarded
  | head first _ ih =>
    exact ih (guarded.step returned before first) (before.trans (.head first (.refl _)))

/-- Before a store, what is third on the stack is an array that the run has made. -/
theorem Guarded.stored (guarded : Guarded program literals stop.offset start machine)
    (returned : ActionAt program.code stop .ret finish)
    (next : machine.next? program = some .storeElement) :
    ∃ value index array rest, machine.stack = value :: index :: .array array :: rest ∧
      Made program literals start machine array := by
  obtain ⟨decoded, decodes, reads⟩ := Option.map_eq_some_iff.1 next
  have goesOn : Action.read decoded.op decoded.immediate ≠ .ret := by
    rw [reads]
    nofun
  obtain ⟨marks, later, known, changes, -⟩ := guarded.obeys returned decodes goesOn
  rw [reads] at changes
  generalize machine.stack = stack at known ⊢
  cases changes with
  | plain _ plain _ => cases plain
  | storeElement =>
    obtain _ | ⟨-, _ | ⟨-, _ | ⟨isMade, -⟩⟩⟩ := known
    obtain ⟨array, rfl, made⟩ := isMade
    exact ⟨_, _, array, _, rfl, made⟩

/-- An array that a run has made was not there before, if no host function has dropped arrays. -/
theorem Made.size_le (made : Made program literals start machine array)
    (spares : program.host.Spares machine.calls) : start.heap.arrays.size ≤ array.index := by
  obtain ⟨before, next, reaches, -, behind, makes, -, rest⟩ := made
  have onward : Reaches program before machine := .head makes rest
  exact behind ▸ reaches.size_le fun call listed => spares call (onward.calls_subset call listed)

/-- A guarded step keeps the arrays that were there when the run began. -/
theorem Guarded.kept (guarded : Guarded program literals stop.offset start machine)
    (returned : ActionAt program.code stop .ret finish) {world : World}
    (change : WorldChange program machine world) (spares : program.host.Spares world.calls)
    (kept : start.heap.Kept machine.heap) : start.heap.Kept world.heap := by
  refine change.kept spares kept fun value index array rest next stack => ?_
  obtain ⟨_, _, _, _, sameStack, made⟩ := guarded.stored returned next
  cases stack.symm.trans sameStack
  exact made.size_le fun call listed => spares call (change.calls_subset call listed)

/-- A run keeps the arrays that were there when it began. -/
theorem Guarded.kept_of_reaches (guarded : Guarded program literals stop.offset start machine)
    (returned : ActionAt program.code stop .ret finish) (before : Reaches program start machine)
    (reaches : Reaches program machine after) (spares : program.host.Spares after.calls)
    (kept : start.heap.Kept machine.heap) : start.heap.Kept after.heap := by
  induction reaches with
  | refl => exact kept
  | head first rest ih =>
    have sparesFirst : program.host.Spares _ :=
      fun call listed => spares call (rest.calls_subset call listed)
    exact ih (guarded.step returned before first) (before.trans (.head first (.refl _))) spares
      (guarded.kept returned (worldChange_of_step first) sparesFirst kept)

/-- A guarded step changes no array but one that the run has made. -/
theorem Guarded.made_of_changed (guarded : Guarded program literals stop.offset start machine)
    (returned : ActionAt program.code stop .ret finish) {world : World}
    (change : WorldChange program machine world) (spares : program.host.Spares world.calls)
    (present : array.index < machine.heap.arrays.size)
    (changed : world.heap.items array ≠ machine.heap.items array) :
    ∃ reference : ArrayRef, reference.index = array.index ∧
      Made program literals start machine reference := by
  cases change with
  | none => exact absurd rfl changed
  | made element length => exact absurd ((Heap.kept_alloc _ element _).items array present) changed
  | called => exact absurd ((spares _ Array.mem_push_self).items array present) changed
  | @stored _ _ target _ position element next stack =>
    obtain ⟨_, _, _, _, sameStack, made⟩ := guarded.stored returned next
    cases stack.symm.trans sameStack
    by_cases same : target.index = array.index
    · exact ⟨target, same, made⟩
    · exact absurd ((Heap.items_store _ target array position element).trans (if_neg same)) changed

end Machine

/-! ## Compiled code -/

/-- How code that was made for an expression deals with arrays, in a run with some heap. -/
structure SparesArrays (env : Environment) (expr : Expr) (program : Program) (heap : Heap) :
    Prop where
  /-- The run ends, with a value or an error; unless a host function that it has called has changed
  arrays, all that there were, those that the arguments lead to among them, are as before. -/
  ends : ∃ steps outcome,
    (∀ limit, steps ≤ limit → Machine.execute limit program heap = some outcome) ∧
    (program.host.Spares outcome.calls → heap.Kept outcome.heap)
  /-- Wherever the run comes to a store, it stores into an array that it has made itself for a
  literal. -/
  stores : ∀ machine, Machine.Reaches program (.initial program.code heap) machine →
    machine.next? program = some .storeElement →
    ∃ value index array rest, machine.stack = value :: index :: .array array :: rest ∧
      Machine.Made program (AllocatesAt program.code env (typingOf env expr) expr)
        (.initial program.code heap) machine array
  /-- No step changes any other array, unless it calls a host function that does. -/
  changes : ∀ machine, Machine.Reaches program (.initial program.code heap) machine →
    program.host.Spares (Machine.lastState (Machine.step program machine)).calls →
    ∀ array : ArrayRef, array.index < machine.heap.arrays.size →
      (Machine.lastState (Machine.step program machine)).heap.items array ≠
        machine.heap.items array →
      ∃ reference : ArrayRef, reference.index = array.index ∧
        Machine.Made program (AllocatesAt program.code env (typingOf env expr) expr)
          (.initial program.code heap) machine reference

/-- Evaluation does not disturb its arguments: compiled code stores into arrays of its own literals
only. -/
theorem sparesArrays_of_compile {env : Environment} {expr : Expr} {maxLocals : Nat} {code : Code}
    (coherent : env.Coherent) (tree : expr.IsTree)
    (compiled : compile env expr maxLocals = .ok code) (small : code.bytes.size < 2 ^ 31)
    (host : Host) (arguments : Array Value) (heap : Heap) :
    SparesArrays env expr ⟨code, arguments, host⟩ heap := by
  obtain ⟨-, isCompiled⟩ := compiled_of_compile tree compiled
  obtain ⟨stop, finish, bodyCode, returned⟩ := isCompiled.body
  -- nothing is on the stack at first, so nothing has to be known of it
  have guarded : Machine.Guarded ⟨code, arguments, host⟩
      (AllocatesAt code env (typingOf env expr) expr) stop.offset
      (.initial code heap) (.initial code heap) :=
    ⟨[], bodyCode.guards coherent small, .nil⟩
  have always (machine : Machine)
      (reaches : Machine.Reaches ⟨code, arguments, host⟩ (.initial code heap) machine) :=
    guarded.reaches returned (.refl _) reaches
  refine ⟨?_, fun machine reaches next => (always machine reaches).stored returned next, ?_⟩
  · obtain ⟨steps, executed⟩ := isCompiled.execute_eq coherent small host arguments heap
    refine ⟨steps, _, executed, fun spares => ?_⟩
    have ran := executed steps (Nat.le_refl _)
    rw [Machine.execute, if_pos isCompiled.version] at ran
    obtain ⟨last, reaches, world⟩ := Machine.exists_last_of_run ran
    -- the step that ends the run may have called the host as well
    have change := Machine.step_world ⟨code, arguments, host⟩ last
    rw [world] at change
    have sparesBefore : host.Spares last.calls :=
      fun call listed => spares call (change.calls_subset call listed)
    have kept := guarded.kept_of_reaches returned (.refl _) reaches sparesBefore (.refl _)
    exact (always last reaches).kept returned change spares kept
  · exact fun machine reaches spares array present changed =>
      (always machine reaches).made_of_changed returned (Machine.step_world _ machine) spares
        present changed

/-- One variable: an array of numbers. -/
def counting : Environment where
  variableTypes := #[("numbers", .array (.int .i32))]

/-- An array of two arrays, one of a seven and the one that is passed: between the copy of the outer
array and the first store into it, another array is made and stored into. -/
def gathered : Expr :=
  .array ⟨0, 0, 0⟩ [.array ⟨1, 0, 0⟩ [.literal ⟨2, 0, 0⟩ (.int 7)], .ident ⟨3, 0, 0⟩ "numbers"]

/-- Make an array of two, make an array of one, store seven into this one and this one into the
first, store the array that is passed, return. -/
def gatheredCode : Code where
  version := formatVersion
  bytes :=
    #[0x13, 2, 0x60, 0, 0, 0x03, 0x13, 0, 0x13, 1, 0x60, 1, 0, 0x03, 0x13, 0, 0x13, 7, 0x72, 0x76,
    0x03, 0x13, 1, 0x2e, 0, 0, 0x76, 0x02]
  locals := #[]
  strings := #[]
  types := #[.array (.int .i32), .int .i32]
  functions := #[]
  branches := []

/-- The example compiles to this code. -/
theorem compile_gathered : compile counting gathered 8 = .ok gatheredCode := by cbv

/-- A heap with the one array that is passed, of a five. -/
def passed : Heap := ⟨#[#[.i32 5]]⟩

/-- The array that is passed keeps its five, though it is part of the result; two others are made
and stored into. -/
theorem sparesArrays_gathered : compile counting gathered 8 = .ok gatheredCode ∧
    SparesArrays counting gathered ⟨gatheredCode, #[.array ⟨.int .i32, 0⟩], fiveHost⟩ passed ∧
    (Machine.execute 32 ⟨gatheredCode, #[.array ⟨.int .i32, 0⟩], fiveHost⟩ passed).map
        (·.heap.arrays) =
      some #[#[.i32 5], #[.array ⟨.int .i32, 2⟩, .array ⟨.int .i32, 0⟩], #[.i32 7]] :=
  ⟨compile_gathered,
    sparesArrays_of_compile (by decide) (by decide) compile_gathered (by decide) _ _ _, by cbv⟩

end ExprCode
