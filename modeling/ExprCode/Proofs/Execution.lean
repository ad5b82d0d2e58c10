import ExprCode.Proofs.CodeShape
import ExprCode.Proofs.Runs

/-! # Code that carries out an evaluation

`Triple program pre evaluation post` says that the machine, started where `pre` holds, carries out
an evaluation: if the evaluation gives a value, the machine comes to a state where `post` holds of
it; if it fails, the machine stops with the same error; and heap and host calls are the same.
`Moves` is the case of an evaluation that does nothing. There is one lemma for every action that
compiled code performs. -/

namespace ExprCode

namespace Machine

/-- The part of the state that evaluations know. -/
def world (machine : Machine) : World := ⟨machine.heap, machine.calls⟩

/-- One state leads to another by steps that do not end the run. -/
inductive Reaches (program : Program) : Machine → Machine → Prop
  | refl (machine : Machine) : Reaches program machine machine
  | head {before middle after : Machine} (first : step program before = .ok none middle)
      (rest : Reaches program middle after) : Reaches program before after

section Reaches

variable {program : Program} {before middle after : Machine}

/-- What is reached from a machine that is reached is reached. -/
theorem Reaches.trans (first : Reaches program before middle)
    (second : Reaches program middle after) : Reaches program before after := by
  induction first with
  | refl => exact second
  | head step _ ih => exact .head step (ih second)

/-- A run goes on from every state that is reached. -/
theorem Reaches.run_eq (reaches : Reaches program before after) :
    ∃ steps, ∀ limit, run program (steps + limit) before = run program limit after := by
  induction reaches with
  | refl machine => exact ⟨0, fun limit => by rw [Nat.zero_add]⟩
  | @head before middle after first rest ih =>
    obtain ⟨steps, same⟩ := ih
    refine ⟨steps + 1, fun limit => ?_⟩
    have firstRun : (step program).run before = .ok none middle := first
    rw [Nat.add_right_comm, run, firstRun]
    exact same limit

end Reaches

/-- A step performs the action of the instruction that is decoded. -/
theorem step_of_decodes {program : Program} {machine : Machine} {decoded : Decoded}
    (decodes : program.code.decodeAt? machine.pc = some decoded) :
    step program machine =
      perform program (.read decoded.op decoded.immediate) { machine with pc := decoded.next } := by
  unfold step
  change EStateM.bind _ _ machine = _
  simp only [EStateM.bind, get, getThe, MonadStateOf.get, EStateM.get, decodes]
  rfl

/-- A token of the table is looked up. -/
theorem entry_of_listed {α : Type} {table : Array α} {token : Nat} {element : α}
    (listed : table[token]? = some element) (machine : Machine) :
    entry table token machine = .ok element machine := by
  unfold entry
  rw [listed]
  rfl

/-! ## Simulation -/

/-- From a state, the machine comes to what an evaluation ended with: to a state with a property, or
to the same error. -/
def Delivers (program : Program) {α : Type} (machine : Machine) (post : α → Machine → Prop) :
    EStateM.Result RuntimeError World α → Prop
  | .ok value world =>
      ∃ after, Reaches program machine after ∧ after.world = world ∧ post value after
  | .error error world =>
      ∃ last after, Reaches program machine last ∧ step program last = .error error after ∧
        after.world = world

/-- From every state with a property, the machine carries out an evaluation. -/
def Triple (program : Program) {α : Type} (pre : Machine → Prop) (evaluation : Eval α)
    (post : α → Machine → Prop) : Prop :=
  ∀ machine, pre machine → Delivers program machine post (evaluation machine.world)

/-- From every state with a property, the machine comes to a state with another, and neither heap
nor host calls change. -/
def Moves (program : Program) (pre post : Machine → Prop) : Prop :=
  ∀ machine, pre machine →
    ∃ after, Reaches program machine after ∧ after.world = machine.world ∧ post after

section Rules

variable {program : Program} {α β : Type} {evaluation : Eval α} {pre middle : Machine → Prop}
  {post otherPost : α → Machine → Prop} {result : EStateM.Result RuntimeError World α}

/-- A machine delivers what those deliver that it reaches. -/
theorem Delivers.of_reaches {before after : Machine} (reaches : Reaches program before after)
    (delivers : Delivers program after post result) : Delivers program before post result := by
  cases result with
  | ok value world =>
    obtain ⟨last, rest, outcome⟩ := delivers
    exact ⟨last, reaches.trans rest, outcome⟩
  | error error world =>
    obtain ⟨last, after, rest, outcome⟩ := delivers
    exact ⟨last, after, reaches.trans rest, outcome⟩

/-- Moves behind an evaluation. -/
theorem Delivers.before {machine : Machine} (delivers : Delivers program machine post result)
    (moves : ∀ value, Moves program (post value) (otherPost value)) :
    Delivers program machine otherPost result := by
  cases result with
  | ok value world =>
    obtain ⟨between, reaches, rfl, holds⟩ := delivers
    obtain ⟨after, rest, sameWorld, afterHolds⟩ := moves value between holds
    exact ⟨after, reaches.trans rest, sameWorld, afterHolds⟩
  | error error world => exact delivers

/-- A plain value needs no step. -/
theorem Triple.pure (value : α) (holds : ∀ machine, pre machine → post value machine) :
    Triple program pre (Pure.pure value) post :=
  fun machine preHolds => ⟨machine, .refl machine, rfl, holds machine preHolds⟩

/-- Two evaluations, one after the other. -/
theorem Triple.bind {next : α → Eval β} {lastPost : β → Machine → Prop}
    (first : Triple program pre evaluation post)
    (second : ∀ value, Triple program (post value) (next value) lastPost) :
    Triple program pre (evaluation >>= next) lastPost := by
  intro machine holds
  have delivers := first machine holds
  cases run : evaluation machine.world with
  | ok value world =>
    rw [run] at delivers
    obtain ⟨between, reaches, rfl, betweenHolds⟩ := delivers
    rw [bind_of_ok run]
    exact .of_reaches reaches (second value between betweenHolds)
  | error error world =>
    rw [run] at delivers
    rw [bind_of_error run]
    exact delivers

/-- Two cases that start from different states. -/
theorem Triple.ite {condition : Prop} [Decidable condition] {otherwise : Eval α}
    {otherPre : Machine → Prop} (first : Triple program pre evaluation post)
    (second : Triple program otherPre otherwise post) :
    Triple program (fun machine => if condition then pre machine else otherPre machine)
      (if condition then evaluation else otherwise) post := by
  by_cases holds : condition
  · simpa only [if_pos holds] using first
  · simpa only [if_neg holds] using second

/-- Moves before an evaluation. -/
theorem Triple.after (moves : Moves program pre middle)
    (triple : Triple program middle evaluation post) : Triple program pre evaluation post := by
  intro machine holds
  obtain ⟨next, reaches, sameWorld, nextHolds⟩ := moves machine holds
  rw [← sameWorld]
  exact .of_reaches reaches (triple next nextHolds)

/-- Moves behind an evaluation. -/
theorem Triple.before (triple : Triple program pre evaluation post)
    (moves : ∀ value, Moves program (post value) (otherPost value)) :
    Triple program pre evaluation otherPost :=
  fun machine holds => (triple machine holds).before moves

/-- Where one condition implies another, no step is needed. -/
theorem Moves.of_imp (weaker : ∀ machine, pre machine → middle machine) :
    Moves program pre middle :=
  fun machine holds => ⟨machine, .refl machine, rfl, weaker machine holds⟩

/-- One move after another. -/
theorem Moves.trans {last : Machine → Prop} (first : Moves program pre middle)
    (second : Moves program middle last) : Moves program pre last := by
  intro machine holds
  obtain ⟨between, reaches, sameWorld, betweenHolds⟩ := first machine holds
  obtain ⟨after, rest, sameAgain, afterHolds⟩ := second between betweenHolds
  exact ⟨after, reaches.trans rest, sameAgain.trans sameWorld, afterHolds⟩

/-- A postcondition may be weakened. -/
theorem Triple.mono (triple : Triple program pre evaluation post)
    (weaker : ∀ value machine, post value machine → otherPost value machine) :
    Triple program pre evaluation otherPost :=
  triple.before fun value => .of_imp (weaker value)

end Rules

/-! ## Places -/

/-- The machine is at a place, with values on the stack and others kept in locals that the code
before the place has declared. -/
structure At (program : Program) (place : Cursor) (kept : List (Nat × Value)) (stack : List Value)
    (machine : Machine) : Prop where
  /-- The next instruction. -/
  pc : machine.pc = place.offset
  /-- The stack, top first. -/
  stack : machine.stack = stack
  /-- There are as many locals as the code asks for. -/
  size : machine.locals.size = program.code.locals.size
  /-- The locals that count. -/
  kept : ∀ entry ∈ kept, entry.1 < place.slots ∧ machine.locals[entry.1]? = some entry.2

section Places

variable {program : Program} {start stop : Cursor} {kept : List (Nat × Value)} {stack : List Value}
  {machine : Machine} {action : Action}

/-- A place with the same offset at which more locals have been declared; some of those kept may be
forgotten. -/
theorem At.relax {slots : Nat} {fewer : List (Nat × Value)}
    (here : At program start kept stack machine)
    (grown : start.slots ≤ slots) (subset : fewer ⊆ kept) :
    At program ⟨start.offset, slots⟩ fewer stack machine where
  pc := here.pc
  stack := here.stack
  size := here.size
  kept entry listed := by
    obtain ⟨small, known⟩ := here.kept entry (subset listed)
    exact ⟨Nat.lt_of_lt_of_le small grown, known⟩

/-- Behind an instruction. -/
theorem At.advance {values : List Value} (here : At program start kept stack machine)
    (sameSlots : stop.slots = start.slots) :
    At program stop kept values { machine with pc := stop.offset, stack := values } where
  pc := rfl
  stack := rfl
  size := here.size
  kept := sameSlots ▸ here.kept

/-- A step performs the action at a place. -/
theorem step_eq (instruction : ActionAt program.code start action stop)
    (here : At program start kept stack machine) :
    step program machine = perform program action { machine with pc := stop.offset } := by
  obtain ⟨decoded, decodes, rfl, rfl⟩ := instruction
  exact step_of_decodes (here.pc ▸ decodes)

/-- An action that only changes the stack. -/
theorem Moves.ofAction {values : List Value} (instruction : ActionAt program.code start action stop)
    (performs : ∀ machine : Machine, machine.stack = stack →
      perform program action machine = .ok none { machine with stack := values }) :
    Moves program (At program start kept stack) (At program stop kept values) := by
  intro machine here
  refine ⟨_, .head ((step_eq instruction here).trans (performs _ here.stack)) (.refl _), rfl, ?_⟩
  exact here.advance instruction.slots_eq

end Places

/-! ## Actions on the stack -/

section StackActions

variable {program : Program} {start stop : Cursor} {kept : List (Nat × Value)} {stack : List Value}

/-- A constant is pushed. -/
theorem moves_push {value : Value} (instruction : ActionAt program.code start (.push value) stop) :
    Moves program (At program start kept stack) (At program stop kept (value :: stack)) :=
  .ofAction instruction fun _ holds => by subst holds; rfl

/-- The string of a token is pushed. -/
theorem moves_pushString {token : Nat} {text : String}
    (instruction : ActionAt program.code start (.pushString token) stop)
    (listed : program.code.strings[token]? = some text) :
    Moves program (At program start kept stack) (At program stop kept (.str text :: stack)) := by
  refine .ofAction instruction fun machine holds => ?_
  subst holds
  change (do push (.str (← require .tokenOutOfRange program.code.strings[token]?)); return none :
    Operation (Option Value)) _ = _
  rw [listed]
  rfl

/-- The value on top is pushed once more. -/
theorem moves_dup {value : Value} (instruction : ActionAt program.code start .dup stop) :
    Moves program (At program start kept (value :: stack))
      (At program stop kept (value :: value :: stack)) := by
  refine .ofAction instruction fun machine holds => ?_
  obtain ⟨pc, _, locals, heap, calls⟩ := machine
  cases holds
  rfl

/-- A value that is kept in a local is pushed. -/
theorem moves_loadLocal {slot : Nat} {value : Value}
    (instruction : ActionAt program.code start (.loadLocal slot) stop)
    (listed : (slot, value) ∈ kept) :
    Moves program (At program start kept stack) (At program stop kept (value :: stack)) := by
  intro machine here
  have performed : perform program (.loadLocal slot) { machine with pc := stop.offset } =
      .ok none { machine with pc := stop.offset, stack := value :: stack } := by
    change (do push (← require .localOutOfRange machine.locals[slot]?); return none :
      Operation (Option Value)) _ = _
    rw [(here.kept _ listed).2, ← here.stack]
    rfl
  refine ⟨_, .head ((step_eq instruction here).trans performed) (.refl _), rfl, ?_⟩
  exact here.advance instruction.slots_eq

/-- The value on the stack is moved into the next local. -/
theorem moves_store {value : Value} (store : StoreAt program.code start stop) :
    Moves program (At program start kept (value :: stack))
      (At program stop ((start.slots, value) :: kept) stack) := by
  obtain ⟨declared, instruction⟩ := store
  intro machine here
  have inside : start.slots < machine.locals.size := by
    rw [here.size]
    exact declared
  have grown : At program ⟨start.offset, start.slots + 1⟩ kept (value :: stack) machine :=
    here.relax (Nat.le_succ _) (List.Subset.refl _)
  have performed : perform program (.storeLocal start.slots) { machine with pc := stop.offset } =
      .ok none { machine with
        pc := stop.offset, stack, locals := machine.locals.setIfInBounds start.slots value } := by
    obtain ⟨pc, _, locals, heap, calls⟩ := machine
    cases here.stack
    change (do
      (if start.slots < locals.size then
        modify fun machine =>
          { machine with locals := machine.locals.setIfInBounds start.slots value }
      else fault .localOutOfRange); return none : Operation (Option Value)) _ = _
    rw [if_pos inside]
    rfl
  refine ⟨_, .head ((step_eq instruction grown).trans performed) (.refl _), rfl, ?_⟩
  refine ⟨rfl, rfl, by simpa using here.size, fun entry listed => ?_⟩
  rw [instruction.slots_eq]
  rcases List.mem_cons.1 listed with rfl | older
  · exact ⟨Nat.lt_succ_self _, by simp [inside]⟩
  · -- locals that were kept before have lower numbers
    obtain ⟨small, known⟩ := here.kept entry older
    refine ⟨Nat.lt_succ_of_lt small, ?_⟩
    rw [Array.getElem?_setIfInBounds_ne (Nat.ne_of_gt small)]
    exact known

end StackActions

/-! ## Functions on values -/

section Functions

variable {program : Program} {start stop : Cursor} {kept : List (Nat × Value)} {stack : List Value}

/-- An action that replaces operands on the stack by the result of a function on them. -/
theorem triple_function {action : Action} (operands : List Value)
    {result : Except RuntimeError Value}
    (instruction : ActionAt program.code start action stop)
    (performs : ∀ pc locals heap calls,
      perform program action ⟨pc, operands ++ stack, locals, heap, calls⟩ =
        (do push (← ofExcept result); return none : Operation (Option Value))
          ⟨pc, stack, locals, heap, calls⟩) :
    Triple program (At program start kept (operands ++ stack)) (Semantics.ofExcept result)
      (fun value => At program stop kept (value :: stack)) := by
  intro machine here
  have stepped := step_eq instruction here
  have performed := performs stop.offset machine.locals machine.heap machine.calls
  rw [← here.stack] at performed
  have together := stepped.trans performed
  cases result with
  | ok value => exact ⟨_, .head together (.refl _), rfl, here.advance instruction.slots_eq⟩
  | error error => exact ⟨machine, _, .refl _, together, rfl⟩

/-- An arithmetic instruction does what the operation on its two operands does. -/
theorem triple_binary {function : BinaryFunction} {left right : Value}
    (instruction : ActionAt program.code start (.binary function) stop) :
    Triple program (At program start kept (right :: left :: stack))
      (Semantics.ofExcept (left.binary function right))
      (fun value => At program stop kept (value :: stack)) :=
  triple_function [right, left] instruction fun _ _ _ _ => rfl

/-- A negation does what the operation on its operand does. -/
theorem triple_negate {operand : Value} (instruction : ActionAt program.code start .negate stop) :
    Triple program (At program start kept (operand :: stack)) (Semantics.ofExcept operand.negate)
      (fun value => At program stop kept (value :: stack)) :=
  triple_function [operand] instruction fun _ _ _ _ => rfl

/-- A complement does what the operation on its operand does. -/
theorem triple_complement {operand : Value}
    (instruction : ActionAt program.code start .complement stop) :
    Triple program (At program start kept (operand :: stack))
      (Semantics.ofExcept operand.complement)
      (fun value => At program stop kept (value :: stack)) :=
  triple_function [operand] instruction fun _ _ _ _ => rfl

/-- A comparison does what the relation on its two operands does. -/
theorem triple_compare {relation : Relation} {left right : Value}
    (instruction : ActionAt program.code start (.compare relation) stop) :
    Triple program (At program start kept (right :: left :: stack))
      (Semantics.ofExcept (Semantics.applyRelation relation [left, right]))
      (fun value => At program stop kept (value :: stack)) := by
  refine triple_function [right, left] instruction fun pc locals heap calls => ?_
  change (do push (.bool (relation.holds (← ofExcept (left.compare right)))); return none :
    Operation (Option Value)) ⟨pc, stack, locals, heap, calls⟩ = _
  rw [Semantics.applyRelation]
  cases left.compare right <;> rfl

/-- A value that must be there, as the result of a function. -/
theorem require_eq {α : Type} (fault : Fault) (value? : Option α) :
    Semantics.require fault value? =
      Semantics.ofExcept (value?.elim (.error (.invalidProgram fault)) .ok) := by
  cases value? <;> rfl

/-- A conversion knows the type that it is to. -/
theorem perform_convert (kind : TypeCode) (operand : Value) (pc : Nat) (locals : Array Value)
    (heap : Heap)
    (calls : Array HostCall) :
    perform program (.convert kind.toByte) ⟨pc, operand :: stack, locals, heap, calls⟩ =
      (do push (← require .invalidConversion (operand.convert? kind)); return none :
        Operation (Option Value)) ⟨pc, stack, locals, heap, calls⟩ := by
  change (do
    let code ← require .unknownTypeCode (TypeCode.ofByte? kind.toByte)
    push (← require .invalidConversion ((← pop).convert? code))
    return none : Operation (Option Value)) ⟨pc, operand :: stack, locals, heap, calls⟩ = _
  rw [TypeCode.ofByte?_toByte]
  rfl

/-- A conversion gives a value of its kind, or fails. -/
theorem triple_convert {kind : TypeCode} {operand : Value}
    (instruction : ActionAt program.code start (.convert kind.toByte) stop) :
    Triple program (At program start kept (operand :: stack))
      (Semantics.require .invalidConversion (operand.convert? kind))
      (fun value => At program stop kept (value :: stack)) := by
  rw [require_eq]
  refine triple_function [operand] instruction fun pc locals heap calls => ?_
  refine (perform_convert kind operand pc locals heap calls).trans ?_
  cases operand.convert? kind <;> rfl

/-- An argument is pushed, if there is one. -/
theorem triple_loadArgument {index : Nat}
    (instruction : ActionAt program.code start (.loadArgument index) stop) :
    Triple program (At program start kept stack)
      (Semantics.require .argumentOutOfRange program.arguments[index]?)
      (fun value => At program stop kept (value :: stack)) := by
  rw [require_eq]
  refine triple_function [] instruction fun pc locals heap calls => ?_
  change (do push (← require .argumentOutOfRange program.arguments[index]?); return none :
    Operation (Option Value)) ⟨pc, stack, locals, heap, calls⟩ = _
  cases program.arguments[index]? <;> rfl

/-- The count of a shift is looked at before the value. -/
theorem triple_shift {direction : ShiftDirection} {operand count : Value}
    (instruction : ActionAt program.code start (.shift direction) stop) :
    Triple program (At program start kept (count :: operand :: stack))
      (do
        let places ← Semantics.require .expectedInt32 (count.int? .i32)
        Semantics.ofExcept (operand.shift direction (.ofInt places)))
      (fun value => At program stop kept (value :: stack)) := by
  have performed : ∀ pc locals heap calls, perform program (.shift direction)
      ⟨pc, count :: operand :: stack, locals, heap, calls⟩ = (do
        let places ← require .expectedInt32 (count.int? .i32)
        push (← ofExcept ((← pop).shift direction (.ofInt places)))
        return none : Operation (Option Value)) ⟨pc, operand :: stack, locals, heap, calls⟩ :=
    fun _ _ _ _ => rfl
  cases places? : count.int? .i32 with
  | none =>
    intro machine here
    have stepped := step_eq instruction here
    rw [places?] at performed
    rw [here.stack, performed] at stepped
    exact ⟨machine, _, .refl _, stepped, rfl⟩
  | some places =>
    rw [places?] at performed
    exact triple_function [count, operand] instruction performed

end Functions

/-! ## Branches -/

section Branches

variable {program : Program} {start stop : Cursor} {kept : List (Nat × Value)} {stack : List Value}
  {target slots : Nat}

/-- A displacement that leads to an offset. -/
theorem jump_eq {machine : Machine} {displacement : Int}
    (leads : (machine.pc : Int) + displacement = target) :
    jump displacement machine = .ok () { machine with pc := target } := by
  have forward : ¬ (machine.pc : Int) + displacement < 0 := by omega
  have offset : ((machine.pc : Int) + displacement).toNat = target := by omega
  change (if (machine.pc : Int) + displacement < 0 then fault .branchBeforeStart
    else modify fun machine' : Machine =>
      { machine' with pc := ((machine.pc : Int) + displacement).toNat } : Operation Unit) machine =
        _
  rw [if_neg forward, offset]
  rfl

/-- A branch that is always taken. -/
theorem moves_branch (small : program.code.bytes.size < 2 ^ 31)
    (branch : BranchAt program.code start .always target stop) (grown : start.slots ≤ slots) :
    Moves program (At program start kept stack) (At program ⟨target, slots⟩ kept stack) := by
  obtain ⟨displacement, instruction, leads⟩ := branch
  intro machine here
  have jumped : jump displacement { machine with pc := stop.offset } = _ := jump_eq (leads small)
  have performed : perform program (.branch .always displacement)
      { machine with pc := stop.offset } = .ok none { machine with pc := target } := by
    change (do jump displacement; return none : Operation (Option Value)) _ = _
    rw [bind_of_ok jumped]
    rfl
  refine ⟨_, .head ((step_eq instruction here).trans performed) (.refl _), rfl, ?_⟩
  exact ⟨rfl, here.stack, here.size, (here.relax grown (List.Subset.refl _)).kept⟩

/-- Whether a branch on a truth value is taken. -/
theorem taken_eq {machine : Machine} {value : Value} (expected : Bool)
    (holds : machine.stack = value :: stack) :
    taken (.on expected) machine =
      match value.bool? with
      | some truth => .ok (decide (truth = expected)) { machine with stack }
      | none => .error (.invalidProgram .expectedBoolean) { machine with stack } := by
  have popped : popBool machine = require .expectedBoolean value.bool? { machine with stack } := by
    obtain ⟨pc, _, locals, heap, calls⟩ := machine
    cases holds
    rfl
  cases truth? : value.bool? with
  | none =>
    rw [truth?] at popped
    cases expected
    · exact bind_of_error popped
    · exact popped
  | some truth =>
    rw [truth?] at popped
    cases expected
    · refine (bind_of_ok popped).trans ?_
      cases truth <;> rfl
    · refine popped.trans ?_
      cases truth <;> rfl

/-- A branch that is taken on a truth value. -/
theorem triple_branch {value : Value} (small : program.code.bytes.size < 2 ^ 31) (expected : Bool)
    (branch : BranchAt program.code start (.on expected) target stop)
    (grown : start.slots ≤ slots) :
    Triple program (At program start kept (value :: stack)) (Semantics.truth value)
      (fun truth => At program (if truth = expected then ⟨target, slots⟩ else stop) kept
        stack) := by
  obtain ⟨displacement, instruction, leads⟩ := branch
  intro machine here
  have tested : taken (.on expected) { machine with pc := stop.offset } = _ :=
    taken_eq expected here.stack
  have behind : At program stop kept stack { machine with pc := stop.offset, stack } :=
    here.advance instruction.slots_eq
  have stepped := step_eq instruction here
  unfold Semantics.truth
  -- what is no Boolean stops both sides before they branch
  cases truth? : value.bool? with
  | none =>
    rw [truth?] at tested
    exact ⟨machine, _, .refl _, stepped.trans (bind_of_error tested), rfl⟩
  | some truth =>
    rw [truth?] at tested
    have branched := stepped.trans (bind_of_ok tested)
    by_cases taken : truth = expected
    · have jumped : jump displacement { machine with pc := stop.offset, stack } = _ :=
        jump_eq (leads small)
      rw [decide_eq_true taken] at branched
      refine ⟨_, .head (branched.trans (bind_of_ok jumped)) (.refl _), rfl, ?_⟩
      simp only [if_pos taken]
      exact ⟨rfl, rfl, here.size, (here.relax grown (List.Subset.refl _)).kept⟩
    · rw [decide_eq_false taken] at branched
      refine ⟨_, .head branched (.refl _), rfl, ?_⟩
      simp only [if_neg taken]
      exact behind

end Branches

/-! ## Arrays -/

section Arrays

variable {program : Program} {start stop : Cursor} {kept : List (Nat × Value)} {stack : List Value}

/-- A small number as an Int32 is the number. -/
theorem value_i32 {n : Nat} (small : n < 2 ^ 31) : (Word.ofInt .i32 n).value = n := by
  rw [Word.value_ofInt, IntType.wrap_eq_self]
  simp only [IntType.InRange, IntType.minValue, IntType.maxValue, IntType.signed, IntType.bits,
    if_true]
  omega

/-- A small number is read back as a 32-bit integer. -/
theorem int?_i32 {n : Nat} (small : n < 2 ^ 31) : (Value.i32 n).int? .i32 = some (n : Int) := by
  rw [Value.i32, Value.int?, Word.type_ofInt, if_pos rfl, value_i32 small]

/-- A small number is read back as an integer. -/
theorem integer?_i32 {n : Nat} (small : n < 2 ^ 31) : (Value.i32 n).integer? = some (n : Int) := by
  rw [Value.i32, Value.integer?, value_i32 small]

/-- An array of a length, filled with default values, is made. -/
theorem triple_newArray {element : Ty} {length : Nat} {count : Value}
    (allocated : NewArrayAt program.code start element stop)
    (counted : count.int? .i32 = some (length : Int)) :
    Triple program (At program start kept (count :: stack))
      (modifyGet fun world =>
        let (reference, heap) := world.heap.allocDefault element.code length
        (reference, { world with heap }) : Eval ArrayRef)
      (fun reference => At program stop kept (.array reference :: stack)) := by
  obtain ⟨token, instruction, listed⟩ := allocated
  intro machine here
  have nonneg : ¬ (length : Int) < 0 := Int.not_lt.2 (Int.natCast_nonneg length)
  have popped : popInt32 { machine with pc := stop.offset, stack := count :: stack } =
      .ok (length : Int) { machine with pc := stop.offset, stack } := by
    change require .expectedInt32 (count.int? .i32) _ = _
    rw [counted]
    rfl
  have made : newArray element.code { machine with pc := stop.offset, stack := count :: stack } =
      .ok () { machine with
        pc := stop.offset
        stack := .array (machine.heap.allocDefault element.code length).1 :: stack
        heap := (machine.heap.allocDefault element.code length).2 } := by
    unfold newArray
    rw [bind_of_ok popped, if_neg nonneg]
    rfl
  have stepped := step_eq instruction here
  rw [here.stack] at stepped
  have found := entry_of_listed listed { machine with pc := stop.offset, stack := count :: stack }
  have performed := stepped.trans ((bind_of_ok found).trans (bind_of_ok made))
  refine ⟨_, .head performed (.refl _), rfl, ?_⟩
  exact ⟨rfl, rfl, here.size, instruction.slots_eq ▸ here.kept⟩

/-- A position and an array on the stack. -/
theorem popElement_array (machine : Machine) (pc : Nat) (reference : ArrayRef) (stack : List Value)
    {position : Value} {index : Int} (located : position.integer? = some index) :
    popElement { machine with pc, stack := position :: .array reference :: stack } =
      if 0 ≤ index ∧ index.toNat < machine.heap.length reference then
        .ok (reference, index.toNat) { machine with pc, stack }
      else .error (.indexOutOfBounds (min index IntType.i64.maxValue)
        (machine.heap.length reference)) { machine with pc, stack } := by
  change (do
    let index ← require .expectedIntegerIndex position.integer?
    let array ← popArray
    let length := (← get).heap.length array
    if 0 ≤ index ∧ index.toNat < length then return (array, index.toNat)
    else throw (.indexOutOfBounds (min index IntType.i64.maxValue) length) :
      Operation (ArrayRef × Nat)) { machine with pc, stack := .array reference :: stack } = _
  rw [located]
  by_cases inside : 0 ≤ index ∧ index.toNat < machine.heap.length reference
  · rw [if_pos inside]
    exact congrFun (if_pos inside) _
  · rw [if_neg inside]
    exact congrFun (if_neg inside) _

/-- An index and an array on the stack are looked at as an evaluation does it. -/
theorem popElement_eq (machine : Machine) (pc : Nat) (array index : Value) :
    (∃ reference position, position < machine.heap.length reference ∧
      Semantics.element array index machine.world = .ok (reference, position) machine.world ∧
      popElement { machine with pc, stack := index :: array :: stack } =
        .ok (reference, position) { machine with pc, stack }) ∨
    ∃ error last, last.world = machine.world ∧
      Semantics.element array index machine.world = .error error machine.world ∧
      popElement { machine with pc, stack := index :: array :: stack } = .error error last := by
  obtain ⟨_, _, locals, heap, calls⟩ := machine
  have popped : popElement ⟨pc, index :: array :: stack, locals, heap, calls⟩ = (do
      let index ← require .expectedIntegerIndex index.integer?
      let array ← popArray
      let length := (← get).heap.length array
      if 0 ≤ index ∧ index.toNat < length then return (array, index.toNat)
      else throw (.indexOutOfBounds (min index IntType.i64.maxValue) length) :
        Operation (ArrayRef × Nat)) ⟨pc, array :: stack, locals, heap, calls⟩ := rfl
  unfold Semantics.element
  -- the index is checked before the array is popped
  cases index? : index.integer? with
  | none =>
    rw [index?] at popped
    exact .inr ⟨_, ⟨pc, array :: stack, locals, heap, calls⟩, rfl, rfl, popped⟩
  | some position =>
    rw [index?] at popped
    cases array with
    | array reference =>
      have located := popElement_array ⟨pc, [], locals, heap, calls⟩ pc reference stack index?
      by_cases inside : 0 ≤ position ∧ position.toNat < heap.length reference
      · rw [if_pos inside] at located
        exact .inl ⟨reference, position.toNat, inside.2, congrFun (if_pos inside) _, located⟩
      · rw [if_neg inside] at located
        exact .inr ⟨_, ⟨pc, stack, locals, heap, calls⟩, rfl, congrFun (if_neg inside) _, located⟩
    | null => exact .inr ⟨_, ⟨pc, stack, locals, heap, calls⟩, rfl, rfl, popped⟩
    | _ => exact .inr ⟨_, ⟨pc, stack, locals, heap, calls⟩, rfl, rfl, popped⟩

/-- The address of an element that exists is followed. -/
theorem dereference_element {machine : Machine} {reference : ArrayRef} {position : Nat} (pc : Nat)
    (stack : List Value) (inside : position < machine.heap.length reference) :
    dereference { machine with pc, stack := .elementAddress reference position :: stack } =
      .ok ((machine.heap.items reference).getD position .null) { machine with pc, stack } := by
  have item : (machine.heap.items reference)[position]? =
      some ((machine.heap.items reference).getD position .null) := by
    rw [Array.getD_eq_getD_getElem?, Array.getElem?_eq_getElem inside]
    rfl
  have top : pop { machine with pc, stack := .elementAddress reference position :: stack } =
      .ok (.elementAddress reference position) { machine with pc, stack } := rfl
  have looked : (get : Operation Machine) { machine with pc, stack } =
      .ok _ { machine with pc, stack } := rfl
  rw [dereference, bind_of_ok top]
  dsimp only
  rw [bind_of_ok looked]
  simp only [item]
  rfl

/-- An element is loaded. -/
theorem triple_elementLoad {array index : Value} (load : ElementLoadAt program.code start stop) :
    Triple program (At program start kept (index :: array :: stack))
      (do
        let (reference, position) ← Semantics.element array index
        return ((← get).heap.items reference).getD position .null)
      (fun value => At program stop kept (value :: stack)) := by
  intro machine here
  cases load with
  | plain loaded =>
    have stepped := step_eq loaded here
    rw [here.stack] at stepped
    rcases popElement_eq machine stop.offset array index with
      ⟨reference, position, -, evaluated, popped⟩ | ⟨error, last, sameWorld, evaluated, popped⟩
    · have performed := stepped.trans (bind_of_ok popped)
      rw [bind_of_ok evaluated]
      exact ⟨_, .head performed (.refl _), rfl, here.advance loaded.slots_eq⟩
    · rw [bind_of_error evaluated]
      exact ⟨machine, last, .refl _, stepped.trans (bind_of_error popped), sameWorld⟩
  | @byAddress token element _ middle _ address listed loaded =>
    have stepped := (step_eq address here).trans (bind_of_ok (entry_of_listed listed _))
    rw [here.stack] at stepped
    rcases popElement_eq machine middle.offset array index with
      ⟨reference, position, inside, evaluated, popped⟩ | ⟨error, last, sameWorld, evaluated, popped⟩
    · have performed := stepped.trans (bind_of_ok popped)
      have between : At program middle kept (.elementAddress reference position :: stack) _ :=
        here.advance address.slots_eq
      -- the position has been checked, so the element is there
      have read := dereference_element stop.offset stack inside
      have dereferenced := (step_eq loaded between).trans (bind_of_ok read)
      rw [bind_of_ok evaluated]
      exact ⟨_, .head performed (.head dereferenced (.refl _)), rfl,
        between.advance loaded.slots_eq⟩
    · rw [bind_of_error evaluated]
      exact ⟨machine, last, .refl _, stepped.trans (bind_of_error popped), sameWorld⟩

/-- A value is stored into an array that is on the stack with the position. -/
theorem triple_storeElement {reference : ArrayRef} {index : Nat} {position value : Value}
    (instruction : ActionAt program.code start .storeElement stop)
    (located : position.integer? = some (index : Int)) (small : index < 2 ^ 31) :
    Triple program (At program start kept (value :: position :: .array reference :: stack))
      (Semantics.store reference index value) (fun _ => At program stop kept stack) := by
  intro machine here
  have stepped := step_eq instruction here
  rw [here.stack] at stepped
  have notBeyond : min (index : Int) IntType.i64.maxValue = index := by
    simp only [IntType.maxValue, IntType.signed, IntType.bits, if_true]
    omega
  have popped := popElement_array machine stop.offset reference stack located
  rw [notBeyond, Int.toNat_natCast] at popped
  have opened : storeElement { machine with
      pc := stop.offset, stack := value :: position :: .array reference :: stack } = (do
      let (array, index) ← popElement
      let stored ← elementValue array.element value
      modify fun machine => { machine with heap := machine.heap.store array index stored } :
        Operation Unit) { machine with
          pc := stop.offset, stack := position :: .array reference :: stack } := rfl
  -- on both sides the position is checked before the value is converted
  by_cases inside : index < machine.heap.length reference
  · rw [if_pos ⟨Int.natCast_nonneg index, inside⟩] at popped
    have evaluated : Semantics.store reference index value machine.world = (do
        let stored ←
          if reference.element.isNumeric then
            Semantics.require .invalidElementStore
              (value.convert? reference.element)
          else pure value
        modify fun world => { world with heap := world.heap.store reference index stored } :
          Eval Unit) machine.world := congrFun (if_pos inside) _
    have performed : storeElement _ = (do
        let stored ← elementValue reference.element value
        modify fun machine => { machine with heap := machine.heap.store reference index stored } :
          Operation Unit) { machine with pc := stop.offset, stack } :=
      opened.trans (bind_of_ok popped)
    rw [evaluated]
    unfold elementValue at performed
    by_cases numeric : reference.element.isNumeric
    · rw [if_pos numeric] at performed ⊢
      cases converted : value.convert? reference.element with
      | none =>
        rw [converted] at performed
        exact ⟨machine, _, .refl _, stepped.trans (bind_of_error performed), rfl⟩
      | some element =>
        rw [converted] at performed
        exact ⟨_, .head (stepped.trans (bind_of_ok performed)) (.refl _), rfl, rfl, rfl, here.size,
          instruction.slots_eq ▸ here.kept⟩
    · rw [if_neg numeric] at performed ⊢
      exact ⟨_, .head (stepped.trans (bind_of_ok performed)) (.refl _), rfl, rfl, rfl, here.size,
        instruction.slots_eq ▸ here.kept⟩
  · rw [if_neg fun both => inside both.2] at popped
    have evaluated : Semantics.store reference index value machine.world =
        .error (.indexOutOfBounds index (machine.heap.length reference)) machine.world :=
      congrFun (if_neg inside) _
    have failed := opened.trans (bind_of_error popped)
    rw [evaluated]
    exact ⟨machine, _, .refl _, stepped.trans (bind_of_error failed), rfl⟩

end Arrays

/-! ## Calls -/

section Calls

variable {program : Program} {setting : Setting} {start stop : Cursor} {kept : List (Nat × Value)}
  {stack : List Value}

/-- A host function is called with the values on the stack. -/
theorem triple_call {wanted : FunctionEntry} {arguments : List Value}
    (sameHost : setting.host = program.host) (coherent : setting.env.Coherent)
    (called : CallAt program.code setting.env start wanted stop)
    (arity : arguments.length = wanted.arity) :
    Triple program (At program start kept (arguments.reverse ++ stack))
      (Semantics.call setting wanted.function arguments)
      (fun value => At program stop kept (value :: stack)) := by
  obtain ⟨token, function, instruction, listed, sameKey, callable, wantedCallable⟩ := called
  -- the table may hold an entry of the same name and function, which then has the same arity
  have sameArity : function.arity = arguments.length :=
    (coherent.sameArity function callable wanted wantedCallable sameKey).trans arity.symm
  have sameFunction : function.function = wanted.function :=
    congrArg FunctionKey.function sameKey
  intro machine here
  have found := entry_of_listed listed { machine with
    pc := stop.offset, stack := arguments.reverse ++ stack }
  have enough : ¬ (arguments.reverse ++ stack).length < function.arity := by
    rw [List.length_append, List.length_reverse, sameArity]
    omega
  have taken : ((arguments.reverse ++ stack).take function.arity).reverse = arguments := by
    rw [sameArity, ← List.length_reverse, List.take_left, List.reverse_reverse]
  have dropped : (arguments.reverse ++ stack).drop function.arity = stack := by
    rw [sameArity, ← List.length_reverse, List.drop_left]
  have made : callFunction program.host function { machine with
      pc := stop.offset, stack := arguments.reverse ++ stack } =
      (do push (← ofExcept (program.host.call wanted.function arguments machine.heap).1) :
        Operation Unit) { machine with
          pc := stop.offset
          stack
          heap := (program.host.call wanted.function arguments machine.heap).2
          calls := machine.calls.push ⟨wanted.function, arguments, machine.heap⟩ } := by
    unfold callFunction
    change (if (arguments.reverse ++ stack).length < function.arity then _ else _ : Operation Unit)
      _ = _
    rw [if_neg enough, taken, dropped, sameFunction]
    rfl
  have stepped := step_eq instruction here
  rw [here.stack] at stepped
  have evaluated : Semantics.call setting wanted.function arguments machine.world =
      (Semantics.ofExcept (program.host.call wanted.function arguments machine.heap).1 : Eval Value)
        ⟨(program.host.call wanted.function arguments machine.heap).2,
          machine.calls.push ⟨wanted.function, arguments, machine.heap⟩⟩ := by
    rw [← sameHost]
    rfl
  rw [evaluated]
  cases result : (program.host.call wanted.function arguments machine.heap).1 with
  | ok value =>
    rw [result] at made
    have called := stepped.trans ((bind_of_ok found).trans (bind_of_ok made))
    exact ⟨_, .head called (.refl _), rfl, rfl, rfl, here.size, instruction.slots_eq ▸ here.kept⟩
  | error error =>
    rw [result] at made
    have called := stepped.trans ((bind_of_ok found).trans (bind_of_error made))
    exact ⟨machine, _, .refl _, called, rfl⟩

end Calls

end Machine

end ExprCode
