import ExprCode.Proofs.Execution

/-! # Stack effects

What an instruction does to the height of the stack and where control goes behind it, as far as code
alone tells. `Settles` says that all ways from an instruction lead to a place without taking from
the stack what was there before, and arrive with one value more. `Machine.Settling.reaches` ties
this to the machine, which goes one of these ways and keeps the stack below. -/

namespace ExprCode

namespace Action

/-- How many values an action takes from the stack and how many it leaves there instead. Actions
that end a run have no effect, and neither has a call of what is not in the function table. -/
def effect? (code : Code) : Action → Option (Nat × Nat)
  | halt | ret => none
  | nop | branch .always _ => some (0, 0)
  | dup => some (1, 2)
  | pop | storeLocal _ | branch .ifTrue _ | branch .ifFalse _ => some (1, 0)
  | push _ | pushString _ | loadLocal _ | loadLocalAddress _ | loadArgument _ => some (0, 1)
  | dereference | negate | complement | convert _ | newArray _ | length => some (1, 1)
  | binary _ | shift _ | compare _ | loadElement | elementAddress _ => some (2, 1)
  | storeElement => some (3, 0)
  | call token => code.functions[token]?.map fun entry => (entry.arity, 1)

/-- The offsets to which control may go behind an action; the next instruction starts at `next`. -/
def targets (next : Nat) : Action → List Int
  | branch .always displacement => [next + displacement]
  | branch _ displacement => [(next : Int), next + displacement]
  | _ => [(next : Int)]

end Action

/-- All ways from an offset, with a number of values on the stack, go forward to the stop and arrive
there with one value, or leave behind it at an exit with none; nothing below the values counted is
taken. -/
inductive Settles (code : Code) (stop : Nat) (exits : Nat → Prop) : Nat → Nat → Prop
  | arrived : Settles code stop exits stop 1
  | left {offset : Nat} (leads : exits offset) (behind : stop < offset) :
      Settles code stop exits offset 0
  | step {offset height pops pushes : Nat} {decoded : Decoded} (inside : offset < stop)
      (decodes : code.decodeAt? offset = some decoded)
      (effect : (Action.read decoded.op decoded.immediate).effect? code = some (pops, pushes))
      (enough : pops ≤ height)
      (forward : ∀ target ∈ (Action.read decoded.op decoded.immediate).targets decoded.next,
        (offset : Int) < target)
      (onward : ∀ place : Nat,
        (place : Int) ∈ (Action.read decoded.op decoded.immediate).targets decoded.next →
          Settles code stop exits place (height - pops + pushes)) :
      Settles code stop exits offset height

/-- There is no way but to the stop. -/
def NoExit : Nat → Prop := fun _ => False

namespace Machine

variable {program : Program} {α β : Type}

/-! ## Operations -/

/-- A state has the stack of another with some values taken from it and some put there instead. -/
def Exchanged (pops pushes : Nat) (before after : Machine) : Prop :=
  pops ≤ before.stack.length ∧
    ∃ pushed, after.stack = pushed ++ before.stack.drop pops ∧ pushed.length = pushes

/-- An operation that succeeds takes values from the stack and puts others there; control stays
where it is. -/
def HasEffect (operation : Operation α) (pops pushes : Nat) : Prop :=
  ∀ before after value, operation before = .ok value after →
    Exchanged pops pushes before after ∧ after.pc = before.pc

/-- A stack that stays the same exchanges nothing. -/
theorem Exchanged.of_eq {before after : Machine} (same : after.stack = before.stack) :
    Exchanged 0 0 before after :=
  ⟨Nat.zero_le _, [], same, rfl⟩

/-- What was put there first is taken first. -/
theorem Exchanged.trans {before middle after : Machine} {pops pushes taken left : Nat}
    (first : Exchanged pops pushes before middle) (second : Exchanged taken left middle after) :
    Exchanged (pops + (taken - pushes)) (left + (pushes - taken)) before after := by
  obtain ⟨enough, pushed, middleStack, rfl⟩ := first
  obtain ⟨stillEnough, last, afterStack, rfl⟩ := second
  rw [middleStack, List.length_append, List.length_drop] at stillEnough
  refine ⟨by omega, last ++ pushed.drop taken, ?_, by simp⟩
  rw [afterStack, middleStack, List.drop_append, List.drop_drop, List.append_assoc]

namespace HasEffect

variable {operation : Operation α} {next : α → Operation β} {pops pushes taken left : Nat}

/-- A plain value leaves the stack as it is. -/
theorem pure (value : α) : HasEffect (Pure.pure value) 0 0 := by
  intro before after result h
  cases h
  exact ⟨.of_eq rfl, rfl⟩

/-- A failure has every effect. -/
theorem throw (error : RuntimeError) :
    HasEffect (MonadExcept.throw error : Operation α) pops pushes := by
  intro before after result h
  cases h

/-- A check leaves the stack as it is. -/
theorem require {fault : Fault} (value? : Option α) :
    HasEffect (Machine.require fault value?) 0 0 := by
  cases value? with
  | some value => exact .pure value
  | none => exact .throw _

/-- A result that is lifted leaves the stack as it is. -/
theorem ofExcept (result : Except RuntimeError α) : HasEffect (Machine.ofExcept result) 0 0 := by
  cases result with
  | ok value => exact .pure value
  | error error => exact .throw error

/-- Reading the machine leaves the stack as it is. -/
theorem get : HasEffect (MonadState.get : Operation Machine) 0 0 := by
  intro before after result h
  cases h
  exact ⟨.of_eq rfl, rfl⟩

/-- A change of the other parts leaves the stack as it is. -/
theorem change {change : Machine → Machine}
    (stack : ∀ machine, (change machine).stack = machine.stack)
    (pc : ∀ machine, (change machine).pc = machine.pc) : HasEffect (modify change) 0 0 := by
  intro before after result h
  cases h
  exact ⟨.of_eq (stack before), pc before⟩

/-- One operation after another takes first what the other has left. -/
theorem bind (first : HasEffect operation pops pushes)
    (second : ∀ value, HasEffect (next value) taken left) :
    HasEffect (operation >>= next) (pops + (taken - pushes)) (left + (pushes - taken)) := by
  intro before after result h
  obtain ⟨value, middle, firstRun, secondRun⟩ := bind_eq_ok h
  obtain ⟨exchanged, place⟩ := first _ _ _ firstRun
  obtain ⟨lastExchanged, lastPlace⟩ := second value _ _ _ secondRun
  exact ⟨exchanged.trans lastExchanged, lastPlace.trans place⟩

/-- A choice between operations of one effect has that effect. -/
theorem ite {condition : Prop} [Decidable condition] {first second : Operation α}
    (whenTrue : HasEffect first pops pushes) (whenFalse : HasEffect second pops pushes) :
    HasEffect (if condition then first else second) pops pushes := by
  split
  · exact whenTrue
  · exact whenFalse

/-- An operation behind which the run goes on. -/
theorem goOn {operation : Operation Unit} (h : HasEffect operation pops pushes) :
    HasEffect (do operation; return (none : Option Value)) pops pushes := by
  simpa using h.bind fun _ => .pure (none : Option Value)

end HasEffect

/-- A push adds one value. -/
theorem hasEffect_push (value : Value) : HasEffect (push value) 0 1 := by
  intro before after result h
  cases h
  exact ⟨⟨Nat.zero_le _, [value], rfl, rfl⟩, rfl⟩

/-- A pop takes one value. -/
theorem hasEffect_pop : HasEffect pop 1 0 := by
  intro before after result h
  obtain ⟨machine, _, read, rest⟩ := bind_eq_ok h
  cases read
  cases stack : before.stack with
  | nil =>
    rw [stack] at rest
    cases rest
  | cons value values =>
    rw [stack] at rest
    cases rest
    refine ⟨⟨?_, [], ?_, rfl⟩, rfl⟩ <;> simp [stack]

/-- Popping a truth value takes one value. -/
theorem hasEffect_popBool : HasEffect popBool 1 0 :=
  .bind hasEffect_pop fun _ => .require _

/-- Popping an integer takes one value. -/
theorem hasEffect_popInt32 : HasEffect popInt32 1 0 :=
  .bind hasEffect_pop fun _ => .require _

/-- Popping an array takes one value. -/
theorem hasEffect_popArray : HasEffect popArray 1 0 := by
  refine .bind hasEffect_pop fun value => (?_ : HasEffect _ 0 0)
  cases value with
  | array reference => exact .pure reference
  | null => exact .throw _
  | _ => exact .throw _

/-- A place in an array takes two values, the array and the index. -/
theorem hasEffect_popElement : HasEffect popElement 2 0 := by
  refine .bind hasEffect_pop fun value => (?_ : HasEffect _ 1 0)
  refine .bind (.require _) fun index => (?_ : HasEffect _ 1 0)
  refine .bind hasEffect_popArray fun array => (?_ : HasEffect _ 0 0)
  exact .bind .get fun _ => .ite (.pure _) (.throw _)

/-- Following an address takes one value. -/
theorem hasEffect_dereference : HasEffect dereference 1 0 := by
  refine .bind hasEffect_pop fun value => (?_ : HasEffect _ 0 0)
  cases value with
  | localAddress slot => exact .bind .get fun _ => .require _
  | elementAddress array index =>
    refine .bind .get fun machine => (?_ : HasEffect _ 0 0)
    dsimp only
    cases (machine.heap.items array)[index]? with
    | some value => exact .pure value
    | none => exact .throw _
  | null => exact .throw _
  | _ => exact .throw _

/-- Storing a local takes one value. -/
theorem hasEffect_storeLocal (slot : Nat) : HasEffect (storeLocal slot) 1 0 := by
  refine .bind hasEffect_pop fun value => (?_ : HasEffect _ 0 0)
  refine .bind .get fun machine => (?_ : HasEffect _ 0 0)
  exact .ite (.change (fun _ => rfl) fun _ => rfl) (.throw _)

/-- Storing an element takes three values. -/
theorem hasEffect_storeElement : HasEffect storeElement 3 0 := by
  refine .bind hasEffect_pop fun value => (?_ : HasEffect _ 2 0)
  refine .bind hasEffect_popElement fun (array, index) => (?_ : HasEffect _ 0 0)
  refine .bind (.ite (.require _) (.pure _)) fun stored => (?_ : HasEffect _ 0 0)
  exact .change (fun _ => rfl) fun _ => rfl

/-- A new array takes its length and leaves a reference. -/
theorem hasEffect_newArray (element : TypeCode) : HasEffect (newArray element) 1 1 := by
  refine .bind hasEffect_popInt32 fun length => (?_ : HasEffect _ 0 1)
  refine .ite (.throw _) (.bind .get fun machine => (?_ : HasEffect _ 0 1))
  refine .bind (.change ?_ ?_) fun _ => hasEffect_push _
  · exact fun _ => rfl
  · exact fun _ => rfl

/-- A call takes as many arguments as the entry of the function table says. -/
theorem hasEffect_callFunction (host : Host) (function : FunctionEntry) :
    HasEffect (callFunction host function) function.arity 1 := by
  intro before after result h
  obtain ⟨machine, _, read, rest⟩ := bind_eq_ok h
  cases read
  by_cases short : before.stack.length < function.arity
  · rw [if_pos short] at rest
    cases rest
  · rw [if_neg short] at rest
    obtain ⟨_, called, setRun, rest⟩ := bind_eq_ok rest
    cases setRun
    obtain ⟨exchanged, place⟩ :=
      HasEffect.bind (.ofExcept _) (fun _ => hasEffect_push _) _ _ _ rest
    refine ⟨Exchanged.trans ⟨Nat.le_of_not_lt short, [], rfl, rfl⟩ exchanged, place⟩

/-- A branch takes the value that it tests, if it tests one. -/
theorem hasEffect_taken (condition : BranchCondition) :
    HasEffect (taken condition) (match condition with | .always => 0 | _ => 1) 0 := by
  cases condition with
  | always => exact .pure true
  | ifTrue => exact hasEffect_popBool
  | ifFalse => exact .bind hasEffect_popBool fun _ => .pure _

/-! ## Actions -/

/-- A duplicate takes one value and leaves it twice. -/
theorem hasEffect_dup : HasEffect (perform program .dup) 1 2 := by
  intro before after result h
  obtain ⟨machine, _, read, rest⟩ := bind_eq_ok h
  cases read
  cases stack : before.stack with
  | nil =>
    rw [stack] at rest
    cases rest
  | cons value values =>
    rw [stack] at rest
    cases rest
    refine ⟨⟨?_, [value, value], ?_, rfl⟩, rfl⟩ <;> simp [stack]

/-- An action that does not branch has its effect and goes on with the next instruction. -/
theorem hasEffect_perform {action : Action} {pops pushes : Nat}
    (plain : ∀ condition displacement, action ≠ .branch condition displacement)
    (effect : action.effect? program.code = some (pops, pushes)) :
    HasEffect (perform program action) pops pushes := by
  -- `cases effect` says how much is taken and left; the parts of the action add up to it
  cases action with
  | halt | ret => cases effect
  | branch condition displacement => exact absurd rfl (plain condition displacement)
  | nop =>
    cases effect
    exact .pure none
  | dup =>
    cases effect
    exact hasEffect_dup
  | pop =>
    cases effect
    exact .bind hasEffect_pop fun _ => .pure _
  | push value =>
    cases effect
    exact (hasEffect_push value).goOn
  | pushString token =>
    cases effect
    exact .bind (.require _) fun _ => (hasEffect_push _).goOn
  | loadLocal slot =>
    cases effect
    exact .bind (.bind .get fun _ => .require _) fun _ => (hasEffect_push _).goOn
  | storeLocal slot =>
    cases effect
    exact (hasEffect_storeLocal slot).goOn
  | loadLocalAddress slot =>
    cases effect
    refine .bind .get fun machine => (?_ : HasEffect _ 0 1)
    exact .ite (hasEffect_push _).goOn (.throw _)
  | loadArgument index =>
    cases effect
    exact .bind (.require _) fun _ => (hasEffect_push _).goOn
  | dereference =>
    cases effect
    exact .bind hasEffect_dereference fun _ => (hasEffect_push _).goOn
  | binary function =>
    cases effect
    exact .bind hasEffect_pop fun _ => .bind hasEffect_pop fun _ =>
      .bind (.ofExcept _) fun _ => (hasEffect_push _).goOn
  | negate | complement =>
    cases effect
    exact .bind hasEffect_pop fun _ => .bind (.ofExcept _) fun _ => (hasEffect_push _).goOn
  | shift direction =>
    cases effect
    exact .bind hasEffect_popInt32 fun _ => .bind hasEffect_pop fun _ =>
      .bind (.ofExcept _) fun _ => (hasEffect_push _).goOn
  | compare relation =>
    cases effect
    exact .bind hasEffect_pop fun _ => .bind hasEffect_pop fun _ =>
      .bind (.ofExcept _) fun _ => (hasEffect_push _).goOn
  | convert typeByte =>
    cases effect
    exact .bind (.require _) fun _ => .bind hasEffect_pop fun _ => .bind (.require _) fun _ =>
      (hasEffect_push _).goOn
  | newArray token =>
    cases effect
    exact .bind (.require _) fun _ => (hasEffect_newArray _).goOn
  | length =>
    cases effect
    exact .bind hasEffect_popArray fun _ => .bind .get fun _ => (hasEffect_push _).goOn
  | loadElement =>
    cases effect
    exact .bind hasEffect_popElement fun _ => .bind .get fun _ => (hasEffect_push _).goOn
  | elementAddress token =>
    cases effect
    exact .bind (.require _) fun _ => .bind hasEffect_popElement fun _ =>
      (hasEffect_push _).goOn
  | storeElement =>
    cases effect
    exact hasEffect_storeElement.goOn
  | call token =>
    obtain ⟨entry, listed, same⟩ := Option.map_eq_some_iff.1 effect
    cases same
    have called := (hasEffect_callFunction program.host entry).goOn
    have found : (Machine.entry program.code.functions token : Operation FunctionEntry) =
        pure entry := by
      rw [Machine.entry, listed]
      rfl
    rw [perform, found, pure_bind]
    exact called

/-- A jump moves the program counter by its displacement and leaves the stack as it is. -/
theorem jump_eq_ok {displacement : Int} {before after : Machine}
    (h : jump displacement before = .ok () after) :
    after.stack = before.stack ∧ (after.pc : Int) = before.pc + displacement := by
  obtain ⟨machine, _, read, rest⟩ := bind_eq_ok h
  cases read
  by_cases negative : (before.pc : Int) + displacement < 0
  · rw [if_pos negative] at rest
    cases rest
  · rw [if_neg negative] at rest
    cases rest
    exact ⟨rfl, Int.toNat_of_nonneg (Int.not_lt.1 negative)⟩

/-- A branch takes its condition and goes on with the next instruction or at its target. -/
theorem perform_branch {condition : BranchCondition} {displacement : Int} {before after : Machine}
    {result : Option Value}
    (h : perform program (.branch condition displacement) before = .ok result after) :
    ∃ pops, (Action.branch condition displacement).effect? program.code = some (pops, 0) ∧
      Exchanged pops 0 before after ∧
      (after.pc : Int) ∈ (Action.branch condition displacement).targets before.pc := by
  obtain ⟨jumps, middle, chosen, rest⟩ := bind_eq_ok h
  obtain ⟨exchanged, place⟩ := hasEffect_taken condition _ _ _ chosen
  have outcome : after.stack = middle.stack ∧
      (after.pc : Int) = if jumps then before.pc + displacement else (before.pc : Int) := by
    cases jumps with
    | true =>
      obtain ⟨_, _, jumped, done⟩ := bind_eq_ok rest
      cases done
      rw [← place]
      exact jump_eq_ok jumped
    | false =>
      cases rest
      exact ⟨rfl, congrArg Nat.cast place⟩
  obtain ⟨sameStack, target⟩ := outcome
  refine ⟨_, ?_, exchanged.trans (.of_eq sameStack), ?_⟩
  · cases condition <;> rfl
  · rw [target]
    cases condition with
    | always =>
      cases chosen
      exact .head _
    | ifTrue | ifFalse => cases jumps <;> simp [Action.targets]

/-- An action without an effect ends the run. -/
theorem perform_ne_none {action : Action} {before after : Machine}
    (effect : action.effect? program.code = none) :
    perform program action before ≠ .ok none after := by
  intro h
  cases action with
  | halt => cases h
  | ret =>
    obtain ⟨_, _, _, returned⟩ := bind_eq_ok h
    cases returned
  | call token =>
    have missing : (Machine.entry program.code.functions token : Operation FunctionEntry) =
        Machine.fault .tokenOutOfRange := by
      rw [Machine.entry, Option.map_eq_none_iff.1 effect]
      rfl
    rw [perform, missing] at h
    cases h
  | branch condition displacement => cases condition <;> cases effect
  | _ => cases effect

/-- An action that does not end the run has its effect, and control goes to one of its targets. -/
theorem perform_effect {action : Action} {before after : Machine}
    (h : perform program action before = .ok none after) :
    ∃ pops pushes, action.effect? program.code = some (pops, pushes) ∧
      Exchanged pops pushes before after ∧
      (after.pc : Int) ∈ action.targets before.pc := by
  cases effect : action.effect? program.code with
  | none => exact absurd h (perform_ne_none effect)
  | some counts =>
    obtain ⟨pops, pushes⟩ := counts
    cases action with
    | branch condition displacement =>
      obtain ⟨taken, same, exchanged, target⟩ := perform_branch h
      cases effect.symm.trans same
      exact ⟨_, 0, rfl, exchanged, target⟩
    | _ =>
      obtain ⟨exchanged, place⟩ := hasEffect_perform (by nofun) effect _ _ _ h
      rw [place]
      exact ⟨pops, pushes, rfl, exchanged, .head _⟩

/-- A step that does not end the run has the effect of the instruction, and control goes to one of
its targets. -/
theorem step_effect {before after : Machine} (h : step program before = .ok none after) :
    ∃ decoded pops pushes, program.code.decodeAt? before.pc = some decoded ∧
      (Action.read decoded.op decoded.immediate).effect? program.code = some (pops, pushes) ∧
      Exchanged pops pushes before after ∧
      (after.pc : Int) ∈ (Action.read decoded.op decoded.immediate).targets decoded.next := by
  obtain ⟨machine, _, read, rest⟩ := bind_eq_ok h
  cases read
  cases decodes : program.code.decodeAt? before.pc with
  | none =>
    rw [decodes] at rest
    cases rest
  | some decoded =>
    rw [decodes] at rest
    obtain ⟨_, moved, move, performed⟩ := bind_eq_ok rest
    cases move
    obtain ⟨pops, pushes, effect, exchanged, target⟩ := perform_effect performed
    exact ⟨decoded, pops, pushes, rfl, effect, exchanged, target⟩

/-! ## Runs -/

variable {stop : Nat} {exits : Nat → Prop} {below : List Value} {before after : Machine}

/-- There are some values above a stack, and with them all ways from here settle. -/
def Settling (program : Program) (stop : Nat) (exits : Nat → Prop) (below : List Value)
    (machine : Machine) : Prop :=
  ∃ values, machine.stack = values ++ below ∧
    Settles program.code stop exits machine.pc values.length

/-- The stop is reached with one value above a stack, or an exit with none. -/
def Settled (stop : Nat) (exits : Nat → Prop) (below : List Value) (machine : Machine) : Prop :=
  (machine.pc = stop ∧ ∃ value, machine.stack = value :: below) ∨
    (exits machine.pc ∧ machine.stack = below)

/-- What is settling is settled, or settles after one more step. -/
theorem Settling.settled_or_step (settling : Settling program stop exits below before)
    (h : step program before = .ok none after) :
    Settled stop exits below before ∨ Settling program stop exits below after := by
  obtain ⟨values, stack, settles⟩ := settling
  generalize heightEq : values.length = height at settles
  generalize offsetEq : before.pc = offset at settles
  cases settles with
  | arrived =>
    obtain ⟨value, rfl⟩ := List.length_eq_one_iff.1 heightEq
    exact .inl (.inl ⟨offsetEq, value, stack⟩)
  | left leads _ =>
    cases List.length_eq_zero_iff.1 heightEq
    exact .inl (.inr ⟨offsetEq ▸ leads, stack⟩)
  | @step _ _ pops pushes decoded _ decodes effect enough _ onward =>
    subst offsetEq heightEq
    obtain ⟨_, _, _, sameDecodes, sameEffect, exchanged, target⟩ := step_effect h
    cases decodes.symm.trans sameDecodes
    cases effect.symm.trans sameEffect
    obtain ⟨-, pushed, afterStack, rfl⟩ := exchanged
    -- no more is taken than the values that are counted, so what is below them stays
    have kept : after.stack = (pushed ++ values.drop pops) ++ below := by
      rw [afterStack, stack, List.drop_append_of_le_length enough, List.append_assoc]
    refine .inr ⟨_, kept, ?_⟩
    have settles := onward after.pc target
    rwa [List.length_append, List.length_drop, Nat.add_comm]

/-- From where all ways settle, the machine keeps the stack below until it has settled. -/
theorem Settling.reaches (settling : Settling program stop exits below before)
    (reaches : Reaches program before after) :
    Settling program stop exits below after ∨ ∃ middle, Reaches program before middle ∧
      Settled stop exits below middle ∧ Reaches program middle after := by
  induction reaches with
  | refl machine => exact .inl settling
  | head first rest ih =>
    rcases settling.settled_or_step first with settled | settling
    · exact .inr ⟨_, .refl _, settled, .head first rest⟩
    · rcases ih settling with still | ⟨middle, before, settled, behind⟩
      · exact .inl still
      · exact .inr ⟨middle, .head first before, settled, behind⟩

end Machine

end ExprCode
