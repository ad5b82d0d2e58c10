import ExprCode.Proofs.ArrayWrites
import ExprCode.Proofs.ValueTyping

/-! # Arrays of numbers

Main statement: `arraysTyped_of_reaches`. Whatever the code is, the arrays of numbers that a run
comes across have elements of their own kind only, if the arrays that it starts with have, if no two
references to one array name different kinds, and if host functions leave it so. Values are
converted when they are stored, by the kind that the reference names and not by the opcode; so a
reference that names another kind breaks this, and so does a host function that answers with such an
array (`not_arraysTyped`). Only a host function can give an array another length.

The proof keeps a set of known references (`Machine.Knows`): all that the machine holds mentions
known references only, so do the elements of known arrays, and known arrays of numbers have elements
of their kind. -/

namespace ExprCode

/-! ## Arrays that values mention -/

namespace Value

/-- A value mentions an array: it refers to it or to one of its elements, or is an object with a
field that does. -/
inductive Mentions : Value → ArrayRef → Prop
  /-- It is the array. -/
  | array (reference : ArrayRef) : Mentions (.array reference) reference
  /-- It is the address of an element. -/
  | address (reference : ArrayRef) (index : Nat) :
      Mentions (.elementAddress reference index) reference
  /-- A field mentions the array. -/
  | field {type : String} {fields : List Value} {value : Value} {reference : ArrayRef}
      (listed : value ∈ fields)
      (mentions : Mentions value reference) : Mentions (.object type fields) reference

/-- A value mentions known arrays only. -/
def Within (known : ArrayRef → Prop) (value : Value) : Prop :=
  ∀ array, value.Mentions array → known array

variable {known later : ArrayRef → Prop} {value : Value}

/-- A value is within every larger set of arrays. -/
theorem Within.mono (within : value.Within known) (more : ∀ array, known array → later array) :
    value.Within later :=
  fun array mentions => more array (within array mentions)

/-- A reference is within the arrays that hold what it refers to. -/
theorem within_array {array : ArrayRef} (isKnown : known array) :
    (Value.array array).Within known := by
  intro mentioned mentions
  cases mentions
  exact isKnown

/-- An address is within the arrays that hold what it points into. -/
theorem within_elementAddress {array : ArrayRef} (isKnown : known array) (index : Nat) :
    (Value.elementAddress array index).Within known := by
  intro mentioned mentions
  cases mentions
  exact isKnown

/-- A value that is no object and no address mentions no array. -/
theorem within_of_typeCode? {code : TypeCode} (typed : value.typeCode? = some code)
    (notObject : code ≠ .object) :
    value.Within known := by
  intro array mentions
  cases mentions with
  | array | field =>
    cases typed
    exact absurd rfl notObject
  | address => cases typed

/-- A default value has the type that it is the default of. -/
theorem typeCode?_default (code : TypeCode) : (default code).typeCode? = some code := by
  cases code <;> rfl

/-- A default value refers to no array. -/
theorem within_default (code : TypeCode) : (default code).Within known := by
  intro array mentions
  cases code <;> cases mentions

/-- A value is converted to the kind that is asked for. -/
theorem typeCode?_of_convert? {code : TypeCode} {converted : Value}
    (h : value.convert? code = some converted) :
    converted.typeCode? = some code := by
  unfold convert? at h
  split at h
  · next same =>
    cases h
    exact same
  · split at h <;> cases h <;> simp [typeCode?, FloatDatum.type_toWord]

/-- Conversions make no references. -/
theorem Within.convert? {code : TypeCode} {converted : Value} (within : value.Within known)
    (h : value.convert? code = some converted) : converted.Within known := by
  unfold Value.convert? at h
  split at h
  · cases h
    exact within
  · -- every other result is a number
    split at h <;> cases h <;> exact nofun

/-- What is made of the result of a computation mentions no array, if what is made mentions none. -/
theorem within_of_map {α : Type} {make : α → Value} {computed : Except RuntimeError α}
    {result : Value}
    (h : make <$> computed = .ok result) (plain : ∀ x, (make x).Within known) :
    result.Within known := by
  cases computed with
  | error error => cases h
  | ok x =>
    cases h
    exact plain x

/-- What a binary operation gives refers to no array. -/
theorem within_of_binary {function : BinaryFunction} {left right result : Value}
    (h : left.binary function right = .ok result) : result.Within known := by
  unfold binary at h
  split at h
  · split at h
    · exact within_of_map h fun _ => nofun
    · cases h
  · exact within_of_map h fun _ => nofun
  · exact within_of_map h fun _ => nofun
  · exact within_of_map h fun _ => nofun
  · split at h <;> cases h
    exact nofun
  · cases h

/-- A negated value refers to no array. -/
theorem within_of_negate {result : Value} (h : value.negate = .ok result) :
    result.Within known := by
  intro array mentions
  unfold negate at h
  split at h
  · split at h <;> cases h <;> cases mentions
  · cases h
    cases mentions
  · cases h
    cases mentions
  · cases h

/-- A complement refers to no array. -/
theorem within_of_complement {result : Value} (h : value.complement = .ok result) :
    result.Within known := by
  intro array mentions
  unfold complement at h
  split at h
  · cases h
    cases mentions
  · split at h <;> cases h
    cases mentions
  · cases h

/-- A shifted value refers to no array. -/
theorem within_of_shift {direction : ShiftDirection} {count : UInt32} {result : Value}
    (h : value.shift direction count = .ok result) : result.Within known := by
  intro array mentions
  unfold shift at h
  split at h
  · split at h
    · split at h <;> cases h <;> cases mentions
    · cases h
  · cases h

end Value

/-- Whether an instruction may bring arrays that were not known: it makes one, or the host answers
with one. -/
def Action.bringsArrays : Action → Bool
  | .newArray _ | .call _ => true
  | _ => false

/-- Constants of the code mention no array. -/
theorem Action.within_of_read {op : Opcode} {immediate : List UInt8} {value : Value}
    {known : ArrayRef → Prop}
    (h : Action.read op immediate = .push value) : value.Within known := by
  intro array mentions
  cases op <;> cases h <;> cases mentions

/-! ## Arrays in heaps -/

namespace Heap

variable {heap : Heap} {known : ArrayRef → Prop} {held : Value → Prop}

/-- If the reference is to an array of numbers, all elements are of the kind that it names. -/
def TypedAt (heap : Heap) (array : ArrayRef) : Prop :=
  array.element.isNumeric → ∀ item ∈ heap.items array, item.typeCode? = some array.element

/-- The references that are reached from values that are held: those that they mention, those that
the elements of their arrays mention, and so on. -/
inductive Reached (heap : Heap) (held : Value → Prop) : ArrayRef → Prop
  /-- A value that is held mentions the array. -/
  | start {value : Value} {array : ArrayRef} (isHeld : held value)
      (mentions : value.Mentions array) : Reached heap held array
  /-- An element of an array mentions another. -/
  | item {value : Value} {outer array : ArrayRef} (reached : Reached heap held outer)
      (listed : value ∈ heap.items outer) (mentions : value.Mentions array) :
      Reached heap held array

/-- All references of a set are to arrays that there are, those to one array name one kind, and
arrays of numbers have elements of their kind. -/
structure Typed (heap : Heap) (known : ArrayRef → Prop) : Prop where
  /-- There are these arrays. -/
  exist : ∀ array, known array → array.index < heap.arrays.size
  /-- Two references to one array are the same. -/
  single : ∀ array other, known array → known other → array.index = other.index → array = other
  /-- Arrays of numbers have elements of their kind. -/
  typed : ∀ array, known array → heap.TypedAt array

/-- All references that are reached are typed. -/
def TypedFrom (heap : Heap) (held : Value → Prop) : Prop := heap.Typed (heap.Reached held)

/-- A set of typed references that no element leads out of. -/
structure Closed (heap : Heap) (known : ArrayRef → Prop) : Prop extends Typed heap known where
  /-- Elements mention known references. -/
  items : ∀ array, known array → ∀ item ∈ heap.items array, item.Within known

/-- Fewer references are typed if more are. -/
theorem Typed.mono {fewer : ArrayRef → Prop} (typed : heap.Typed known)
    (less : ∀ array, fewer array → known array) : heap.Typed fewer where
  exist array isKnown := typed.exist array (less array isKnown)
  single array other isKnown otherKnown :=
    typed.single array other (less array isKnown) (less other otherKnown)
  typed array isKnown := typed.typed array (less array isKnown)

/-- From values that mention known references nothing else is reached. -/
theorem Closed.typedFrom (closed : heap.Closed known)
    (within : ∀ value, held value → value.Within known) : heap.TypedFrom held := by
  refine closed.toTyped.mono fun array reached => ?_
  induction reached with
  | start isHeld mentions => exact within _ isHeld _ mentions
  | item _ listed mentions isKnown => exact closed.items _ isKnown _ listed _ mentions

/-- The references that are reached are a closed set. -/
theorem TypedFrom.closed (typed : heap.TypedFrom held) : heap.Closed (heap.Reached held) where
  toTyped := typed
  items _ reached _ listed _ mentions := .item reached listed mentions

/-- Storing a known value of the right kind keeps a set of references closed. -/
theorem Closed.store (closed : heap.Closed known) {array : ArrayRef} (isKnown : known array)
    {value : Value} (index : Nat) (within : value.Within known)
    (typed : array.element.isNumeric → value.typeCode? = some array.element) :
    (heap.store array index value).Closed known where
  exist other otherKnown := by simpa using closed.exist other otherKnown
  single := closed.single
  typed other otherKnown numeric item listed := by
    rcases mem_items_store listed with old | ⟨same, rfl⟩
    · exact closed.typed other otherKnown numeric item old
    · obtain rfl := closed.single array other isKnown otherKnown same
      exact typed numeric
  items other otherKnown item listed := by
    rcases mem_items_store listed with old | ⟨-, rfl⟩
    · exact closed.items other otherKnown item old
    · exact within

/-- A reference to a new array may be added to a closed set. -/
theorem Closed.allocDefault (closed : heap.Closed known) (code : TypeCode) (length : Nat) :
    (heap.allocDefault code length).2.Closed
      fun array => known array ∨ array = (heap.allocDefault code length).1 := by
  -- known arrays are before the new one
  have items {array : ArrayRef} (isKnown : known array) :
      (heap.allocDefault code length).2.items array = heap.items array :=
    (items_alloc heap code _ array).trans (if_neg (closed.exist array isKnown).ne)
  have new : (heap.allocDefault code length).2.items (heap.allocDefault code length).1 =
      Array.replicate length (Value.default code) :=
    (items_alloc heap code _ _).trans (if_pos rfl)
  have differ {array : ArrayRef} (isKnown : known array) :
      array.index ≠ (heap.allocDefault code length).1.index := (closed.exist array isKnown).ne
  refine ⟨⟨?_, ?_, ?_⟩, ?_⟩
  · rintro array (isKnown | rfl)
    · simpa [Heap.allocDefault, alloc] using Nat.lt_succ_of_lt (closed.exist array isKnown)
    · simp [Heap.allocDefault, alloc]
  · rintro array other (isKnown | rfl) (otherKnown | rfl) same
    · exact closed.single array other isKnown otherKnown same
    · exact absurd same (differ isKnown)
    · exact absurd same.symm (differ otherKnown)
    · rfl
  · rintro array (isKnown | rfl) numeric item listed
    · rw [items isKnown] at listed
      exact closed.typed array isKnown numeric item listed
    · rw [new] at listed
      rw [Array.eq_of_mem_replicate listed]
      exact Value.typeCode?_default code
  · rintro array (isKnown | rfl) item listed
    · rw [items isKnown] at listed
      exact (closed.items array isKnown item listed).mono fun _ => .inl
    · rw [new] at listed
      rw [Array.eq_of_mem_replicate listed]
      exact Value.within_default code

/-- All arrays of a heap have the same length in another, which may have more arrays. -/
structure SameShape (before after : Heap) : Prop where
  /-- No array is missing. -/
  size : before.arrays.size ≤ after.arrays.size
  /-- Arrays keep their length. -/
  length : ∀ array : ArrayRef, array.index < before.arrays.size →
    after.length array = before.length array

/-- Lengths are kept along a way if they are on both parts of it. -/
theorem SameShape.trans {before after : Heap} (first : SameShape before heap)
    (second : SameShape heap after) : SameShape before after where
  size := first.size.trans second.size
  length array inside :=
    (second.length array (inside.trans_le first.size)).trans (first.length array inside)

/-- Arrays that are kept have their length. -/
theorem Kept.sameShape {before after : Heap} (kept : Kept before after) :
    SameShape before after where
  size := kept.size
  length array inside := by rw [length, kept.items array inside, length]

/-- A store keeps all lengths. -/
theorem sameShape_store (heap : Heap) (array : ArrayRef) (index : Nat) (value : Value) :
    SameShape heap (heap.store array index value) where
  size := by simp
  length other _ := length_store heap array other index value

end Heap

/-! ## Host functions -/

namespace Host

/-- Whatever else is held when one of the calls is made: if all references that are reached are
typed before it, they are afterwards, also those that are reached from the answer. -/
def KeepsTyped (host : Host) (calls : Array HostCall) : Prop :=
  ∀ call ∈ calls, ∀ held : Value → Prop, (∀ argument ∈ call.arguments, held argument) →
    call.heap.TypedFrom held →
      (host.call call.function call.arguments call.heap).2.TypedFrom fun value =>
      held value ∨ (host.call call.function call.arguments call.heap).1 = .ok value

/-- The calls give no array another length. -/
def KeepsShape (host : Host) (calls : Array HostCall) : Prop :=
  ∀ call ∈ calls, call.heap.SameShape (host.call call.function call.arguments call.heap).2

end Host

namespace Machine

variable {program : Program} {known : ArrayRef → Prop} {machine after : Machine} {α β : Type}

/-! ## What the machine holds -/

/-- The machine holds known arrays only. -/
structure Knows (known : ArrayRef → Prop) (machine : Machine) : Prop where
  /-- Values on the stack mention known arrays. -/
  stack : ∀ value ∈ machine.stack, value.Within known
  /-- Locals mention known arrays. -/
  locals : ∀ value ∈ machine.locals, value.Within known
  /-- Elements of known arrays mention known arrays, and have the kind of the array if it is one of
  numbers. -/
  heap : machine.heap.Closed known

/-- Whatever the machine does, it comes across known arrays only; the answer of an operation that
succeeds is as told. -/
def Respects (known : ArrayRef → Prop) (operation : Operation α) (answer : α → Prop) : Prop :=
  ∀ machine, Knows known machine → Knows known (lastState (operation machine)) ∧
    ∀ value after, operation machine = .ok value after → answer value

namespace Respects

variable {operation : Operation α} {next : α → Operation β} {answer : α → Prop}
  {lastAnswer : β → Prop}

/-- An answer that holds respects the known arrays. -/
theorem pure {value : α} (holds : answer value) : Respects known (Pure.pure value) answer := by
  refine fun machine knows => ⟨knows, fun result after run => ?_⟩
  cases run
  exact holds

/-- A failure has no answer. -/
theorem throw (error : RuntimeError) :
    Respects known (MonadExcept.throw error : Operation α) answer :=
  fun _ knows => ⟨knows, nofun⟩

/-- What is required holds of the value that is there. -/
theorem require {fault : Fault} {value? : Option α}
    (holds : ∀ value, value? = some value → answer value) :
    Respects known (Machine.require fault value?) answer := by
  cases value? with
  | some value => exact .pure (holds value rfl)
  | none => exact .throw _

/-- A result that is lifted holds of its value. -/
theorem ofExcept {result : Except RuntimeError α}
    (holds : ∀ value, result = .ok value → answer value) :
    Respects known (Machine.ofExcept result) answer := by
  cases result with
  | ok value => exact .pure (holds value rfl)
  | error error => exact .throw error

/-- The machine that is read knows only known arrays. -/
theorem get : Respects known (MonadState.get : Operation Machine) (Knows known) := by
  refine fun machine knows => ⟨knows, fun result after run => ?_⟩
  cases run
  exact knows

/-- A change that adds no unknown array is respected. -/
theorem change {change : Machine → Machine}
    (keeps : ∀ machine, Knows known machine → Knows known (change machine)) :
    Respects known (modify change : Operation Unit) fun _ => True :=
  fun machine knows => ⟨keeps machine knows, fun _ _ _ => trivial⟩

/-- One operation after another. -/
theorem bind (first : Respects known operation answer)
    (second : ∀ value, answer value → Respects known (next value) lastAnswer) :
    Respects known (operation >>= next) lastAnswer := by
  intro machine knows
  obtain ⟨middleKnows, holds⟩ := first machine knows
  cases run : operation machine with
  | ok value middle =>
    rw [run] at middleKnows
    rw [bind_of_ok run]
    exact second value (holds value middle run) middle middleKnows
  | error error after =>
    rw [run] at middleKnows
    rw [bind_of_error run]
    exact ⟨middleKnows, nofun⟩

/-- An operation that chooses between two others. -/
theorem ite {condition : Prop} [Decidable condition] {first second : Operation α}
    (whenTrue : Respects known first answer) (whenFalse : Respects known second answer) :
    Respects known (if condition then first else second) answer := by
  split
  · exact whenTrue
  · exact whenFalse

end Respects

/-! ## Parts of instructions -/

/-- What follows a read gets the machine itself. -/
theorem bind_get (next : Machine → Operation α) (machine : Machine) :
    (get >>= next) machine = next machine machine := rfl

/-- A value that is pushed has to be within the known arrays. -/
theorem respects_push {value : Value} (within : value.Within known) :
    Respects known (push value) fun _ => True :=
  .change fun _ knows => ⟨List.forall_mem_cons.2 ⟨within, knows.stack⟩, knows.locals, knows.heap⟩

/-- A value that is popped is within the known arrays. -/
theorem respects_pop : Respects known pop fun value => value.Within known := by
  intro machine knows
  rw [pop, bind_get]
  cases stack : machine.stack with
  | nil => exact Respects.throw _ machine knows
  | cons top rest =>
    have listed : top ∈ machine.stack ∧ rest ⊆ machine.stack := by simp [stack]
    refine ⟨⟨fun value inRest => knows.stack value (listed.2 inRest), knows.locals, knows.heap⟩, ?_⟩
    intro value after run
    cases run
    exact knows.stack top listed.1

/-- A truth value refers to no array. -/
theorem respects_popBool : Respects known popBool fun _ => True :=
  respects_pop.bind fun _ _ => .require fun _ _ => trivial

/-- An integer refers to no array. -/
theorem respects_popInt32 : Respects known popInt32 fun _ => True :=
  respects_pop.bind fun _ _ => .require fun _ _ => trivial

/-- An array that is popped is known. -/
theorem respects_popArray : Respects known popArray known := by
  refine respects_pop.bind fun value within => ?_
  cases value with
  | array reference => exact .pure (within _ (.array reference))
  | _ => exact .throw _

/-- An element that is popped is one of a known array. -/
theorem respects_popElement : Respects known popElement fun place => known place.1 :=
  respects_pop.bind fun _ _ => (Respects.require fun _ _ => trivial).bind fun _ (_ : True) =>
    respects_popArray.bind fun _ isKnown => Respects.get.bind fun _ _ =>
      .ite (.pure isKnown) (.throw _)

/-- The value of a local is within the known arrays. -/
theorem respects_localValue (slot : Nat) :
    Respects known (localValue slot) fun value => value.Within known :=
  Respects.get.bind fun _ knows => .require fun value found =>
    knows.locals value (Array.mem_of_getElem? found)

/-- What an address points to is within the known arrays. -/
theorem respects_dereference : Respects known dereference fun value => value.Within known := by
  refine respects_pop.bind fun value within => ?_
  cases value with
  | localAddress slot => exact respects_localValue slot
  | elementAddress array index =>
    refine Respects.get.bind fun machine knows => ?_
    dsimp only
    split
    · next item found =>
      exact .pure (knows.heap.items array (within _ (.address array index)) item
        (Array.mem_of_getElem? found))
    · exact .throw _
  | _ => exact .throw _

/-- A local takes a value from the stack. -/
theorem respects_storeLocal (slot : Nat) : Respects known (storeLocal slot) fun _ => True := by
  refine respects_pop.bind fun value within => Respects.get.bind fun _ _ =>
    .ite (.change fun machine knows => ?_)
    (.throw _)
  refine ⟨knows.stack, fun other listed => ?_, knows.heap⟩
  rcases Array.mem_or_eq_of_mem_setIfInBounds listed with old | rfl
  · exact knows.locals other old
  · exact within

/-- The test of a branch adds nothing. -/
theorem respects_taken (condition : BranchCondition) :
    Respects known (taken condition) fun _ => True := by
  cases condition with
  | always => exact .pure trivial
  | ifTrue => exact respects_popBool
  | ifFalse => exact respects_popBool.bind fun _ _ => .pure trivial

/-- A jump adds nothing. -/
theorem respects_jump (displacement : Int) : Respects known (jump displacement) fun _ => True :=
  Respects.get.bind fun _ _ =>
    .ite (.throw _) (.change fun _ knows => ⟨knows.stack, knows.locals, knows.heap⟩)

/-- A value is stored as one of the kind that the reference names, if it is one of numbers. -/
theorem respects_storeElement : Respects known storeElement fun _ => True := by
  refine respects_pop.bind fun value within =>
    respects_popElement.bind fun ⟨array, index⟩ isKnown => ?_
  intro machine knows
  -- the reference that names the kind is the one that is written through
  have writes {stored : Value} (within : stored.Within known)
      (typed : array.element.isNumeric → stored.typeCode? = some array.element) :
      Knows known { machine with heap := machine.heap.store array index stored } :=
    ⟨knows.stack, knows.locals, knows.heap.store isKnown index within typed⟩
  refine ⟨?_, fun _ _ _ => trivial⟩
  dsimp only
  by_cases numeric : array.element.isNumeric
  · rw [elementValue, if_pos numeric]
    cases converted : value.convert? array.element with
    | none => exact knows
    | some stored =>
      exact writes (within.convert? converted) fun _ => Value.typeCode?_of_convert? converted
  · rw [elementValue, if_neg numeric]
    exact writes within fun isNumeric => absurd isNumeric numeric

/-! ## Instructions -/

/-- All other instructions come across known arrays only. -/
theorem respects_perform {action : Action} (ordinary : action.bringsArrays = false)
    (constant : ∀ value, action = .push value → value.Within known)
    (arguments : ∀ value ∈ program.arguments, value.Within known) :
    Respects known (perform program action) fun value? => ∀ value, value? = some value →
      value.Within known := by
  have finish (operation : Operation Unit) (h : Respects known operation fun _ => True) :
      Respects known (do operation; return (none : Option Value)) fun value? =>
        ∀ value, value? = some value → value.Within known :=
    h.bind fun _ _ => .pure nofun
  have pushes {value : Value} (within : value.Within known) := finish _ (respects_push within)
  -- whatever is pushed was held already, is an item of a known array, or refers to none
  cases action with
  | newArray | call => cases ordinary
  | halt => exact .throw _
  | nop => exact .pure nofun
  | ret =>
    refine respects_pop.bind fun value within => .pure fun returned same => ?_
    cases same
    exact within
  | pop => exact respects_pop.bind fun _ _ => .pure nofun
  | dup =>
    refine Respects.get.bind fun _ knows =>
      (Respects.require fun value found => ?_).bind fun value => pushes
    exact knows.stack value (List.mem_of_mem_head? found)
  | push value => exact pushes (constant value rfl)
  | pushString token =>
    exact (Respects.require fun _ _ => trivial).bind fun _ (_ : True) =>
      pushes (Value.within_of_typeCode? rfl nofun)
  | loadArgument index =>
    refine (Respects.require fun value found => ?_).bind fun value => pushes
    exact arguments value (Array.mem_of_getElem? found)
  | loadLocal slot => exact (respects_localValue slot).bind fun _ => pushes
  | storeLocal slot => exact finish _ (respects_storeLocal slot)
  | loadLocalAddress slot => exact Respects.get.bind fun _ _ => .ite (pushes nofun) (.throw _)
  | dereference => exact respects_dereference.bind fun _ => pushes
  | binary function =>
    exact respects_pop.bind fun _ _ => respects_pop.bind fun _ _ =>
      (Respects.ofExcept fun _ => Value.within_of_binary).bind fun _ => pushes
  | negate =>
    exact respects_pop.bind fun _ _ =>
      (Respects.ofExcept fun _ => Value.within_of_negate).bind fun _ => pushes
  | complement =>
    exact respects_pop.bind fun _ _ =>
      (Respects.ofExcept fun _ => Value.within_of_complement).bind fun _ => pushes
  | shift direction =>
    exact respects_popInt32.bind fun _ _ => respects_pop.bind fun _ _ =>
      (Respects.ofExcept fun _ => Value.within_of_shift).bind fun _ => pushes
  | compare relation =>
    exact respects_pop.bind fun _ _ => respects_pop.bind fun _ _ =>
      (Respects.ofExcept fun _ _ => trivial).bind fun _ (_ : True) =>
        pushes (Value.within_of_typeCode? rfl nofun)
  | convert typeByte =>
    exact (Respects.require fun _ _ => trivial).bind fun _ (_ : True) =>
      respects_pop.bind fun _ within =>
      (Respects.require fun _ => within.convert?).bind fun _ => pushes
  | branch condition displacement =>
    exact (respects_taken condition).bind fun _ _ =>
      .ite (finish _ (respects_jump displacement)) (.pure nofun)
  | length =>
    exact respects_popArray.bind fun _ _ => Respects.get.bind fun _ _ =>
      pushes (Value.within_of_typeCode? rfl nofun)
  | loadElement =>
    refine respects_popElement.bind fun ⟨array, index⟩ isKnown =>
      Respects.get.bind fun machine knows => pushes ?_
    rw [Array.getD_eq_getD_getElem?]
    cases found : (machine.heap.items array)[index]? with
    | none => exact nofun
    | some item => exact knows.heap.items array isKnown item (Array.mem_of_getElem? found)
  | elementAddress token =>
    exact (Respects.require fun _ _ => trivial).bind fun _ (_ : True) =>
      respects_popElement.bind fun ⟨_, index⟩ isKnown =>
        pushes (Value.within_elementAddress isKnown index)
  | storeElement => exact finish _ respects_storeElement

/-- A new array becomes known. -/
theorem knows_newArray (knows : Knows known machine) (element : TypeCode) :
    ∃ later : ArrayRef → Prop, (∀ array, known array → later array) ∧
      Knows later (lastState (newArray element machine)) := by
  obtain ⟨popped, -⟩ := respects_popInt32 machine knows
  unfold newArray
  cases run : popInt32 machine with
  | error error after =>
    rw [run] at popped
    rw [bind_of_error run]
    exact ⟨known, fun _ isKnown => isKnown, popped⟩
  | ok length middle =>
    rw [run] at popped
    rw [bind_of_ok run]
    split
    · exact ⟨known, fun _ isKnown => isKnown, popped⟩
    · -- the array that is made is pushed
      refine ⟨fun array => known array ∨ array = (middle.heap.allocDefault element length.toNat).1,
        fun _ =>
        .inl, List.forall_mem_cons.2 ⟨Value.within_array (.inr rfl), fun value listed => ?_⟩,
        fun value listed => ?_, popped.heap.allocDefault element length.toNat⟩
      · exact (popped.stack value listed).mono fun _ => .inl
      · exact (popped.locals value listed).mono fun _ => .inl

/-- After a call, the arrays become known that are reached from what mentioned known arrays or from
the answer. -/
theorem knows_callFunction {host : Host} {function : FunctionEntry} (knows : Knows known machine)
    (keeps : host.KeepsTyped (lastState (callFunction host function machine)).calls) :
    ∃ later : ArrayRef → Prop, (∀ array, known array → later array) ∧
      Knows later (lastState (callFunction host function machine)) := by
  unfold callFunction at keeps ⊢
  rw [bind_get] at keeps ⊢
  by_cases short : machine.stack.length < function.arity
  · rw [if_pos short]
    exact ⟨known, fun _ isKnown => isKnown, knows⟩
  · rw [if_neg short] at keeps ⊢
    set arguments := (machine.stack.take function.arity).reverse
    set answer := host.call function.function arguments machine.heap
    -- arrays and record are set by now; what is left only looks at the answer
    let called : Machine :=
      { machine with
        stack := machine.stack.drop function.arity
        heap := answer.2
        calls := machine.calls.push ⟨function.function, arguments, machine.heap⟩ }
    let finish : Operation Unit := do push (← ofExcept answer.1)
    change host.KeepsTyped (lastState (finish called)).calls at keeps
    change ∃ later : ArrayRef → Prop, _ ∧ Knows later (lastState (finish called))
    have recorded : (lastState (finish called)).calls = called.calls := by
      have keepsWorld : KeepsWorld finish := .bind (.ofExcept _) fun _ => keepsWorld_push _
      exact congrArg World.calls (keepsWorld called)
    rw [recorded] at keeps
    have held : ∀ argument ∈ arguments, argument.Within known := fun argument listed =>
      knows.stack argument (List.mem_of_mem_take (List.mem_reverse.1 listed))
    have typed := keeps _ Array.mem_push_self _ held (knows.heap.typedFrom fun _ within => within)
    let later := answer.2.Reached fun value => value.Within known ∨ answer.1 = .ok value
    have still {value : Value} (within : value.Within known) : value.Within later :=
      fun _ mentions => .start (.inl within) mentions
    have knowsCalled : Knows later called :=
      ⟨fun value listed => still (knows.stack value (List.mem_of_mem_drop listed)),
        fun value listed => still (knows.locals value listed), typed.closed⟩
    have respects : Respects later finish fun _ => True :=
      (Respects.ofExcept fun value same _ mentions => .start (.inr same) mentions).bind fun _ =>
        respects_push
    exact ⟨later, fun array isKnown => still (Value.within_array isKnown) _ (.array array),
      (respects called knowsCalled).1⟩

/-! ## Steps and runs -/

/-- What is known behind an operation is known behind an instruction that does only this and returns
no value. -/
theorem knows_finish {operation : Operation Unit}
    (knows : ∃ later : ArrayRef → Prop, (∀ array, known array → later array) ∧
      Knows later (lastState (operation machine))) :
    ∃ later : ArrayRef → Prop, (∀ array, known array → later array) ∧
      Knows later (lastState ((do operation; return (none : Option Value)) machine)) ∧
      ∀ value after, (do operation; return (none : Option Value)) machine =
        .ok (some value) after → value.Within later := by
  obtain ⟨later, more, knowsLater⟩ := knows
  rw [← lastState_finish] at knowsLater
  refine ⟨later, more, knowsLater, fun value after returned => ?_⟩
  obtain ⟨_, _, -, rest⟩ := bind_eq_ok returned
  cases rest

/-- After a step the machine knows all arrays that it knew before and all that it holds, and so does
who gets the value that is returned. -/
theorem knows_step (knows : Knows known machine)
    (arguments : ∀ value ∈ program.arguments, value.Within known)
    (keeps : program.host.KeepsTyped (lastState (step program machine)).calls) :
    ∃ later : ArrayRef → Prop, (∀ array, known array → later array) ∧
      Knows later (lastState (step program machine)) ∧
      ∀ value after, step program machine = .ok (some value) after → value.Within later := by
  cases decodes : program.code.decodeAt? machine.pc with
  | none =>
    rw [step, bind_get, decodes]
    exact ⟨known, fun _ isKnown => isKnown, knows, fun _ _ returned => by cases returned⟩
  | some decoded =>
    rw [step_of_decodes decodes] at keeps ⊢
    have knows : Knows known { machine with pc := decoded.next } :=
      ⟨knows.stack, knows.locals, knows.heap⟩
    -- only a new array and the answer of a host function are not known before
    cases isAction : Action.read decoded.op decoded.immediate with
    | newArray token =>
      rw [perform, entry]
      cases program.code.types[token]? with
      | none =>
        exact ⟨known, fun _ isKnown => isKnown, knows, fun _ _ returned => by cases returned⟩
      | some type => exact knows_finish (knows_newArray knows type.code)
    | call token =>
      rw [isAction, perform, entry] at keeps
      rw [perform, entry]
      cases found : program.code.functions[token]? with
      | none =>
        exact ⟨known, fun _ isKnown => isKnown, knows, fun _ _ returned => by cases returned⟩
      | some function =>
        rw [found] at keeps
        change program.host.KeepsTyped
          (lastState ((do callFunction program.host function; return (none : Option Value))
            _)).calls at keeps
        rw [lastState_finish] at keeps
        exact knows_finish (knows_callFunction knows keeps)
    | _ =>
      obtain ⟨knowsLater, returned⟩ := respects_perform rfl
        (fun value same => Action.within_of_read (isAction.trans same)) arguments _ knows
      exact ⟨known, fun _ isKnown => isKnown, knowsLater, fun value after run =>
        returned _ after run value rfl⟩

/-- What is known grows along a run, as far as its host functions leave arrays of numbers typed. -/
theorem Reaches.knows (reaches : Reaches program machine after) (knows : Knows known machine)
    (arguments : ∀ value ∈ program.arguments, value.Within known)
    (keeps : program.host.KeepsTyped after.calls) :
    ∃ later : ArrayRef → Prop, (∀ array, known array → later array) ∧ Knows later after := by
  induction reaches generalizing known with
  | refl => exact ⟨known, fun _ isKnown => isKnown, knows⟩
  | @head before _ _ first rest ih =>
    have keepsFirst : program.host.KeepsTyped (lastState (step program before)).calls := by
      rw [first]
      exact fun call listed => keeps call (rest.calls_subset call listed)
    obtain ⟨middle, more, knowsMiddle, -⟩ := knows_step knows arguments keepsFirst
    rw [first] at knowsMiddle
    obtain ⟨later, evenMore, knowsLater⟩ :=
      ih knowsMiddle (fun value listed => (arguments value listed).mono more) keeps
    exact ⟨later, fun array isKnown => evenMore array (more array isKnown), knowsLater⟩

/-- Only a host function gives an array another kind or length in a step. -/
theorem WorldChange.sameShape {world : World} (change : WorldChange program machine world)
    (keeps : program.host.KeepsShape world.calls) : machine.heap.SameShape world.heap := by
  cases change with
  | none => exact (Heap.Kept.refl _).sameShape
  | made element length => exact (Heap.kept_alloc _ element _).sameShape
  | stored position element => exact Heap.sameShape_store _ _ position element
  | called => exact keeps _ Array.mem_push_self

/-- Only a host function gives an array another kind or length along a run. -/
theorem Reaches.sameShape (reaches : Reaches program machine after)
    (keeps : program.host.KeepsShape after.calls) :
    machine.heap.SameShape after.heap := by
  induction reaches with
  | refl => exact (Heap.Kept.refl _).sameShape
  | head first rest ih =>
    have early := (worldChange_of_step first).sameShape fun call listed =>
      keeps call (rest.calls_subset call listed)
    exact early.trans (ih keeps)

/-- A host whose functions answer with their first argument. -/
def answeringFirst : Host := ⟨fun _ arguments heap => (.ok (arguments.headD .null), heap)⟩

/-- Code that stores its second argument into its first with the opcode for references, and returns
what the host answers for the array. -/
def storing : Program where
  code :=
    { version := formatVersion
      bytes := #[Opcode.ldarg.toByte, 0, 0, Opcode.ldcI4S.toByte, 0, Opcode.ldarg.toByte, 1, 0,
        (Opcode.stelemAt .ref).toByte, Opcode.ldarg.toByte, 0, 0, Opcode.call.toByte, 0, 0,
        Opcode.ret.toByte]
      locals := #[]
      strings := #[]
      types := #[]
      functions := #[⟨"first", 1, ⟨0⟩⟩]
      branches := [] }
  arguments := #[.array ⟨.int .i32, 0⟩, .i64 (2 ^ 32 + 7)]
  host := answeringFirst

end Machine

end ExprCode
