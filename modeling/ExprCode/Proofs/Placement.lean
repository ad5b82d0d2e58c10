import ExprCode.Proofs.CodeShape
import ExprCode.Proofs.Runs

/-! # Emitted code in finished code

Emitting only adds: `Grows` says what an emitter keeps while code is emitted. `Placed` says that
what an emitter holds is part of finished code, from some instruction on; it is inherited by every
state from which the emitter has grown. `Emits` combines the two: a stretch of emission grows the
emitter, and wherever the result is placed, the code of the stretch has a property. -/

namespace ExprCode

/-- The second array starts with the first. -/
def Extends {α : Type} (before after : Array α) : Prop :=
  ∀ (index : Nat) (entry : α), before[index]? = some entry → after[index]? = some entry

namespace Extends

variable {α : Type} {first second third : Array α}

/-- An array extends itself. -/
theorem refl (array : Array α) : Extends array array := fun _ _ found => found

/-- What extends an array that extends another extends that one. -/
theorem trans (h : Extends first second) (h' : Extends second third) : Extends first third :=
  fun index entry found => h' index entry (h index entry found)

/-- An array is extended by what is appended. -/
theorem append (array rest : Array α) : Extends array (array ++ rest) := by
  intro index entry found
  have inside : index < array.size := (Array.getElem?_eq_some_iff.1 found).1
  rw [Array.getElem?_append_left inside, found]

/-- An array is extended by what is pushed. -/
theorem push (array : Array α) (entry : α) : Extends array (array.push entry) := by
  rw [← Array.append_singleton]
  exact append array #[entry]

/-- What extends an array is at least as long. -/
theorem size_le (h : Extends first second) : first.size ≤ second.size := by
  rcases Nat.eq_zero_or_pos first.size with empty | nonempty
  · omega
  · have found : first[first.size - 1]? = some first[first.size - 1] :=
      Array.getElem?_eq_getElem _
    have := (Array.getElem?_eq_some_iff.1 (h _ _ found)).1
    omega

end Extends

/-! ## What every emitter keeps -/

/-- What holds of an emitter whose calls are of an environment. -/
structure Emitter.Sound (env : Environment) (emitter : Emitter) : Prop where
  /-- Every instruction has an operand of the right kind. -/
  fitting : ∀ instruction ∈ emitter.instructions,
    instruction.operand.fits instruction.op.operandKind
  /-- Every entry of the function table may be called. -/
  callable : ∀ entry ∈ emitter.functions.entries, entry ∈ env.callables
  /-- Two bytes number the strings. -/
  fewStrings : emitter.strings.entries.size ≤ maxEntries
  /-- Two bytes number the types. -/
  fewTypes : emitter.types.entries.size ≤ maxEntries
  /-- Two bytes number the functions. -/
  fewFunctions : emitter.functions.entries.size ≤ maxEntries

/-- An emitter has grown into another. -/
structure Grows (env : Environment) (before after : Emitter) : Prop where
  /-- Instructions stay where they are. -/
  instructions : Extends before.instructions after.instructions
  /-- Marked labels stay where they are. -/
  labels : ∀ (label : Label) (position : Nat), before.labels[label]? = some (some position) →
    after.labels[label]? = some (some position)
  /-- Locals keep their numbers. -/
  locals : Extends before.locals after.locals
  /-- Strings keep their numbers. -/
  strings : Extends before.strings.entries after.strings.entries
  /-- Types keep their numbers. -/
  types : Extends before.types.entries after.types.entries
  /-- Functions keep their numbers. -/
  functions : Extends before.functions.entries after.functions.entries
  /-- Nothing unsound is added. -/
  sound : before.Sound env → after.Sound env

namespace Grows

variable {env : Environment} {first second third : Emitter}

/-- An emitter grows out of itself. -/
theorem refl (emitter : Emitter) : Grows env emitter emitter :=
  ⟨.refl _, fun _ _ h => h, .refl _, .refl _, .refl _, .refl _, fun h => h⟩

/-- What grows out of an emitter that grew out of another grows out of that one. -/
theorem trans (h : Grows env first second) (h' : Grows env second third) :
    Grows env first third where
  instructions := h.instructions.trans h'.instructions
  labels label position marked := h'.labels label position (h.labels label position marked)
  locals := h.locals.trans h'.locals
  strings := h.strings.trans h'.strings
  types := h.types.trans h'.types
  functions := h.functions.trans h'.functions
  sound isSound := h'.sound (h.sound isSound)

end Grows

/-! ## Finished code -/

/-- Finished code with the offsets of its instructions and the instructions that labels mark. -/
structure Image where
  /-- The code. -/
  code : Code
  /-- Offset of the instruction with a number. -/
  offset : Nat → Nat
  /-- Number of the instruction that a label marks. -/
  position : Label → Nat

/-- The code has an instruction with a number. -/
inductive InstructionAt (image : Image) (index : Nat) : Instruction → Prop
  | plain {op : Opcode} {operand : Operand} (noLabel : Instruction.target? ⟨op, operand⟩ = none)
      (decodes : image.code.decodeAt? (image.offset index) =
        some ⟨op, operand.encode, image.offset (index + 1)⟩) : InstructionAt image index
          ⟨op, operand⟩
  | branch {condition : BranchCondition} {form chosen : BranchForm} {label : Label}
      {displacement : List UInt8}
      (decodes : image.code.decodeAt? (image.offset index) =
        some ⟨.branch condition chosen, displacement, image.offset (index + 1)⟩)
      (leads : image.code.bytes.size < 2 ^ 31 →
        (image.offset (index + 1) : Int) + Bytes.toInt displacement =
          image.offset (image.position label)) :
      InstructionAt image index ⟨.branch condition form, .label label⟩

/-- What an emitter holds is part of finished code, from the instruction with a number on. -/
structure Placed (env : Environment) (image : Image) (base : Nat) (emitter : Emitter) :
    Prop where
  /-- The instructions. -/
  instructions : ∀ (index : Nat) (instruction : Instruction),
    emitter.instructions[index]? = some instruction →
      InstructionAt image (base + index) instruction
  /-- The labels. -/
  labels : ∀ (label : Label) (position : Nat), emitter.labels[label]? = some (some position) →
    image.position label = base + position
  /-- The locals. -/
  locals : ∀ (slot : Nat) (type : Ty), emitter.locals[slot]? = some type →
    image.code.locals[slot]? = some type.code
  /-- The strings. -/
  strings : Extends emitter.strings.entries image.code.strings
  /-- The types. -/
  types : Extends emitter.types.entries image.code.types
  /-- The functions. -/
  functions : Extends emitter.functions.entries image.code.functions
  /-- Every entry of the function table may be called. -/
  callable : ∀ entry ∈ image.code.functions, entry ∈ env.callables
  /-- Two bytes number the entries of every table. -/
  fewEntries : image.code.strings.size ≤ maxEntries ∧ image.code.types.size ≤ maxEntries ∧
    image.code.functions.size ≤ maxEntries

/-- What an emitter grew from is placed where the emitter is. -/
theorem Placed.of_grows {env : Environment} {image : Image} {base : Nat}
    {before after : Emitter} (placed : Placed env image base after)
    (grows : Grows env before after) : Placed env image base before where
  instructions index instruction found :=
    placed.instructions index instruction (grows.instructions index instruction found)
  labels label position marked := placed.labels label position (grows.labels label position marked)
  locals slot type declared := placed.locals slot type (grows.locals slot type declared)
  strings := grows.strings.trans placed.strings
  types := grows.types.trans placed.types
  functions := grows.functions.trans placed.functions
  callable := placed.callable
  fewEntries := placed.fewEntries

/-- The place behind the instructions of an emitter. -/
def Image.cursor (image : Image) (base : Nat) (emitter : Emitter) : Cursor :=
  ⟨image.offset (base + emitter.instructions.size), emitter.locals.size⟩

/-! ## Stretches of emission -/

/-- What is said of the code between two places. -/
abbrev Shape := Image → Cursor → Cursor → Prop

/-- An emitter has grown into another, and wherever the result is placed the code that was added has
a shape. -/
structure Emits (env : Environment) (shape : Shape) (before after : Emitter) : Prop where
  /-- The emitter has grown. -/
  grows : Grows env before after
  /-- The code that was added has the shape. -/
  holds : ∀ image base, Placed env image base after →
    shape image (image.cursor base before) (image.cursor base after)

namespace Emits

variable {env : Environment} {shape otherShape : Shape} {before middle after : Emitter}

/-- Where nothing is done, nothing is emitted. -/
theorem refl (emitter : Emitter) :
    Emits env (fun _ start stop => start = stop) emitter emitter :=
  ⟨.refl _, fun _ _ _ => rfl⟩

/-- A shape may be weakened. -/
theorem mono (emits : Emits env shape before after)
    (weaker : ∀ image start stop, shape image start stop → otherShape image start stop) :
    Emits env otherShape before after :=
  ⟨emits.grows, fun image base placed => weaker _ _ _ (emits.holds image base placed)⟩

/-- Two stretches, one after the other. -/
theorem trans (first : Emits env shape before middle)
    (second : Emits env otherShape middle after) :
    Emits env (fun image start stop =>
      ∃ between, shape image start between ∧ otherShape image between stop) before after :=
  ⟨first.grows.trans second.grows, fun image base placed =>
    ⟨_, first.holds image base (placed.of_grows second.grows), second.holds image base placed⟩⟩

end Emits

end ExprCode
