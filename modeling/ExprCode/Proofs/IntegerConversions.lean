import ExprCode.Proofs.Execution
import ExprCode.Proofs.Generation
import ExprCode.Proofs.Listings
import ExprCode.Proofs.TableTokens

/-! # Conversions between integer types

Main statement: `integer_conversions_compose`. A conversion keeps the lowest bits and forgets how
they were meant, so a conversion to a type and on to one that is no wider is the conversion to the
second type. There is no instruction that loads an unsigned number: its bits are loaded as a signed
number and converted. Wherever these two instructions get in finished code, they push the number. -/

namespace ExprCode

/-! ## Two conversions -/

namespace Value

/-- The value on the way to a type that is no wider does not matter. -/
theorem convert?_convert? (word : Word) {wide narrow : IntType}
    (narrower : narrow.bits ≤ wide.bits) :
    ∃ middle result, (int word).convert? (.int wide) = some middle ∧
      middle.convert? (.int narrow) = some result ∧
        (int word).convert? (.int narrow) = some result := by
  refine ⟨_, _, convert?_int word wide, convert?_int _ narrow, ?_⟩
  have value : narrow.wrap (wide.wrap word.value) = narrow.wrap word.value :=
    IntType.wrap_wrap narrower word.value
  rw [convert?_int, Word.ofInt, Word.ofInt]
  simp only [Word.value_ofInt, value]

end Value

/-! ## Literals -/

namespace Codegen

/-- The two instructions of code from a number on push a word: a machine that comes to the first is
behind the second after two steps, with the word on its stack and nothing else changed. -/
def PushesWord (code : Code) (index : Nat) (word : Word) : Prop :=
  ∃ start middle decoded, code.instructionOffsets[index]? = some start ∧
    code.instructionOffsets[index + 1]? = some middle ∧ code.decodeAt? middle = some decoded ∧
    ∀ program : Program, program.code = code → ∀ machine : Machine, machine.pc = start →
      ∃ between, Machine.step program machine = .ok none between ∧ between.pc = middle ∧
        Machine.step program between =
          .ok none { machine with pc := decoded.next, stack := .int word :: machine.stack }

/-- For a literal, an emitter gets a load and a conversion to a type, and in all finished code that
its instructions get into they push a number of the type. -/
def EmitsNumber (literal : Literal) (load : Instruction) (type : IntType) (n : Nat) : Prop :=
  ∀ before : Emitter, ∃ after, emitLiteral literal before = .ok () after ∧
    after.instructions = before.instructions ++ #[load, ⟨.conv, .typeCode (.int type)⟩] ∧
    ∀ (later : Emitter) (shift : Nat) (code : Code),
      (∀ instruction ∈ later.instructions, instruction.operand.fits instruction.op.operandKind) →
      (∀ k instruction, after.instructions[k]? = some instruction →
        later.instructions[shift + k]? = some instruction) →
      later.finalize = .ok code →
      ∃ word : Word, word.type = type ∧ word.value = n ∧
        PushesWord code (shift + before.instructions.size) word

/-- A load and a conversion are carried out one after the other. -/
theorem pushesWord_of_finalize {later : Emitter} {code : Code} {index : Nat} {load : Instruction}
    {type : IntType}
    {loaded : Value} {word : Word}
    (fitting : ∀ instruction ∈ later.instructions,
      instruction.operand.fits instruction.op.operandKind)
    (finished : later.finalize = .ok code) (loadThere : later.instructions[index]? = some load)
    (noLabel : load.target? = none)
    (pushes : Action.read load.op load.operand.encode = .push loaded)
    (conversionThere : later.instructions[index + 1]? = some ⟨.conv, .typeCode (.int type)⟩)
    (converts : loaded.convert? (.int type) = some (.int word)) : PushesWord code index word := by
  obtain ⟨⟨start, next, atStart, decodesLoad⟩, -⟩ :=
    Emitter.decodes_of_finalize fitting finished loadThere noLabel
  obtain ⟨⟨middle, stop, atMiddle, decodesConversion⟩, -⟩ :=
    Emitter.decodes_of_finalize fitting finished conversionThere rfl
  -- the conversion is directly behind the load
  obtain rfl : next = middle := by
    obtain ⟨last, tiles⟩ := code.exists_tiles 0
    obtain ⟨decoded, decodes, follows⟩ := tiles.next atStart
    cases decodesLoad.symm.trans decodes
    rw [← Code.next_eq_of_decodeAt? decodes, List.getElem?_append_left] at follows
    · exact Option.some.inj (follows.symm.trans atMiddle)
    · exact (List.getElem?_eq_some_iff.1 atMiddle).1
  refine ⟨start, next, _, atStart, atMiddle, decodesConversion, ?_⟩
  rintro program rfl machine rfl
  refine ⟨{ machine with pc := next, stack := loaded :: machine.stack }, ?_, rfl, ?_⟩
  · rw [Machine.step_of_decodes decodesLoad, pushes]
    rfl
  · rw [Machine.step_of_decodes decodesConversion, Action.read_conv]
    refine (Machine.perform_convert (.int type) loaded stop machine.locals machine.heap
      machine.calls).trans ?_
    rw [converts]
    rfl

/-- The bits of a number, loaded as a signed number and converted, give the number. -/
theorem emitsNumber {literal : Literal} {load : Instruction} {n : Nat} {bits : Int}
    (signed unsigned : IntType)
    (sameBits : signed.bits = unsigned.bits) (sameWord : bits = signed.wrap n)
    (inRange : unsigned.InRange n)
    (emitted : ∀ before : Emitter, emitLiteral literal before =
      .ok () ((before.append load).append ⟨.conv, .typeCode (.int unsigned)⟩))
    (noLabel : load.target? = none)
    (pushes : Action.read load.op load.operand.encode = .push (.int (.ofInt signed bits))) :
    EmitsNumber literal load unsigned n := by
  intro before
  have appended : ((before.append load).append ⟨.conv, .typeCode (.int unsigned)⟩).instructions =
      before.instructions ++ #[load, ⟨.conv, .typeCode (.int unsigned)⟩] := by
    rw [← Array.toList_inj]
    simp [Emitter.append]
  refine ⟨_, emitted before, appended, ?_⟩
  rw [appended]
  intro later shift code fitting there finished
  refine ⟨.ofInt unsigned n, rfl, IntType.wrap_eq_self inRange, ?_⟩
  exact pushesWord_of_finalize fitting finished (there _ load (by simp)) noLabel pushes
    (there (before.instructions.size + 1) _ (by simp))
      (convert?_signed signed unsigned sameBits sameWord)

/-- Unsigned numbers of four bytes. -/
theorem emitsNumber_uint (n : UInt32) :
    EmitsNumber (.uint n) (Emitter.loadInt32 n.toInt32) .u32 n.toNat := by
  refine emitsNumber .i32 .u32 rfl (toInt_toInt32 n) ?_ (fun before => ?_)
    (Emitter.target?_loadInt32 _) (Emitter.read_loadInt32 _)
  · have small := n.toNat_lt
    constructor <;> simp [IntType.minValue, IntType.maxValue, IntType.signed, IntType.bits]
    omega
  · have accepted : before.refusal? (Emitter.loadInt32 n.toInt32) = none := by
      unfold Emitter.loadInt32
      split <;> rfl
    have loaded : ofEmit (Emitter.emitLoadInt32 n.toInt32) before =
        .ok () (before.append (Emitter.loadInt32 n.toInt32)) := by
      rw [ofEmit_eq, Emitter.emitLoadInt32_eq, Emitter.emit_eq, accepted]
    exact bind_of_ok loaded

/-- Unsigned numbers of eight bytes. -/
theorem emitsNumber_ulong (n : UInt64) :
    EmitsNumber (.ulong n) ⟨.ldcI8, .i64 n.toInt64⟩ .u64 n.toNat := by
  refine emitsNumber .i64 .u64 rfl (toInt_toInt64 n) ?_ (fun _ => rfl) rfl
    (Action.read_ldcI8 n.toInt64)
  have small := n.toNat_lt
  constructor <;> simp [IntType.minValue, IntType.maxValue, IntType.signed, IntType.bits]
  omega

end Codegen

/-- **Conversions between integer types compose.** A conversion to a type and on to one that is no
wider is the conversion to the second type, so a conversion to a type that is no narrower can be
undone. The code for an unsigned number loads its bits as a signed number, converts them, and pushes
the number. -/
theorem integer_conversions_compose :
    (∀ (word : Word) (wide narrow : IntType), narrow.bits ≤ wide.bits →
      ∃ middle result, (Value.int word).convert? (.int wide) = some middle ∧
        middle.convert? (.int narrow) = some result ∧
          (Value.int word).convert? (.int narrow) = some result) ∧
    (∀ (word : Word) (wide : IntType), word.type.bits ≤ wide.bits →
      ∃ middle, (Value.int word).convert? (.int wide) = some middle ∧
        middle.convert? (.int word.type) = some (.int word)) ∧
    (∀ n : UInt32, Codegen.EmitsNumber (.uint n) (Emitter.loadInt32 n.toInt32) .u32 n.toNat) ∧
    ∀ n : UInt64, Codegen.EmitsNumber (.ulong n) ⟨.ldcI8, .i64 n.toInt64⟩ .u64 n.toNat := by
  refine ⟨fun word _ _ => Value.convert?_convert? word, fun word wide wider => ?_,
    Codegen.emitsNumber_uint, Codegen.emitsNumber_ulong⟩
  obtain ⟨middle, result, there, back, direct⟩ := Value.convert?_convert? word wider
  rw [Value.convert?_int, Word.ofInt_value] at direct
  exact ⟨middle, there, back.trans direct.symm⟩

/-- A byte of ones has sixteen ones on the way over eight bytes and is itself again when it comes
back; and four bytes of ones are pushed, though one byte is enough to load them. -/
theorem integer_conversions_compose_ones :
    (∃ middle, (Value.int (.ofInt .i8 (-1))).convert? (.int .u64) = some middle ∧
      middle.convert? (.int .u16) = some (.int (.ofInt .u16 65535))) ∧
    (∃ middle, (Value.int (.ofInt .i8 (-1))).convert? (.int .u64) = some middle ∧
      middle.convert? (.int .i8) = some (.int (.ofInt .i8 (-1)))) ∧
    ∃ after code word, Codegen.emitLiteral (.uint 4294967295) (Emitter.withMaxLocals 0) =
      .ok () after ∧
      after.finalize = .ok code ∧ word.type = .u32 ∧ word.value = 4294967295 ∧
        Codegen.PushesWord code 0 word := by
  obtain ⟨compose, back, uint, -⟩ := integer_conversions_compose
  refine ⟨?_, back (.ofInt .i8 (-1)) .u64 (by decide), ?_⟩
  · obtain ⟨middle, result, first, second, direct⟩ :=
      compose (.ofInt .i8 (-1)) .u64 .u16 (by decide)
    cases direct
    exact ⟨middle, first, second⟩
  · obtain ⟨after, done, appended, pushes⟩ := uint 4294967295 (Emitter.withMaxLocals 0)
    -- there are no labels that could be unmarked
    have unlabelled : after.labels.size = 0 := by
      cases done
      rfl
    obtain ⟨positions, labelled⟩ := @Emitter.labelPositions_of_marked after fun _ defined =>
      absurd defined (by omega)
    have fitting : ∀ instruction ∈ after.instructions,
        instruction.operand.fits instruction.op.operandKind := by rw [appended]; decide
    have plain : ∀ instruction ∈ after.instructions, instruction.target? = none := by
      rw [appended]
      decide
    obtain ⟨code, finished⟩ := Emitter.exists_finalize fitting labelled
      fun instruction listed label names => by
        rw [plain instruction listed] at names
        cases names
    obtain ⟨word, type, value, pushed⟩ := pushes after 0 code fitting (by simp) finished
    exact ⟨after, code, word, done, finished, type, value, pushed⟩

end ExprCode
