import ExprCode.Proofs.CodeParts
import ExprCode.Proofs.IntegerArithmetic
import ExprCode.Proofs.SemanticPreservation

/-! # Shift counts of any width

Main statement: `shift_moves`. In compiled code, the count of a shift is reduced three times: a
conversion takes it into Int32, the machine takes it into four bytes without a sign, and a mask
takes it into the places that a word has. The value that is shifted has been promoted before.
Nothing is lost by this, since the number of bits of a word divides both ranges
(`Word.shiftPlaces_ofInt_wrap`): a shift multiplies or divides the integer that the operand was by
two to the power of the count, taken modulo the number of bits of the promoted type, for counts of
all integer types, negative or large. -/

namespace ExprCode

open Machine (Moves At)

/-! ## Shifts of integers -/

namespace IntType

/-- A quotient by a power of two that is rounded down does not leave the range. -/
theorem inRange_ediv_two_pow {type : IntType} {n : Int} (inRange : type.InRange n) (places : Nat) :
    type.InRange (n / 2 ^ places) := by
  have zero : type.minValue ≤ 0 ∧ 0 ≤ type.maxValue := by cases type <;> decide
  have power : (1 : Int) ≤ 2 ^ places := one_le_pow₀ (by decide)
  obtain ⟨low, high⟩ := inRange
  constructor
  · rw [Int.le_ediv_iff_mul_le (by omega)]
    calc type.minValue * 2 ^ places ≤ type.minValue * 1 :=
      Int.mul_le_mul_of_nonpos_left zero.1 power
      _ ≤ n := by omega
  · rw [← Int.lt_add_one_iff, Int.ediv_lt_iff_lt_mul (by omega)]
    calc n < (type.maxValue + 1) * 1 := by omega
      _ ≤ (type.maxValue + 1) * 2 ^ places := Int.mul_le_mul_of_nonneg_left power (by omega)

/-- The number of bits of a type divides the range of four bytes. -/
theorem bits_dvd (type : IntType) : (type.bits : Int) ∣ 2 ^ 32 := by cases type <;> decide

/-- A count that was reduced into Int32 says the same modulo the number of bits of any type. -/
theorem wrap_i32_modEq (type : IntType) (count : Int) :
    i32.wrap count ≡ count [ZMOD type.bits] :=
  (i32.wrap_modEq count).of_dvd type.bits_dvd

end IntType

namespace Word

/-- The mask of a width takes a count modulo the width. -/
theorem shiftPlaces_eq_mod (word : Word) (count : UInt32) :
    word.shiftPlaces count = count.toNat % word.type.bits := by
  obtain ⟨size, power, small⟩ : ∃ size, word.type.bits = 2 ^ size ∧ size < 32 := by
    cases word.type with
    | i8 | u8 => exact ⟨3, rfl, by decide⟩
    | i16 | u16 => exact ⟨4, rfl, by decide⟩
    | i32 | u32 => exact ⟨5, rfl, by decide⟩
    | i64 | u64 => exact ⟨6, rfl, by decide⟩
  have mask : (UInt32.ofNat (word.type.bits - 1)).toNat = 2 ^ size - 1 := by
    have bound : 2 ^ size < 2 ^ 32 := Nat.pow_lt_pow_right (by decide) small
    rw [power, UInt32.toNat_ofNat_of_lt' (by rw [UInt32.size]; omega)]
  rw [shiftPlaces, UInt32.toNat_and, mask, Nat.and_two_pow_sub_one_eq_mod, power]

/-- The three reductions of a count are one, modulo the number of bits. -/
theorem shiftPlaces_ofInt_wrap (word : Word) (count : Int) :
    (word.shiftPlaces (.ofInt (IntType.i32.wrap count)) : Int) = count % word.type.bits := by
  have unsigned : ((UInt32.ofInt (IntType.i32.wrap count)).toNat : Int) =
      IntType.i32.wrap count % 2 ^ 32 := by
    have small : (IntType.i32.wrap count % 2 ^ 32).toNat < 2 ^ 32 := by omega
    show ((UInt32.ofNat (IntType.i32.wrap count % 2 ^ 32).toNat).toNat : Int) = _
    rw [UInt32.toNat_ofNat_of_lt' small]
    omega
  rw [shiftPlaces_eq_mod, Int.natCast_mod, unsigned, Int.emod_emod_of_dvd _ word.type.bits_dvd]
  exact word.type.wrap_i32_modEq count

end Word

/-- What a shift makes of an integer in a type. The count tells how many places, modulo the number
of bits. To the left the integer is multiplied and reduced into the type; to the right it is divided
and rounded down. -/
def ShiftDirection.Shifts (direction : ShiftDirection) (type : IntType) (n count : Int)
    (result : Value) :
    Prop :=
  ∃ places : Nat, places < type.bits ∧ places ≡ count [ZMOD type.bits] ∧
    match direction with
    | .left => result.Reduces type (n * 2 ^ places)
    | .right =>
      ∃ word : Word, result = .int word ∧ word.type = type ∧ word.value = n.fdiv (2 ^ places)

/-- The machine shifts by counts that were reduced as by the counts themselves. -/
theorem Value.shift_wrap_i32 {word : Word} (wide : isWide word.type) (direction : ShiftDirection)
    (count : Int) :
    ∃ result, (int word).shift direction (.ofInt (IntType.i32.wrap count)) = .ok result ∧
      direction.Shifts word.type word.value count result := by
  have positive : 0 < (word.type.bits : Int) := by cases word.type <;> decide
  have reduced := word.shiftPlaces_ofInt_wrap count
  generalize UInt32.ofInt (IntType.i32.wrap count) = counted at reduced ⊢
  have few : word.shiftPlaces counted < word.type.bits := by
    have := Int.emod_lt_of_pos count positive
    omega
  have same : (word.shiftPlaces counted : Int) ≡ count [ZMOD word.type.bits] := by
    rw [reduced]
    exact Int.mod_modEq _ _
  cases direction with
  | left =>
    refine ⟨int (word.shiftLeft counted), by simp [shift, wide], _, few, same, ?_⟩
    have reduces := reduces_ofInt word.type (word.value * 2 ^ word.shiftPlaces counted)
    simpa [Word.shiftLeft] using reduces
  | right =>
    refine ⟨int (word.shiftRight counted), by simp [shift, wide], _, few, same, _, rfl, rfl, ?_⟩
    have kept := IntType.wrap_eq_self
      (IntType.inRange_ediv_two_pow word.inRange (word.shiftPlaces counted))
    rw [Int.fdiv_eq_ediv_of_nonneg _ (Int.pow_nonneg (by decide))]
    simpa [Word.shiftRight] using kept

/-! ## Shifts in compiled code -/

/-- A shift of an integer is carried out by the machine in the promoted type, and its count is an
integer. -/
theorem Typed.shift_int {env : Environment} {typing : Typing} {scope : TypeScope} {type : Ty}
    {node : Node}
    {direction : ShiftDirection} {left right : Expr} {source : IntType}
    (typed : Typed env typing scope (.shift node direction left right) type)
    (leftType : typing.types[left.id]? = some (.int source)) :
    typing.resolutions[node.id]? = some (.primitive (.int source.promoted)) ∧
      ∃ count : IntType, typing.types[right.id]? = some (.int count) := by
  cases typed with
  | @shift _ _ _ _ _ operandType rightType _ resolution leftTyped rightTyped isCount rule resolved
    known =>
    obtain rfl : operandType = .int source := by
      rw [leftTyped.known, Option.some.injEq] at leftType
      exact leftType
    cases rule
    cases rightType with
    | int count => exact ⟨resolved, count, rightTyped.known⟩
    | _ => cases isCount

section Code

variable {code : Code} {arguments : Array Value} {host : Host} {kept : List (Nat × Value)}
  {stack : List Value} {start stop : Cursor}

/-- Converting an integer reduces it into the other type, also if there is no instruction for it. -/
theorem NumberAt.moves_int {source target : IntType} {word : Word}
    (number : NumberAt code (.int source) (.int target) start stop) (typed : word.type = source) :
    Moves ⟨code, arguments, host⟩ (At ⟨code, arguments, host⟩ start kept (.int word :: stack))
      (At ⟨code, arguments, host⟩ stop kept (.int (.ofInt target word.value) :: stack)) := by
  subst typed
  cases number with
  | same =>
    rw [Word.ofInt_value]
    exact .of_imp fun _ here => here
  | convert differ conversion =>
    have converts : Machine.Triple ⟨code, arguments, host⟩
        (At ⟨code, arguments, host⟩ start kept (.int word :: stack))
        (Semantics.require .invalidConversion ((Value.int word).convert? (.int target)))
        (fun value => At ⟨code, arguments, host⟩ stop kept (value :: stack)) :=
      Machine.triple_convert conversion
    rw [Value.convert?_int] at converts
    exact converts

/-- A shift with its count: the count is converted to Int32, and the instruction leaves the shifted
integer. -/
theorem NumberAt.moves_shift {count : IntType} {word places : Word} {counted : Cursor}
    (number : NumberAt code (.int count) (.int .i32) start counted) {direction : ShiftDirection}
    (carriedOut : ActionAt code counted (.shift direction) stop) (wide : Value.isWide word.type)
    (typed : places.type = count) :
    ∃ result, direction.Shifts word.type word.value places.value result ∧
      ∀ arguments host kept stack, Moves ⟨code, arguments, host⟩
        (At ⟨code, arguments, host⟩ start kept (.int places :: .int word :: stack))
        (At ⟨code, arguments, host⟩ stop kept (result :: stack)) := by
  obtain ⟨result, shifted, exactly⟩ := Value.shift_wrap_i32 wide direction places.value
  refine ⟨result, exactly, fun arguments host kept stack => (number.moves_int typed).trans ?_⟩
  -- the count is an Int32 now, so the machine goes on to the value
  have shifts : Machine.Triple ⟨code, arguments, host⟩
      (At ⟨code, arguments, host⟩ counted kept
        (.int (.ofInt .i32 places.value) :: .int word :: stack))
      (Semantics.ofExcept
        ((Value.int word).shift direction (.ofInt (IntType.i32.wrap places.value))))
      (fun value => At ⟨code, arguments, host⟩ stop kept (value :: stack)) :=
    Machine.triple_shift carriedOut
  rw [shifted] at shifts
  exact shifts

/-- Promoting an integer keeps it, also if there is no instruction for it. -/
theorem ConversionAt.moves_promoted {env : Environment} {source : IntType} {word : Word}
    (conversion : ConversionAt code env (.int source) (.int source.promoted) start stop)
    (typed : word.type = source) :
    ∃ operand : Word, operand.type = source.promoted ∧ operand.value = word.value ∧
      ∀ arguments host kept stack, Moves ⟨code, arguments, host⟩
        (At ⟨code, arguments, host⟩ start kept (.int word :: stack))
        (At ⟨code, arguments, host⟩ stop kept (.int operand :: stack)) := by
  have implicit : (Ty.int source).isImplicitlyConvertible (.int source.promoted) := by
    cases source <;> decide
  have fits := (Ty.isImplicitlyConvertible_int_iff _ _).1 implicit word.value (typed ▸ word.inRange)
  refine ⟨.ofInt source.promoted word.value, rfl, IntType.wrap_eq_self fits, ?_⟩
  cases conversion with
  | number _ number => exact fun _ _ _ _ => number.moves_int typed
  | method notImplicit _ _ => exact absurd implicit notImplicit

/-- **Shift counts of any width.** Every shift of an integer in a tree that compiles has code for
its operand, for its count and for what is left to do. Whatever integer the operand leaves on the
stack, it is promoted without loss; and whatever integer the count then leaves above it, both are
replaced by the promoted integer multiplied by a power of two and reduced, or divided and rounded
down, where the exponent is the count modulo the number of bits of the promoted type. -/
theorem shift_moves {env : Environment} {expr : Expr} {maxLocals : Nat}
    (tree : expr.IsTree) (compiled : compile env expr maxLocals = .ok code) {node : Node}
    {direction : ShiftDirection} {left right : Expr}
    (part : .shift node direction left right ∈ expr.parts)
    {source type : IntType} (leftType : (typingOf env expr).types[left.id]? = some (.int source))
    (promoted : (Ty.int source).unaryPromoted? = some (.int type)) :
    ∃ scope start evaluated converted counted stop countType,
      CodeAt code env (typingOf env expr) scope (.shift node direction left right) start stop ∧
      CodeAt code env (typingOf env expr) scope left start evaluated ∧
      CodeAt code env (typingOf env expr) scope right converted counted ∧
      (typingOf env expr).types[right.id]? = some (.int countType) ∧
      ∀ a n : Word, a.type = source → n.type = countType → ∃ (operand : Word) (result : Value),
        operand.type = type ∧ operand.value = a.value ∧
          direction.Shifts type a.value n.value result ∧
        ∀ arguments host kept stack,
          Moves ⟨code, arguments, host⟩
            (At ⟨code, arguments, host⟩ evaluated kept (.int a :: stack))
            (At ⟨code, arguments, host⟩ converted kept (.int operand :: stack)) ∧
          Moves ⟨code, arguments, host⟩
            (At ⟨code, arguments, host⟩ counted kept (.int n :: .int operand :: stack))
            (At ⟨code, arguments, host⟩ stop kept (result :: stack)) := by
  cases promoted
  obtain ⟨⟨_, typed⟩, isCompiled⟩ := compiled_of_compile tree compiled
  obtain ⟨_, _, shiftTyped⟩ := typed.part _ part
  obtain ⟨resolution, countType, rightType⟩ := shiftTyped.shift_int leftType
  obtain ⟨_, _, bodyCode, -⟩ := isCompiled.body
  cases bodyCode.part _ part with
  | link joined _ _ => cases joined
  | @whole scope _ start stop shiftCode =>
    cases id shiftCode with
    | shiftMethod resolved _ _ _ _ =>
      rw [resolution] at resolved
      cases resolved
    | @shift _ _ _ _ _ operand _ _ resolved converted counted shifted count carriedOut =>
      rw [resolution] at resolved
      cases resolved
      cases shifted with
      | @intro _ _ _ _ _ evaluated _ known leftCode conversion =>
      cases count with
      | @intro _ _ _ _ counting _ knownCount rightCode number =>
      rw [leftType] at known
      rw [rightType] at knownCount
      cases known
      cases knownCount
      refine ⟨scope, start, evaluated, converted, counting, stop, countType, shiftCode, leftCode,
        rightCode, rightType, fun a n typedLeft typedRight => ?_⟩
      -- promotion keeps the value, so the shift can be said of `a.value`
      obtain ⟨operand, operandType, operandValue, promotes⟩ := conversion.moves_promoted typedLeft
      have wide : Value.isWide operand.type := by
        rw [operandType]
        cases source <;> rfl
      obtain ⟨result, exactly, shifts⟩ := number.moves_shift carriedOut wide typedRight
      rw [operandType, operandValue] at exactly
      exact ⟨operand, result, operandType, operandValue, exactly, fun arguments host kept stack =>
        ⟨promotes arguments host kept stack, shifts arguments host kept stack⟩⟩

/-- A small integer and a large count. -/
def shifting : Environment where
  variableTypes := #[("mask", .int .i8), ("distance", .int .i64)]

/-- The small integer shifted to the right by the large count. -/
def shiftedFar : Expr :=
  .shift ⟨0, 0, 0⟩ .right (.ident ⟨1, 0, 0⟩ "mask") (.ident ⟨2, 0, 0⟩ "distance")

/-- The least SByte is shifted by a negative count that needs more than 32 bits; it is promoted to
Int32, so the count is taken modulo 32. -/
theorem shift_moves_far : ∃ code evaluated converted counted stop operand result,
    compile shifting shiftedFar 0 = .ok code ∧
    ShiftDirection.Shifts .right .i32 (-128) (-1099511627777) result ∧
    ∀ arguments host kept stack,
      Moves ⟨code, arguments, host⟩
        (At ⟨code, arguments, host⟩ evaluated kept (.int (.ofInt .i8 (-128)) :: stack))
        (At ⟨code, arguments, host⟩ converted kept (.int operand :: stack)) ∧
      Moves ⟨code, arguments, host⟩
        (At ⟨code, arguments, host⟩ counted kept
          (.int (.ofInt .i64 (-1099511627777)) :: .int operand :: stack))
        (At ⟨code, arguments, host⟩ stop kept (result :: stack)) := by
  obtain ⟨code, compiled⟩ : ∃ code, compile shifting shiftedFar 0 = .ok code := ⟨_, by cbv⟩
  have leftType : (typingOf shifting shiftedFar).types[1]? = some (.int .i8) := by cbv
  have rightType : (typingOf shifting shiftedFar).types[2]? = some (.int .i64) := by cbv
  obtain ⟨_, _, evaluated, converted, counted, stop, countType, -, -, -, known, moves⟩ :=
    shift_moves (by decide) compiled (Expr.mem_parts shiftedFar) leftType rfl
  obtain rfl : countType = .i64 := by
    have same : some (Ty.int countType) = some (.int .i64) := known.symm.trans rightType
    cases same
    rfl
  obtain ⟨operand, result, -, -, exactly, both⟩ :=
    moves (.ofInt .i8 (-128)) (.ofInt .i64 (-1099511627777)) rfl rfl
  exact ⟨code, evaluated, converted, counted, stop, operand, result, compiled, exactly, both⟩

end Code

end ExprCode
