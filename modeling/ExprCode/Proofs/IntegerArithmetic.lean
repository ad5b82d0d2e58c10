import ExprCode.Proofs.OperatorRules
import ExprCode.Value.Arithmetic

/-! # Integer arithmetic

Promotion loses nothing and the machine's integer functions are exact up to the width of their type.
The specification is written without `IntType.wrap`: a value *reduces* an integer if it lies in the
range of the type, which every `Word` does by construction, and differs from the integer by a
multiple of `2 ^ bits`.

Main results: `Ty.isImplicitlyConvertible_int_iff` (an integer type widens to exactly those types
that hold all its values), `Value.exactOn_words` (the functions of two operands of one type) and
their combination `integer_arithmetic_exact`. -/

namespace ExprCode

/-! ## Ranges -/

namespace IntType

/-- Wrapping changes an integer by a multiple of two to the number of bits. -/
theorem wrap_modEq (type : IntType) (n : Int) : type.wrap n ≡ n [ZMOD 2 ^ type.bits] := by
  have power : ((1 <<< type.bits : Nat) : Int) = 2 ^ type.bits := by
    rw [Nat.one_shiftLeft]
    push_cast
    rfl
  unfold wrap Int.ModEq
  split
  · have symmetric : (Int.bmod n (1 <<< type.bits)) % ((1 <<< type.bits : Nat) : Int)
        = n % ((1 <<< type.bits : Nat) : Int) := Int.bmod_emod
    rwa [power] at symmetric
  · rw [power, Int.emod_emod]

/-- Wrapping into a type and then into one that is no wider: only the last one counts. -/
theorem wrap_wrap {first last : IntType} (narrower : last.bits ≤ first.bits) (n : Int) :
    last.wrap (first.wrap n) = last.wrap n := by
  have divides : 1 <<< last.bits ∣ 1 <<< first.bits := by
    simpa only [Nat.one_shiftLeft] using Nat.pow_dvd_pow 2 narrower
  have dividesInt : ((1 <<< last.bits : Nat) : Int) ∣ (1 <<< first.bits : Nat) :=
    Int.natCast_dvd_natCast.2 divides
  unfold wrap
  split <;> split
  · exact Int.bmod_bmod_of_dvd divides
  · rw [← Int.emod_bmod, Int.emod_emod_of_dvd n dividesInt, Int.emod_bmod]
  · rw [← Int.emod_emod_of_dvd _ dividesInt, Int.bmod_emod, Int.emod_emod_of_dvd n dividesInt]
  · exact Int.emod_emod_of_dvd n dividesInt

/-- One range lies in another exactly if its two ends do. -/
theorem range_le_iff {source target : IntType} :
    (∀ n, source.InRange n → target.InRange n) ↔
      target.minValue ≤ source.minValue ∧ source.maxValue ≤ target.maxValue := by
  have bounds := source.minValue_le_maxValue
  constructor
  · intro holds
    exact ⟨(holds source.minValue ⟨le_refl _, bounds⟩).1,
      (holds source.maxValue ⟨bounds, le_refl _⟩).2⟩
  · rintro ⟨low, high⟩ n ⟨above, below⟩
    exact ⟨low.trans above, below.trans high⟩

end IntType

/-- An integer type stands for another one without being asked exactly if that one holds all its
values. -/
theorem Ty.isImplicitlyConvertible_int_iff (source target : IntType) :
    (Ty.int source).isImplicitlyConvertible (.int target) ↔
      ∀ n, source.InRange n → target.InRange n := by
  -- The table of widenings is compared with the ends of the ranges, type by type.
  rw [IntType.range_le_iff]
  cases source <;> cases target <;> decide

/-! ## Conversions -/

namespace Value

/-- An integer is converted to an integer type by wrapping it, also to its own type. -/
theorem convert?_int (word : Word) (type : IntType) :
    (int word).convert? (.int type) = some (int (.ofInt type word.value)) := by
  by_cases same : word.type = type
  · subst same
    simp [convert?, typeCode?]
  · simp [convert?, typeCode?, same]

/-- A conversion to a type that holds all values of the operand's type keeps the integer. -/
theorem convert?_of_implicit {type : IntType} {word : Word}
    (implicit : (Ty.int word.type).isImplicitlyConvertible (.int type)) :
    ∃ converted : Word, (int word).convert? (.int type) = some (int converted) ∧
      converted.type = type ∧ converted.value = word.value := by
  have fits :=
    (Ty.isImplicitlyConvertible_int_iff word.type type).1 implicit word.value word.inRange
  exact ⟨.ofInt type word.value, convert?_int word type, rfl, IntType.wrap_eq_self fits⟩

end Value

/-! ## Functions of two integers -/

/-- A value is an integer reduced into a type: it has that type, so it lies in its range, and it
differs from the integer by a multiple of two to the number of bits. -/
def Value.Reduces (type : IntType) (n : Int) (value : Value) : Prop :=
  ∃ word : Word, value = .int word ∧ word.type = type ∧ word.value ≡ n [ZMOD 2 ^ type.bits]

/-- Wrapping reduces. -/
theorem Value.reduces_ofInt (type : IntType) (n : Int) :
    Value.Reduces type n (.int (.ofInt type n)) :=
  ⟨.ofInt type n, rfl, rfl, type.wrap_modEq n⟩

/-- What a relation says of two integers. -/
def Relation.Relates : Relation → Int → Int → Prop
  | .eq, a, b => a = b
  | .ne, a, b => a ≠ b
  | .lt, a, b => a < b
  | .gt, a, b => b < a
  | .le, a, b => a ≤ b
  | .ge, a, b => b ≤ a

/-- The machine's six relations on the order of two integers are the mathematical ones. -/
theorem Relation.holds_compare (relation : Relation) (a b : Int) :
    relation.holds (some (Ord.compare a b)) ↔ relation.Relates a b := by
  rcases lt_trichotomy a b with less | equal | greater
  · rw [compare_lt_iff_lt.2 less]
    cases relation <;> simp [holds, Relates] <;> omega
  · rw [compare_eq_iff_eq.2 equal]
    cases relation <;> simp [holds, Relates] <;> omega
  · rw [compare_gt_iff_gt.2 greater]
    cases relation <;> simp [holds, Relates] <;> omega

namespace Value

/-- The machine's functions, applied to the operands `left` and `right`, give the results of
arithmetic on the integers `a` and `b`, reduced into a type. -/
structure ExactOn (type : IntType) (a b : Int) (left right : Value) : Prop where
  /-- The sum. -/
  add : ∃ sum, left.binary .add right = .ok sum ∧ sum.Reduces type (a + b)
  /-- The difference. -/
  sub : ∃ difference, left.binary .sub right = .ok difference ∧ difference.Reduces type (a - b)
  /-- The product. -/
  mul : ∃ product, left.binary .mul right = .ok product ∧ product.Reduces type (a * b)
  /-- A quotient is refused for the divisor zero only. -/
  div_zero : left.binary .div right = .error .divisionByZero ↔ b = 0
  /-- The quotient rounded toward zero. -/
  div : b ≠ 0 → ∃ quotient, left.binary .div right = .ok quotient ∧ quotient.Reduces type (a.tdiv b)
  /-- A remainder is refused for the divisor zero only. -/
  rem_zero : left.binary .rem right = .error .divisionByZero ↔ b = 0
  /-- The remainder that goes with the quotient. -/
  rem : b ≠ 0 → ∃ rest, left.binary .rem right = .ok rest ∧ rest.Reduces type (a.tmod b)
  /-- The six relations. -/
  compare : ∃ ordering, left.compare right = .ok ordering ∧
    ∀ relation : Relation, relation.holds ordering ↔ relation.Relates a b

/-- On two operands of one type, every function is carried out on their words. -/
theorem binary_int {left right : Word} (same : left.type = right.type) (function : BinaryFunction) :
    (int left).binary function (int right) = int <$> left.apply function right := by
  simp [binary, same]

/-- A word made by an operation on integers reduces what the operation gives. -/
theorem reduces_lift₂ (operation : Int → Int → Int) (left right : Word) :
    Reduces left.type (operation left.value right.value) (int (left.lift₂ operation right)) :=
  reduces_ofInt left.type _

/-- Division and remainder test the divisor first. -/
theorem divisionByZero_iff {left right result : Word} (function : BinaryFunction)
    (same : left.type = right.type)
    (guarded : left.apply function right =
      if right.value = 0 then .error .divisionByZero else .ok result) :
    ((int left).binary function (int right) = .error .divisionByZero ↔ right.value = 0) ∧
      (right.value ≠ 0 → (int left).binary function (int right) = .ok (int result)) := by
  rw [binary_int same, guarded]
  by_cases zero : right.value = 0
  · simp [zero, Functor.map, Except.map]
  · simp [zero, Functor.map, Except.map]

/-- The functions of two operands of one type are exact on the integers that the operands are. -/
theorem exactOn_words {left right : Word} (same : left.type = right.type) :
    ExactOn left.type left.value right.value (int left) (int right) := by
  have quotient := divisionByZero_iff .div same rfl
  have rest := divisionByZero_iff .rem same rfl
  exact {
    add := ⟨_, binary_int same .add, reduces_lift₂ _ left right⟩
    sub := ⟨_, binary_int same .sub, reduces_lift₂ _ left right⟩
    mul := ⟨_, binary_int same .mul, reduces_lift₂ _ left right⟩
    div_zero := quotient.1
    div := fun nonzero => ⟨_, quotient.2 nonzero, reduces_lift₂ _ left right⟩
    rem_zero := rest.1
    rem := fun nonzero => ⟨_, rest.2 nonzero, reduces_lift₂ _ left right⟩
    compare := ⟨some (Ord.compare left.value right.value), by simp [Value.compare, same],
      fun relation => relation.holds_compare left.value right.value⟩ }

end Value

/-- Integer arithmetic is exact up to the width of the promoted type. Two operands whose promoted
type is an integer type are both converted to it without loss, and there the machine's functions
give the results of arithmetic on the integers that the operands were, reduced into the type.
Moreover, one integer type converts to another implicitly exactly if that one holds all its values,
and such a conversion keeps every value. -/
theorem integer_arithmetic_exact :
    (∀ (a b : Word) (type : IntType), (Ty.int a.type).binaryResult? (.int b.type) =
      some (.int type) →
      ∃ left right, (Value.int a).convert? (.int type) = some left ∧
        (Value.int b).convert? (.int type) = some right ∧
        Value.ExactOn type a.value b.value left right) ∧
    ∀ source target : IntType,
      ((Ty.int source).isImplicitlyConvertible (.int target) ↔
        ∀ n, source.InRange n → target.InRange n) ∧
      ((Ty.int source).isImplicitlyConvertible (.int target) →
        ∀ word : Word, word.type = source → ∃ converted : Word,
          (Value.int word).convert? (.int target) = some (.int converted) ∧
          converted.type = target ∧ converted.value = word.value) := by
  constructor
  · intro a b type promoted
    obtain ⟨leftImplicit, rightImplicit⟩ := Ty.implicit_of_binaryResult? promoted
    obtain ⟨left, leftConverted, rfl, leftValue⟩ := Value.convert?_of_implicit leftImplicit
    obtain ⟨right, rightConverted, rightType, rightValue⟩ :=
      Value.convert?_of_implicit rightImplicit
    refine ⟨_, _, leftConverted, rightConverted, ?_⟩
    -- The converted operands are still the integers `a` and `b`, so exactness on them is what is
    -- asked.
    rw [← leftValue, ← rightValue]
    exact Value.exactOn_words rightType.symm
  · intro source target
    refine ⟨Ty.isImplicitlyConvertible_int_iff source target, ?_⟩
    rintro implicit word rfl
    exact Value.convert?_of_implicit implicit

/-- The least Int32 and the SByte `-1` meet in Int32, where the quotient does not fit; the greatest
Byte is kept by Int16. -/
theorem integer_arithmetic_exact_least :
    ((Ty.int .i32).binaryResult? (.int .i8) = some (.int .i32) ∧
      ∃ left right, (Value.int (.ofInt .i32 (-2147483648))).convert? (.int .i32) = some left ∧
        (Value.int (.ofInt .i8 (-1))).convert? (.int .i32) = some right ∧
        Value.ExactOn .i32 (-2147483648) (-1) left right) ∧
    (Ty.int .u8).isImplicitlyConvertible (.int .i16) ∧
      ∃ converted : Word, (Value.int (.ofInt .u8 255)).convert? (.int .i16) =
        some (.int converted) ∧
        converted.type = .i16 ∧ converted.value = 255 :=
  ⟨⟨by decide,
    integer_arithmetic_exact.1 (.ofInt .i32 (-2147483648)) (.ofInt .i8 (-1)) .i32 (by decide)⟩,
    by decide, (integer_arithmetic_exact.2 .u8 .i16).2 (by decide) (.ofInt .u8 255) rfl⟩

end ExprCode
