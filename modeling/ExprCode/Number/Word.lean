/-! # Machine integers

The eight fixed-width integer types and their values. A `Word` is a mathematical integer kept inside
the range of its type by construction, so two words are equal exactly when their types and integers
are, and every operation is the mathematical one followed by `IntType.wrap`.

Main definitions: `IntType`, `IntType.wrap`, `Word`, `Word.ofInt`, and the arithmetic of words.
`Word.ofInt_value` says that reducing an integer already in range changes nothing. -/

namespace ExprCode

/-- The integer types, by signedness and width. -/
inductive IntType where
  | i8 | u8 | i16 | u16 | i32 | u32 | i64 | u64
  deriving DecidableEq

namespace IntType

/-- Number of bits of a value. -/
def bits : IntType → Nat
  | i8 | u8 => 8
  | i16 | u16 => 16
  | i32 | u32 => 32
  | i64 | u64 => 64

/-- Whether negative values exist. -/
def signed : IntType → Bool
  | i8 | i16 | i32 | i64 => true
  | u8 | u16 | u32 | u64 => false

/-- The least value. -/
def minValue (type : IntType) : Int :=
  if type.signed then -(1 <<< (type.bits - 1) : Nat) else 0

/-- The greatest value. -/
def maxValue (type : IntType) : Int :=
  if type.signed then (1 <<< (type.bits - 1) : Nat) - 1 else (1 <<< type.bits : Nat) - 1

/-- The integers that the type can hold. -/
def InRange (type : IntType) (n : Int) : Prop :=
  type.minValue ≤ n ∧ n ≤ type.maxValue

/-- Whether an integer is in range can be decided. -/
instance (type : IntType) (n : Int) : Decidable (type.InRange n) :=
  inferInstanceAs (Decidable (_ ∧ _))

/-- The integer of the type's range that is congruent to `n` modulo `2 ^ bits`. -/
def wrap (type : IntType) (n : Int) : Int :=
  if type.signed then Int.bmod n (1 <<< type.bits) else n % (1 <<< type.bits : Nat)

/-- The integer of the type's range that is nearest to `n`. -/
def clamp (type : IntType) (n : Int) : Int :=
  max type.minValue (min n type.maxValue)

/-- Wrapping lands in the range. -/
theorem inRange_wrap (type : IntType) (n : Int) : type.InRange (type.wrap n) := by
  cases type <;> simp only [InRange, minValue, maxValue, wrap, signed, bits, Int.bmod] <;>
    simp <;> omega

/-- Wrapping keeps an integer that is in range. -/
theorem wrap_eq_self {type : IntType} {n : Int} (h : type.InRange n) : type.wrap n = n := by
  revert h
  cases type <;> simp only [InRange, minValue, maxValue, wrap, signed, bits, Int.bmod] <;>
    simp <;> omega

/-- The range of a type is not empty. -/
theorem minValue_le_maxValue (type : IntType) : type.minValue ≤ type.maxValue := by
  cases type <;> decide

/-- Clamping lands in the range. -/
theorem inRange_clamp (type : IntType) (n : Int) : type.InRange (type.clamp n) := by
  have bounds := type.minValue_le_maxValue
  rw [InRange, clamp]
  omega

end IntType

/-- A value of an integer type. -/
@[ext] structure Word where
  /-- The type of the value. -/
  type : IntType
  /-- The value as a mathematical integer. -/
  value : Int
  /-- The value lies in the range of its type. -/
  inRange : type.InRange value
  deriving DecidableEq

namespace Word

/-- The word of the given type that is congruent to `n`. -/
def ofInt (type : IntType) (n : Int) : Word :=
  ⟨type, type.wrap n, type.inRange_wrap n⟩

/-- The word of the given type that is nearest to `n`. -/
def clamp (type : IntType) (n : Int) : Word :=
  ⟨type, type.clamp n, type.inRange_clamp n⟩

/-- An integer is put into the type that was asked for. -/
@[simp] theorem type_ofInt (type : IntType) (n : Int) : (ofInt type n).type = type := rfl

/-- An integer is wrapped around in its type. -/
@[simp] theorem value_ofInt (type : IntType) (n : Int) : (ofInt type n).value = type.wrap n := rfl

/-- Reading a word back into its own type gives the word. -/
@[simp] theorem ofInt_value (word : Word) : ofInt word.type word.value = word :=
  Word.ext rfl (IntType.wrap_eq_self word.inRange)

/-- The two's complement bit pattern of a word. -/
def toBits (word : Word) : BitVec word.type.bits :=
  BitVec.ofInt word.type.bits word.value

/-- Apply an operation on integers and wrap its result into the type of the first operand. -/
def lift₂ (operation : Int → Int → Int) (left right : Word) : Word :=
  ofInt left.type (operation left.value right.value)

/-- Apply an operation on bit patterns as wide as the first operand. -/
def bitwise (operation : (width : Nat) → BitVec width → BitVec width → BitVec width)
    (left right : Word) : Word :=
  ofInt left.type
    (operation left.type.bits left.toBits (BitVec.ofInt left.type.bits right.value)).toInt

/-- Sum, wrapped. -/
def add : Word → Word → Word := lift₂ (· + ·)

/-- Difference, wrapped. -/
def sub : Word → Word → Word := lift₂ (· - ·)

/-- Product, wrapped. -/
def mul : Word → Word → Word := lift₂ (· * ·)

/-- Quotient rounded toward zero, wrapped: the least value divided by `-1` is itself. -/
def div : Word → Word → Word := lift₂ Int.tdiv

/-- Remainder with the sign of the dividend. -/
def rem : Word → Word → Word := lift₂ Int.tmod

/-- Bitwise conjunction. -/
def and : Word → Word → Word := bitwise fun _ => (· &&& ·)

/-- Bitwise disjunction. -/
def or : Word → Word → Word := bitwise fun _ => (· ||| ·)

/-- Bitwise exclusive disjunction. -/
def xor : Word → Word → Word := bitwise fun _ => (· ^^^ ·)

/-- Negation, wrapped. -/
def neg (word : Word) : Word := ofInt word.type (-word.value)

/-- Bitwise complement. -/
def complement (word : Word) : Word := ofInt word.type (-word.value - 1)

/-- The number of places by which a count shifts a word: the count under the mask of the width. -/
def shiftPlaces (word : Word) (count : UInt32) : Nat :=
  (count &&& .ofNat (word.type.bits - 1)).toNat

/-- Shift to the left by a masked count. -/
def shiftLeft (word : Word) (count : UInt32) : Word :=
  ofInt word.type (word.value * Nat.pow 2 (word.shiftPlaces count))

/-- Shift to the right by a masked count, keeping the sign. -/
def shiftRight (word : Word) (count : UInt32) : Word :=
  ofInt word.type (word.value / Nat.pow 2 (word.shiftPlaces count))

end Word

end ExprCode
