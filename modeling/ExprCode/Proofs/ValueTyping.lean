import ExprCode.Proofs.OperatorRules
import ExprCode.Semantics

/-! # Types of values

Which values a type has. Arrays are references, so this depends on a typing of the heap, which gives
every array an element type once and for all; a heap typing only grows. -/

namespace ExprCode

/-- The element types of all arrays, in the order in which the arrays were made. -/
abbrev HeapTyping := List Ty

/-- A value has a type. The null reference has every array type and every named type. -/
inductive Value.HasType (types : HeapTyping) : Value → Ty → Prop
  | bool {b : Bool} : HasType types (.bool b) .bool
  | int {word : Word} {type : IntType} (same : word.type = type) :
      HasType types (.int word) (.int type)
  | single {x : Single} : HasType types (.single x) .single
  | double {x : Double} : HasType types (.double x) .double
  | str {s : String} : HasType types (.str s) .str
  | nullArray {element : Ty} : HasType types .null (.array element)
  | nullNamed {name : String} : HasType types .null (.named name)
  | array {reference : ArrayRef} {element : Ty} (kind : reference.element = element.code)
      (listed : types[reference.index]? = some element) :
      HasType types (.array reference) (.array element)
  | object {name : String} {fields : List Value} : HasType types (.object name fields) (.named name)

/-- All arrays of a heap are of the element types given for them, and so are their elements. -/
structure Heap.WellTyped (types : HeapTyping) (heap : Heap) : Prop where
  /-- There is a type for every array. -/
  length : types.length = heap.arrays.size
  /-- The elements of an array have its element type. -/
  item : ∀ (array : ArrayRef) element, types[array.index]? = some element →
    ∀ item ∈ heap.items array, item.HasType types element

/-- Values have types, one by one. -/
inductive AllTyped (types : HeapTyping) : List Value → List Ty → Prop
  | nil : AllTyped types [] []
  | cons {value : Value} {values : List Value} {type : Ty} {rest : List Ty}
      (head : value.HasType types type) (tail : AllTyped types values rest) :
      AllTyped types (value :: values) (type :: rest)

/-- A number becomes a word of the type asked for. -/
theorem FloatDatum.type_toWord (type : IntType) (datum : FloatDatum) :
    (datum.toWord type).type = type := by
  cases datum <;> rfl

namespace Value.HasType

variable {types : HeapTyping} {value : Value} {type : Ty}

/-- Values keep their types while arrays are made. -/
theorem mono {grown : HeapTyping} (extends_ : types <+: grown) (typed : value.HasType types type) :
    value.HasType grown type := by
  cases typed with
  | array kind listed =>
    obtain ⟨more, rfl⟩ := extends_
    exact .array kind
      ((List.getElem?_append_left (List.getElem?_eq_some_iff.1 listed).1).trans listed)
  | int same => exact .int same
  | bool => exact .bool
  | single => exact .single
  | double => exact .double
  | str => exact .str
  | nullArray => exact .nullArray
  | nullNamed => exact .nullNamed
  | object => exact .object

/-- The value that a variable starts with is one of its type. -/
theorem default (type : Ty) : (Value.default type.code).HasType types type := by
  cases type with
  | bool => exact .bool
  | int type => exact .int rfl
  | single => exact .single
  | double => exact .double
  | str => exact .str
  | array element => exact .nullArray
  | named name => exact .nullNamed

/-- A value is of the kind of its type. -/
theorem typeCode?_eq (typed : value.HasType types type) : value.typeCode? = some type.code := by
  cases typed with
  | int same => exact congrArg (fun kind => some (TypeCode.int kind)) same
  | _ => rfl

/-- Every number converts to every type of numbers. -/
theorem convert? {target : Ty} (typed : value.HasType types type) (number : type.isNumeric)
    (targetNumber : target.isNumeric) :
    ∃ result, value.convert? target.code = some result ∧ result.HasType types target := by
  unfold Value.convert?
  by_cases same : value.typeCode? = some target.code
  · -- a type of numbers is known by its kind
    rw [if_pos same]
    rw [typed.typeCode?_eq, Option.some.injEq] at same
    have sameType : type = target := by
      cases type <;> cases target <;> simp_all [Ty.code, Ty.isNumeric]
    exact ⟨value, rfl, sameType ▸ typed⟩
  · rw [if_neg same]
    cases typed with
    | int sameKind =>
      cases target with
      | int kind => exact ⟨_, rfl, .int rfl⟩
      | single => exact ⟨_, rfl, .single⟩
      | double => exact ⟨_, rfl, .double⟩
      | _ => cases targetNumber
    | single =>
      cases target with
      | int kind => exact ⟨_, rfl, .int (FloatDatum.type_toWord _ _)⟩
      | single => exact absurd rfl same
      | double => exact ⟨_, rfl, .double⟩
      | _ => cases targetNumber
    | double =>
      cases target with
      | int kind => exact ⟨_, rfl, .int (FloatDatum.type_toWord _ _)⟩
      | single => exact ⟨_, rfl, .single⟩
      | double => exact absurd rfl same
      | _ => cases targetNumber
    | _ => cases number

/-- A value of a type is stored into an array of that type as it is. -/
theorem convert?_code (typed : value.HasType types type) :
    value.convert? type.code = some value := by
  unfold Value.convert?
  rw [if_pos typed.typeCode?_eq]

end Value.HasType

/-! ## The heap -/

namespace Heap.WellTyped

variable {types : HeapTyping} {heap : Heap} {element : Ty}

/-- A new array extends the typing by its element type. -/
theorem allocDefault (typed : heap.WellTyped types) (element : Ty) (length : Nat) :
    (heap.allocDefault element.code length).2.WellTyped (types ++ [element]) := by
  have size := typed.length
  refine ⟨by simp [Heap.allocDefault, Heap.alloc, size], fun array found listed item member => ?_⟩
  have bound : array.index < types.length + 1 := by
    simpa using (List.getElem?_eq_some_iff.1 listed).1
  rw [Heap.allocDefault, Heap.items_alloc, ← size] at member
  -- an array of the new heap is an old one, or the one just made
  rcases Nat.lt_succ_iff_lt_or_eq.1 bound with before | last
  · rw [List.getElem?_append_left before] at listed
    rw [if_neg before.ne] at member
    exact (typed.item array found listed item member).mono (List.prefix_append _ _)
  · rw [last, List.getElem?_concat_length, Option.some.injEq] at listed
    rw [if_pos last] at member
    rw [(Array.mem_replicate.1 member).2, ← listed]
    exact .default element

/-- A store of a value of the element type keeps a heap well typed. -/
theorem store (typed : heap.WellTyped types) {array : ArrayRef}
    (listed : types[array.index]? = some element) {value : Value}
    (valueTyped : value.HasType types element) (index : Nat) :
    (heap.store array index value).WellTyped types := by
  refine ⟨by simpa [Heap.store] using typed.length, fun other found otherListed item member => ?_⟩
  -- only the items of the one array change
  rcases Heap.mem_items_store member with old | ⟨same, rfl⟩
  · exact typed.item other found otherListed item old
  · rw [← same, listed, Option.some.injEq] at otherListed
    exact otherListed ▸ valueTyped

end Heap.WellTyped

/-! ## Arithmetic -/

/-- A function on values gives a value of a type, unless a number is divided by zero. -/
def Yields (types : HeapTyping) (type : Ty) : Except RuntimeError Value → Prop
  | .ok value => value.HasType types type
  | .error error => error = .divisionByZero

namespace Ty

/-- Arithmetic is carried out in a type of numbers, none of them narrow. -/
theorem mem_arithmeticTypes {left right result : Ty}
    (found : left.binaryResult? right = some result) :
    result ∈ arithmeticTypes := by
  unfold binaryResult? at found
  by_cases numbers : left.isNumeric && right.isNumeric
  · rw [if_pos numbers] at found
    exact List.mem_of_find?_eq_some found
  · rw [if_neg numbers] at found
    cases found

/-- Arithmetic is carried out in a type of numbers. -/
theorem isNumeric_of_binaryResult? {left right result : Ty}
    (found : left.binaryResult? right = some result) : result.isNumeric :=
  (by decide : ∀ type ∈ arithmeticTypes, type.isNumeric) _ (mem_arithmeticTypes found)

end Ty

section Arithmetic

variable {types : HeapTyping} {left right value : Value} {leftType rightType type : Ty}

/-- Arithmetic on numbers of one type; powers are taken of eight-byte numbers only. -/
theorem yields_number {op : ArithmeticOp} (notPow : op = .pow → type = .double)
    (number : type.isNumeric) (leftTyped : left.HasType types type)
    (rightTyped : right.HasType types type) :
    Yields types type (left.binary (op.function) right) := by
  cases leftTyped with
  | int same =>
    cases rightTyped with
    | int rightSame =>
      simp only [Value.binary, if_pos (same.trans rightSame.symm)]
      cases op with
      | add | sub | mul => exact .int same
      | div | rem =>
        simp only [ArithmeticOp.function, Word.apply]
        split
        · rfl
        · exact .int same
      | pow => cases notPow rfl
  | single =>
    cases rightTyped with
    | single => cases op <;> exact .single
  | double =>
    cases rightTyped with
    | double => cases op <;> exact .double
  | _ => cases number

/-- An arithmetic operator that typing accepted. -/
theorem yields_arithmetic {op : ArithmeticOp}
    (found : Typing.arithmeticOperand? op leftType rightType = some type)
    (leftTyped : left.HasType types type) (rightTyped : right.HasType types type) :
    Yields types type (left.binary (op.function) right) := by
  unfold Typing.arithmeticOperand? at found
  split at found
  · cases found
    cases leftTyped with
    | str =>
      cases rightTyped with
      | str => exact .str
  · split at found
    · cases found
      exact yields_number (fun _ => rfl) rfl leftTyped rightTyped
    · next notNumbers =>
      unfold Ty.binaryResult? at found
      rw [if_neg notNumbers] at found
      cases found
  · next notPow _ =>
    exact yields_number (fun isPow => absurd isPow notPow) (Ty.isNumeric_of_binaryResult? found)
      leftTyped rightTyped

/-- A bitwise operator that typing accepted. -/
theorem yields_bitwise {function : BinaryFunction} (bitwise : function ∈ [.and, .or, .xor])
    (found : leftType.bitwiseOperand? rightType = some type)
    (leftTyped : left.HasType types type) (rightTyped : right.HasType types type) :
    Yields types type (left.binary function right) := by
  simp only [List.mem_cons, List.not_mem_nil, or_false] at bitwise
  have integral : type.isIntegral := by
    unfold Ty.bitwiseOperand? at found
    split at found
    · cases found
      rfl
    · exact (Option.filter_eq_some_iff.1 found).2
    · cases found
  cases leftTyped with
  | bool =>
    cases rightTyped with
    | bool => rcases bitwise with rfl | rfl | rfl <;> exact .bool
  | int same =>
    cases rightTyped with
    | int rightSame =>
      simp only [Value.binary, if_pos (same.trans rightSame.symm)]
      rcases bitwise with rfl | rfl | rfl <;> exact .int same
  | _ => cases integral

/-- A comparison that typing accepted. -/
theorem yields_comparison {relation : Relation}
    (found : Typing.comparisonOperand? relation leftType rightType = some type)
    (leftTyped : left.HasType types type) (rightTyped : right.HasType types type) :
    Yields types .bool (Semantics.applyRelation relation [left, right]) := by
  have comparable : type = .bool ∨ type = .str ∨ type.isNumeric := by
    unfold Typing.comparisonOperand? at found
    split at found
    · split at found
      · cases found
        exact .inl rfl
      · cases found
    · cases found
      exact .inr (.inl rfl)
    · exact .inr (.inr (Ty.isNumeric_of_binaryResult? found))
  -- operands of one comparable type have values of one kind
  cases leftTyped with
  | int same =>
    cases rightTyped with
    | int rightSame =>
      simp only [Semantics.applyRelation, Value.compare, if_pos (same.trans rightSame.symm)]
      exact .bool
  | bool =>
    cases rightTyped with
    | bool => exact .bool
  | single =>
    cases rightTyped with
    | single => exact .bool
  | double =>
    cases rightTyped with
    | double => exact .bool
  | str =>
    cases rightTyped with
    | str => exact .bool
  | _ => simp [Ty.isNumeric] at comparable

/-- An operator on one operand that typing accepted. -/
theorem yields_unary {op : UnaryOp} {operand : Ty}
    (found : Typing.unaryOperand? op operand = some type)
    (typed : value.HasType types type) : Yields types type (Semantics.applyUnary op [value]) := by
  unfold Typing.unaryOperand? at found
  -- the cases are those of typing, in its order
  split at found
  · cases found
    cases typed with
    | bool => exact .bool
  · next kind =>
    cases found
    cases typed with
    | int same =>
      have wide : Value.isWide kind.promoted := by cases kind <;> rfl
      simp only [Semantics.applyUnary, Value.complement, same, if_pos wide]
      exact .int same
  · cases found
    cases typed with
    | int same =>
      simp only [Semantics.applyUnary, Value.negate, same]
      exact .int same
  · cases found
  · next notUnsigned notLong =>
    split at found
    · cases operand with
      | int kind =>
        cases found
        cases typed with
        | int same =>
          have signed : kind.promoted = .i32 ∨ kind.promoted = .i64 := by
            cases kind with
            | u32 => exact absurd rfl notUnsigned
            | u64 => exact absurd rfl notLong
            | i64 => exact .inr rfl
            | _ => exact .inl rfl
          rcases signed with kindEq | kindEq <;>
            · simp only [Semantics.applyUnary, Value.negate, same, kindEq]
              exact .int (same.trans kindEq)
      | single =>
        cases found
        cases typed with
        | single => exact .single
      | double =>
        cases found
        cases typed with
        | double => exact .double
      | _ => cases found
    · cases found
  · cases found

/-- A shift of an integer that typing accepted. -/
theorem yields_shift {kind : IntType} (direction : ShiftDirection) (count : UInt32)
    (typed : value.HasType types (.int kind.promoted)) :
    Yields types (.int kind.promoted) (value.shift direction count) := by
  cases typed with
  | int same =>
    have wide : Value.isWide kind.promoted := by cases kind <;> rfl
    simp only [Value.shift, same, if_pos wide]
    cases direction <;> exact .int same

end Arithmetic

end ExprCode
