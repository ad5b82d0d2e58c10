import ExprCode.Ty

/-! # An order on types

Types are ordered by their spelling, a list of words from which the type is read back. The order has
no meaning of its own; tables of types are searched by it. -/

namespace ExprCode

namespace Ty

/-- The words of a type: one for every array around it, and its kind or its name. -/
def spelling : Ty → List String
  | array element => "array" :: element.spelling
  | named name => ["named", name]
  | bool => ["Bool"]
  | int type => [(TypeCode.int type).name]
  | single => ["F32"]
  | double => ["F64"]
  | str => ["Str"]

/-- The type of a spelling. -/
def ofSpelling? : List String → Option Ty
  | "array" :: words => (ofSpelling? words).map array
  | ["named", name] => some (named name)
  | ["Bool"] => some bool
  | ["I8"] => some (int .i8)
  | ["U8"] => some (int .u8)
  | ["I16"] => some (int .i16)
  | ["U16"] => some (int .u16)
  | ["I32"] => some (int .i32)
  | ["U32"] => some (int .u32)
  | ["I64"] => some (int .i64)
  | ["U64"] => some (int .u64)
  | ["F32"] => some single
  | ["F64"] => some double
  | ["Str"] => some str
  | _ => none

/-- Every type is read back from its spelling. -/
@[simp] theorem ofSpelling?_spelling (type : Ty) : ofSpelling? type.spelling = some type := by
  induction type with
  | array element ih => simp [spelling, ofSpelling?, ih]
  | int type => cases type <;> rfl
  | bool | single | double | str | named _ => rfl

/-- Types with the same spelling are the same. -/
theorem spelling_injective {a b : Ty} (h : a.spelling = b.spelling) : a = b := by
  rw [← Option.some.injEq, ← ofSpelling?_spelling a, ← ofSpelling?_spelling b, h]

end Ty

/-- Types are ordered by their spelling. -/
instance : Ord Ty := ⟨compareOn Ty.spelling⟩

/-- The order of spellings is transitive. -/
instance : Std.TransOrd Ty := inferInstanceAs (Std.TransCmp (compareOn Ty.spelling))

/-- Types of one spelling are equal. -/
instance : Std.LawfulEqOrd Ty where
  eq_of_compare h := Ty.spelling_injective (Std.LawfulEqOrd.eq_of_compare h)

end ExprCode
