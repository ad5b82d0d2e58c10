import ExprCode.Number.Binary
import ExprCode.Ty

/-! # Values

What the machine computes with. Numbers, strings and host objects are values by themselves; an array
is a reference to an object that is shared by all who hold the reference. -/

namespace ExprCode

/-- A reference to an array, with the kind that its elements have. -/
structure ArrayRef where
  /-- Kind of the elements. -/
  element : TypeCode
  /-- Number of the array, in the order in which arrays were made. -/
  index : Nat
  deriving DecidableEq

/-- A value at run time. -/
inductive Value where
  /-- The null reference. -/
  | null
  /-- A truth value. -/
  | bool (b : Bool)
  /-- An integer of a fixed width. -/
  | int (word : Word)
  /-- A four-byte floating-point number. -/
  | single (x : Single)
  /-- An eight-byte floating-point number. -/
  | double (x : Double)
  /-- A string. -/
  | str (s : String)
  /-- A reference to an array. -/
  | array (reference : ArrayRef)
  /-- A host object: the name of its type and its fields. -/
  | object (type : String) (fields : List Value)
  /-- The address of a local. -/
  | localAddress (slot : Nat)
  /-- The address of an element of an array. -/
  | elementAddress (array : ArrayRef) (index : Nat)

namespace Value

/-- The Int32 value congruent to an integer. -/
def i32 (n : Int) : Value := .int (.ofInt .i32 n)

/-- The Int64 value congruent to an integer. -/
def i64 (n : Int) : Value := .int (.ofInt .i64 n)

/-- The value that a variable of the given kind starts with. -/
def default : TypeCode → Value
  | .bool => .bool false
  | .int type => .int (.ofInt type 0)
  | .single => .single .zero
  | .double => .double .zero
  | .str => .str ""
  | .object => .null

/-- The kind of a value; an address has none. -/
def typeCode? : Value → Option TypeCode
  | bool _ => some .bool
  | int word => some (.int word.type)
  | single _ => some .single
  | double _ => some .double
  | str _ => some .str
  | null | array _ | object _ _ => some .object
  | localAddress _ | elementAddress _ _ => none

/-- The truth value of a value. -/
def bool? : Value → Option Bool
  | bool b => some b
  | _ => none

/-- The integer of a value of the given integer type. -/
def int? (type : IntType) : Value → Option Int
  | int word => if word.type = type then some word.value else none
  | _ => none

/-- The integer of a value of any integer type. -/
def integer? : Value → Option Int
  | int word => some word.value
  | _ => none

/-- The string of a value. -/
def str? : Value → Option String
  | str s => some s
  | _ => none

/-- The value as a value of the given kind. A value of that kind is itself; integers wrap into
integer types and are rounded once to floating-point numbers; floating-point numbers lose their
fraction and go to the nearest integer of the type. There is no other conversion. -/
def convert? (value : Value) (code : TypeCode) : Option Value :=
  if value.typeCode? = some code then some value
  else
    match value, code with
    | int word, .int type => some (int (.ofInt type word.value))
    | int word, .single => some (single (.ofDatum (.ofInt word.value)))
    | int word, .double => some (double (.ofDatum (.ofInt word.value)))
    | single x, .int type => some (int (x.toDatum.toWord type))
    | single x, .double => some (double (.ofDatum x.toDatum))
    | double x, .int type => some (int (x.toDatum.toWord type))
    | double x, .single => some (single (.ofDatum x.toDatum))
    | _, _ => none

end Value

end ExprCode
