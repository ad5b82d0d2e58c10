import ExprCode.Number.Word

/-! # Static types

The types that expressions have (`Ty`) and the one-byte type codes that values and instructions
carry (`TypeCode`). A type code forgets what an object is: arrays and named types share one code. -/

namespace ExprCode

/-- Name of an integer type as messages write it. -/
def IntType.text : IntType → String
  | .i8 => "SByte"
  | .u8 => "Byte"
  | .i16 => "Int16"
  | .u16 => "UInt16"
  | .i32 => "Int32"
  | .u32 => "UInt32"
  | .i64 => "Int64"
  | .u64 => "UInt64"

/-- The static type of an expression. -/
inductive Ty where
  /-- Truth values. -/
  | bool
  /-- Integers of a fixed width. -/
  | int (type : IntType)
  /-- Four-byte floating-point numbers. -/
  | single
  /-- Eight-byte floating-point numbers. -/
  | double
  /-- Strings. -/
  | str
  /-- Arrays of one element type. -/
  | array (element : Ty)
  /-- A type known to the host only, by name. -/
  | named (name : String)
  deriving DecidableEq

/-- The kind of a value at run time. -/
inductive TypeCode where
  /-- Truth values. -/
  | bool
  /-- Integers of a fixed width. -/
  | int (type : IntType)
  /-- Four-byte floating-point numbers. -/
  | single
  /-- Eight-byte floating-point numbers. -/
  | double
  /-- Strings. -/
  | str
  /-- Arrays, host objects and the null reference. -/
  | object
  deriving DecidableEq

namespace TypeCode

/-- The byte that stands for a type code in code. -/
def toByte : TypeCode → UInt8
  | bool => 0x01
  | int .i8 => 0x02
  | int .u8 => 0x03
  | int .i16 => 0x04
  | int .u16 => 0x05
  | int .i32 => 0x06
  | int .u32 => 0x07
  | int .i64 => 0x08
  | int .u64 => 0x09
  | single => 0x0A
  | double => 0x0B
  | str => 0x0C
  | object => 0x0D

/-- Every type code, in the order of their bytes. -/
def all : List TypeCode :=
  [bool, int .i8, int .u8, int .i16, int .u16, int .i32, int .u32, int .i64, int .u64, single,
    double, str, object]

/-- The type code that a byte stands for. -/
def ofByte? (byte : UInt8) : Option TypeCode := all.find? fun code => code.toByte == byte

/-- Every type code is read back from its byte. -/
@[simp] theorem ofByte?_toByte (code : TypeCode) : ofByte? code.toByte = some code := by
  cases code with
  | int type => cases type <;> rfl
  | bool | single | double | str | object => rfl

/-- Short name, as listings write it. -/
def text : TypeCode → String
  | bool => "bool"
  | int .i8 => "i1"
  | int .u8 => "u1"
  | int .i16 => "i2"
  | int .u16 => "u2"
  | int .i32 => "i4"
  | int .u32 => "u4"
  | int .i64 => "i8"
  | int .u64 => "u8"
  | single => "r4"
  | double => "r8"
  | str => "str"
  | object => "obj"

/-- Long name, as reports of a misplaced operand write it. -/
def name : TypeCode → String
  | bool => "Bool"
  | int .i8 => "I8"
  | int .u8 => "U8"
  | int .i16 => "I16"
  | int .u16 => "U16"
  | int .i32 => "I32"
  | int .u32 => "U32"
  | int .i64 => "I64"
  | int .u64 => "U64"
  | single => "F32"
  | double => "F64"
  | str => "Str"
  | object => "Object"

/-- Whether the code is one of the ten number codes. -/
def isNumeric : TypeCode → Bool
  | int _ | single | double => true
  | bool | str | object => false

end TypeCode

namespace Ty

/-- Name of a type, as messages write it. -/
def text : Ty → String
  | bool => "Boolean"
  | int type => type.text
  | single => "Single"
  | double => "Double"
  | str => "String"
  | array element => element.text ++ "[]"
  | named name => name

/-- The kind of the values of a type. -/
def code : Ty → TypeCode
  | bool => .bool
  | int type => .int type
  | single => .single
  | double => .double
  | str => .str
  | array _ | named _ => .object

/-- Size in bytes, for the types that have one. -/
def width? : Ty → Option Nat
  | bool => some 1
  | int type => some (type.bits / 8)
  | single => some 4
  | double => some 8
  | str | array _ | named _ => none

/-- Whether the type is an integer type with negative values. -/
def isSigned : Ty → Bool
  | int type => type.signed
  | _ => false

/-- Whether the type is a floating-point type. -/
def isFloat : Ty → Bool
  | single | double => true
  | _ => false

/-- Whether bitwise operators may apply: the integer types and truth values. -/
def isIntegral : Ty → Bool
  | bool | int _ => true
  | _ => false

/-- Whether the type is a type of numbers. -/
def isNumeric : Ty → Bool
  | int _ | single | double => true
  | _ => false

/-- The element type of an array type. -/
def element? : Ty → Option Ty
  | array element => some element
  | _ => none

end Ty

end ExprCode
