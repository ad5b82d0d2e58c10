/-! # Errors at run time -/

namespace ExprCode

/-- What is wrong with code that no compiler makes. -/
inductive Fault where
  | stackUnderflow
  | expectedBoolean
  | expectedInt32
  | expectedArray
  | expectedIntegerIndex
  | expectedAddress
  | localOutOfRange
  | argumentOutOfRange
  | tokenOutOfRange
  | branchBeforeStart
  | undecodable
  | reachedHalt
  | unknownTypeCode
  | invalidConversion
  | invalidElementStore
  | notDefinedOnIntegers
  | notDefinedOnFloats
  | notDefinedOnBooleans
  | operandTypesDiffer
  | invalidNegation
  | invalidComplement
  | invalidShift
  | invalidComparison
  deriving DecidableEq

/-- Text of a fault. -/
def Fault.message : Fault → String
  | stackUnderflow => "stack underflow"
  | expectedBoolean => "expected a Boolean"
  | expectedInt32 => "expected an Int32"
  | expectedArray => "expected an array"
  | expectedIntegerIndex => "expected an integer index"
  | expectedAddress => "expected an address"
  | localOutOfRange => "local out of range"
  | argumentOutOfRange => "argument out of range"
  | tokenOutOfRange => "token out of range"
  | branchBeforeStart => "branch before start of code"
  | undecodable => "truncated or unknown instruction"
  | reachedHalt => "reached halt"
  | unknownTypeCode => "unknown type code"
  | invalidConversion => "invalid conversion"
  | invalidElementStore => "invalid element store"
  | notDefinedOnIntegers => "operation not defined on integers"
  | notDefinedOnFloats => "operation not defined on floats"
  | notDefinedOnBooleans => "operation not defined on Booleans"
  | operandTypesDiffer => "operand types do not match"
  | invalidNegation => "negation of an unsigned or non-numeric value"
  | invalidComplement => "complement of a non-integral value"
  | invalidShift => "shift of a non-integral value"
  | invalidComparison => "comparison of mismatched types"

/-- Why a run ended without a value. -/
inductive RuntimeError where
  /-- An integer was divided by zero. -/
  | divisionByZero
  /-- An array has no element at an index. -/
  | indexOutOfBounds (index : Int) (length : Nat)
  /-- An array of negative length was asked for. -/
  | negativeArrayLength (length : Int)
  /-- An array was expected and the null reference found. -/
  | nullReference
  /-- A host function reported an error. -/
  | host (message : String)
  /-- The code is of another version of the instruction set. -/
  | versionMismatch (found expected : UInt8)
  /-- The code is not one that a compiler makes. -/
  | invalidProgram (fault : Fault)
  deriving DecidableEq

/-- Name of a kind of error. -/
def RuntimeError.name : RuntimeError → String
  | divisionByZero => "DivisionByZero"
  | indexOutOfBounds _ _ => "IndexOutOfBounds"
  | negativeArrayLength _ => "NegativeArrayLength"
  | nullReference => "NullReference"
  | host _ => "Host"
  | versionMismatch _ _ => "VersionMismatch"
  | invalidProgram _ => "InvalidProgram"

/-- Text of an error. -/
def RuntimeError.message : RuntimeError → String
  | divisionByZero => "division by zero"
  | indexOutOfBounds index length =>
      "index " ++ toString index ++ " is out of bounds for an array of length " ++ toString length
  | negativeArrayLength length => "array length " ++ toString length ++ " is negative"
  | nullReference => "null reference"
  | host message => message
  | versionMismatch found expected =>
      "code was encoded with format version " ++ toString found.toNat ++
        ", this VM runs version " ++ toString expected.toNat
  | invalidProgram fault => "invalid program: " ++ fault.message

end ExprCode
