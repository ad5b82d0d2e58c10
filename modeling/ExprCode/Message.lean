/-! # Messages

The messages about expressions that cannot be compiled: a key with a code and a template, and the
arguments put into the template. `substitute` scans a template once from left to right, so text that
was put in is never looked at again. -/

namespace ExprCode

/-- What is wrong with an expression. -/
inductive MessageKey where
  | operationNotDefinedForTypes
  | operationNotDefinedForType
  | cannotConvertType
  | noExplicitConversion
  | undefinedName
  | undefinedFunction
  | argumentCountMismatch
  | notAnArray
  | indexNotInteger
  | conditionNotBoolean
  | branchTypeMismatch
  | membershipTypeMismatch
  | arrayElementMismatch
  | emptyArrayLiteral
  | shiftCountNotInteger
  | literalOutOfRange
  deriving DecidableEq

namespace MessageKey

/-- Every key, in the order of their codes. -/
def all : List MessageKey :=
  [operationNotDefinedForTypes, operationNotDefinedForType, cannotConvertType, noExplicitConversion,
    undefinedName, undefinedFunction, argumentCountMismatch, notAnArray, indexNotInteger,
    conditionNotBoolean, branchTypeMismatch, membershipTypeMismatch, arrayElementMismatch,
    emptyArrayLiteral, shiftCountNotInteger, literalOutOfRange]

/-- Name of the key. -/
def name : MessageKey → String
  | operationNotDefinedForTypes => "OperationNotDefinedForTypes"
  | operationNotDefinedForType => "OperationNotDefinedForType"
  | cannotConvertType => "CannotConvertType"
  | noExplicitConversion => "NoExplicitConversion"
  | undefinedName => "UndefinedName"
  | undefinedFunction => "UndefinedFunction"
  | argumentCountMismatch => "ArgumentCountMismatch"
  | notAnArray => "NotAnArray"
  | indexNotInteger => "IndexNotInteger"
  | conditionNotBoolean => "ConditionNotBoolean"
  | branchTypeMismatch => "BranchTypeMismatch"
  | membershipTypeMismatch => "MembershipTypeMismatch"
  | arrayElementMismatch => "ArrayElementMismatch"
  | emptyArrayLiteral => "EmptyArrayLiteral"
  | shiftCountNotInteger => "ShiftCountNotInteger"
  | literalOutOfRange => "LiteralOutOfRange"

/-- The key of a name. -/
def ofName? (text : String) : Option MessageKey := all.find? fun key => key.name == text

/-- The code shown to users. -/
def code : MessageKey → String
  | operationNotDefinedForTypes => "E001"
  | operationNotDefinedForType => "E002"
  | cannotConvertType => "E003"
  | noExplicitConversion => "E004"
  | undefinedName => "E005"
  | undefinedFunction => "E006"
  | argumentCountMismatch => "E007"
  | notAnArray => "E008"
  | indexNotInteger => "E009"
  | conditionNotBoolean => "E010"
  | branchTypeMismatch => "E011"
  | membershipTypeMismatch => "E012"
  | arrayElementMismatch => "E013"
  | emptyArrayLiteral => "E014"
  | shiftCountNotInteger => "E015"
  | literalOutOfRange => "E016"

/-- The text, with the places of its arguments between braces. -/
def template : MessageKey → String
  | operationNotDefinedForTypes =>
      "operation '\x7b0\x7d' is not defined for types '\x7b1\x7d' and '\x7b2\x7d'"
  | operationNotDefinedForType => "operation '\x7b0\x7d' is not defined for type '\x7b1\x7d'"
  | cannotConvertType => "cannot implicitly convert from '\x7b0\x7d' to '\x7b1\x7d'"
  | noExplicitConversion => "no conversion exists from '\x7b0\x7d' to '\x7b1\x7d'"
  | undefinedName => "name '\x7b0\x7d' is not defined"
  | undefinedFunction => "function '\x7b0\x7d' is not defined"
  | argumentCountMismatch =>
      "function '\x7b0\x7d' takes \x7b1\x7d argument(s) but \x7b2\x7d were given"
  | notAnArray => "cannot index a value of type '\x7b0\x7d'"
  | indexNotInteger => "array index must be an integer, found '\x7b0\x7d'"
  | conditionNotBoolean => "condition must be 'Boolean', found '\x7b0\x7d'"
  | branchTypeMismatch => "conditional branches have incompatible types '\x7b0\x7d' and '\x7b1\x7d'"
  | membershipTypeMismatch => "cannot test '\x7b0\x7d' for membership among '\x7b1\x7d' items"
  | arrayElementMismatch => "array elements have incompatible types '\x7b0\x7d' and '\x7b1\x7d'"
  | emptyArrayLiteral => "cannot infer the element type of an empty array"
  | shiftCountNotInteger => "shift count must be an integer, found '\x7b0\x7d'"
  | literalOutOfRange => "literal '\x7b0\x7d' is out of range"

end MessageKey

namespace Message

/-- The number written by decimal digits, of which there must be one. -/
def digits? : List Char → Option Nat
  | [] => none
  | digits =>
      if digits.all Char.isDigit then
        some (digits.foldl (fun n digit => 10 * n + (digit.toNat - '0'.toNat)) 0)
      else none

/-- The index written between braces: decimal digits, after a plus sign or not. -/
def index? : List Char → Option Nat
  | '+' :: digits => digits? digits
  | digits => digits? digits

/-- The argument named by the text up to the first closing brace. -/
def argument? (arguments : List String) (text : List Char) : Option String :=
  (index? text).bind fun index => arguments[index]?

/-- The argument that the text behind an opening brace asks for, with what follows the first closing
brace. -/
def placeholder? (arguments : List String) (text : List Char) : Option (String × List Char) :=
  match text.dropWhile (· ≠ '\x7d') with
  | [] => none
  | _ :: after => (argument? arguments (text.takeWhile (· ≠ '\x7d'))).map (·, after)

/-- What follows a placeholder is shorter than the text that it was found in. -/
theorem length_lt_of_placeholder? {arguments : List String} {text after : List Char}
    {argument : String} (h : placeholder? arguments text = some (argument, after)) :
    after.length < text.length := by
  unfold placeholder? at h
  split at h
  · exact absurd h (by simp)
  · next closing rest found =>
    obtain ⟨_, _, same⟩ := Option.map_eq_some_iff.1 h
    have shorter := (List.dropWhile_suffix (l := text) (· ≠ '\x7d')).length_le
    rw [found, List.length_cons] at shorter
    simp only [Prod.mk.injEq] at same
    rw [← same.2]
    omega

/-- Put arguments into a template. An opening brace is replaced, together with the text up to the
first closing brace, by the argument which that text names; if it names none the brace stays and the
scan goes on right behind it. -/
def substitute (arguments : List String) : List Char → List Char
  | [] => []
  | c :: rest =>
      if c = '\x7b' then
        match h : placeholder? arguments rest with
        | some (argument, after) =>
            have : after.length < rest.length := length_lt_of_placeholder? h
            argument.toList ++ substitute arguments after
        | none => c :: substitute arguments rest
      else c :: substitute arguments rest
termination_by template => template.length

end Message

/-- The message of a key with its arguments. -/
def MessageKey.format (key : MessageKey) (arguments : List String) : String :=
  String.ofList (Message.substitute arguments key.template.toList)

end ExprCode
