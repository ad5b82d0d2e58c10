import ExprCode.Operators

/-! # Environments

The variables, functions and operators that expressions may use. Variables are numbered in the order
of their declaration, in two bytes; a declaration that fails changes nothing. -/

namespace ExprCode

/-- Why a declaration failed. -/
inductive DeclarationError where
  /-- There is a variable of that name. -/
  | duplicateVariable (name : String)
  /-- There is a function of that name. -/
  | duplicateFunction (name : String)
  /-- Two bytes cannot number another variable. -/
  | tooManyVariables
  /-- The type has a method with that name and those parameters. -/
  | duplicateOperator (name : String) (type : Ty)
  deriving DecidableEq

/-- Name of a kind of error. -/
def DeclarationError.name : DeclarationError → String
  | duplicateVariable _ => "DuplicateVariable"
  | duplicateFunction _ => "DuplicateFunction"
  | tooManyVariables => "TooManyVariables"
  | duplicateOperator _ _ => "DuplicateOperator"

/-- Greatest number of variables. -/
def maxVariables : Nat := 65536

/-- Text of an error. -/
def DeclarationError.message : DeclarationError → String
  | duplicateVariable name => "variable `" ++ name ++ "` is already declared"
  | duplicateFunction name => "function `" ++ name ++ "` is already declared"
  | tooManyVariables => "more than " ++ toString maxVariables ++ " variables"
  | duplicateOperator name type =>
      "operator `" ++ name ++ "` with the same parameters is already declared on `" ++
        type.text ++ "`"

/-- A function that expressions may call. -/
structure FunctionSignature where
  /-- Parameter types. -/
  params : List Ty
  /-- Result type. -/
  result : Ty
  /-- The function. -/
  function : Handle
  deriving DecidableEq

/-- The names and operators that expressions may use. -/
structure Environment where
  /-- Variables with their types, in the order of declaration. -/
  variableTypes : Array (String × Ty) := #[]
  /-- Functions by name, in the order of declaration. -/
  functions : List (String × FunctionSignature) := []
  /-- Operator methods. -/
  operators : OperatorRegistry := {}

namespace Environment

/-- A number in two bytes, if it fits. -/
def twoByte? (n : Nat) : Option UInt16 := if n < UInt16.size then some (.ofNat n) else none

/-- The number and the type of a variable. The number is cut to two bytes. -/
def findVariable? (env : Environment) (name : String) : Option (UInt16 × Ty) :=
  (env.variableTypes.findFinIdx? fun entry => entry.1 == name).map fun index =>
    (.ofNat index.val, env.variableTypes[index].2)

/-- Declare a variable and give it the next number. -/
def declareVariable (env : Environment) (name : String) (type : Ty) :
    Except DeclarationError (UInt16 × Environment) :=
  if (env.findVariable? name).isSome then .error (.duplicateVariable name)
  else
    match twoByte? env.variableTypes.size with
    | none => .error .tooManyVariables
    | some index =>
        .ok (index, { env with
          variableTypes := env.variableTypes.push (name, type) })

/-- The signature of a function. -/
def findFunction? (env : Environment) (name : String) : Option FunctionSignature :=
  env.functions.lookup name

/-- Declare a function. -/
def registerFunction (env : Environment) (name : String) (signature : FunctionSignature) :
    Except DeclarationError Environment :=
  if (env.findFunction? name).isSome then .error (.duplicateFunction name)
  else .ok { env with functions := env.functions ++ [(name, signature)] }

/-- Declare an operator method on a type. -/
def registerOperator (env : Environment) (type : Ty) (method : OperatorMethod) :
    Except DeclarationError Environment :=
  match env.operators.register? type method with
  | some operators => .ok { env with operators }
  | none => .error (.duplicateOperator method.name type)

end Environment

end ExprCode
