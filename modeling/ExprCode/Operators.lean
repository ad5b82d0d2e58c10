import ExprCode.Defect
import ExprCode.Host

/-! # Operator methods

Host functions that give operators a meaning on host types. A method belongs to the type on which it
was declared. Names are compared without regard to the case of ASCII letters, and a type has no two
methods with equal names and parameters. -/

namespace ExprCode

/-- A host function that stands for an operator. -/
structure OperatorMethod where
  /-- Full name, starting with the word for operators. -/
  name : String
  /-- Parameter types. -/
  params : List Ty
  /-- Result type. -/
  result : Ty
  /-- The function. -/
  function : Handle
  deriving DecidableEq

namespace OperatorMethod

/-- Full name of the method of an operator. -/
def fullName (operator : String) : String := "operator_" ++ operator

/-- Whether two names are equal but for the case of ASCII letters. -/
def sameName (a b : String) : Bool := a.toLower == b.toLower

/-- Whether the method stands for an operator. -/
def isNamed (method : OperatorMethod) (operator : String) : Bool :=
  sameName method.name (fullName operator)

/-- Whether two methods have the same name and parameters. -/
def sameSignature (a b : OperatorMethod) : Bool :=
  sameName a.name b.name && a.params == b.params

/-- Name, parameters and result in one line. -/
def text (method : OperatorMethod) : String :=
  method.name ++ "(" ++ ", ".intercalate (method.params.map Ty.text) ++ ") -> " ++
    method.result.text

end OperatorMethod

/-- All operator methods with the types on which they were declared, in the order of declaration. -/
structure OperatorRegistry where
  /-- Declaring types and methods. -/
  declared : List (Ty × OperatorMethod) := []

namespace OperatorRegistry

/-- The methods declared on a type, in the order of declaration. -/
def methodsOf (registry : OperatorRegistry) (type : Ty) : List OperatorMethod :=
  (registry.declared.filter fun entry => entry.1 == type).map (·.2)

/-- Declare a method on a type, unless the type has one with the same name and parameters. -/
def register? (registry : OperatorRegistry) (type : Ty) (method : OperatorMethod) :
    Option OperatorRegistry :=
  if (registry.methodsOf type).any (·.sameSignature method) then none
  else some ⟨registry.declared ++ [(type, method)]⟩

/-- The methods on a type which stand for an operator that makes the target from the source. -/
def conversionsOn (registry : OperatorRegistry) (type : Ty) (operator : String)
    (source target : Ty) :
    List OperatorMethod :=
  (registry.methodsOf type).filter fun method =>
    method.isNamed operator && method.result == target && method.params.head? == some source

/-- The method for a conversion operator from the source to the target, sought on the source type
and, if it has none, on the target type. There must not be two. -/
def findConversion (registry : OperatorRegistry) (operator : String) (source target : Ty) :
    Except Defect (Option OperatorMethod) :=
  let onSource := registry.conversionsOn source operator source target
  let found :=
    if onSource.isEmpty && target != source then
      registry.conversionsOn target operator source target
    else onSource
  match found with
  | [] => .ok none
  | [method] => .ok (some method)
  | several =>
      .error (.ambiguousOperator (OperatorMethod.fullName operator) source target several.length)

/-- The method on a type that stands for an operator with exactly the given parameters. -/
def find? (registry : OperatorRegistry) (operator : String) (type : Ty) (params : List Ty) :
    Option OperatorMethod :=
  (registry.methodsOf type).find? fun method => method.isNamed operator && method.params == params

end OperatorRegistry

end ExprCode
