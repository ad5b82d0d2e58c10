import ExprCode.Machine
import ExprCode.Typing

/-! # Meaning of expressions

The value of a typed expression, by recursion over the expression and without code. Operands are
evaluated left to right and each is converted as soon as its value is known; connectives of truth
values evaluate no more than needed, conditionals one arm only, membership tests no item behind the
first equal one. -/

namespace ExprCode

/-- The values of bound names, innermost first. -/
abbrev ValueScope := List (String × Value)

/-- What an evaluation changes. -/
structure World where
  /-- The arrays. -/
  heap : Heap
  /-- The host calls made so far, first to last. -/
  calls : Array HostCall := #[]

/-- An evaluation. -/
abbrev Eval := EStateM RuntimeError World

/-- What an expression is evaluated against. -/
structure Setting where
  /-- The names and operators that may be used. -/
  env : Environment
  /-- What typing found out. -/
  typing : Typing
  /-- The host. -/
  host : Host
  /-- The values of the variables, in the order of their declaration. -/
  arguments : Array Value

/-- The value of a constant. -/
def Literal.value : Literal → Value
  | .bool b => .bool b
  | .int n => .int (.ofInt .i32 n.toInt)
  | .uint n => .int (.ofInt .u32 n.toNat)
  | .long n => .int (.ofInt .i64 n.toInt)
  | .ulong n => .int (.ofInt .u64 n.toNat)
  | .single x => .single x
  | .double x => .double x
  | .str s => .str s

namespace Semantics

/-- A value that must be there. -/
def require {α : Type} (fault : Fault) : Option α → Eval α
  | some value => pure value
  | none => throw (.invalidProgram fault)

/-- The result of a function on values. -/
def ofExcept {α : Type} : Except RuntimeError α → Eval α
  | .ok value => pure value
  | .error error => throw error

/-- The truth value of a condition. -/
def truth (value : Value) : Eval Bool := require .expectedBoolean value.bool?

/-- The value of a type as one of a numeric type. -/
def convertNumber (source target : Ty) (value : Value) : Eval Value :=
  if source = target then pure value else require .invalidConversion (value.convert? target.code)

/-- The element of an array at an index. -/
def element (array index : Value) : Eval (ArrayRef × Nat) := do
  let index ← require .expectedIntegerIndex index.integer?
  match array with
  | .array reference =>
      let length := (← get).heap.length reference
      if 0 ≤ index ∧ index.toNat < length then return (reference, index.toNat)
      else throw (.indexOutOfBounds (min index IntType.i64.maxValue) length)
  | .null => throw .nullReference
  | _ => throw (.invalidProgram .expectedArray)

/-- Store into an array at an index. Numbers are converted to the kind of the elements. -/
def store (array : ArrayRef) (index : Nat) (value : Value) : Eval Unit := do
  let heap := (← get).heap
  if index < heap.length array then
    let stored ←
      if array.element.isNumeric then
        require .invalidElementStore (value.convert? array.element)
      else pure value
    modify fun world => { world with heap := world.heap.store array index stored }
  else throw (.indexOutOfBounds index (heap.length array))

variable (setting : Setting)

/-- Call a host function. -/
def call (function : Handle) (arguments : List Value) : Eval Value := do
  let world ← get
  let (result, heap) := setting.host.call function arguments world.heap
  set ({ heap, calls := world.calls.push ⟨function, arguments, world.heap⟩ } : World)
  ofExcept result

/-- Convert by the operator method for a conversion. -/
def convertByMethod (operator : String) (source target : Ty) (value : Value) : Eval Value :=
  match setting.env.operators.conversionMethod operator source target with
  | .ok (some method) => call setting method.function [value]
  | _ => throw (.invalidProgram .invalidConversion)

/-- Convert a value where no conversion was asked for. -/
def convert (source target : Ty) (value : Value) : Eval Value :=
  if source.isImplicitlyConvertible target then convertNumber source target value
  else convertByMethod setting implicitConversion source target value

/-- Convert a value where a conversion was asked for. -/
def cast (source target : Ty) (value : Value) : Eval Value :=
  match setting.env.operators.canConvert source target with
  | .ok true => convert setting source target value
  | _ =>
      if source.isNumeric && target.isNumeric then convertNumber source target value
      else convertByMethod setting explicitConversion source target value

/-- The type that typing found for a node. -/
def typeOf (node : Node) : Eval Ty := require .unknownTypeCode setting.typing.types[node.id]?

/-- Evaluate an operand and convert its value. -/
def converted (expr : Expr) (evaluation : Eval Value) (target : Ty) : Eval Value := do
  let source ← typeOf setting expr.node
  let value ← evaluation
  convert setting source target value

/-- The value of a name: of the innermost binding, or of a variable. -/
def nameValue (name : String) (scope : ValueScope) : Eval Value :=
  match scope.lookup name with
  | some value => pure value
  | none =>
      require .argumentOutOfRange
        ((setting.env.findVariable? name).bind fun (index, _) =>
          setting.arguments[index.toNat]?)

/-- Evaluate operands with their conversions, first to last. -/
def operands : List (Expr × Eval Value) → List Ty → Eval (List Value)
  | (expr, evaluation) :: rest, target :: targets => do
      let value ← converted setting expr evaluation target
      return value :: (← operands rest targets)
  | _, _ => return []

/-- Carry out an operator on operands as typing decided. -/
def operator (resolution : Option Resolution) (inputs : List (Expr × Eval Value))
    (apply : List Value → Except RuntimeError Value) : Eval Value := do
  match ← require .unknownTypeCode resolution with
  | .primitive type => do
      let values ← operands setting inputs (inputs.map fun _ => type)
      ofExcept (apply values)
  | .overload method => do
      let values ← operands setting inputs method.params
      call setting method.function values

/-- An operator on one value. -/
def applyUnary (op : UnaryOp) : List Value → Except RuntimeError Value
  | [value] =>
      match op with
      | .neg => value.negate
      | .not => value.complement
  | _ => .error (.invalidProgram .stackUnderflow)

/-- A function of two values. -/
def applyBinary (function : BinaryFunction) : List Value → Except RuntimeError Value
  | [left, right] => left.binary function right
  | _ => .error (.invalidProgram .stackUnderflow)

/-- A relation between two values. -/
def applyRelation (relation : Relation) : List Value → Except RuntimeError Value
  | [left, right] => return .bool (relation.holds (← left.compare right))
  | _ => .error (.invalidProgram .stackUnderflow)

/-- Carry out a shift. The count is converted to Int32 whatever its width. -/
def shift (node : Node) (direction : ShiftDirection) (left right : Expr)
    (leftEvaluation rightEvaluation : Eval Value) : Eval Value := do
  let resolution ← require .unknownTypeCode setting.typing.resolutions[node.id]?
  let target :=
    match resolution with
    | .primitive type => type
    | .overload method => method.params.headD (.int .i32)
  let value ← converted setting left leftEvaluation target
  let count ← rightEvaluation
  let count ← convertNumber (← typeOf setting right.node) (.int .i32) count
  match resolution with
  | .primitive _ =>
      let count ← require .expectedInt32 (count.int? .i32)
      ofExcept (value.shift direction (.ofInt count))
  | .overload method => call setting method.function [value, count]

/-- Compare the operand of a membership test with an item. -/
def itemTest (operandType : Ty) (operand : Value) (item : Expr) (evaluation : Eval Value) :
    Eval Value := do
  match ← require .unknownTypeCode setting.typing.memberships[item.id]? with
  | .primitive type =>
      let left ← convert setting operandType type operand
      let right ← converted setting item evaluation type
      ofExcept (applyRelation .eq [left, right])
  | .overload method =>
      let left ← convert setting operandType (method.params.headD operandType) operand
      let itemType ← typeOf setting item.node
      let right ← converted setting item evaluation (method.params.getD 1 itemType)
      call setting method.function [left, right]

/-- Whether typing found a truth value. -/
def isBool (expr : Expr) : Bool := setting.typing.types[expr.id]? == some .bool

mutual

/-- The value of an expression under the names in scope. -/
def eval : Expr → ValueScope → Eval Value
  | .literal _ value, _ => pure value.value
  | .ident _ name, scope => nameValue setting name scope
  | .unary node op operand, scope =>
      operator setting setting.typing.resolutions[node.id]? [(operand, eval operand scope)]
        (applyUnary op)
  | .arithmetic node op left right, scope =>
      operator setting setting.typing.resolutions[node.id]?
        [(left, eval left scope), (right, eval right scope)] (applyBinary op.function)
  | .comparison node relation left right, scope =>
      operator setting setting.typing.resolutions[node.id]?
        [(left, eval left scope), (right, eval right scope)] (applyRelation relation)
  | .logical node connective left right, scope =>
      if isBool setting left && isBool setting right then do
        let first ← truth (← eval left scope)
        match connective, first with
        | .and, false => return .bool false
        | .or, true => return .bool true
        | _, _ => eval right scope
      else
        operator setting setting.typing.resolutions[node.id]?
          [(left, eval left scope), (right, eval right scope)]
          (applyBinary connective.function)
  | .xor node left right, scope =>
      operator setting setting.typing.resolutions[node.id]?
        [(left, eval left scope), (right, eval right scope)] (applyBinary .xor)
  | .shift node direction left right, scope =>
      shift setting node direction left right (eval left scope) (eval right scope)
  | .conditional node condition thenBranch elseBranch, scope => do
      let type ← typeOf setting node
      if ← truth (← eval condition scope) then
        converted setting thenBranch (eval thenBranch scope) type
      else converted setting elseBranch (eval elseBranch scope) type
  | .member _ operand items, scope => do
      let operandType ← typeOf setting operand.node
      let value ← eval operand scope
      return .bool (← evalItems operandType value items scope)
  | .index _ array position, scope => do
      let arrayValue ← eval array scope
      let indexValue ← eval position scope
      let (reference, index) ← element arrayValue indexValue
      return ((← get).heap.items reference).getD index .null
  | .array node elements, scope => do
      let type ← typeOf setting node
      let elementType ← require .unknownTypeCode type.element?
      let reference ← modifyGet fun world =>
        let (reference, heap) := world.heap.allocDefault elementType.code elements.length
        (reference, { world with heap })
      evalElements reference elementType 0 elements scope
      return .array reference
  | .call _ name arguments, scope => do
      let signature ← require .tokenOutOfRange (setting.env.findFunction? name)
      let values ← evalArguments arguments signature.params scope
      call setting signature.function values
  | .cast _ operand target, scope => do
      let source ← typeOf setting operand.node
      let value ← eval operand scope
      cast setting source target value
  | .bindings _ body values, scope => do
      let inner ← evalBindings values scope
      eval body inner

/-- Whether one of the items of a membership test equals the operand. -/
def evalItems (operandType : Ty) (operand : Value) : List Expr → ValueScope → Eval Bool
  | [], _ => return false
  | item :: items, scope => do
      if ← truth (← itemTest setting operandType operand item (eval item scope)) then return true
      else evalItems operandType operand items scope

/-- Evaluate the elements of an array literal and store them, from an index on. -/
def evalElements (array : ArrayRef) (element : Ty) (index : Nat) :
    List Expr → ValueScope → Eval Unit
  | [], _ => return
  | value :: values, scope => do
      store array index (← converted setting value (eval value scope) element)
      evalElements array element (index + 1) values scope

/-- Evaluate the arguments of a call with their conversions, first to last. -/
def evalArguments : List Expr → List Ty → ValueScope → Eval (List Value)
  | argument :: arguments, param :: params, scope => do
      let value ← converted setting argument (eval argument scope) param
      return value :: (← evalArguments arguments params scope)
  | _, _, _ => return []

/-- Evaluate bound values, first to last; each is in scope of those behind it. -/
def evalBindings : List (String × Expr) → ValueScope → Eval ValueScope
  | [], scope => return scope
  | (name, value) :: rest, scope => do
      let bound ← eval value scope
      evalBindings rest ((name, bound) :: scope)

end

/-- What an evaluation ends with: a value or an error, and the heap and the host calls then. -/
def ending : EStateM.Result RuntimeError World Value → Machine.Outcome
  | .ok value world => ⟨.ok value, world.heap, world.calls⟩
  | .error error world => ⟨.error error, world.heap, world.calls⟩

/-- How the evaluation of a whole expression ends. -/
def outcome (expr : Expr) (heap : Heap) : Machine.Outcome :=
  ending (eval setting expr [] ⟨heap, #[]⟩)

end Semantics

end ExprCode
