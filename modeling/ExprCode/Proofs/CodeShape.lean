import ExprCode.Codegen
import ExprCode.Proofs.Environments
import ExprCode.Semantics

/-! # The shape of code

`CodeAt code environment typing scope expr start stop` says that the finished code has the
instructions of a typed expression from one place to another. The relations follow the expression
and name what is executed and where branches lead; they know neither labels nor the order in which
things were emitted, so what code does can be proved from them alone. -/

namespace ExprCode

/-- A place in finished code: the offset of an instruction, and how many locals the code before it
has declared. -/
structure Cursor where
  /-- The offset. -/
  offset : Nat
  /-- Number of locals declared so far. -/
  slots : Nat

/-- The value that decides a connective, whatever its right operand. -/
def Connective.decidedBy : Connective → Bool
  | .and => false
  | .or => true

/-- The condition of a branch that is taken on a truth value. -/
def BranchCondition.on : Bool → BranchCondition
  | false => .ifFalse
  | true => .ifTrue

/-! ## Single instructions -/

section Instructions

variable (code : Code)

/-- The instruction at a place does the action and ends at another place. -/
def ActionAt (start : Cursor) (action : Action) (stop : Cursor) : Prop :=
  ∃ decoded, code.decodeAt? start.offset = some decoded ∧
    Action.read decoded.op decoded.immediate = action ∧ stop = ⟨decoded.next, start.slots⟩

/-- The instruction at a place branches to an offset. Displacements have four bytes, so longer code
is left open. -/
def BranchAt (start : Cursor) (condition : BranchCondition) (target : Nat) (stop : Cursor) : Prop :=
  ∃ displacement, ActionAt code start (.branch condition displacement) stop ∧
    (code.bytes.size < 2 ^ 31 → (stop.offset : Int) + displacement = target)

/-- The instruction at a place stores into the next local, which is declared there. -/
def StoreAt (start stop : Cursor) : Prop :=
  start.slots < code.locals.size ∧
    ActionAt code ⟨start.offset, start.slots + 1⟩ (.storeLocal start.slots) stop

/-- The instruction at a place makes an array of elements of a type. -/
def NewArrayAt (start : Cursor) (element : Ty) (stop : Cursor) : Prop :=
  ∃ token, ActionAt code start (.newArray token) stop ∧ code.types[token]? = some element

/-- The instruction at a place calls what has the name and the function of an entry. -/
def CallAt (env : Environment) (start : Cursor) (wanted : FunctionEntry) (stop : Cursor) :
    Prop :=
  ∃ token entry, ActionAt code start (.call token) stop ∧ code.functions[token]? = some entry ∧
    entry.key = wanted.key ∧ entry ∈ env.callables ∧ wanted ∈ env.callables

variable {code} in
/-- An instruction declares no local. -/
theorem ActionAt.slots_eq {start stop : Cursor} {action : Action}
    (h : ActionAt code start action stop) : stop.slots = start.slots := by
  obtain ⟨_, _, _, rfl⟩ := h
  rfl

variable {code} in
/-- A branch declares no local. -/
theorem BranchAt.slots_eq {start stop : Cursor} {condition : BranchCondition} {target : Nat}
    (h : BranchAt code start condition target stop) : stop.slots = start.slots := by
  obtain ⟨_, action, _⟩ := h
  exact action.slots_eq

/-- The instructions that push a constant. -/
inductive LiteralAt : Literal → Cursor → Cursor → Prop
  | plain {value : Literal} {start stop : Cursor}
      (pushed : ActionAt code start (.push value.value) stop) : LiteralAt value start stop
  | string {text : String} {token : Nat} {start stop : Cursor}
      (pushed : ActionAt code start (.pushString token) stop)
      (listed : code.strings[token]? = some text) : LiteralAt (.str text) start stop
  | converted {value : Literal} {signed : Value} {kind : TypeCode} {start middle stop : Cursor}
      (pushed : ActionAt code start (.push signed) middle)
      (conversion : ActionAt code middle (.convert kind.toByte) stop)
      (result : signed.convert? kind = some value.value) : LiteralAt value start stop

/-- The instructions that load an element of an array. -/
inductive ElementLoadAt : Cursor → Cursor → Prop
  | plain {start stop : Cursor} (loaded : ActionAt code start .loadElement stop) :
      ElementLoadAt start stop
  | byAddress {token : Nat} {element : Ty} {start middle stop : Cursor}
      (address : ActionAt code start (.elementAddress token) middle)
      (listed : code.types[token]? = some element)
      (loaded : ActionAt code middle .dereference stop) : ElementLoadAt start stop

/-- The instructions behind a chain that push its result where it is decided. -/
inductive TerminalAt (value : Bool) (finish : Nat) : Nat → Prop
  | last {start stop : Cursor} (pushed : ActionAt code start (.push (.bool value)) stop)
      (finished : stop.offset = finish) : TerminalAt value finish start.offset
  | leave {start middle stop : Cursor} (pushed : ActionAt code start (.push (.bool value)) middle)
      (left : BranchAt code middle .always finish stop) (ahead : stop.offset ≤ finish) :
      TerminalAt value finish start.offset

end Instructions

/-! ## Conversions -/

section Conversions

variable (code : Code) (env : Environment)

/-- The instructions that convert between number types. -/
inductive NumberAt : Ty → Ty → Cursor → Cursor → Prop
  | same {type : Ty} {place : Cursor} : NumberAt type type place place
  | convert {source target : Ty} {start stop : Cursor} (differ : source ≠ target)
      (conversion : ActionAt code start (.convert target.code.toByte) stop) :
      NumberAt source target start stop

/-- The instructions that convert where no conversion was asked for. -/
inductive ConversionAt : Ty → Ty → Cursor → Cursor → Prop
  | number {source target : Ty} {start stop : Cursor}
      (implicit : source.isImplicitlyConvertible target)
      (conversion : NumberAt code source target start stop) : ConversionAt source target start stop
  | method {source target : Ty} {method : OperatorMethod} {start stop : Cursor}
      (notImplicit : ¬ source.isImplicitlyConvertible target)
      (found : env.operators.conversionMethod implicitConversion source target =
        .ok (some method))
      (called : CallAt code env start method.entry stop) :
      ConversionAt source target start stop

/-- The instructions that convert where a conversion was asked for. -/
inductive CastAt : Ty → Ty → Cursor → Cursor → Prop
  | implicit {source target : Ty} {start stop : Cursor}
      (converts : env.operators.canConvert source target = .ok true)
      (conversion : ConversionAt code env source target start stop) :
      CastAt source target start stop
  | number {source target : Ty} {start stop : Cursor}
      (notImplicit : env.operators.canConvert source target = .ok false)
      (numbers : source.isNumeric && target.isNumeric)
      (conversion : NumberAt code source target start stop) : CastAt source target start stop
  | method {source target : Ty} {method : OperatorMethod} {start stop : Cursor}
      (notImplicit : env.operators.canConvert source target = .ok false)
      (notNumbers : ¬ (source.isNumeric && target.isNumeric))
      (found : env.operators.conversionMethod explicitConversion source target =
        .ok (some method))
      (called : CallAt code env start method.entry stop) : CastAt source target start stop

end Conversions

/-! ## Expressions -/

/-- Whether an expression is a conjunction or disjunction of truth values. -/
def isJoined (typing : Typing) : Expr → Bool
  | .logical _ _ left right => Codegen.isBool typing left && Codegen.isBool typing right
  | _ => false

variable (code : Code) (env : Environment) (typing : Typing)

mutual

/-- The code of an expression under the names in scope, which leaves its value on the stack. -/
inductive CodeAt : SlotScope → Expr → Cursor → Cursor → Prop
  | literal {scope : SlotScope} {node : Node} {value : Literal} {start stop : Cursor}
      (pushed : LiteralAt code value start stop) : CodeAt scope (.literal node value) start stop
  | bound {scope : SlotScope} {node : Node} {name : String} {slot : Nat} {start stop : Cursor}
      (found : scope.lookup name = some slot)
      (loaded : ActionAt code start (.loadLocal slot) stop) :
      CodeAt scope (.ident node name) start stop
  | variable {scope : SlotScope} {node : Node} {name : String} {index : UInt16} {type : Ty}
      {start stop : Cursor} (unbound : scope.lookup name = none)
      (found : env.findVariable? name = some (index, type))
      (loaded : ActionAt code start (.loadArgument index.toNat) stop) :
      CodeAt scope (.ident node name) start stop
  | unary {scope : SlotScope} {node : Node} {op : UnaryOp} {operand : Expr}
      {resolution : Resolution} {start stop : Cursor}
      (resolved : typing.resolutions[node.id]? = some resolution)
      (carriedOut : OperatorAt scope resolution [operand]
        (match op with | .neg => .negate | .not => .complement) start stop) :
      CodeAt scope (.unary node op operand) start stop
  | arithmetic {scope : SlotScope} {node : Node} {op : ArithmeticOp} {left right : Expr}
      {resolution : Resolution} {start stop : Cursor}
      (resolved : typing.resolutions[node.id]? = some resolution)
      (carriedOut : OperatorAt scope resolution [left, right]
        (.binary op.function) start stop) :
      CodeAt scope (.arithmetic node op left right) start stop
  | comparison {scope : SlotScope} {node : Node} {relation : Relation} {left right : Expr}
      {resolution : Resolution} {start stop : Cursor}
      (resolved : typing.resolutions[node.id]? = some resolution)
      (carriedOut : OperatorAt scope resolution [left, right] (.compare relation) start stop) :
      CodeAt scope (.comparison node relation left right) start stop
  | chain {scope : SlotScope} {node : Node} {connective : Connective} {left right : Expr}
      {exit : Bool → Option Nat} {start last behind stop : Cursor}
      (joined : isJoined typing (.logical node connective left right))
      (chained : ChainAt scope (.logical node connective left right) exit start last)
      (finished : BranchAt code last .always stop.offset behind)
      (ahead : behind.offset ≤ stop.offset)
      (decided : ∀ value target, exit value = some target →
        behind.offset ≤ target ∧ TerminalAt code value stop.offset target)
      (sameSlots : stop.slots = last.slots) :
      CodeAt scope (.logical node connective left right) start stop
  | bitwise {scope : SlotScope} {node : Node} {connective : Connective} {left right : Expr}
      {resolution : Resolution} {start stop : Cursor}
      (notJoined : ¬ isJoined typing (.logical node connective left right))
      (resolved : typing.resolutions[node.id]? = some resolution)
      (carriedOut : OperatorAt scope resolution [left, right]
        (.binary connective.function) start stop) :
      CodeAt scope (.logical node connective left right) start stop
  | xor {scope : SlotScope} {node : Node} {left right : Expr} {resolution : Resolution}
      {start stop : Cursor} (resolved : typing.resolutions[node.id]? = some resolution)
      (carriedOut : OperatorAt scope resolution [left, right] (.binary .xor) start stop) :
      CodeAt scope (.xor node left right) start stop
  | shift {scope : SlotScope} {node : Node} {direction : ShiftDirection} {left right : Expr}
      {operand : Ty} {start stop : Cursor} (resolved : typing.resolutions[node.id]? =
        some (.primitive operand)) {converted counted : Cursor}
      (shifted : ConvertedAt scope left operand start converted)
      (count : CountAt scope right converted counted)
      (carriedOut : ActionAt code counted (.shift direction) stop) :
      CodeAt scope (.shift node direction left right) start stop
  | shiftMethod {scope : SlotScope} {node : Node} {direction : ShiftDirection} {left right : Expr}
      {method : OperatorMethod} {operand : Ty} {start converted counted stop : Cursor}
      (resolved : typing.resolutions[node.id]? = some (.overload method))
      (params : method.params = [operand, .int .i32])
      (shifted : ConvertedAt scope left operand start converted)
      (count : CountAt scope right converted counted)
      (called : CallAt code env counted method.entry stop) :
      CodeAt scope (.shift node direction left right) start stop
  | conditional {scope : SlotScope} {node : Node} {condition thenBranch elseBranch : Expr}
      {type : Ty} {start tested thenStart thenStop elseStart stop : Cursor}
      (known : typing.types[node.id]? = some type)
      (test : CodeAt scope condition start tested)
      (chosen : BranchAt code tested .ifFalse elseStart.offset thenStart)
      (thenCode : ConvertedAt scope thenBranch type thenStart thenStop)
      (left : BranchAt code thenStop .always stop.offset elseStart)
      (elseCode : ConvertedAt scope elseBranch type elseStart stop) :
      CodeAt scope (.conditional node condition thenBranch elseBranch) start stop
  | member {scope : SlotScope} {node : Node} {operand : Expr} {items : List Expr}
      {operandType : Ty} {start evaluated stored unequal pushedFalse equal stop : Cursor}
      (known : typing.types[operand.id]? = some operandType)
      (operandCode : CodeAt scope operand start evaluated)
      (kept : StoreAt code evaluated stored)
      (itemsCode : ItemsAt scope operandType evaluated.slots equal.offset items stored unequal)
      (falsePushed : ActionAt code unequal (.push (.bool false)) pushedFalse)
      (left : BranchAt code pushedFalse .always stop.offset equal)
      (truePushed : ActionAt code equal (.push (.bool true)) stop) :
      CodeAt scope (.member node operand items) start stop
  | index {scope : SlotScope} {node : Node} {array position : Expr}
      {start arrayStop positionStop stop : Cursor}
      (arrayCode : CodeAt scope array start arrayStop)
      (positionCode : CodeAt scope position arrayStop positionStop)
      (loaded : ElementLoadAt code positionStop stop) :
      CodeAt scope (.index node array position) start stop
  | array {scope : SlotScope} {node : Node} {elements : List Expr} {element : Ty}
      {start counted made stop : Cursor}
      (known : typing.types[node.id]? = some (.array element))
      (short : elements.length < 2 ^ 31)
      (length : ActionAt code start (.push (.i32 elements.length)) counted)
      (allocated : NewArrayAt code counted element made)
      (elementsCode : ElementsAt scope element 0 elements made stop) :
      CodeAt scope (.array node elements) start stop
  | call {scope : SlotScope} {node : Node} {name : String} {arguments : List Expr}
      {signature : FunctionSignature} {start evaluated stop : Cursor}
      (found : env.findFunction? name = some signature)
      (sameLength : signature.params.length = arguments.length)
      (argumentsCode : OperandsAt scope arguments signature.params start evaluated)
      (called : CallAt code env evaluated
        ⟨name, signature.params.length, signature.function⟩ stop) :
      CodeAt scope (.call node name arguments) start stop
  | cast {scope : SlotScope} {node : Node} {operand : Expr} {source target : Ty}
      {start evaluated stop : Cursor} (known : typing.types[operand.id]? = some source)
      (operandCode : CodeAt scope operand start evaluated)
      (conversion : CastAt code env source target evaluated stop) :
      CodeAt scope (.cast node operand target) start stop
  | bindings {scope inner : SlotScope} {node : Node} {body : Expr} {values : List (String × Expr)}
      {start evaluated stop : Cursor}
      (valuesCode : BindingsAt scope values inner start evaluated)
      (bodyCode : CodeAt inner body evaluated stop) :
      CodeAt scope (.bindings node body values) start stop

/-- The code of an expression with the conversion of its value to a type. -/
inductive ConvertedAt : SlotScope → Expr → Ty → Cursor → Cursor → Prop
  | intro {scope : SlotScope} {expr : Expr} {source target : Ty} {start evaluated stop : Cursor}
      (known : typing.types[expr.id]? = some source)
      (operandCode : CodeAt scope expr start evaluated)
      (conversion : ConversionAt code env source target evaluated stop) :
      ConvertedAt scope expr target start stop

/-- The code of a count of places, converted to Int32 whatever its width. -/
inductive CountAt : SlotScope → Expr → Cursor → Cursor → Prop
  | intro {scope : SlotScope} {expr : Expr} {source : Ty} {start evaluated stop : Cursor}
      (known : typing.types[expr.id]? = some source)
      (operandCode : CodeAt scope expr start evaluated)
      (conversion : NumberAt code source (.int .i32) evaluated stop) :
      CountAt scope expr start stop

/-- The code of operands, one after the other, each with its conversion. -/
inductive OperandsAt : SlotScope → List Expr → List Ty → Cursor → Cursor → Prop
  | nil {scope : SlotScope} {place : Cursor} : OperandsAt scope [] [] place place
  | cons {scope : SlotScope} {operand : Expr} {operands : List Expr} {target : Ty}
      {targets : List Ty} {start evaluated stop : Cursor}
      (operandCode : ConvertedAt scope operand target start evaluated)
      (operandsCode : OperandsAt scope operands targets evaluated stop) :
      OperandsAt scope (operand :: operands) (target :: targets) start stop

/-- The code of an operator on operands: an action of the machine or a call. -/
inductive OperatorAt : SlotScope → Resolution → List Expr → Action → Cursor → Cursor → Prop
  | primitive {scope : SlotScope} {type : Ty} {operands : List Expr} {action : Action}
      {start evaluated stop : Cursor}
      (operandsCode : OperandsAt scope operands (operands.map fun _ => type) start evaluated)
      (done : ActionAt code evaluated action stop) :
      OperatorAt scope (.primitive type) operands action start stop
  | overload {scope : SlotScope} {method : OperatorMethod} {operands : List Expr} {action : Action}
      {start evaluated stop : Cursor}
      (operandsCode : OperandsAt scope operands method.params start evaluated)
      (called : CallAt code env evaluated method.entry stop) :
      OperatorAt scope (.overload method) operands action start stop

/-- The code that compares the operand of a membership test, kept in a local, with an item. -/
inductive ItemAt : SlotScope → Ty → Nat → Expr → Cursor → Cursor → Prop
  | primitive {scope : SlotScope} {operandType type : Ty} {slot : Nat} {item : Expr}
      {start loaded converted evaluated stop : Cursor}
      (tested : typing.memberships[item.id]? = some (.primitive type))
      (operandLoaded : ActionAt code start (.loadLocal slot) loaded)
      (conversion : ConversionAt code env operandType type loaded converted)
      (itemCode : ConvertedAt scope item type converted evaluated)
      (comparison : ActionAt code evaluated (.compare .eq) stop) :
      ItemAt scope operandType slot item start stop
  | overload {scope : SlotScope} {operandType first second : Ty} {method : OperatorMethod}
      {slot : Nat} {item : Expr} {start loaded converted evaluated stop : Cursor}
      (tested : typing.memberships[item.id]? = some (.overload method))
      (params : method.params = [first, second])
      (operandLoaded : ActionAt code start (.loadLocal slot) loaded)
      (conversion : ConversionAt code env operandType first loaded converted)
      (itemCode : ConvertedAt scope item second converted evaluated)
      (comparison : CallAt code env evaluated method.entry stop) :
      ItemAt scope operandType slot item start stop

/-- The code that compares with one item after the other and branches to an offset at the first
equal one. -/
inductive ItemsAt : SlotScope → Ty → Nat → Nat → List Expr → Cursor → Cursor → Prop
  | nil {scope : SlotScope} {operandType : Ty} {slot equal : Nat} {place : Cursor} :
      ItemsAt scope operandType slot equal [] place place
  | cons {scope : SlotScope} {operandType : Ty} {slot equal : Nat} {item : Expr}
      {items : List Expr} {start compared next stop : Cursor}
      (itemCode : ItemAt scope operandType slot item start compared)
      (chosen : BranchAt code compared .ifTrue equal next)
      (itemsCode : ItemsAt scope operandType slot equal items next stop) :
      ItemsAt scope operandType slot equal (item :: items) start stop

/-- The code that stores elements into a new array, from an index on; the array stays on the
stack. -/
inductive ElementsAt : SlotScope → Ty → Nat → List Expr → Cursor → Cursor → Prop
  | nil {scope : SlotScope} {element : Ty} {index : Nat} {place : Cursor} :
      ElementsAt scope element index [] place place
  | cons {scope : SlotScope} {element : Ty} {index : Nat} {value : Expr} {values : List Expr}
      {start copied indexed evaluated stored stop : Cursor}
      (short : index < 2 ^ 31)
      (copy : ActionAt code start .dup copied)
      (position : ActionAt code copied (.push (.i32 index)) indexed)
      (valueCode : ConvertedAt scope value element indexed evaluated)
      (storing : ActionAt code evaluated .storeElement stored)
      (valuesCode : ElementsAt scope element (index + 1) values stored stop) :
      ElementsAt scope element index (value :: values) start stop

/-- The code that evaluates bound values into locals of their own, with the scope behind them. -/
inductive BindingsAt : SlotScope → List (String × Expr) → SlotScope → Cursor → Cursor → Prop
  | nil {scope : SlotScope} {place : Cursor} : BindingsAt scope [] scope place place
  | cons {scope inner : SlotScope} {name : String} {value : Expr} {values : List (String × Expr)}
      {start evaluated stored stop : Cursor}
      (valueCode : CodeAt scope value start evaluated)
      (kept : StoreAt code evaluated stored)
      (valuesCode : BindingsAt ((name, evaluated.slots) :: scope) values inner stored stop) :
      BindingsAt scope ((name, value) :: values) inner start stop

/-- The code of a part of a chain. It is left at its end with the value on the stack, or at the exit
for a truth value, with nothing on the stack, if that is the value of the part. -/
inductive ChainAt : SlotScope → Expr → (Bool → Option Nat) → Cursor → Cursor → Prop
  | operand {scope : SlotScope} {expr : Expr} {exit : Bool → Option Nat} {start stop : Cursor}
      (notJoined : ¬ isJoined typing expr) (operandCode : CodeAt scope expr start stop) :
      ChainAt scope expr exit start stop
  | joined {scope : SlotScope} {node : Node} {connective : Connective} {left right : Expr}
      {leftExit exit : Bool → Option Nat} {target : Nat} {start tested next stop : Cursor}
      (joined : isJoined typing (.logical node connective left right))
      (leftCode : ChainAt scope left leftExit start tested)
      (decided : ∀ target, leftExit connective.decidedBy = some target →
        exit connective.decidedBy = some target)
      (undecided : ∀ target, leftExit (!connective.decidedBy) = some target →
        target = next.offset)
      (chosen : BranchAt code tested (.on connective.decidedBy) target next)
      (leads : exit connective.decidedBy = some target)
      (rightCode : ChainAt scope right exit next stop) :
      ChainAt scope (.logical node connective left right) exit start stop

end

/-! ## Order

Code goes on from place to place. Offsets grow, and so do the numbers of locals: only bound values
and the operands of membership tests declare locals, one each, and nothing gives one up. -/

/-- A place comes before another, or is the same. -/
structure Cursor.Precedes (first second : Cursor) : Prop where
  /-- The offset does. -/
  offset : first.offset ≤ second.offset
  /-- No local is given up. -/
  slots : first.slots ≤ second.slots

namespace Cursor.Precedes

/-- A place precedes itself. -/
theorem refl (place : Cursor) : place.Precedes place := ⟨Nat.le_refl _, Nat.le_refl _⟩

/-- What precedes a place that precedes another precedes that one. -/
theorem trans {first second third : Cursor} (h : first.Precedes second)
    (h' : second.Precedes third) : first.Precedes third :=
  ⟨Nat.le_trans h.offset h'.offset, Nat.le_trans h.slots h'.slots⟩

end Cursor.Precedes

section Order

variable {code : Code} {env : Environment} {typing : Typing} {start stop : Cursor}

/-- An instruction ends behind its start. -/
theorem ActionAt.offset_lt {action : Action} (h : ActionAt code start action stop) :
    start.offset < stop.offset := by
  obtain ⟨decoded, decodes, -, rfl⟩ := h
  exact (Code.lt_next_of_decodeAt? decodes).1

/-- An action ends behind its start. -/
theorem ActionAt.precedes {action : Action} (h : ActionAt code start action stop) :
    start.Precedes stop :=
  ⟨Nat.le_of_lt h.offset_lt, Nat.le_of_eq h.slots_eq.symm⟩

/-- A branch takes at least one byte. -/
theorem BranchAt.offset_lt {condition : BranchCondition} {target : Nat}
    (h : BranchAt code start condition target stop) : start.offset < stop.offset := by
  obtain ⟨_, action, _⟩ := h
  exact action.offset_lt

/-- A branch ends behind its start. -/
theorem BranchAt.precedes {condition : BranchCondition} {target : Nat}
    (h : BranchAt code start condition target stop) : start.Precedes stop :=
  ⟨Nat.le_of_lt h.offset_lt, Nat.le_of_eq h.slots_eq.symm⟩

/-- A store ends behind its start. -/
theorem StoreAt.precedes (h : StoreAt code start stop) : start.Precedes stop :=
  ⟨Nat.le_of_lt h.2.offset_lt,
    Nat.le_of_lt (Nat.lt_of_lt_of_eq (Nat.lt_succ_self _) h.2.slots_eq.symm)⟩

/-- The code of a new array ends behind its start. -/
theorem NewArrayAt.precedes {element : Ty} (h : NewArrayAt code start element stop) :
    start.Precedes stop := by
  obtain ⟨_, made, _⟩ := h
  exact made.precedes

/-- A call ends behind its start. -/
theorem CallAt.precedes {wanted : FunctionEntry} (h : CallAt code env start wanted stop) :
    start.Precedes stop := by
  obtain ⟨_, _, called, _⟩ := h
  exact called.precedes

/-- A literal ends behind its start. -/
theorem LiteralAt.precedes {value : Literal} (h : LiteralAt code value start stop) :
    start.Precedes stop := by
  cases h with
  | plain pushed => exact pushed.precedes
  | string pushed listed => exact pushed.precedes
  | converted pushed conversion result => exact pushed.precedes.trans conversion.precedes

/-- The load of an element ends behind its start. -/
theorem ElementLoadAt.precedes (h : ElementLoadAt code start stop) : start.Precedes stop := by
  cases h with
  | plain loaded => exact loaded.precedes
  | byAddress address listed loaded => exact address.precedes.trans loaded.precedes

/-- A conversion between numbers ends behind its start. -/
theorem NumberAt.precedes {source target : Ty} (h : NumberAt code source target start stop) :
    start.Precedes stop := by
  cases h with
  | same => exact .refl _
  | convert differ conversion => exact conversion.precedes

/-- A conversion ends behind its start. -/
theorem ConversionAt.precedes {source target : Ty}
    (h : ConversionAt code env source target start stop) : start.Precedes stop := by
  cases h with
  | number implicit conversion => exact conversion.precedes
  | method notImplicit found called => exact called.precedes

/-- A cast ends behind its start. -/
theorem CastAt.precedes {source target : Ty}
    (h : CastAt code env source target start stop) : start.Precedes stop := by
  cases h with
  | implicit converts conversion => exact conversion.precedes
  | number notImplicit numbers conversion => exact conversion.precedes
  | method notImplicit notNumbers found called => exact called.precedes

end Order

section OrderOfExpressions

variable {code : Code} {env : Environment} {typing : Typing}

mutual

/-- The code of a tree ends behind its start. -/
theorem CodeAt.precedes {scope : SlotScope} {expr : Expr} {start stop : Cursor} :
    CodeAt code env typing scope expr start stop → start.Precedes stop
  | .literal pushed => pushed.precedes
  | .bound _ loaded | .variable _ _ loaded => loaded.precedes
  | .unary _ carriedOut | .arithmetic _ carriedOut | .comparison _ carriedOut
  | .bitwise _ _ carriedOut | .xor _ carriedOut => carriedOut.precedes
  | .chain _ chained finished ahead _ sameSlots =>
    chained.precedes.trans
      ⟨Nat.le_trans finished.precedes.offset ahead, Nat.le_of_eq sameSlots.symm⟩
  | .shift _ shifted count carriedOut =>
    shifted.precedes.trans (count.precedes.trans carriedOut.precedes)
  | .shiftMethod _ _ shifted count called =>
    shifted.precedes.trans (count.precedes.trans called.precedes)
  | .conditional _ test chosen thenCode left elseCode =>
    test.precedes.trans (chosen.precedes.trans
      (thenCode.precedes.trans (left.precedes.trans elseCode.precedes)))
  | .member _ operandCode kept itemsCode falsePushed left truePushed =>
    operandCode.precedes.trans (kept.precedes.trans (itemsCode.precedes.trans
      (falsePushed.precedes.trans (left.precedes.trans truePushed.precedes))))
  | .index arrayCode positionCode loaded =>
    arrayCode.precedes.trans (positionCode.precedes.trans loaded.precedes)
  | .array _ _ length allocated elementsCode =>
    length.precedes.trans (allocated.precedes.trans elementsCode.precedes)
  | .call _ _ argumentsCode called => argumentsCode.precedes.trans called.precedes
  | .cast _ operandCode conversion => operandCode.precedes.trans conversion.precedes
  | .bindings valuesCode bodyCode => valuesCode.precedes.trans bodyCode.precedes

/-- The code of a converted tree ends behind its start. -/
theorem ConvertedAt.precedes {scope : SlotScope} {expr : Expr} {target : Ty} {start stop : Cursor} :
    ConvertedAt code env typing scope expr target start stop → start.Precedes stop
  | .intro _ operandCode conversion => operandCode.precedes.trans conversion.precedes

/-- The code of a count ends behind its start. -/
theorem CountAt.precedes {scope : SlotScope} {expr : Expr} {start stop : Cursor} :
    CountAt code env typing scope expr start stop → start.Precedes stop
  | .intro _ operandCode conversion => operandCode.precedes.trans conversion.precedes

/-- The code of operands ends behind its start. -/
theorem OperandsAt.precedes {scope : SlotScope} {operands : List Expr} {targets : List Ty}
    {start stop : Cursor} : OperandsAt code env typing scope operands targets start stop →
    start.Precedes stop
  | .nil => .refl _
  | .cons operandCode operandsCode => operandCode.precedes.trans operandsCode.precedes

/-- The code of an operator ends behind its start. -/
theorem OperatorAt.precedes {scope : SlotScope} {resolution : Resolution} {operands : List Expr}
    {action : Action} {start stop : Cursor} :
    OperatorAt code env typing scope resolution operands action start stop →
      start.Precedes stop
  | .primitive operandsCode done => operandsCode.precedes.trans done.precedes
  | .overload operandsCode called => operandsCode.precedes.trans called.precedes

/-- The code of an item ends behind its start. -/
theorem ItemAt.precedes {scope : SlotScope} {operandType : Ty} {slot : Nat} {item : Expr}
    {start stop : Cursor} : ItemAt code env typing scope operandType slot item start stop →
    start.Precedes stop
  | .primitive _ operandLoaded conversion itemCode comparison =>
    operandLoaded.precedes.trans (conversion.precedes.trans
      (itemCode.precedes.trans comparison.precedes))
  | .overload _ _ operandLoaded conversion itemCode comparison =>
    operandLoaded.precedes.trans (conversion.precedes.trans
      (itemCode.precedes.trans comparison.precedes))

/-- The code of items ends behind its start. -/
theorem ItemsAt.precedes {scope : SlotScope} {operandType : Ty} {slot equal : Nat}
    {items : List Expr} {start stop : Cursor} :
    ItemsAt code env typing scope operandType slot equal items start stop →
      start.Precedes stop
  | .nil => .refl _
  | .cons itemCode chosen itemsCode =>
    itemCode.precedes.trans (chosen.precedes.trans itemsCode.precedes)

/-- The code of elements ends behind its start. -/
theorem ElementsAt.precedes {scope : SlotScope} {element : Ty} {index : Nat} {values : List Expr}
    {start stop : Cursor} : ElementsAt code env typing scope element index values start stop →
    start.Precedes stop
  | .nil => .refl _
  | .cons _ copy position valueCode storing valuesCode =>
    copy.precedes.trans (position.precedes.trans
      (valueCode.precedes.trans (storing.precedes.trans valuesCode.precedes)))

/-- The code of bindings ends behind its start. -/
theorem BindingsAt.precedes {scope inner : SlotScope} {values : List (String × Expr)}
    {start stop : Cursor} : BindingsAt code env typing scope values inner start stop →
    start.Precedes stop
  | .nil => .refl _
  | .cons valueCode kept valuesCode =>
    valueCode.precedes.trans (kept.precedes.trans valuesCode.precedes)

/-- The code of a chain ends behind its start. -/
theorem ChainAt.precedes {scope : SlotScope} {expr : Expr} {exit : Bool → Option Nat}
    {start stop : Cursor} : ChainAt code env typing scope expr exit start stop →
    start.Precedes stop
  | .operand _ operandCode => operandCode.precedes
  | .joined _ leftCode _ _ chosen _ rightCode =>
    leftCode.precedes.trans (chosen.precedes.trans rightCode.precedes)

end

/-- The exits of a part of a chain lie behind it. -/
def ExitsAhead (exit : Bool → Option Nat) (stop : Cursor) : Prop :=
  ∀ value target, exit value = some target → stop.offset < target

/-- The exits of the left operand of a connective are those of the connective, or lead to the right
operand. -/
theorem exit_of_left {connective : Connective} {leftExit exit : Bool → Option Nat} {next : Nat}
    (decided : ∀ target, leftExit connective.decidedBy = some target →
      exit connective.decidedBy = some target)
    (undecided : ∀ target, leftExit (!connective.decidedBy) = some target → target = next)
    {value : Bool} {target : Nat} (leads : leftExit value = some target) :
    exit connective.decidedBy = some target ∨ target = next := by
  by_cases isDecided : value = connective.decidedBy
  · subst isDecided
    exact .inl (decided target leads)
  · cases Bool.eq_not_of_ne isDecided
    exact .inr (undecided target leads)

/-- The exits of a left operand are ahead: where it decides, the chain's own, and otherwise the
start of the right operand. -/
theorem ExitsAhead.left {connective : Connective} {leftExit exit : Bool → Option Nat} {target : Nat}
    {tested next stop : Cursor} (ahead : ExitsAhead exit stop)
    (decided : ∀ target, leftExit connective.decidedBy = some target →
      exit connective.decidedBy = some target)
    (undecided : ∀ target, leftExit (!connective.decidedBy) = some target → target = next.offset)
    (chosen : BranchAt code tested (.on connective.decidedBy) target next)
    (order : next.Precedes stop) : ExitsAhead leftExit tested := by
  intro value target leads
  rcases exit_of_left decided undecided leads with outer | rfl
  · have behind : stop.offset < target := ahead _ _ outer
    exact Nat.lt_trans chosen.offset_lt (Nat.lt_of_le_of_lt order.offset behind)
  · exact chosen.offset_lt

/-- The exits of a whole chain lie behind it, where its results are pushed. -/
theorem ExitsAhead.of_decided {exit : Bool → Option Nat} {last behind : Cursor} {finish : Nat}
    (finished : BranchAt code last .always finish behind)
    (decided : ∀ value target, exit value = some target →
      behind.offset ≤ target ∧ TerminalAt code value finish target) : ExitsAhead exit last :=
  fun value target leads => Nat.lt_of_lt_of_le finished.offset_lt (decided value target leads).1

end OrderOfExpressions

end ExprCode
