import ExprCode.Chain
import ExprCode.Emitter.Encoding
import ExprCode.Typing

/-! # Code generation

The code of a typed expression. Every expression leaves exactly one value on the stack. Conversions
are emitted where typing decided on them; the arms of a conditional are emitted into forks;
conjunctions and disjunctions of truth values are chains, whose operands are the largest parts that
are no such connectives themselves.

A chain is lowered in a frame. A frame that is free is used again, and only if there is none, which
is so for the first chain and for chains inside of operands of another one, is a new frame made. -/

namespace ExprCode

/-- The slots of bound names, innermost first. -/
abbrev SlotScope := List (String × Nat)

/-- A state that holds an emitter, and from which frames are taken for the time of a chain. -/
class HasFrames (σ : Type) extends HasEmitter σ where
  /-- Take a frame. -/
  takeFrame : σ → Frame × σ
  /-- Give a frame back. -/
  giveBack : Frame → σ → σ

/-- What the generation of code changes. -/
structure Generator where
  /-- The emitter. -/
  emitter : Emitter
  /-- The frames that no chain uses, the one given back last first. -/
  frames : List Frame := []

/-- A generator keeps the frames of its chains. -/
instance : HasFrames Generator where
  emitter generator := generator.emitter
  withEmitter generator emitter := { generator with emitter }
  takeFrame generator :=
    match generator.frames with
    | frame :: frames => (frame, { generator with frames })
    | [] => ({}, generator)
  giveBack frame generator := { generator with frames := frame :: generator.frames }

/-- An emitter can also be the whole state; then every chain has a new frame. -/
instance : HasFrames Emitter where
  takeFrame emitter := ({}, emitter)
  giveBack _ emitter := emitter

/-- The frame of a chain is a new one if the emitter is the whole state. -/
@[simp] theorem HasFrames.takeFrame_eq (emitter : Emitter) :
    HasFrames.takeFrame emitter = ({}, emitter) :=
  rfl

/-- A frame is not kept if the emitter is the whole state. -/
@[simp] theorem HasFrames.giveBack_eq (frame : Frame) (emitter : Emitter) :
    HasFrames.giveBack frame emitter = emitter :=
  rfl

/-- An operation that emits code of an expression. -/
abbrev Codegen (σ : Type) := EStateM CompileError σ

/-- Greatest number of locals, unless another is asked for. -/
def defaultMaxLocals : Nat := 65535

namespace Codegen

variable {σ : Type} [HasFrames σ]

/-- An operation on the emitter. -/
def ofEmit {α : Type} (operation : Emit α) : Codegen σ α := fun state =>
  match operation (HasEmitter.emitter state) with
  | .ok value emitter => .ok value (HasEmitter.withEmitter state emitter)
  | .error defect emitter => .error (.defect defect) (HasEmitter.withEmitter state emitter)

/-- What an emitter does, a generator does with its own. -/
instance : MonadLift Emit (Codegen σ) where
  monadLift := ofEmit

/-- An operation on the emitter that is the whole state. -/
theorem ofEmit_eq {α : Type} (operation : Emit α) (emitter : Emitter) :
    ofEmit operation emitter =
      match operation emitter with
      | .ok value emitter => .ok value emitter
      | .error defect emitter => .error (.defect defect) emitter :=
  rfl

/-- The result of a look-up among operator methods. -/
def ofExcept {α : Type} : Except Defect α → Codegen σ α
  | .ok value => pure value
  | .error defect => throw (.defect defect)

/-- Something that typing must have found out about a node. -/
def known {α : Type} (node : Node) : Option α → Codegen σ α
  | some value => pure value
  | none => throw (.defect (.untypedNode node.span))

/-- Emit a numeric conversion, if the types differ. -/
def emitNumericConversion (source target : Ty) : Codegen σ Unit := do
  if source = target then return
  else Emitter.emit ⟨.conv, .typeCode target.code⟩

/-- Emit a call of an operator method. -/
def emitMethodCall (method : OperatorMethod) : Codegen σ Unit :=
  Emitter.emitCall method.name method.params.length method.function

/-- Lengths and indices of arrays are Int32: they lie below this number. -/
def lengthLimit : Nat := 2147483648

/-- Emit the length or an index of an array literal. -/
def emitLength (length : Nat) : Codegen σ Unit := do
  if length < lengthLimit then Emitter.emitLoadInt32 (.ofNat length)
  else throw (.reject .literalOutOfRange [toString length] ⟨0, 0⟩)

/-- Emit a constant. Unsigned constants are pushed with their bits as signed ones and converted. -/
def emitLiteral : Literal → Codegen σ Unit
  | .bool b => Emitter.emitLoadBool b
  | .int n => Emitter.emitLoadInt32 n
  | .uint n => do
      Emitter.emitLoadInt32 n.toInt32
      Emitter.emit ⟨.conv, .typeCode (.int .u32)⟩
  | .long n => Emitter.emitLoadInt64 n
  | .ulong n => do
      Emitter.emitLoadInt64 n.toInt64
      Emitter.emit ⟨.conv, .typeCode (.int .u64)⟩
  | .single x => Emitter.emitLoadSingle x
  | .double x => Emitter.emitLoadDouble x
  | .str s => Emitter.emitLoadString s

/-- Emit an arm of a conditional into a fork and splice the fork. -/
def emitArm (arm : Codegen σ Unit) : Codegen σ Unit := fun state =>
  let parent := HasEmitter.emitter state
  match arm (HasEmitter.withEmitter state parent.fork) with
  | .ok _ after =>
      ofEmit (Emitter.splice (HasEmitter.emitter after)) (HasEmitter.withEmitter after parent)
  | .error error after => .error error (HasEmitter.withEmitter after parent)

/-- An arm is emitted into a fork of the emitter that is the whole state. -/
theorem emitArm_eq (arm : Codegen Emitter Unit) (emitter : Emitter) :
    emitArm arm emitter =
      match arm emitter.fork with
      | .ok _ child => ofEmit (Emitter.splice child) emitter
      | .error error _ => .error error emitter := by
  simp only [emitArm, HasEmitter.emitter_eq, HasEmitter.withEmitter_eq]
  cases arm emitter.fork <;> rfl

/-- Emit a chain in a frame that no other chain uses. The frame is cleared and given back, also if
the chain has no code. -/
def emitJoined (chain : Chain (ChainOperand σ)) : Codegen σ Unit := fun state =>
  let (frame, state) := HasFrames.takeFrame state
  match Frame.lower chain (frame, state) with
  | .ok _ (frame, state) => .ok () (HasFrames.giveBack frame.clear state)
  | .error error (frame, state) => .error error (HasFrames.giveBack frame.clear state)

/-- A chain is emitted in a new frame if the emitter is the whole state. -/
theorem emitJoined_eq (chain : Chain (ChainOperand Emitter)) (emitter : Emitter) :
    emitJoined chain emitter =
      match Frame.lower chain ({}, emitter) with
      | .ok _ (_, emitter) => .ok () emitter
      | .error error (_, emitter) => .error error emitter := by
  simp only [emitJoined, HasFrames.takeFrame_eq, HasFrames.giveBack_eq]
  cases Frame.lower chain ({}, emitter) <;> rfl

/-- Emit the code of an expression, given as a chain: an operand has its own code. -/
def emitCode : Chain (ChainOperand σ) → Codegen σ Unit
  | .operand operand => operand.code
  | .joined connective left right => emitJoined (.joined connective left right)

variable (env : Environment) (typing : Typing)

/-- The type that typing found for an expression. -/
def typeOf (expr : Expr) : Codegen σ Ty := known expr.node typing.types[expr.id]?

/-- How typing decided to carry out an operator. -/
def resolutionOf (node : Node) : Codegen σ Resolution := known node typing.resolutions[node.id]?

/-- Whether typing found a truth value. -/
def isBool (expr : Expr) : Bool := typing.types[expr.id]? == some .bool

/-- Emit a conversion that needs not be asked for. -/
def emitConversion (source target : Ty) (span : Span) : Codegen σ Unit := do
  if source.isImplicitlyConvertible target then emitNumericConversion source target
  else
    match ← ofExcept
        (env.operators.conversionMethod implicitConversion source target) with
    | some method => emitMethodCall method
    | none => throw (.reject .cannotConvertType [source.text, target.text] span)

/-- Emit a conversion that was asked for. -/
def emitCast (source target : Ty) (span : Span) : Codegen σ Unit := do
  if ← ofExcept (env.operators.canConvert source target) then
    emitConversion env source target span
  else if source.isNumeric && target.isNumeric then emitNumericConversion source target
  else
    match ← ofExcept
        (env.operators.conversionMethod explicitConversion source target) with
    | some method => emitMethodCall method
    | none => throw (.reject .noExplicitConversion [source.text, target.text] span)

/-- Emit the code of an expression and the conversion to a type. -/
def emitConverted (expr : Expr) (code : Codegen σ Unit) (target : Ty) : Codegen σ Unit := do
  let source ← typeOf typing expr
  code
  emitConversion env source target expr.span

/-- Emit the load of a name: of the innermost binding, or of a variable. -/
def emitName (node : Node) (name : String) (scope : SlotScope) : Codegen σ Unit :=
  match scope.lookup name with
  | some slot => Emitter.emitLoadLocal slot
  | none =>
      match env.findVariable? name with
      | some (index, _) => Emitter.emit ⟨.ldarg, .u16 index⟩
      | none => throw (.reject .undefinedName [name] node.span)

/-- Emit arguments with their conversions to the parameter types, first to last. -/
def emitArguments : List (Expr × Codegen σ Unit) → List Ty → Codegen σ Unit
  | (argument, code) :: arguments, param :: params => do
      emitConverted env typing argument code param
      emitArguments arguments params
  | _, _ => return

/-- Emit an operator: the operands with their conversions, then an instruction or a call. -/
def emitOperator (node : Node) (op : Opcode) (operands : List (Expr × Codegen σ Unit)) :
    Codegen σ Unit := do
  match ← resolutionOf typing node with
  | .primitive type =>
      emitArguments env typing operands (operands.map fun _ => type)
      Emitter.emitOp op
  | .overload method =>
      emitArguments env typing operands method.params
      emitMethodCall method

/-- Emit a shift. The count is converted to Int32 whatever its width. -/
def emitShift (node : Node) (direction : ShiftDirection) (left right : Expr)
    (leftCode rightCode : Codegen σ Unit) : Codegen σ Unit := do
  let resolution ← resolutionOf typing node
  let operand :=
    match resolution with
    | .primitive type => type
    | .overload method => method.params.headD (.int .i32)
  emitConverted env typing left leftCode operand
  rightCode
  emitNumericConversion (← typeOf typing right) (.int .i32)
  match resolution with
  | .primitive _ => Emitter.emitOp (.shift direction)
  | .overload method => emitMethodCall method

/-- Emit the comparison of the operand of a membership test with an item. -/
def emitItemTest (operandType : Ty) (operandSpan : Span) (slot : Nat) (item : Expr)
    (code : Codegen σ Unit) : Codegen σ Unit := do
  match ← known item.node typing.memberships[item.id]? with
  | .primitive type =>
      Emitter.emitLoadLocal slot
      emitConversion env operandType type operandSpan
      emitConverted env typing item code type
      Emitter.emitOp (.compare .eq)
  | .overload method =>
      Emitter.emitLoadLocal slot
      emitConversion env operandType (method.params.headD operandType) operandSpan
      let itemType ← typeOf typing item
      emitConverted env typing item code (method.params.getD 1 itemType)
      emitMethodCall method

/-- The instruction of an operator on one operand. -/
def unaryOpcode : UnaryOp → Opcode
  | .neg => .neg
  | .not => .not

mutual

/-- The code of an expression under the names in scope, as a chain. -/
def plan : Expr → SlotScope → Chain (ChainOperand σ)
  | .literal node value, _ => .operand ⟨node.id, emitLiteral value⟩
  | .ident node name, scope => .operand ⟨node.id, emitName env node name scope⟩
  | .unary node op operand, scope => .operand ⟨node.id, do
      emitOperator env typing node (unaryOpcode op) [(operand, emitCode (plan operand scope))]⟩
  | .arithmetic node op left right, scope => .operand ⟨node.id, do
      emitOperator env typing node (.binary op.function)
        [(left, emitCode (plan left scope)), (right, emitCode (plan right scope))]⟩
  | .comparison node relation left right, scope => .operand ⟨node.id, do
      emitOperator env typing node (.compare relation)
        [(left, emitCode (plan left scope)), (right, emitCode (plan right scope))]⟩
  | .logical node connective left right, scope =>
      if isBool typing left && isBool typing right then
        .joined connective (plan left scope) (plan right scope)
      else .operand ⟨node.id, do
        emitOperator env typing node (.binary connective.function)
          [(left, emitCode (plan left scope)), (right, emitCode (plan right scope))]⟩
  | .xor node left right, scope => .operand ⟨node.id, do
      emitOperator env typing node (.binary .xor)
        [(left, emitCode (plan left scope)), (right, emitCode (plan right scope))]⟩
  | .shift node direction left right, scope => .operand ⟨node.id, do
      emitShift env typing node direction left right (emitCode (plan left scope))
        (emitCode (plan right scope))⟩
  | .conditional node condition thenBranch elseBranch, scope => .operand ⟨node.id, do
      let type ← known node typing.types[node.id]?
      emitCode (plan condition scope)
      let elseLabel ← Emitter.defineLabel
      let endLabel ← Emitter.defineLabel
      let _ ← Emitter.emitBranch (.branch .ifFalse .long) elseLabel
      emitArm (emitConverted env typing thenBranch (emitCode (plan thenBranch scope)) type)
      let _ ← Emitter.emitBranch (.branch .always .long) endLabel
      Emitter.markLabel elseLabel
      emitArm (emitConverted env typing elseBranch (emitCode (plan elseBranch scope)) type)
      Emitter.markLabel endLabel⟩
  | .member node operand items, scope => .operand ⟨node.id, do
      let operandType ← typeOf typing operand
      emitCode (plan operand scope)
      let slot ← Emitter.declareLocal operandType
      Emitter.emitStoreLocal slot
      let found ← Emitter.defineLabel
      let finish ← Emitter.defineLabel
      emitItems operandType operand.span slot found items scope
      Emitter.emitLoadBool false
      let _ ← Emitter.emitBranch (.branch .always .long) finish
      Emitter.markLabel found
      Emitter.emitLoadBool true
      Emitter.markLabel finish⟩
  | .index node array position, scope => .operand ⟨node.id, do
      let element ← known node typing.types[node.id]?
      emitCode (plan array scope)
      emitCode (plan position scope)
      Emitter.emitArrayLoad element⟩
  | .array node elements, scope => .operand ⟨node.id, do
      let type ← known node typing.types[node.id]?
      let element ← known node type.element?
      emitLength elements.length
      Emitter.emitNewArray element
      emitElements element 0 elements scope⟩
  | .call node name arguments, scope => .operand ⟨node.id, do
      match env.findFunction? name with
      | some signature =>
          emitCallArguments arguments signature.params scope
          Emitter.emitCall name arguments.length signature.function
      | none => throw (.reject .undefinedFunction [name] node.span)⟩
  | .cast node operand target, scope => .operand ⟨node.id, do
      let source ← typeOf typing operand
      emitCode (plan operand scope)
      emitCast env source target node.span⟩
  | .bindings node body values, scope => .operand ⟨node.id, do
      let inner ← emitBindings values scope
      emitCode (plan body inner)⟩

/-- Emit the tests of a membership test, each with a branch for success. -/
def emitItems (operandType : Ty) (operandSpan : Span) (slot : Nat) (found : Label) :
    List Expr → SlotScope → Codegen σ Unit
  | [], _ => return
  | item :: items, scope => do
      emitItemTest env typing operandType operandSpan slot item (emitCode (plan item scope))
      let _ ← Emitter.emitBranch (.branch .ifTrue .long) found
      emitItems operandType operandSpan slot found items scope

/-- Emit the stores of the elements of an array literal, from an index on. -/
def emitElements (element : Ty) (index : Nat) : List Expr → SlotScope → Codegen σ Unit
  | [], _ => return
  | value :: values, scope => do
      Emitter.emitOp .dup
      emitLength index
      emitConverted env typing value (emitCode (plan value scope)) element
      Emitter.emitArrayStore element
      emitElements element (index + 1) values scope

/-- Emit the arguments of a call with their conversions, first to last. -/
def emitCallArguments : List Expr → List Ty → SlotScope → Codegen σ Unit
  | argument :: arguments, param :: params, scope => do
      emitConverted env typing argument (emitCode (plan argument scope)) param
      emitCallArguments arguments params scope
  | _, _, _ => return

/-- Emit bound values into locals of their own, first to last; each is in scope of those behind
it. -/
def emitBindings : List (String × Expr) → SlotScope → Codegen σ SlotScope
  | [], scope => return scope
  | (name, value) :: rest, scope => do
      let type ← typeOf typing value
      emitCode (plan value scope)
      let slot ← Emitter.declareLocal type
      Emitter.emitStoreLocal slot
      emitBindings rest ((name, slot) :: scope)

end

/-- Emit the code of an expression. -/
def emitExpr (expr : Expr) : Codegen σ Unit := emitCode (plan env typing expr [])

/-- Emit the code of an expression and a return. -/
def program (expr : Expr) : Codegen σ Unit := do
  emitExpr env typing expr
  Emitter.emitOp .ret

end Codegen

/-- Compile an expression in an environment, with a limit on the number of locals. -/
def compile (env : Environment) (expr : Expr) (maxLocals : Nat) :
    Except CompileError Code :=
  match (Typing.typeOf env expr []).run {} with
  | .error error _ => .error error
  | .ok _ typing =>
      match Codegen.program env typing expr
          ({ emitter := Emitter.withMaxLocals maxLocals } : Generator) with
      | .error error _ => .error error
      | .ok _ generator => generator.emitter.finalize.mapError .ofFinishError

end ExprCode
