import ExprCode.Expr
import ExprCode.Layout
import ExprCode.Message

/-! # Compilation errors

An expression that the environment cannot give a meaning is *rejected*, with a message for its
author. A *defect* is a misuse of the emitter, a limit of the code format, or an ambiguity among the
operators of the environment. Both end a compilation. An index that is out of range ends the
program. -/

namespace ExprCode

/-- The tables and lists whose entries are counted in two bytes. -/
inductive TableName where
  | strings | types | functions | arguments
  deriving DecidableEq

/-- Name of a table in messages. -/
def TableName.text : TableName → String
  | strings => "strings"
  | types => "types"
  | functions => "functions"
  | arguments => "arguments"

/-- A misuse of the emitter, a limit of the code format, or an ambiguous environment. -/
inductive Defect where
  /-- A label was used and never marked. -/
  | unresolvedLabel (label : Label)
  /-- A label was marked twice. -/
  | labelAlreadyMarked (label : Label)
  /-- A label was never defined. -/
  | unknownLabel (label : Label)
  /-- Several operator methods convert between two types. -/
  | ambiguousOperator (name : String) (source target : Ty) (candidates : Nat)
  /-- A chain has no connective. -/
  | operatorStackUnderflow
  /-- A chain has too few operands. -/
  | operandStackUnderflow
  /-- A chain was lowered in a frame that holds another one. -/
  | frameInUse
  /-- A local was used and never declared. -/
  | unallocatedLocal (slot : Nat)
  /-- A local has a number that no instruction can hold. -/
  | localOutOfRange (slot : Nat)
  /-- More locals were declared than are allowed. -/
  | tooManyLocals (limit : Nat)
  /-- An opcode was given an operand of the wrong kind. -/
  | operandMismatch (op : Opcode) (operand : Operand)
  /-- A table has no room for another entry. -/
  | tableOverflow (table : TableName)
  /-- A fork was spliced into an emitter that has changed since. -/
  | staleFork
  /-- A node was compiled whose type is not known. -/
  | untypedNode (span : Span)
  deriving DecidableEq

/-- Name of a kind of defect. -/
def Defect.name : Defect → String
  | unresolvedLabel _ => "UnresolvedLabel"
  | labelAlreadyMarked _ => "LabelAlreadyMarked"
  | unknownLabel _ => "UnknownLabel"
  | ambiguousOperator _ _ _ _ => "AmbiguousOperator"
  | operatorStackUnderflow => "OperatorStackUnderflow"
  | operandStackUnderflow => "OperandStackUnderflow"
  | frameInUse => "FrameInUse"
  | unallocatedLocal _ => "UnallocatedLocal"
  | localOutOfRange _ => "LocalOutOfRange"
  | tooManyLocals _ => "TooManyLocals"
  | operandMismatch _ _ => "OperandMismatch"
  | tableOverflow _ => "TableOverflow"
  | staleFork => "StaleFork"
  | untypedNode _ => "UntypedNode"

/-- Text of a defect. -/
def Defect.message : Defect → String
  | unresolvedLabel label => "label " ++ labelText label ++ " was never marked"
  | labelAlreadyMarked label => "label " ++ labelText label ++ " is already marked"
  | unknownLabel label => "label " ++ labelText label ++ " was not defined by this emitter"
  | ambiguousOperator name source target candidates =>
      toString candidates ++ " candidates for `" ++ name ++ "` from `" ++ source.text ++ "` to `" ++
        target.text ++ "`"
  | operatorStackUnderflow => "short-circuit operator stack is empty"
  | operandStackUnderflow => "short-circuit operand stack is empty"
  | frameInUse => "short-circuit frame reused without clearing"
  | unallocatedLocal slot => "local " ++ toString slot ++ " is not allocated"
  | localOutOfRange slot => "local index " ++ toString slot ++ " is out of range"
  | tooManyLocals limit => "more than " ++ toString limit ++ " locals"
  | operandMismatch op operand =>
      "`" ++ op.mnemonic ++ "` does not take operand " ++ operand.description
  | tableOverflow table => table.text ++ " table is full"
  | staleFork => "parallel path spliced after its parent changed"
  | untypedNode span =>
      "node at " ++ toString span.start ++ ".." ++ toString span.stop ++
        " emitted before it was typed"

/-- Why an emitter has no finished code. -/
inductive FinishError where
  /-- The emitter was misused. -/
  | defect (defect : Defect)
  /-- An index was out of range. -/
  | outOfRange (fault : OutOfRange)
  deriving DecidableEq

/-- A defect is a reason not to finish. -/
instance : MonadLift (Except Defect) (Except FinishError) where
  monadLift := Except.mapError .defect

/-- A branch out of range is a reason not to finish. -/
instance : MonadLift (Except OutOfRange) (Except FinishError) where
  monadLift := Except.mapError .outOfRange

/-- Why an expression was rejected. -/
structure Rejection where
  /-- What is wrong. -/
  key : MessageKey
  /-- The arguments of the message. -/
  arguments : List String
  /-- The place in the source text. -/
  span : Option Span
  deriving DecidableEq

/-- The message of a rejection. -/
def Rejection.message (rejection : Rejection) : String :=
  rejection.key.format rejection.arguments

/-- Why a compilation failed. -/
inductive CompileError where
  /-- The expression has no meaning in the environment. -/
  | rejected (rejection : Rejection)
  /-- The compilation met a defect. -/
  | defect (defect : Defect)
  /-- The program stopped at an index that was out of range. -/
  | outOfRange (fault : OutOfRange)
  deriving DecidableEq

namespace CompileError

/-- The error of a compilation whose emitter has no finished code. -/
def ofFinishError : FinishError → CompileError
  | .defect cause => .defect cause
  | .outOfRange fault => .outOfRange fault

/-- Name of a kind of error. -/
def name : CompileError → String
  | rejected rejection => rejection.key.name
  | defect cause => cause.name
  | outOfRange _ => "IndexOutOfRange"

/-- Text of an error. -/
def message : CompileError → String
  | rejected rejection => rejection.message
  | defect cause => "internal compiler error: " ++ cause.message
  | outOfRange fault => fault.message

/-- Reject an expression at a place. -/
def reject (key : MessageKey) (arguments : List String) (span : Span) : CompileError :=
  .rejected ⟨key, arguments, some span⟩

end CompileError

end ExprCode
