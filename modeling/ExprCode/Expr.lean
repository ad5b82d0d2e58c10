import ExprCode.Number.Binary
import ExprCode.Opcode
import ExprCode.Ty

/-! # Expressions

Expression trees as a front end hands them over. Every node carries its identity and the piece of
source text that it came from. A node may occur at several places of an expression; its occurrences
then share one identity, and what has been found out about a node is remembered under that
identity. -/

namespace ExprCode

/-- A piece of source text, by byte offsets. -/
structure Span where
  /-- First byte. -/
  start : Nat
  /-- First byte behind. -/
  stop : Nat
  deriving DecidableEq

/-- Identity of an expression node. -/
abbrev NodeId := Nat

/-- Identity and place of an expression node. -/
structure Node where
  /-- Identity. -/
  id : NodeId
  /-- Place in the source text. -/
  span : Span
  deriving DecidableEq

/-- A constant written in the source. -/
inductive Literal where
  | bool (b : Bool)
  | int (n : Int32)
  | uint (n : UInt32)
  | long (n : Int64)
  | ulong (n : UInt64)
  | single (x : Single)
  | double (x : Double)
  | str (s : String)
  deriving DecidableEq

/-- Operators on one operand. -/
inductive UnaryOp where
  | neg | not
  deriving DecidableEq

/-- Arithmetic operators on two operands. -/
inductive ArithmeticOp where
  | add | sub | mul | div | rem | pow
  deriving DecidableEq

/-- Logical connectives. -/
inductive Connective where
  | and | or
  deriving DecidableEq

/-- An expression. -/
inductive Expr where
  /-- A constant. -/
  | literal (node : Node) (value : Literal)
  /-- A variable, of a binding or of the environment. -/
  | ident (node : Node) (name : String)
  /-- An operator on one operand. -/
  | unary (node : Node) (op : UnaryOp) (operand : Expr)
  /-- Arithmetic on two operands. -/
  | arithmetic (node : Node) (op : ArithmeticOp) (left right : Expr)
  /-- A comparison. -/
  | comparison (node : Node) (relation : Relation) (left right : Expr)
  /-- Conjunction or disjunction, of truth values or bitwise. -/
  | logical (node : Node) (connective : Connective) (left right : Expr)
  /-- Exclusive disjunction, of truth values or bitwise. -/
  | xor (node : Node) (left right : Expr)
  /-- A shift of an integer. -/
  | shift (node : Node) (direction : ShiftDirection) (left right : Expr)
  /-- One of two expressions, chosen by a condition. -/
  | conditional (node : Node) (condition thenBranch elseBranch : Expr)
  /-- Whether a value equals one of several. -/
  | member (node : Node) (operand : Expr) (items : List Expr)
  /-- An element of an array. -/
  | index (node : Node) (array position : Expr)
  /-- A new array of the given elements. -/
  | array (node : Node) (elements : List Expr)
  /-- A call of a host function. -/
  | call (node : Node) (name : String) (arguments : List Expr)
  /-- A conversion that was asked for. -/
  | cast (node : Node) (operand : Expr) (target : Ty)
  /-- An expression with named values; a value may use the names before it. -/
  | bindings (node : Node) (body : Expr) (values : List (String × Expr))

namespace Expr

/-- Identity and place of the root of an expression. -/
def node : Expr → Node
  | literal node _ | ident node _ | unary node _ _ | arithmetic node _ _ _ | comparison node _ _ _
  | logical node _ _ _ | xor node _ _ | shift node _ _ _ | conditional node _ _ _ | member node _ _
  | index node _ _ | array node _ | call node _ _ | cast node _ _ | bindings node _ _ => node

/-- Identity of the root. -/
def id (expr : Expr) : NodeId := expr.node.id

/-- Place of the root. -/
def span (expr : Expr) : Span := expr.node.span

end Expr

namespace Literal

/-- The type of a constant. -/
def ty : Literal → Ty
  | bool _ => .bool
  | int _ => .int .i32
  | uint _ => .int .u32
  | long _ => .int .i64
  | ulong _ => .int .u64
  | single _ => .single
  | double _ => .double
  | str _ => .str

end Literal

/-- Symbol of an operator in messages. -/
def UnaryOp.text : UnaryOp → String
  | .neg => "-"
  | .not => "not"

/-- Symbol of an operator in messages. -/
def ArithmeticOp.text : ArithmeticOp → String
  | .add => "+"
  | .sub => "-"
  | .mul => "*"
  | .div => "/"
  | .rem => "%"
  | .pow => "^"

/-- Symbol of a relation in messages. -/
def Relation.text : Relation → String
  | .eq => "="
  | .ne => "<>"
  | .lt => "<"
  | .gt => ">"
  | .le => "<="
  | .ge => ">="

/-- Symbol of a connective in messages. -/
def Connective.text : Connective → String
  | .and => "and"
  | .or => "or"

/-- The function that an arithmetic operator stands for. -/
def ArithmeticOp.function : ArithmeticOp → BinaryFunction
  | .add => .add
  | .sub => .sub
  | .mul => .mul
  | .div => .div
  | .rem => .rem
  | .pow => .pow

/-- The function on bits that a connective stands for. -/
def Connective.function : Connective → BinaryFunction
  | .and => .and
  | .or => .or

/-- Symbol of a shift in messages. -/
def ShiftDirection.text : ShiftDirection → String
  | .left => "<<"
  | .right => ">>"

end ExprCode
