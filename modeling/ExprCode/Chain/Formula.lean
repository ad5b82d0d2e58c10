import ExprCode.Chain
import ExprCode.Machine

/-! # Formulas

Conjunctions and disjunctions over truth values that are given as arguments. An identifier that
writes a number stands for the argument of that number. Formulas are compiled without typing, and
the names of the operands are recorded in the order in which they are compiled. -/

namespace ExprCode

/-- An emitter with a record of names. -/
structure Traced where
  /-- The emitter. -/
  emitter : Emitter := {}
  /-- The names of the operands compiled, last first. -/
  names : List String := []

/-- A trace stands beside an emitter. -/
instance : HasEmitter Traced where
  emitter traced := traced.emitter
  withEmitter traced emitter := { traced with emitter }

namespace Formula

/-- An operation that emits code of an operand. -/
abbrev Tracing := EStateM CompileError Traced

/-- Record a name. -/
def record (name : String) : Tracing Unit :=
  modify fun traced => { traced with names := name :: traced.names }

/-- An operation on the emitter. -/
def ofEmit (operation : Emit Unit) : Tracing Unit := fun traced =>
  match operation traced.emitter with
  | .ok _ emitter => .ok () { traced with emitter }
  | .error defect emitter => .error (.defect defect) { traced with emitter }

/-- The argument that an identifier stands for: decimal digits, after a plus sign or not, of a
number with two bytes. -/
def argument? (name : String) : Option Nat :=
  (Message.index? name.toList).filter (· < 65536)

/-- The code of an operand. Only identifiers and truth values have code. -/
def operandCode : Expr → Tracing Unit
  | .ident node name => do
      record name
      match argument? name with
      | some index => ofEmit (Emitter.emit ⟨.ldarg, .u16 (.ofNat index)⟩)
      | none => throw (.defect (.untypedNode node.span))
  | .literal _ (.bool b) => do
      record (if b then "true" else "false")
      ofEmit (Emitter.emitLoadBool b)
  | expr => throw (.defect (.untypedNode expr.span))

/-- The chain of a formula: every connective joins, and all else is an operand. -/
def chain : Expr → Chain (ChainOperand Traced)
  | .logical _ connective left right => .joined connective (chain left) (chain right)
  | expr => .operand ⟨expr.id, operandCode expr⟩

/-- The truth values of the arguments in a row of a truth table: the bits of the number of the
row. -/
def assignment (count row : Nat) : Array Value :=
  ((List.range count).map fun i => Value.bool (row.testBit i)).toArray

/-- The result in a row of a truth table: a truth value, another value, or an error. -/
def tableEntry (limit : Nat) (host : Host) (code : Code) (count row : Nat) : Char :=
  match Machine.execute limit ⟨code, assignment count row, host⟩ {} with
  | some ⟨.ok (.bool b), _, _⟩ => if b then 'T' else 'F'
  | some ⟨.ok _, _, _⟩ => '?'
  | _ => 'E'

/-- The truth table of code with a number of arguments. -/
def truthTable (limit : Nat) (host : Host) (code : Code) (count : Nat) : String :=
  String.ofList ((List.range (Nat.pow 2 count)).map (tableEntry limit host code count))

end Formula

end ExprCode
