import ExprCode.Codegen
import ExprCode.Machine

/-! # Evaluation

Compiling an expression and running its code once. -/

namespace ExprCode

/-- Why an evaluation ended without a value. -/
inductive Failure where
  /-- The expression was not compiled. -/
  | compilation (error : CompileError)
  /-- The run of the code ended with an error. -/
  | execution (error : RuntimeError)
  deriving DecidableEq

/-- Text of a failure. -/
def Failure.message : Failure → String
  | compilation error => error.message
  | execution error => error.message

/-- Compile an expression with the default limit on locals and run it with arguments in the order in
which the variables were declared, for at most `limit` steps. The answer has the value and the heap
to which it belongs. -/
def evaluate (limit : Nat) (env : Environment) (host : Host) (expr : Expr)
    (arguments : Array Value) (heap : Heap) : Option (Except Failure Value × Heap) :=
  match compile env expr defaultMaxLocals with
  | .error error => some (.error (.compilation error), heap)
  | .ok code =>
      (Machine.execute limit ⟨code, arguments, host⟩ heap).map fun outcome =>
        (outcome.result.mapError .execution, outcome.heap)

end ExprCode
