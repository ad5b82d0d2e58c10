import ExprCode.Heap
import ExprCode.RuntimeError

/-! # Host functions

Code refers to host functions by handles. A host gives every handle its meaning: a function from
arguments to a value or an error, which may also change the heap. -/

namespace ExprCode

/-- Identity of a host function. -/
@[ext] structure Handle where
  /-- Number of the function. -/
  index : Nat
  deriving DecidableEq

/-- The meaning of host functions. -/
structure Host where
  /-- Call a function. The heap afterwards counts also if the call fails. -/
  call : Handle → List Value → Heap → Except RuntimeError Value × Heap

/-- A call that was made: the function, its arguments, and the heap when it was entered. -/
structure HostCall where
  /-- The function called. -/
  function : Handle
  /-- The arguments, first to last. -/
  arguments : List Value
  /-- The heap before the call. -/
  heap : Heap

end ExprCode
