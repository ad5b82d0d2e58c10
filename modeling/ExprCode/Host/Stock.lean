import ExprCode.Host

/-! # Stock functions

Host functions for common needs: constructors and fields of host objects, choice of an argument,
simple tests, access to arrays, and functions that fail. -/

namespace ExprCode

/-- A ready-made host function. -/
inductive StockFunction where
  /-- Makes an object of the arguments. -/
  | wrap (type : String)
  /-- Answers one of the arguments. -/
  | argument (position : Nat)
  /-- Answers a constant, whose arrays are made anew by every call. -/
  | constant (make : Heap → Value × Heap)
  /-- Fails. -/
  | fail (error : RuntimeError)
  /-- Answers a field of the object given. -/
  | field (position : Nat)
  /-- Tests whether an integer is positive. -/
  | positive
  /-- Tests whether two values are equal. -/
  | same
  /-- Stores the second argument into the array given first, unconverted. -/
  | poke (index : Nat)
  /-- Answers the length of an array. -/
  | length

namespace StockFunction

/-- The result, given what was looked for, or the failure to find it. -/
def found (missing : String) (heap : Heap) : Option Value → Except RuntimeError Value × Heap
  | some value => (.ok value, heap)
  | none => (.error (.host missing), heap)

/-- The fields of an object. -/
def fields : Option Value → List Value
  | some (.object _ fields) => fields
  | _ => []

/-- What a stock function does. -/
def call (function : StockFunction) (arguments : List Value) (heap : Heap) :
    Except RuntimeError Value × Heap :=
  match function with
  | wrap type => (.ok (.object type arguments), heap)
  | argument position => found "no such argument" heap arguments[position]?
  | constant make =>
      let (value, heap) := make heap
      (.ok value, heap)
  | fail error => (.error error, heap)
  | field position => found "no such field" heap (fields arguments.head?)[position]?
  | positive =>
      found "expected integer" heap
        ((arguments.head?.bind Value.integer?).map fun n => .bool (0 < n))
  | same =>
      match arguments with
      | a :: b :: _ => (.ok (.bool (heap.equal a b)), heap)
      | _ => found "expected two arguments" heap none
  | poke index =>
      match arguments with
      | .array array :: value :: _ =>
          if index < heap.length array then (.ok (.array array), heap.store array index value)
          else found "cannot poke" heap none
      | _ => found "cannot poke" heap none
  | length =>
      match arguments.head? with
      | some (.array array) => (.ok (.i32 (heap.length array)), heap)
      | _ => found "expected array" heap none

end StockFunction

end ExprCode
