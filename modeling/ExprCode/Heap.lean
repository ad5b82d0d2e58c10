import ExprCode.Decimal.Text
import ExprCode.Text.Quoted
import ExprCode.Value

/-! # The heap

The arrays that exist during a run. An array keeps its length; stores replace single elements. The
kind of the elements belongs to the reference, so two references to one array may name two kinds. A
reference that the heap does not know behaves as one to an empty array.

Texts and equality of values look through array references. Arrays may be nested no deeper than
there are arrays, unless an array contains itself, so both recursions are bounded by the number of
arrays. -/

namespace ExprCode

/-- All arrays, in the order in which they were made. -/
structure Heap where
  /-- The elements of every array. -/
  arrays : Array (Array Value) := #[]

namespace Heap

/-- Elements of an array. -/
def items (heap : Heap) (array : ArrayRef) : Array Value := heap.arrays.getD array.index #[]

/-- Number of elements of an array. -/
def length (heap : Heap) (array : ArrayRef) : Nat := (heap.items array).size

/-- Make an array of the given elements. -/
def alloc (heap : Heap) (element : TypeCode) (items : Array Value) : ArrayRef × Heap :=
  (⟨element, heap.arrays.size⟩, ⟨heap.arrays.push items⟩)

/-- Make an array of a length, filled with the default value of its element kind. -/
def allocDefault (heap : Heap) (element : TypeCode) (length : Nat) : ArrayRef × Heap :=
  heap.alloc element (Array.replicate length (Value.default element))

/-- Replace one element of an array; an index out of range changes nothing. -/
def store (heap : Heap) (array : ArrayRef) (index : Nat) (value : Value) : Heap :=
  ⟨heap.arrays.modify array.index fun items => items.setIfInBounds index value⟩

/-- A new array has the elements that it is made of; all others have theirs. -/
theorem items_alloc (heap : Heap) (element : TypeCode) (items : Array Value) (other : ArrayRef) :
    (heap.alloc element items).2.items other =
      if other.index = heap.arrays.size then items else heap.items other := by
  simp only [alloc, Heap.items, Array.getD_eq_getD_getElem?, Array.getElem?_push]
  split <;> rfl

/-- A store replaces an element of one array. -/
theorem items_store (heap : Heap) (array other : ArrayRef) (index : Nat) (value : Value) :
    (heap.store array index value).items other =
      if array.index = other.index then (heap.items other).setIfInBounds index value
      else heap.items other := by
  simp only [store, items, Array.getD_eq_getD_getElem?, Array.getElem?_modify]
  by_cases same : array.index = other.index
  · cases heap.arrays[other.index]? <;> simp [same]
  · simp [same]

/-- Elements after a store were there before, or one of them was stored. -/
theorem mem_items_store {heap : Heap} {array other : ArrayRef} {index : Nat} {value item : Value}
    (listed : item ∈ (heap.store array index value).items other) :
    item ∈ heap.items other ∨ array.index = other.index ∧ item = value := by
  rw [items_store] at listed
  by_cases same : array.index = other.index
  · rw [if_pos same] at listed
    exact (Array.mem_or_eq_of_mem_setIfInBounds listed).imp_right fun equal => ⟨same, equal⟩
  · rw [if_neg same] at listed
    exact .inl listed

/-- A store keeps all lengths. -/
theorem length_store (heap : Heap) (array other : ArrayRef) (index : Nat) (value : Value) :
    (heap.store array index value).length other = heap.length other := by
  rw [length, items_store]
  split
  · exact Array.size_setIfInBounds
  · rfl

end Heap

namespace Value

/-- Text of a value, given the text of every array. -/
def textWith (arrayText : ArrayRef → String) : Value → String
  | null => "null"
  | bool b => if b then "true" else "false"
  | int word => toString word.value
  | single x => x.render .plain
  | double x => x.render .plain
  | str s => Text.quoted s
  | array reference => arrayText reference
  | object type _ => "<" ++ type ++ ">"
  | localAddress _ | elementAddress _ _ => "<address>"

mutual

/-- Whether two values are equal, given which arrays are: of one kind, with equal contents. A number
that is no number equals nothing, and zeros of both signs are equal. -/
def equalWith (sameArray : ArrayRef → ArrayRef → Bool) : Value → Value → Bool
  | null, null => true
  | bool a, bool b => a == b
  | int a, int b => a == b
  | single a, single b => a.compare? b == some .eq
  | double a, double b => a.compare? b == some .eq
  | str a, str b => a == b
  | array a, array b => sameArray a b
  | object type fields, object otherType otherFields =>
      type == otherType && allEqualWith sameArray fields otherFields
  | localAddress a, localAddress b => a == b
  | elementAddress a i, elementAddress b j => i == j && sameArray a b
  | _, _ => false

/-- Whether two lists of values are equal element by element. -/
def allEqualWith (sameArray : ArrayRef → ArrayRef → Bool) : List Value → List Value → Bool
  | [], [] => true
  | a :: as, b :: bs => equalWith sameArray a b && allEqualWith sameArray as bs
  | _, _ => false

end

end Value

namespace Heap

/-- Text of an array, nested at most `depth` deep. -/
def arrayText (heap : Heap) : Nat → ArrayRef → String
  | 0, _ => "[...]"
  | depth + 1, array =>
      let texts := (heap.items array).toList.map (Value.textWith (heap.arrayText depth))
      "[" ++ ", ".intercalate texts ++ "]"

/-- Text of a value. -/
def text (heap : Heap) (value : Value) : String :=
  value.textWith (heap.arrayText heap.arrays.size)

/-- Whether two references name the same element kind and arrays with equal elements, nested at most
`depth` deep. -/
def sameArray (heap : Heap) : Nat → ArrayRef → ArrayRef → Bool
  | 0, _, _ => false
  | depth + 1, a, b =>
      a.element == b.element &&
        Value.allEqualWith (heap.sameArray depth) (heap.items a).toList (heap.items b).toList

/-- Whether two values are equal. -/
def equal (heap : Heap) (a b : Value) : Bool :=
  a.equalWith (heap.sameArray (heap.arrays.size + 1)) b

end Heap

end ExprCode
