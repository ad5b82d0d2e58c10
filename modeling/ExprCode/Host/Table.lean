import ExprCode.Host

/-! # Tables of host functions

A host that is built up function by function. Every function has a label, under which traces of
calls show it, and may be given a name, under which it is found again. -/

namespace ExprCode

/-- A host function with its label. -/
structure HostFunction where
  /-- The name in traces of calls. -/
  label : String
  /-- What the function does. -/
  call : List Value → Heap → Except RuntimeError Value × Heap

/-- Host functions in the order in which they were added. -/
structure HostTable where
  /-- The functions. -/
  functions : Array HostFunction := #[]
  /-- Names that were given to functions. -/
  named : List (String × Handle) := []

namespace HostTable

/-- The function of a name. -/
def find? (table : HostTable) (name : String) : Option Handle := table.named.lookup name

/-- Add a function, under a name or without one. -/
def add (table : HostTable) (name? : Option String) (function : HostFunction) :
    Handle × HostTable :=
  let handle : Handle := ⟨table.functions.size⟩
  (handle,
    { functions := table.functions.push function
      named := (name?.map (·, handle)).toList ++ table.named })

/-- The label of a function. -/
def labelOf (table : HostTable) (handle : Handle) : String :=
  match table.functions[handle.index]? with
  | some function => function.label
  | none => ""

/-- The host whose functions are those of the table. -/
def host (table : HostTable) : Host where
  call handle arguments heap :=
    match table.functions[handle.index]? with
    | some function => function.call arguments heap
    | none => (.error (.host "no such function"), heap)

end HostTable

end ExprCode
