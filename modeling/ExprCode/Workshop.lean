import ExprCode.Emitter

/-! # Workshops

Several emitters under names, as they are used for parallel paths. -/

namespace ExprCode

/-- Emitters by name. -/
structure Workshop where
  /-- The emitters. -/
  emitters : Std.TreeMap String Emitter := ∅

namespace Workshop

/-- The emitter of a name. -/
def find? (workshop : Workshop) (name : String) : Option Emitter := workshop.emitters[name]?

/-- Put an emitter under a name. -/
def insert (workshop : Workshop) (name : String) (emitter : Emitter) : Workshop :=
  ⟨workshop.emitters.insert name emitter⟩

/-- Take away the emitter of a name. -/
def erase (workshop : Workshop) (name : String) : Workshop := ⟨workshop.emitters.erase name⟩

/-- Perform an operation on the emitter of a name, if there is one. The emitter is taken out of the
workshop while it changes. -/
def perform {α : Type} (workshop : Workshop) (name : String) (operation : Emit α) :
    Option (Except Defect α) × Workshop :=
  match workshop.find? name with
  | none => (none, workshop)
  | some emitter =>
      let others := workshop.erase name
      match operation.run emitter with
      | .ok value emitter => (some (.ok value), others.insert name emitter)
      | .error defect emitter => (some (.error defect), others.insert name emitter)

/-- Splice one emitter into another. The spliced one is gone, also if splicing fails. -/
def splice (workshop : Workshop) (child parent : String) :
    Option (Except Defect Unit) × Workshop :=
  match workshop.find? child with
  | none => (none, workshop)
  | some emitter => (workshop.erase child).perform parent (Emitter.splice emitter)

end Workshop

end ExprCode
