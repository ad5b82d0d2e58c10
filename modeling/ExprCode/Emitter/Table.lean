import Std.Data.TreeMap

/-! # Interned tables

A table of entries with distinct keys, numbered in the order in which they were first seen. The
index beside the entries knows exactly their keys, so an entry is found without a search and no key
is listed twice. -/

namespace ExprCode

/-- Greatest number of entries of a table: tokens have two bytes. -/
def maxEntries : Nat := 65536

/-- A table of entries with distinct keys. -/
structure Table {α κ : Type} [Ord κ] [Std.TransOrd κ] [Std.LawfulEqOrd κ] (key : α → κ) where
  /-- The number of the entry with a key. -/
  index : Std.TreeMap κ Nat
  /-- The entries, in the order of their numbers. -/
  entries : Array α
  /-- The index knows exactly the keys of the entries. -/
  index_eq : ∀ (wanted : κ) (number : Nat),
    index[wanted]? = some number ↔ entries[number]?.map key = some wanted

namespace Table

variable {α κ : Type} [Ord κ] [Std.TransOrd κ] [Std.LawfulEqOrd κ] {key : α → κ}

/-- The table without entries. -/
def empty : Table key where
  index := ∅
  entries := #[]
  index_eq := by simp

/-- The number of the entry with a key. -/
def find? (table : Table key) (wanted : κ) : Option Nat := table.index[wanted]?

/-- Number of entries. -/
def size (table : Table key) : Nat := table.entries.size

/-- Add an entry whose key the table does not have yet. -/
def push (table : Table key) (entry : α) (absent : table.find? (key entry) = none) : Table key where
  index := table.index.insert (key entry) table.entries.size
  entries := table.entries.push entry
  index_eq wanted number := by
    rw [Std.TreeMap.getElem?_insert, Array.getElem?_push]
    by_cases equal : compare (key entry) wanted = .eq
    · have same : key entry = wanted := Std.LawfulEqOrd.eq_of_compare equal
      subst same
      have unlisted : ¬ table.entries[number]?.map key = some (key entry) := fun listed => by
        rw [← table.index_eq, ← find?, absent] at listed
        exact absurd listed (by simp)
      by_cases last : number = table.entries.size
      · simp [last]
      · rw [if_pos equal, if_neg last, Option.some.injEq]
        exact ⟨fun h => absurd h.symm last, fun h => absurd h unlisted⟩
    · have differ : key entry ≠ wanted :=
        fun same => equal (by rw [same]; exact Std.ReflOrd.compare_self)
      rw [if_neg equal, table.index_eq]
      by_cases last : number = table.entries.size
      · subst last
        simp [differ]
      · rw [if_neg last]

/-- The number of the entry with the key of a given one, which is added if there is none; no number
if the table is full. -/
def intern (table : Table key) (entry : α) : Option Nat × Table key :=
  match h : table.find? (key entry) with
  | some number => (some number, table)
  | none =>
      let number := table.size
      if number < maxEntries then (some number, table.push entry h) else (none, table)

end Table

end ExprCode
