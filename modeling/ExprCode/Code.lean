import ExprCode.Bytes
import ExprCode.Host
import ExprCode.Layout

/-! # Code

Finished code: bytes of instructions with the tables that they refer to, and how single instructions
are decoded from it. `lt_next_of_decodeAt?` says that decoding always advances, so a walk through
the code ends. -/

namespace ExprCode

/-- Version of the instruction set. -/
def formatVersion : UInt8 := 1

/-- An entry of the function table. -/
structure FunctionEntry where
  /-- Name of the function or operator method. -/
  name : String
  /-- Number of its arguments. -/
  arity : Nat
  /-- The function. -/
  function : Handle
  deriving DecidableEq

/-- What tells entries of the function table apart: the name and the function, whatever the
arity. -/
@[ext] structure FunctionKey where
  /-- Name of the function or operator method. -/
  name : String
  /-- The function. -/
  function : Handle
  deriving DecidableEq

/-- The key of an entry. -/
def FunctionEntry.key (entry : FunctionEntry) : FunctionKey := ⟨entry.name, entry.function⟩

/-- Keys are ordered by function, then by name. -/
instance : Ord FunctionKey :=
  ⟨compareLex (compareOn fun key => key.function.index) (compareOn FunctionKey.name)⟩

/-- The order of keys is transitive. -/
instance : Std.TransOrd FunctionKey :=
  inferInstanceAs (Std.TransCmp
    (compareLex (compareOn fun key : FunctionKey => key.function.index)
      (compareOn FunctionKey.name)))

/-- Keys that compare equal are equal. -/
instance : Std.LawfulEqOrd FunctionKey where
  eq_of_compare {a b} h := by
    have both := compareLex_eq_eq.1 h
    refine FunctionKey.ext (Std.LawfulEqOrd.eq_of_compare both.2) ?_
    have sameIndex : a.function.index = b.function.index :=
      Std.LawfulEqOrd.eq_of_compare both.1
    exact Handle.ext sameIndex

/-- Code for one expression. -/
structure Code where
  /-- Version of the instruction set. -/
  version : UInt8
  /-- The encoded instructions. -/
  bytes : Array UInt8
  /-- Kind of every local. -/
  locals : Array TypeCode
  /-- Strings that instructions refer to. -/
  strings : Array String
  /-- Types that instructions refer to. -/
  types : Array Ty
  /-- Host functions that instructions refer to. -/
  functions : Array FunctionEntry
  /-- The branches, in the order of the instructions. -/
  branches : List BranchRecord
  deriving DecidableEq

/-- An instruction as found in code. -/
structure Decoded where
  /-- The opcode. -/
  op : Opcode
  /-- The bytes of its operand. -/
  immediate : List UInt8
  /-- Offset of the next instruction. -/
  next : Nat
  deriving DecidableEq

namespace Code

/-- The instruction at an offset; none if its opcode is unknown or its operand is cut off. -/
def decodeAt? (code : Code) (offset : Nat) : Option Decoded :=
  match code.bytes[offset]?.bind Opcode.ofByte? with
  | none => none
  | some op =>
      let next := offset + op.encodedLength
      if next ≤ code.bytes.size then
        some ⟨op, (code.bytes.extract (offset + 1) next).toList, next⟩
      else none

/-- Decoding advances and stays within the code. -/
theorem lt_next_of_decodeAt? {code : Code} {offset : Nat} {decoded : Decoded}
    (h : code.decodeAt? offset = some decoded) :
    offset < decoded.next ∧ decoded.next ≤ code.bytes.size := by
  unfold decodeAt? at h
  split at h
  · exact absurd h (by simp)
  · next op found =>
    by_cases inside : offset + op.encodedLength ≤ code.bytes.size
    · rw [if_pos inside, Option.some.injEq] at h
      rw [← h]
      exact ⟨by simp only [Opcode.encodedLength]; omega, inside⟩
    · rw [if_neg inside] at h
      exact absurd h (by simp)

/-- Offsets of the instructions from an offset on, as far as they decode. -/
def offsetsFrom (code : Code) (offset : Nat) : List Nat :=
  match h : code.decodeAt? offset with
  | none => []
  | some decoded =>
      have := lt_next_of_decodeAt? h
      offset :: offsetsFrom code decoded.next
termination_by code.bytes.size - offset

/-- Offsets of all instructions, as far as they decode. -/
def instructionOffsets (code : Code) : List Nat := code.offsetsFrom 0

end Code

end ExprCode
