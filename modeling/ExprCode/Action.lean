import ExprCode.Code

/-! # Actions

What an instruction does, once its encoding is forgotten: the three encodings of local access are
one action, as are all constants, and both forms of a branch. -/

namespace ExprCode

/-- The effect of one instruction. Slots, arguments and tokens are indices; displacements count from
the end of the instruction. -/
inductive Action where
  | halt
  | nop
  | ret
  | dup
  | pop
  | push (value : Value)
  | pushString (token : Nat)
  | loadLocal (slot : Nat)
  | storeLocal (slot : Nat)
  | loadLocalAddress (slot : Nat)
  | loadArgument (index : Nat)
  | dereference
  | binary (function : BinaryFunction)
  | negate
  | complement
  | shift (direction : ShiftDirection)
  | compare (relation : Relation)
  | convert (typeByte : UInt8)
  | branch (condition : BranchCondition) (displacement : Int)
  | newArray (token : Nat)
  | length
  | loadElement
  | elementAddress (token : Nat)
  | storeElement
  | call (token : Nat)

namespace Action

/-- The action of an opcode with the bytes of its operand. -/
def read (op : Opcode) (immediate : List UInt8) : Action :=
  match op with
  | .halt => halt
  | .nop => nop
  | .ret => ret
  | .dup => dup
  | .pop => pop
  | .ldtrue => push (.bool true)
  | .ldfalse => push (.bool false)
  | .ldnull => push .null
  | .ldcI4S | .ldcI4 => push (.i32 (Bytes.toInt immediate))
  | .ldcI8 => push (.i64 (Bytes.toInt immediate))
  | .ldcR4 => push (.single ⟨.ofNat (Bytes.ofBytes immediate)⟩)
  | .ldcR8 => push (.double ⟨.ofNat (Bytes.ofBytes immediate)⟩)
  | .ldstr => pushString (Bytes.ofBytes immediate)
  | .ldlocAt slot => loadLocal slot
  | .stlocAt slot => storeLocal slot
  | .ldlocS | .ldloc => loadLocal (Bytes.ofBytes immediate)
  | .stlocS | .stloc => storeLocal (Bytes.ofBytes immediate)
  | .ldlocaS | .ldloca => loadLocalAddress (Bytes.ofBytes immediate)
  | .ldarg => loadArgument (Bytes.ofBytes immediate)
  | .ldobj => dereference
  | .binary function => binary function
  | .neg => negate
  | .not => complement
  | .shift direction => shift direction
  | .compare relation => compare relation
  | .conv => convert (.ofNat (Bytes.ofBytes immediate))
  | .branch condition _ => branch condition (Bytes.toInt immediate)
  | .newarr => newArray (Bytes.ofBytes immediate)
  | .ldlen => length
  | .ldelem _ => loadElement
  | .ldelema => elementAddress (Bytes.ofBytes immediate)
  | .stelemAt _ | .stelem => storeElement
  | .call => call (Bytes.ofBytes immediate)

end Action

end ExprCode
