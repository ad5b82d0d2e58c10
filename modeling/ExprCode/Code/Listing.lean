import ExprCode.Code
import ExprCode.Text.Lines
import ExprCode.Text.Quoted

/-! # Listings

Code as text, one line for every instruction and one for the first place that does not decode. -/

namespace ExprCode

namespace Code

/-- Text of a table entry, or of its number if there is none. -/
def entryText {α : Type} (table : Array α) (text : α → String) (token : Nat) : String :=
  match table[token]? with
  | some entry => text entry
  | none => "#" ++ toString token

/-- Text of what a token refers to, which depends on the instruction. -/
def tokenText (code : Code) (op : Opcode) (token : Nat) : String :=
  match op with
  | .ldstr => entryText code.strings Text.quoted token
  | .call =>
      entryText code.functions (fun entry => entry.name ++ "/" ++ toString entry.arity) token
  | _ => entryText code.types Ty.text token

/-- Text of the place that a displacement leads to. -/
def targetText (next : Nat) (immediate : List UInt8) : String :=
  " -> " ++ Text.hexSigned 4 (next + Bytes.toInt immediate)

/-- Text of an operand, with the blank that separates it from the mnemonic. -/
def immediateText (code : Code) (decoded : Decoded) : String :=
  let bytes := decoded.immediate
  match decoded.op.operandKind with
  | .none => ""
  | .i8 | .i32 | .i64 => " " ++ toString (Bytes.toInt bytes)
  | .u8 | .u16 => " " ++ toString (Bytes.ofBytes bytes)
  | .f32 => " " ++ Single.render .plain ⟨.ofNat (Bytes.ofBytes bytes)⟩
  | .f64 => " " ++ Double.render .plain ⟨.ofNat (Bytes.ofBytes bytes)⟩
  | .typeCode =>
      let byte := UInt8.ofNat (Bytes.ofBytes bytes)
      match TypeCode.ofByte? byte with
      | some code => " " ++ code.text
      | none => " <type " ++ Text.hexByte byte ++ ">"
  | .token => " " ++ code.tokenText decoded.op (Bytes.ofBytes bytes)
  | .target8 | .target32 => targetText decoded.next bytes

/-- Line of an instruction. -/
def instructionLine (code : Code) (offset : Nat) (decoded : Decoded) : String :=
  Text.hexPadded 4 offset ++ ": " ++ decoded.op.mnemonic ++ code.immediateText decoded

/-- Line of a byte that does not start an instruction. -/
def invalidLine (offset : Nat) (byte : UInt8) : String :=
  Text.hexPadded 4 offset ++ ": <invalid " ++ Text.hexByte byte ++ ">"

/-- Lines of the code from an offset on. -/
def linesFrom (code : Code) (offset : Nat) : List String :=
  match h : code.decodeAt? offset with
  | some decoded =>
      have := lt_next_of_decodeAt? h
      code.instructionLine offset decoded :: linesFrom code decoded.next
  | none =>
      match code.bytes[offset]? with
      | some byte => [invalidLine offset byte]
      | none => []
termination_by code.bytes.size - offset

/-- The listing of the code. -/
def listing (code : Code) : List String := code.linesFrom 0

/-- The listing as one text, in which every entry is ended by a line feed. -/
def listingText (code : Code) : String := String.join (code.listing.map (· ++ "\n"))

/-- The lines of the text of the listing, found entry by entry. -/
def listingLines (code : Code) : List String :=
  code.listing.flatMap fun entry => (Text.lines (entry.toList ++ ['\n'])).map String.ofList

end Code

end ExprCode
