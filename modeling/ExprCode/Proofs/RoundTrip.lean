import ExprCode.Proofs.Decoding
import ExprCode.Proofs.Execution
import ExprCode.Proofs.ReachableEmitters

/-! # Encoded code is read back

Main statement: `Emitter.finalize_readsBack`. The finished code of an emitter whose labels are all
marked lists its instructions at the offsets of the layout and ends at the last one; every
instruction is decoded there with its opcode, and its immediate stands for the operand that was
emitted or leads to the place that its label marks. -/

namespace ExprCode

/-! ## Immediate operands -/

/-- The operand that an immediate stands for. A displacement stands for none, since where it leads
depends on the place of the branch. -/
def OperandKind.operand? (kind : OperandKind) (immediate : List UInt8) : Option Operand :=
  match kind with
  | .none => some .none
  | .i8 => some (.i8 (.ofInt (Bytes.toInt immediate)))
  | .u8 => some (.u8 (.ofNat (Bytes.ofBytes immediate)))
  | .u16 => some (.u16 (.ofNat (Bytes.ofBytes immediate)))
  | .i32 => some (.i32 (.ofInt (Bytes.toInt immediate)))
  | .i64 => some (.i64 (.ofInt (Bytes.toInt immediate)))
  | .f32 => some (.f32 ⟨.ofNat (Bytes.ofBytes immediate)⟩)
  | .f64 => some (.f64 ⟨.ofNat (Bytes.ofBytes immediate)⟩)
  | .typeCode => (TypeCode.ofByte? (.ofNat (Bytes.ofBytes immediate))).map .typeCode
  | .token => some (.token (.ofNat (Bytes.ofBytes immediate)))
  | .target8 | .target32 => Option.none

namespace Bytes

/-- A signed number is read back from enough bytes. -/
theorem toInt_ofInt_of_bounds {count : Nat} {n : Int} (low : -(256 ^ count : Nat) ≤ 2 * n)
    (high : 2 * n < (256 ^ count : Nat)) : toInt (ofInt count n) = n := by
  rw [toInt_ofInt]
  exact Int.bmod_eq_of_le_mul_two (by omega) (by omega)

/-- An unsigned number is read back from enough bytes. -/
theorem ofBytes_toBytes_of_lt {count n : Nat} (small : n < 256 ^ count) :
    ofBytes (toBytes count n) = n := by
  rw [ofBytes_toBytes, range_eq, Nat.mod_eq_of_lt small]

/-- One byte is read as it is. -/
@[simp] theorem ofBytes_singleton (byte : UInt8) : ofBytes [byte] = byte.toNat := rfl

end Bytes

/-- An operand that is no label fits one kind only. -/
theorem Operand.kind_eq {op : Opcode} {operand : Operand} {kind other : OperandKind}
    (noLabel : Instruction.target? ⟨op, operand⟩ = Option.none) (fits : operand.fits kind)
    (fitsOther : operand.fits other) : kind = other := by
  cases operand with
  | label => cases noLabel
  | _ =>
    cases kind <;> cases fits
    all_goals cases other <;> first | rfl | cases fitsOther

/-- The bytes of an operand stand for it, bit for bit. -/
theorem Operand.operand?_encode {op : Opcode} {operand : Operand}
    (fits : operand.fits op.operandKind)
    (noLabel : Instruction.target? ⟨op, operand⟩ = Option.none) :
    op.operandKind.operand? operand.encode = some operand := by
  have only : ∀ kind, operand.fits kind → op.operandKind = kind :=
    fun _ => Operand.kind_eq noLabel fits
  generalize op.operandKind = kind at only
  -- the operand alone tells the kind, and so how its bytes are read
  cases operand with
  | none =>
    obtain rfl := only .none rfl
    rfl
  | i8 n =>
    obtain rfl := only .i8 rfl
    have low := n.le_toInt
    have high := n.toInt_lt
    simp only [OperandKind.operand?, encode]
    rw [Bytes.toInt_ofInt_of_bounds (by omega) (by omega), Int8.ofInt_toInt]
  | u8 n =>
    obtain rfl := only .u8 rfl
    simp only [OperandKind.operand?, encode, Bytes.ofBytes_singleton, UInt8.ofNat_toNat]
  | u16 n =>
    obtain rfl := only .u16 rfl
    simp only [OperandKind.operand?, encode, Bytes.ofBytes_encode_u16, UInt16.ofNat_toNat]
  | i32 n =>
    obtain rfl := only .i32 rfl
    have low := n.le_toInt
    have high := n.toInt_lt
    simp only [OperandKind.operand?, encode]
    rw [Bytes.toInt_ofInt_of_bounds (by omega) (by omega), Int32.ofInt_toInt]
  | i64 n =>
    obtain rfl := only .i64 rfl
    have low := n.le_toInt
    have high := n.toInt_lt
    simp only [OperandKind.operand?, encode]
    rw [Bytes.toInt_ofInt_of_bounds (by omega) (by omega), Int64.ofInt_toInt]
  | f32 x =>
    obtain rfl := only .f32 rfl
    have small : x.bits.toNat < 256 ^ 4 := x.bits.toNat_lt
    simp only [OperandKind.operand?, encode, Bytes.ofBytes_toBytes_of_lt small, UInt32.ofNat_toNat]
  | f64 x =>
    obtain rfl := only .f64 rfl
    have small : x.bits.toNat < 256 ^ 8 := x.bits.toNat_lt
    simp only [OperandKind.operand?, encode, Bytes.ofBytes_toBytes_of_lt small, UInt64.ofNat_toNat]
  | typeCode code =>
    obtain rfl := only .typeCode rfl
    simp only [OperandKind.operand?, encode, Bytes.ofBytes_singleton, UInt8.ofNat_toNat,
      TypeCode.ofByte?_toByte, Option.map_some]
  | token n =>
    obtain rfl := only .token rfl
    simp only [OperandKind.operand?, encode, Bytes.ofBytes_encode_u16, UInt16.ofNat_toNat]
  | label target => cases noLabel

/-! ## Code and layout -/

/-- Code holds the instructions of an emitter where a layout has them. -/
structure Code.ReadsBack (code : Code) (emitter : Emitter) (layout : BranchLayout) : Prop where
  /-- The instructions start at the offsets of the layout, the last one apart. -/
  starts : code.instructionOffsets = layout.offsets.toList.dropLast
  /-- The code ends at the last offset. -/
  stop : layout.offsets.back? = some code.bytes.size
  /-- An instruction without a label has its opcode, and its immediate stands for its operand. -/
  plain : ∀ (index : Nat) (op : Opcode) (operand : Operand),
    emitter.instructions[index]? = some ⟨op, operand⟩ →
    Instruction.target? ⟨op, operand⟩ = none →
      ∃ offset immediate next, layout.offsets[index]? = some offset ∧
        code.decodeAt? offset = some ⟨op, immediate, next⟩ ∧
        layout.offsets[index + 1]? = some next ∧ op.operandKind.operand? immediate = some operand
  /-- A branch has the form that is recorded for it, and leads a machine from its end to the offset
  of the instruction that its label marks, or to the end of the code. -/
  branch : ∀ (index : Nat) (op : Opcode) (label : Label),
    emitter.instructions[index]? = some ⟨op, .label label⟩ →
      ∃ form offset immediate next condition displacement position target,
        layout.formOf? index = some form ∧ layout.offsets[index]? = some offset ∧
        code.decodeAt? offset = some ⟨op.withForm form, immediate, next⟩ ∧
        layout.offsets[index + 1]? = some next ∧
        Action.read (op.withForm form) immediate = .branch condition displacement ∧
        emitter.labelPosition? label = some position ∧ layout.offsets[position]? = some target ∧
        (code.bytes.size < 2 ^ 31 → ∀ machine : Machine,
          Machine.jump displacement { machine with pc := next } =
            .ok () { machine with pc := target })

namespace Emitter

section Encoding

variable {instructions : Array Instruction} {positions : Array Nat}
  {forms : Layout.Forms instructions} {code : Code}
  (fitting : ∀ instruction ∈ instructions, instruction.operand.fits instruction.op.operandKind)
  (bytes : code.bytes.toList = encoding positions forms)

include fitting bytes

/-- Decoding goes from every instruction to the next. -/
theorem next_of_decodeAt? {index : Nat} (inside : index < instructions.size) :
    ∃ decoded, code.decodeAt? ((Layout.offsets instructions forms).getD index 0) = some decoded ∧
      decoded.next = (Layout.offsets instructions forms).getD (index + 1) 0 := by
  have fits := fitting _ (Array.getElem_mem inside)
  cases target : instructions[index].target? with
  | none => exact ⟨_, decodeAt?_plain fitting bytes inside target, rfl⟩
  | some label =>
    obtain ⟨isLabel, condition, form, isBranch⟩ := Instruction.branch_of_target? fits target
    have found : instructions[index] = ⟨.branch condition form, .label label⟩ := by
      rw [← isLabel, ← isBranch]
    exact ⟨_, decodeAt?_branch fitting bytes inside found, rfl⟩

/-- A walk through the code from an instruction on meets it and all that follow. -/
theorem offsetsFrom_eq (count index : Nat) (left : index + count = instructions.size) :
    code.offsetsFrom ((Layout.offsets instructions forms).getD index 0) =
      (List.range' index count).map fun index =>
        (Layout.offsets instructions forms).getD index 0 := by
  induction count generalizing index with
  | zero =>
    -- all instructions are behind us, and nothing is decoded at the end
    have atEnd : (Layout.offsets instructions forms).getD index 0 = code.bytes.size := by
      rw [size_bytes fitting bytes, ← Layout.getD_offsets_size, ← left, Nat.add_zero]
    have nothing : code.decodeAt? code.bytes.size = none := by simp [Code.decodeAt?]
    rw [atEnd, Code.offsetsFrom]
    split
    · rfl
    · next found =>
      rw [nothing] at found
      cases found
  | succ count ih =>
    obtain ⟨decoded, here, next⟩ := next_of_decodeAt? fitting bytes (by omega : index < _)
    rw [Code.offsetsFrom, List.range'_succ, List.map_cons,
      ← ih (index + 1) (by omega), ← next]
    split
    · next found =>
      rw [here] at found
      cases found
    · next found =>
      rw [here] at found
      cases found
      rfl

/-- The walk through the whole code meets the offsets of all instructions. -/
theorem instructionOffsets_eq :
    code.instructionOffsets = (Layout.offsets instructions forms).toList.dropLast := by
  have start : (Layout.offsets instructions forms).getD 0 0 = 0 :=
    Layout.getD_offsets (Nat.zero_le _)
  have walk := offsetsFrom_eq fitting bytes instructions.size 0 (Nat.zero_add _)
  rw [start] at walk
  rw [Code.instructionOffsets, walk]
  refine List.ext_getElem (by simp) fun index inMap inOffsets => ?_
  have inside : index < instructions.size := by simpa using inMap
  have known : index < (Layout.offsets instructions forms).size := by
    rw [Layout.size_offsets]
    omega
  simp [Array.getD_eq_getD_getElem?, Array.getElem?_eq_getElem known]

end Encoding

variable {emitter : Emitter}

/-- If all labels are marked, their positions are known. -/
theorem labelPositions_of_marked
    (marked : ∀ label < emitter.labels.size, (emitter.labelPosition? label).isSome) :
    ∃ positions, emitter.labelPositions = .ok positions := by
  have noneFree : emitter.labels.findIdx? Option.isNone = none := by
    rw [Array.findIdx?_eq_none_iff]
    intro mark listed
    obtain ⟨label, inside, rfl⟩ := Array.mem_iff_getElem.1 listed
    obtain ⟨position, found⟩ := Option.isSome_iff_exists.1 (marked label inside)
    rw [labelPosition?_eq_some, Array.getElem?_eq_getElem inside, Option.some.injEq] at found
    rw [found]
    rfl
  exact ⟨_, by rw [labelPositions, noneFree]⟩

/-- Labels that instructions name mark instructions or the end of the code. -/
def TargetsInside (emitter : Emitter) : Prop :=
  ∀ instruction ∈ emitter.instructions, ∀ label position, instruction.target? = some label →
    emitter.labelPosition? label = some position → position ≤ emitter.instructions.size

/-- If all marks are inside the code, so are those that are named. -/
theorem Inside.targetsInside (inside : emitter.Inside) : emitter.TargetsInside :=
  fun _ _ label position _ marked => inside label position (labelPosition?_eq_some.1 marked)

section Finishing

variable {positions : Array Nat} (wellFormed : emitter.WellFormed)
  (labelled : emitter.labelPositions = .ok positions)

include wellFormed labelled

/-- Labels that instructions name have positions. -/
theorem exists_position {instruction : Instruction} {label : Label}
    (listed : instruction ∈ emitter.instructions) (names : instruction.target? = some label) :
    ∃ position, emitter.labelPosition? label = some position := by
  have defined := wellFormed.named instruction listed label names
  have size : positions.size = emitter.labels.size := by
    unfold labelPositions at labelled
    split at labelled
    · cases labelled
    · cases labelled
      exact Array.size_map
  rw [← getElem?_labelPositions labelled]
  exact ⟨_, Array.getElem?_eq_getElem (size ▸ defined)⟩

/-- The code is finished if all targets are inside of it. -/
theorem exists_finished (inside : emitter.TargetsInside) :
    ∃ layout code, emitter.finalize = .ok code ∧ emitter.Finished positions layout code := by
  have within : Layout.Within emitter.instructions positions := by
    intro instruction listed label names
    obtain ⟨position, marks⟩ := exists_position wellFormed labelled listed names
    exact ⟨position, inside instruction listed label position names marks,
      (getElem?_labelPositions labelled).trans marks⟩
  obtain ⟨code, h⟩ := exists_finalize wellFormed.fitting labelled within
  obtain ⟨found, layout, finished⟩ := finished_of_finalize h
  obtain rfl := Except.ok.inj (labelled.symm.trans finished.labelled)
  exact ⟨layout, code, h, finished⟩

/-- The look-up of a target behind the end of the code fails. -/
theorem finalize_of_outside (outside : ¬ emitter.TargetsInside) :
    ∃ instruction ∈ emitter.instructions, ∃ label position, instruction.target? = some label ∧
      emitter.labelPosition? label = some position ∧ emitter.instructions.size < position ∧
      emitter.finalize = .error (.outOfRange ⟨position, emitter.instructions.size + 1⟩) := by
  cases resolved : Layout.resolve emitter.instructions positions [] with
  | ok layout =>
    -- then all positions were found
    refine absurd (fun instruction listed label position names marks => ?_) outside
    obtain ⟨found, small, known⟩ := Layout.within_of_resolve resolved instruction listed label names
    rw [getElem?_labelPositions labelled, marks, Option.some.injEq] at known
    exact known ▸ small
  | error fault =>
    obtain ⟨forms, index, known, label, names, missing⟩ :=
      Layout.exists_of_settle_eq_error resolved
    have listed := Array.getElem_mem known
    obtain ⟨position, marks⟩ := exists_position wellFormed labelled listed names
    obtain ⟨behind, rfl⟩ := Layout.targetOffset_eq_error
      ((getElem?_labelPositions labelled).trans marks) missing
    rw [Layout.size_offsets] at behind resolved
    exact ⟨_, listed, label, position, names, marks, behind, finalize_of_resolve labelled resolved⟩

end Finishing

/-- If no splice broke off and all labels are marked, the code is finished. -/
theorem Reachable.exists_finalize (reachable : Reachable true emitter)
    (marked : ∀ label < emitter.labels.size, (emitter.labelPosition? label).isSome) :
    ∃ code, emitter.finalize = .ok code := by
  obtain ⟨positions, labelled⟩ := labelPositions_of_marked marked
  obtain ⟨_, code, h, -⟩ :=
    exists_finished reachable.wellFormed labelled (reachable.inside rfl).targetsInside
  exact ⟨code, h⟩

/-- Finished code is read back. -/
theorem Finished.readsBack {positions : Array Nat} {layout : BranchLayout} {code : Code}
    (finished : emitter.Finished positions layout code) (wellFormed : emitter.WellFormed) :
    code.ReadsBack emitter layout := by
  have fitting := wellFormed.fitting
  obtain ⟨forms, passes, rfl, stable, bytes⟩ := finished.encoding fitting
  refine ⟨instructionOffsets_eq fitting bytes, ?_, ?_, ?_⟩
  · rw [Layout.back?_offsets, Layout.getD_offsets_size, size_bytes fitting bytes]
  · intro index op operand found noLabel
    obtain ⟨known, here⟩ := Array.getElem?_eq_some_iff.1 found
    have fits := fitting _ (Array.getElem_mem known)
    have decoded := decodeAt?_plain fitting bytes known (by rw [here]; exact noLabel)
    rw [here] at decoded fits
    exact ⟨_, _, _, Layout.getElem?_offsets known.le, decoded, Layout.getElem?_offsets known,
      Operand.operand?_encode fits noLabel⟩
  · intro index op label found
    obtain ⟨known, here⟩ := Array.getElem?_eq_some_iff.1 found
    have listed : ⟨op, .label label⟩ ∈ emitter.instructions := Array.mem_of_getElem? found
    obtain ⟨-, condition, form, rfl⟩ :=
      Instruction.branch_of_target? (fitting _ listed) (rfl : Instruction.target? _ = some label)
    -- the target is an instruction or the end of the code, and the layout has an offset for it
    obtain ⟨position, place, target⟩ :=
      Layout.within_of_resolve finished.resolved _ listed label rfl
    have marks := (getElem?_labelPositions finished.labelled).symm.trans target
    refine ⟨forms[index], _, _, _, condition, _, position, _, ?_, Layout.getElem?_offsets known.le,
      decodeAt?_branch fitting bytes known here, Layout.getElem?_offsets known, rfl, marks,
      Layout.getElem?_offsets place, fun small machine => ?_⟩
    · exact Layout.formOf?_records known (by rw [here]; rfl)
    · rw [size_bytes fitting bytes] at small
      refine Machine.jump_eq ?_
      rw [toInt_displacement stable small known here, Layout.displacement,
        getD_labelPositions finished.labelled (labelPosition?_eq_some.1 marks)]
      dsimp only
      omega

/-- **Encoded code is read back.** For every emitter that operations lead to and whose labels are
all marked: if the labels that instructions name are marked inside the code, the layout and the code
exist, the code holds all instructions where the layout has them, and immediates stand for the
operands that were emitted. Branches lead to what their labels mark in code of less than 2³¹ bytes.
Otherwise a splice has broken off on the way, and finishing the code stops at the position of a
label behind the end. -/
theorem finalize_readsBack {intact : Bool} (reachable : Reachable intact emitter)
    (marked : ∀ label < emitter.labels.size, (emitter.labelPosition? label).isSome) :
    (emitter.TargetsInside →
      ∃ layout code, emitter.resolveBranches [] = .ok layout ∧ emitter.finalize = .ok code ∧
        code.ReadsBack emitter layout) ∧
    (¬ emitter.TargetsInside → intact = false ∧
      ∃ instruction ∈ emitter.instructions, ∃ label position, instruction.target? = some label ∧
        emitter.labelPosition? label = some position ∧ emitter.instructions.size < position ∧
        emitter.finalize = .error (.outOfRange ⟨position, emitter.instructions.size + 1⟩)) := by
  obtain ⟨positions, labelled⟩ := labelPositions_of_marked marked
  refine ⟨fun inside => ?_, fun outside => ⟨?_, ?_⟩⟩
  · obtain ⟨layout, code, h, finished⟩ := exists_finished reachable.wellFormed labelled inside
    exact ⟨layout, code, finished.resolveBranches, h, finished.readsBack reachable.wellFormed⟩
  · cases intact with
    | true => exact absurd (reachable.inside rfl).targetsInside outside
    | false => rfl
  · exact finalize_of_outside reachable.wellFormed labelled outside

/-- An emitter with one label, which nothing marks yet. -/
def oneLabel : Emitter := afterwards (Command.perform .defineLabel) (withMaxLocals 4)

/-- A branch to the label over a number, emitted into a fork. -/
def skipping : Emitter :=
  afterwards (Command.perform (.markLabel 0)) <|
    afterwards (Command.perform (.loadInt64 (-5))) <|
      afterwards (Command.perform (.branch (.branch .always .long) 0)) oneLabel.fork

/-- A branch over a number is read back behind a fork and a splice. -/
theorem readsBack_skipping :
    Reachable true (afterwards (splice skipping) oneLabel) ∧
      (afterwards (splice skipping) oneLabel).labels = #[some 2] ∧
      ∃ layout code, (afterwards (splice skipping) oneLabel).resolveBranches [] = .ok layout ∧
        (afterwards (splice skipping) oneLabel).finalize = .ok code ∧
        code.ReadsBack (afterwards (splice skipping) oneLabel) layout := by
  have parent : Reachable true oneLabel := .perform (.new 4) .defineLabel
  have child : Reachable true skipping :=
    .perform (.perform (.perform parent.fork _) _) _
  have reachable : Reachable true (afterwards (splice skipping) oneLabel) :=
    .splice parent child rfl
  have labels : (afterwards (splice skipping) oneLabel).labels = #[some 2] := rfl
  refine ⟨reachable, labels,
    (finalize_readsBack reachable ?_).1 (reachable.inside rfl).targetsInside⟩
  intro label known
  rw [labels] at known
  obtain rfl : label = 0 := Nat.lt_one_iff.1 known
  rw [labelPosition?, labels]
  rfl

/-- A branch to the first of two labels, of which the second is marked behind it. -/
def aheadMarked : Emitter :=
  afterwards (Command.perform (.markLabel 1)) <|
    afterwards (Command.perform (.branch (.branch .always .long) 0)) <|
      afterwards (Command.perform .defineLabel) oneLabel

/-- A fork that marks both labels, behind two instructions of its own. -/
def markingAhead : Emitter :=
  afterwards (Command.perform (.markLabel 1)) <|
    afterwards (Command.perform (.markLabel 0)) <|
      afterwards (Command.perform (.emit ⟨.nop, .none⟩)) <|
        afterwards (Command.perform (.emit ⟨.nop, .none⟩)) aheadMarked.fork

/-- **Encoded code is not always read back.** A splice that breaks off leaves the only branch with a
target behind the end of the code. All labels are marked, and there is no code. -/
theorem finalize_brokenOff :
    ∃ after, splice markingAhead aheadMarked = .error (.labelAlreadyMarked 1) after ∧
      Reachable false after ∧ after.labels = #[some 3, some 1] ∧ after.instructions.size = 1 ∧
      after.finalize = .error (.outOfRange ⟨3, 2⟩) := by
  have parent : Reachable true aheadMarked :=
    .perform (.perform (.perform (.perform (.new 4) _) _) _) _
  have child : Reachable true markingAhead :=
    .perform (.perform (.perform (.perform parent.fork _) _) _) _
  have failed : splice markingAhead aheadMarked = .error (.labelAlreadyMarked 1) _ := rfl
  exact ⟨_, failed, .brokenOff parent child failed, rfl, rfl, by cbv⟩

end Emitter

end ExprCode
