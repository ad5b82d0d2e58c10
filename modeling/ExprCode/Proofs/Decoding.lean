import ExprCode.Proofs.EmitterSteps
import ExprCode.Proofs.LayoutPasses

/-! # Encoded instructions are decoded

Main statement: `Emitter.placed_of_finalize`. Finished code holds all that the emitter held: at the
offset that the layout gives an instruction, that instruction is decoded, and the displacement of a
branch leads to the offset of the instruction that its label marks. -/

namespace ExprCode

namespace Layout

variable {instructions : Array Instruction} {positions : Array Nat}

/-- How far a branch leads from its end. -/
def displacement (positions offsets : Array Nat) (index : Nat) (label : Label) : Int :=
  offsets.getD (positions.getD label 0) 0 - offsets.getD (index + 1) 0

/-- A target that is found is the offset at the position of the label. -/
theorem getD_of_targetOffset {places : Array Nat} {label : Label} {target : Nat}
    (found : targetOffset positions places label = .ok target) :
    places.getD (positions.getD label 0) 0 = target := by
  obtain ⟨position, known, offset⟩ := targetOffset_eq_ok.1 found
  simp [Array.getD_eq_getD_getElem?, known, offset]

/-- A branch that stays short has a target and reaches it. -/
theorem reach_of_short {forms : Forms instructions} {index : Nat} {label : Label}
    (stable : widen instructions positions forms = .ok forms) (inside : index < instructions.size)
    (names : instructions[index].target? = some label) (short : forms[index] = .short) :
    ∃ target, targetOffset positions (offsets instructions forms) label = .ok target ∧
      (offsets instructions forms).getD index 0 ≤ target + 126 ∧
      target ≤ (offsets instructions forms).getD index 0 + 127 := by
  obtain ⟨target, found⟩ := (widen_eq_ok.1 stable).1 index inside label names short
  refine ⟨target, found, ?_⟩
  by_cases far : isLongBranch ((offsets instructions forms).getD index 0) target
  · -- another pass would have made the branch long
    have long := (long_widen stable inside).2
      (.inr ⟨label, target, by simpa [inside] using names, found, far⟩)
    rw [short] at long
    cases long
  · simp only [isLongBranch, Bool.or_eq_true, decide_eq_true_eq] at far
    omega

end Layout

/-! ## Bytes -/

/-- Bytes of an opcode and an operand of the right size are decoded. -/
theorem Code.decodeAt?_of_bytes {code : Code} {before immediate rest : List UInt8} {op : Opcode}
    (bytes : code.bytes.toList = before ++ (op.toByte :: immediate ++ rest))
    (size : immediate.length = op.operandKind.size) :
    code.decodeAt? before.length =
      some ⟨op, immediate, before.length + op.encodedLength⟩ := by
  have total : code.bytes.size = before.length + (1 + immediate.length + rest.length) := by
    rw [← Array.length_toList, bytes]
    simp only [List.length_append, List.length_cons]
    omega
  have first : code.bytes[before.length]? = some op.toByte := by
    rw [← Array.getElem?_toList, bytes, List.getElem?_append_right (Nat.le_refl _)]
    simp
  have inside : before.length + op.encodedLength ≤ code.bytes.size := by
    rw [total, Opcode.encodedLength]
    omega
  have operand : (code.bytes.extract (before.length + 1)
      (before.length + op.encodedLength)).toList = immediate := by
    rw [Array.toList_extract, bytes, List.extract_eq_take_drop, Opcode.encodedLength, ← size]
    have behind : before.length + 1 = (before ++ [op.toByte]).length := by simp
    have split : before ++ (op.toByte :: immediate ++ rest) =
        (before ++ [op.toByte]) ++ (immediate ++ rest) := by simp
    rw [split, behind, List.drop_left]
    have count : before.length + (1 + immediate.length) - (before ++ [op.toByte]).length =
        immediate.length := by
      simp only [List.length_append, List.length_singleton]
      omega
    rw [count, List.take_left]
  simp only [decodeAt?, first, Option.bind_some, Opcode.ofByte?_toByte, if_pos inside, operand]

/-- An operand that fits has as many bytes as its kind asks for. -/
theorem Operand.length_encode {operand : Operand} {op : Opcode}
    (fits : operand.fits op.operandKind)
    (noLabel : Instruction.target? ⟨op, operand⟩ = Option.none) :
    operand.encode.length = op.operandKind.size := by
  generalize op.operandKind = kind at fits
  cases operand with
  | label => cases noLabel
  | _ => cases kind <;> simp_all [Operand.fits, encode, OperandKind.size, Bytes.ofInt]

/-- Only branches have a form to choose. -/
theorem Opcode.withForm_of_plain {operand : Operand} {op : Opcode} (form : BranchForm)
    (fits : operand.fits op.operandKind) (noLabel : Instruction.target? ⟨op, operand⟩ = none) :
    op.withForm form = op := by
  cases op with
  | branch condition form =>
    cases operand with
    | label => cases noLabel
    | _ => cases form <;> cases fits
  | _ => rfl

/-- An instruction that names a label is a branch. -/
theorem Instruction.branch_of_target? {op : Opcode} {operand : Operand} {label : Label}
    (fits : operand.fits op.operandKind)
    (names : Instruction.target? ⟨op, operand⟩ = some label) :
    operand = .label label ∧ ∃ condition form, op = .branch condition form := by
  cases operand with
  | label target =>
    cases names
    refine ⟨rfl, ?_⟩
    cases op with
    | branch condition form => exact ⟨condition, form, rfl⟩
    | _ => cases fits
  | _ => cases names

namespace Emitter

/-- The bytes of the instruction at an index, in a form. -/
def encodedAt (positions offsets : Array Nat) (form : BranchForm) (index : Nat)
    (instruction : Instruction) : List UInt8 :=
  match instruction.operand with
  | .label label =>
      (instruction.op.withForm form).toByte ::
        Bytes.ofInt (displacementSize form) (Layout.displacement positions offsets index label)
  | operand => instruction.op.toByte :: operand.encode

/-- The bytes of an instruction without a label. -/
theorem encodedAt_plain {positions offsets : Array Nat} {form : BranchForm} {index : Nat}
    {op : Opcode} {operand : Operand} (noLabel : Instruction.target? ⟨op, operand⟩ = none) :
    encodedAt positions offsets form index ⟨op, operand⟩ = op.toByte :: operand.encode := by
  cases operand with
  | label => cases noLabel
  | _ => rfl

section Encoding

variable {instructions : Array Instruction} {positions : Array Nat}
  {forms : Layout.Forms instructions}

/-- The layout in which branches have certain forms. -/
abbrev layoutOf (forms : Layout.Forms instructions) (passes : Nat) : BranchLayout :=
  ⟨Layout.offsets instructions forms, Layout.records instructions forms, passes⟩

/-- An instruction takes the bytes that the layout counts for it. -/
theorem length_encodedAt {offsets : Array Nat} {form : BranchForm} {index : Nat}
    {instruction : Instruction} (fits : instruction.operand.fits instruction.op.operandKind) :
    (encodedAt positions offsets form index instruction).length =
      instruction.encodedLength form := by
  obtain ⟨op, operand⟩ := instruction
  cases target : Instruction.target? ⟨op, operand⟩ with
  | some label =>
    obtain ⟨rfl, condition, given, rfl⟩ := Instruction.branch_of_target? fits target
    simp only [encodedAt, List.length_cons, Instruction.encodedLength, Opcode.withForm,
      Opcode.encodedLength]
    cases form <;> simp [Bytes.ofInt, displacementSize, Opcode.operandKind, OperandKind.size]
  | none =>
    rw [encodedAt_plain target, List.length_cons, Operand.length_encode fits target,
      Instruction.encodedLength, Opcode.withForm_of_plain _ fits target, Opcode.encodedLength,
      Nat.add_comm]

/-- The bytes of the instruction at an index under a choice of forms. -/
def bytesAt (positions : Array Nat) (forms : Layout.Forms instructions) :
    Fin instructions.size → List UInt8
  | ⟨index, inside⟩ =>
    encodedAt positions (Layout.offsets instructions forms) forms[index] index instructions[index]

/-- The bytes of the instructions. -/
abbrev encoding (positions : Array Nat) (forms : Layout.Forms instructions) : List UInt8 :=
  (List.finRange instructions.size).flatMap (bytesAt positions forms)

/-- What is encoded for one entry lies behind what is encoded for the entries before it. -/
private theorem flatMap_split {α β : Type} (encode : α → List β) {entries : List α} {index : Nat}
    (inside : index < entries.length) :
    ∃ before rest, entries.flatMap encode = before ++ (encode entries[index] ++ rest) ∧
      before.length = ((entries.map fun entry => (encode entry).length).take index).sum := by
  have split : entries.take index ++ entries[index] :: entries.drop (index + 1) = entries := by
    rw [← List.drop_eq_getElem_cons inside, List.take_append_drop]
  have encoded := congrArg (List.flatMap encode) split
  rw [List.flatMap_append, List.flatMap_cons] at encoded
  exact ⟨_, _, encoded.symm, by rw [List.length_flatMap, List.map_take]⟩

/-! ## Encoding -/

section Run

variable
  (fitting : ∀ instruction ∈ instructions, instruction.operand.fits instruction.op.operandKind)

include fitting

/-- The instructions take the bytes that the layout counts for them. -/
theorem map_length_bytesAt :
    (List.finRange instructions.size).map (fun i => (bytesAt positions forms i).length) =
      Layout.lengths instructions forms := by
  rw [Layout.lengths, List.ofFn_eq_map]
  exact List.map_congr_left fun i _ => length_encodedAt (fitting _ (Array.getElem_mem i.isLt))

/-- The code is as long as its instructions together. -/
theorem length_encoding :
    (encoding positions forms).length = (Layout.lengths instructions forms).sum := by
  rw [← map_length_bytesAt fitting, encoding, List.length_flatMap]

/-- The bytes of an instruction lie at its offset. -/
theorem encoded_split {index : Nat} (inside : index < instructions.size) :
    ∃ before rest, encoding positions forms =
        before ++ (encodedAt positions (Layout.offsets instructions forms) forms[index] index
          instructions[index] ++ rest) ∧
      before.length = (Layout.offsets instructions forms).getD index 0 := by
  have inRange : index < (List.finRange instructions.size).length := by simpa using inside
  obtain ⟨before, rest, split, offset⟩ := flatMap_split (bytesAt positions forms) inRange
  have here : (List.finRange instructions.size)[index] = ⟨index, inside⟩ := by simp
  rw [here] at split
  rw [map_length_bytesAt fitting, ← Layout.getD_offsets (Nat.le_of_lt inside)] at offset
  exact ⟨before, rest, split, offset⟩

omit fitting in
/-- The indices from one on are this one and those behind it. -/
theorem drop_finRange {size index : Nat} (inside : index < size) :
    (List.finRange size).drop index = ⟨index, inside⟩ :: (List.finRange size).drop (index + 1) := by
  rw [List.drop_eq_getElem_cons (by simpa using inside)]
  simp

/-- The records of the branches from an index on. -/
private abbrev recordsFrom (forms : Layout.Forms instructions) (index : Nat) : List BranchRecord :=
  ((List.finRange instructions.size).drop index).filterMap (Layout.recordAt? instructions forms)

variable (within : Layout.Within instructions positions)

include within

/-- An instruction is encoded; if it is a branch, its record comes next and is consumed. -/
theorem encodeAt_eq {index : Nat} (inside : index < instructions.size) :
    encodeAt positions (Layout.offsets instructions forms) index instructions[index]
        (recordsFrom forms index) =
      .ok (bytesAt positions forms ⟨index, inside⟩, recordsFrom forms (index + 1)) := by
  have start : entryAt (Layout.offsets instructions forms) index = .ok _ :=
    Layout.entryAt_eq_ok.2 (Layout.getElem?_offsets inside.le)
  have stop : entryAt (Layout.offsets instructions forms) (index + 1) = .ok _ :=
    Layout.entryAt_eq_ok.2 (Layout.getElem?_offsets inside)
  have split := drop_finRange inside
  have fits := fitting _ (Array.getElem_mem inside)
  -- a branch takes the next record, and other instructions take none
  cases names : instructions[index].target? with
  | none =>
    have same : recordsFrom forms index = recordsFrom forms (index + 1) := by
      simp [recordsFrom, Layout.recordAt?, split, names]
    rw [same, bytesAt]
    generalize instructions[index] = instruction at names
    obtain ⟨op, operand⟩ := instruction
    rw [encodedAt_plain names, encodeAt, start, stop]
    cases operand with
    | label => cases names
    | _ => rfl
  | some label =>
    have next : recordsFrom forms index =
        ⟨index, label, forms[index]⟩ :: recordsFrom forms (index + 1) := by
      simp [recordsFrom, Layout.recordAt?, split, names]
    have target := within.targetOffset forms inside names
    rw [next, bytesAt]
    generalize instructions[index] = instruction at names fits
    obtain ⟨op, operand⟩ := instruction
    obtain ⟨rfl, condition, given, rfl⟩ := Instruction.branch_of_target? fits names
    simp only [encodeAt, start, stop, target, nextRecord?, required, Opcode.branchForms?, if_true,
      encodedAt, Opcode.withForm]
    rfl

/-- All instructions from an index on are encoded, and their bytes put behind those before. -/
theorem encodeFrom_eq (count index : Nat) (left : index + count = instructions.size)
    (bytes : Array UInt8) :
    encodeFrom positions (Layout.offsets instructions forms) (instructions.toList.drop index) index
        (recordsFrom forms index) bytes =
      .ok (bytes ++
        ((List.finRange instructions.size).drop index).flatMap (bytesAt positions forms)) := by
  induction count generalizing index bytes with
  | zero =>
    have done : instructions.size ≤ index := by omega
    rw [List.drop_of_length_le (by simpa using done), List.drop_of_length_le (by simpa using done)]
    simp [encodeFrom, pure, Except.pure]
  | succ count ih =>
    have inside : index < instructions.size := by omega
    have first : instructions.toList.drop index =
        instructions[index] :: instructions.toList.drop (index + 1) := by
      rw [List.drop_eq_getElem_cons (by simpa using inside)]
      simp
    rw [first, encodeFrom, encodeAt_eq fitting within inside]
    show encodeFrom _ _ _ _ _ _ = _
    rw [ih (index + 1) (by omega), drop_finRange inside, List.flatMap_cons]
    exact congrArg _ (Array.toList_inj.1 (by simp))

variable (forms) in
/-- All instructions are encoded. -/
theorem encodeFrom_zero :
    encodeFrom positions (Layout.offsets instructions forms) instructions.toList 0
        (Layout.records instructions forms) #[] = .ok (encoding positions forms).toArray := by
  simpa [encoding, recordsFrom, Layout.records] using
    encodeFrom_eq fitting within instructions.size 0 (Nat.zero_add _) #[]

end Run

/-- In code that is not too long every displacement fits into its bytes and is read back. -/
theorem toInt_displacement {index : Nat} {label : Label} {condition : BranchCondition}
    {form : BranchForm} (stable : Layout.widen instructions positions forms = .ok forms)
    (small : (Layout.lengths instructions forms).sum < 2 ^ 31)
    (inside : index < instructions.size)
    (found : instructions[index] = ⟨.branch condition form, .label label⟩) :
    Bytes.toInt (Bytes.ofInt (displacementSize forms[index])
      (Layout.displacement positions (Layout.offsets instructions forms) index label)) =
        Layout.displacement positions (Layout.offsets instructions forms) index label := by
  have names : instructions[index].target? = some label := by rw [found]; rfl
  have targetInside := Layout.getD_offsets_le forms (positions.getD label 0)
  have nextInside := Layout.getD_offsets_le forms (index + 1)
  have next : (Layout.offsets instructions forms).getD (index + 1) 0 = _ :=
    Layout.getD_offsets_succ inside
  rw [found] at next
  have reach := Layout.reach_of_short stable inside names
  rw [Bytes.toInt_ofInt]
  unfold Layout.displacement
  cases chosen : forms[index] with
  | short =>
    -- the branch is two bytes long, and the layout has checked the distance from its start
    obtain ⟨target, found, near⟩ := reach chosen
    have same := Layout.getD_of_targetOffset found
    have length : (Layout.offsets instructions forms).getD (index + 1) 0 =
        (Layout.offsets instructions forms).getD index 0 + 2 := by
      rw [next, chosen]
      rfl
    rw [Int.bmod_eq_of_le (by simp only [displacementSize]; omega)
      (by simp only [displacementSize]; omega)]
  | long =>
    rw [Int.bmod_eq_of_le (by simp only [displacementSize]; omega)
      (by simp only [displacementSize]; omega)]

section Decoding

variable {code : Code} {index : Nat}
  (fitting : ∀ instruction ∈ instructions, instruction.operand.fits instruction.op.operandKind)
  (bytes : code.bytes.toList = encoding positions forms)

include fitting bytes

/-- The code is as long as its instructions together. -/
theorem size_bytes : code.bytes.size = (Layout.lengths instructions forms).sum := by
  rw [← Array.length_toList, bytes, length_encoding fitting]

/-- An instruction without a label is decoded at its offset. -/
theorem decodeAt?_plain (inside : index < instructions.size)
    (noLabel : instructions[index].target? = none) :
    code.decodeAt? ((Layout.offsets instructions forms).getD index 0) =
      some ⟨instructions[index].op, instructions[index].operand.encode,
        (Layout.offsets instructions forms).getD (index + 1) 0⟩ := by
  have fits := fitting _ (Array.getElem_mem inside)
  obtain ⟨before, rest, split, offset⟩ := encoded_split fitting inside
  have next : (Layout.offsets instructions forms).getD (index + 1) 0 = _ :=
    Layout.getD_offsets_succ inside
  rw [split] at bytes
  generalize instructions[index] = instruction at *
  obtain ⟨op, operand⟩ := instruction
  rw [encodedAt_plain noLabel] at bytes
  rw [Instruction.encodedLength, Opcode.withForm_of_plain _ fits noLabel] at next
  have decoded := Code.decodeAt?_of_bytes bytes (Operand.length_encode fits noLabel)
  rw [offset, ← next] at decoded
  exact decoded

/-- A branch is decoded at its offset, in the form that was chosen for it. -/
theorem decodeAt?_branch {condition : BranchCondition} {form : BranchForm} {label : Label}
    (inside : index < instructions.size)
    (found : instructions[index] = ⟨.branch condition form, .label label⟩) :
    code.decodeAt? ((Layout.offsets instructions forms).getD index 0) =
      some ⟨.branch condition forms[index], Bytes.ofInt (displacementSize forms[index])
          (Layout.displacement positions (Layout.offsets instructions forms) index label),
        (Layout.offsets instructions forms).getD (index + 1) 0⟩ := by
  obtain ⟨before, rest, split, offset⟩ := encoded_split fitting inside
  have next : (Layout.offsets instructions forms).getD (index + 1) 0 = _ :=
    Layout.getD_offsets_succ inside
  rw [split, found] at bytes
  rw [found] at next
  simp only [encodedAt, Opcode.withForm] at bytes
  have decoded := Code.decodeAt?_of_bytes bytes
    (by cases forms[index] <;> simp [Bytes.ofInt, displacementSize, Opcode.operandKind,
      OperandKind.size])
  have nextOffset : (Layout.offsets instructions forms).getD index 0 +
      (Opcode.branch condition forms[index]).encodedLength =
        (Layout.offsets instructions forms).getD (index + 1) 0 := next.symm
  rw [offset, nextOffset] at decoded
  exact decoded

end Decoding

/-- Finished code with the offsets of a layout. -/
private abbrev imageOf (code : Code) (positions : Array Nat) (forms : Layout.Forms instructions) :
    Image :=
  ⟨code, fun index => (Layout.offsets instructions forms).getD index 0,
    fun label => positions.getD label 0⟩

/-- Every instruction is decoded at its offset. -/
theorem instructionAt {code : Code} {index : Nat}
    (fitting : ∀ instruction ∈ instructions, instruction.operand.fits instruction.op.operandKind)
    (stable : Layout.widen instructions positions forms = .ok forms)
    (bytes : code.bytes.toList = encoding positions forms)
    (inside : index < instructions.size) :
    InstructionAt (imageOf code positions forms) index instructions[index] := by
  have fits := fitting _ (Array.getElem_mem inside)
  cases target : instructions[index].target? with
  | some label =>
    obtain ⟨isLabel, condition, form, isBranch⟩ := Instruction.branch_of_target? fits target
    have found : instructions[index] = ⟨.branch condition form, .label label⟩ := by
      rw [← isLabel, ← isBranch]
    rw [found]
    refine .branch (decodeAt?_branch fitting bytes inside found) fun small => ?_
    have short : code.bytes.size < 2 ^ 31 := small
    rw [size_bytes fitting bytes] at short
    rw [toInt_displacement stable short inside found]
    simp only [Layout.displacement]
    omega
  | none => exact .plain target (decodeAt?_plain fitting bytes inside target)

end Encoding

/-- Labels that are all marked have the positions of what they mark. -/
theorem getElem?_labelPositions {emitter : Emitter} {positions : Array Nat} {label : Label}
    (h : emitter.labelPositions = .ok positions) :
    positions[label]? = emitter.labelPosition? label := by
  unfold labelPositions at h
  split at h
  · cases h
  · next noneFree =>
    cases h
    rw [labelPosition?, Array.getElem?_map]
    cases mark : emitter.labels[label]? with
    | none => rfl
    | some place =>
      cases place with
      | none => cases Array.findIdx?_eq_none_iff.1 noneFree none (Array.mem_of_getElem? mark)
      | some position => rfl

/-- A marked label is found with the place that it marks. -/
theorem labelPosition?_eq_some {emitter : Emitter} {label : Label} {position : Nat} :
    emitter.labelPosition? label = some position ↔
      emitter.labels[label]? = some (some position) := by
  rw [labelPosition?, Option.join_eq_some_iff]

/-- Labels that are all marked keep the numbers of the instructions that they mark. -/
theorem getD_labelPositions {emitter : Emitter} {positions : Array Nat} {label : Label}
    {position : Nat} (h : emitter.labelPositions = .ok positions)
    (marked : emitter.labels[label]? = some (some position)) :
    positions.getD label 0 = position := by
  rw [Array.getD_eq_getD_getElem?, getElem?_labelPositions h, labelPosition?_eq_some.2 marked,
    Option.getD_some]

/-! ## Finished code -/

/-- A defect is passed on. -/
theorem lift_defect_eq_ok {α : Type} {result : Except Defect α} {value : α} :
    (liftM result : Except FinishError α) = .ok value ↔ result = .ok value := by
  cases result <;> simp [liftM, monadLift, MonadLift.monadLift, Except.mapError]

/-- An index out of range is passed on. -/
theorem lift_outOfRange_eq_ok {α : Type} {result : Except OutOfRange α} {value : α} :
    (liftM result : Except FinishError α) = .ok value ↔ result = .ok value := by
  cases result <;> simp [liftM, monadLift, MonadLift.monadLift, Except.mapError]

/-- What finished code has of its emitter. -/
structure Finished (emitter : Emitter) (positions : Array Nat) (layout : BranchLayout)
    (code : Code) : Prop where
  /-- All labels are marked. -/
  labelled : emitter.labelPositions = .ok positions
  /-- The branches are laid out. -/
  resolved : Layout.resolve emitter.instructions positions [] = .ok layout
  /-- The instructions are encoded. -/
  encoded : encodeFrom positions layout.offsets emitter.instructions.toList 0 layout.branches #[] =
    .ok code.bytes
  /-- The code is meant for this machine. -/
  version : code.version = formatVersion
  /-- Locals have the codes of their types. -/
  locals : code.locals = emitter.locals.map Ty.code
  /-- The string table. -/
  strings : code.strings = emitter.strings.entries
  /-- The type table. -/
  types : code.types = emitter.types.entries
  /-- The function table. -/
  functions : code.functions = emitter.functions.entries
  /-- The branches are recorded. -/
  branches : code.branches = layout.branches

variable {emitter : Emitter} {positions : Array Nat} {code : Code}

/-- Code is finished in three steps. -/
theorem finished_of_finalize (h : emitter.finalize = .ok code) :
    ∃ positions layout, emitter.Finished positions layout code := by
  simp only [finalize, except_bind_eq_ok, lift_defect_eq_ok, lift_outOfRange_eq_ok] at h
  obtain ⟨positions, labelled, layout, resolved, bytes, encoded, made⟩ := h
  cases made
  exact ⟨positions, layout, labelled, resolved, encoded, rfl, rfl, rfl, rfl, rfl, rfl⟩

/-- Finishing the code stops where its layout does. -/
theorem finalize_of_resolve {fault : OutOfRange} (labelled : emitter.labelPositions = .ok positions)
    (resolved : Layout.resolve emitter.instructions positions [] = .error fault) :
    emitter.finalize = .error (.outOfRange fault) := by
  have stops : (liftM (Layout.resolve emitter.instructions positions []) :
      Except FinishError BranchLayout) = .error (.outOfRange fault) := by
    rw [resolved]
    rfl
  exact except_bind_eq_error.2 (.inr ⟨positions, lift_defect_eq_ok.2 labelled,
    except_bind_eq_error.2 (.inl stops)⟩)

/-- The layout of an emitter whose code is finished. -/
theorem Finished.resolveBranches {layout : BranchLayout}
    (finished : emitter.Finished positions layout code) :
    emitter.resolveBranches [] = .ok layout := by
  simp only [Emitter.resolveBranches, except_bind_eq_ok, lift_defect_eq_ok, lift_outOfRange_eq_ok]
  exact ⟨positions, finished.labelled, finished.resolved⟩

section Fitting

variable (fitting : ∀ instruction ∈ emitter.instructions,
  instruction.operand.fits instruction.op.operandKind)

include fitting

/-- If all labels are marked inside the code, the code is finished. -/
theorem exists_finalize (labelled : emitter.labelPositions = .ok positions)
    (within : Layout.Within emitter.instructions positions) :
    ∃ code, emitter.finalize = .ok code := by
  obtain ⟨layout, resolved⟩ :=
    Layout.exists_settle within (Layout.seedForms emitter.instructions []) 1
  obtain ⟨forms, passes, rfl, -⟩ :=
    Layout.settle_run (fun _ => True) (fun _ _ _ _ => trivial) trivial resolved
  simp only [finalize, except_bind_eq_ok, lift_defect_eq_ok, lift_outOfRange_eq_ok]
  exact ⟨_, positions, labelled, layoutOf forms passes, resolved, _,
    encodeFrom_zero forms fitting within, rfl⟩

/-- The bytes of finished code are those of the instructions, under forms that reach all targets. -/
theorem Finished.encoding {layout : BranchLayout}
    (finished : emitter.Finished positions layout code) :
    ∃ (forms : Layout.Forms emitter.instructions) (passes : Nat), layout = layoutOf forms passes ∧
      Layout.widen emitter.instructions positions forms = .ok forms ∧
      code.bytes.toList = Emitter.encoding positions forms := by
  have within := Layout.within_of_resolve finished.resolved
  obtain ⟨forms, passes, rfl, stable, -⟩ :=
    Layout.settle_run (fun _ => True) (fun _ _ _ _ => trivial) trivial finished.resolved
  have same := Except.ok.inj (finished.encoded.symm.trans (encodeFrom_zero forms fitting within))
  exact ⟨forms, passes, rfl, stable, by rw [same]⟩

end Fitting

/-- Finished code holds all that the emitter held. -/
theorem placed_of_finalize {env : Environment} (sound : emitter.Sound env)
    (h : emitter.finalize = .ok code) :
    ∃ image : Image, image.code = code ∧ image.offset 0 = 0 ∧
      Placed env image 0 emitter := by
  obtain ⟨positions, layout, finished⟩ := finished_of_finalize h
  obtain ⟨forms, passes, rfl, stable, bytes⟩ := finished.encoding sound.fitting
  refine ⟨imageOf code positions forms, rfl, ?_, ?_⟩
  · exact Layout.getD_offsets (Nat.zero_le _)
  · exact {
      instructions := fun index instruction found => by
        obtain ⟨inside, rfl⟩ := Array.getElem?_eq_some_iff.1 found
        rw [Nat.zero_add]
        exact instructionAt sound.fitting stable bytes inside
      labels := fun label position marked => by
        rw [Nat.zero_add]
        exact getD_labelPositions finished.labelled marked
      locals := fun slot type declared => by simp [finished.locals, declared]
      strings := finished.strings ▸ .refl _
      types := finished.types ▸ .refl _
      functions := finished.functions ▸ .refl _
      callable := finished.functions ▸ sound.callable
      fewEntries := by
        rw [finished.strings, finished.types, finished.functions]
        exact ⟨sound.fewStrings, sound.fewTypes, sound.fewFunctions⟩ }

end Emitter

end ExprCode
