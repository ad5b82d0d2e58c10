import ExprCode.Proofs.Placement

/-! # Operations of the emitter

What every operation of the emitter adds to the code, said of the finished code: which action its
instruction does, where its branch leads, what its token stands for. -/

namespace ExprCode

/-! ## Immediate operands -/

namespace Bytes

/-- Each byte multiplies the range by 256. -/
theorem range_eq (count : Nat) : range count = 256 ^ count := by
  rw [range, Nat.one_shiftLeft, pow_mul]
  norm_num

/-- An integer is read back modulo the range of its bytes. -/
theorem toInt_ofInt (count : Nat) (n : Int) : toInt (ofInt count n) = n.bmod (256 ^ count) := by
  have positive : (0 : Int) < (256 ^ count : Nat) := by
    exact_mod_cast Nat.pow_pos (by decide)
  have nonneg : 0 ≤ n % (256 ^ count : Nat) := Int.emod_nonneg _ (Int.ne_of_gt positive)
  have small : n % (256 ^ count : Nat) < (256 ^ count : Nat) := Int.emod_lt_of_pos _ positive
  have read : ((n % (256 ^ count : Nat)).toNat % 256 ^ count : Nat) = n % (256 ^ count : Nat) := by
    rw [Nat.mod_eq_of_lt (by omega), Int.toNat_of_nonneg nonneg]
  unfold toInt ofInt
  rw [length_toBytes, ofBytes_toBytes, range_eq, read, Int.emod_bmod]

end Bytes

namespace Action

/-- A short integer is read back. -/
@[simp] theorem read_ldcI4S (n : Int8) :
    read .ldcI4S (Operand.encode (.i8 n)) = .push (.i32 n.toInt) := by
  have low := n.le_toInt
  have high := n.toInt_lt
  simp only [read, Operand.encode, Bytes.toInt_ofInt]
  rw [Int.bmod_eq_of_le (by omega) (by omega)]

/-- An integer of four bytes is read back. -/
@[simp] theorem read_ldcI4 (n : Int32) :
    read .ldcI4 (Operand.encode (.i32 n)) = .push (.i32 n.toInt) := by
  have low := n.le_toInt
  have high := n.toInt_lt
  simp only [read, Operand.encode, Bytes.toInt_ofInt]
  rw [Int.bmod_eq_of_le (by omega) (by omega)]

/-- An integer of eight bytes is read back. -/
@[simp] theorem read_ldcI8 (n : Int64) :
    read .ldcI8 (Operand.encode (.i64 n)) = .push (.i64 n.toInt) := by
  have low := n.le_toInt
  have high := n.toInt_lt
  simp only [read, Operand.encode, Bytes.toInt_ofInt]
  rw [Int.bmod_eq_of_le (by omega) (by omega)]

/-- A number of single precision is read back. -/
@[simp] theorem read_ldcR4 (x : Single) :
    read .ldcR4 (Operand.encode (.f32 x)) = .push (.single x) := by
  have small : x.bits.toNat < 256 ^ 4 := x.bits.toNat_lt
  simp only [read, Operand.encode, Bytes.ofBytes_toBytes, Bytes.range_eq,
    Nat.mod_eq_of_lt small, UInt32.ofNat_toNat]

/-- A number of double precision is read back. -/
@[simp] theorem read_ldcR8 (x : Double) :
    read .ldcR8 (Operand.encode (.f64 x)) = .push (.double x) := by
  have small : x.bits.toNat < 256 ^ 8 := x.bits.toNat_lt
  simp only [read, Operand.encode, Bytes.ofBytes_toBytes, Bytes.range_eq,
    Nat.mod_eq_of_lt small, UInt64.ofNat_toNat]

/-- The kind of a conversion is read back. -/
@[simp] theorem read_conv (code : TypeCode) :
    read .conv (Operand.encode (.typeCode code)) = .convert code.toByte := by
  simp [read, Operand.encode, Bytes.ofBytes]

end Action

/-- The number in two bytes. -/
theorem Bytes.ofBytes_encode_u16 (n : UInt16) :
    Bytes.ofBytes (Bytes.toBytes 2 n.toNat) = n.toNat := by
  rw [Bytes.ofBytes_toBytes]
  exact Nat.mod_eq_of_lt n.toNat_lt

/-- A number of at most two bytes is kept in two bytes. -/
theorem UInt16.toNat_ofNat_of_lt_maxEntries {n : Nat} (small : n < maxEntries) :
    (UInt16.ofNat n).toNat = n := by
  have : n < 65536 := small
  simp only [UInt16.toNat_ofNat']
  omega

/-- What is interned gets the number of an entry with its key, and nothing else is added. -/
theorem Table.intern_eq_some {α κ : Type} [Ord κ] [Std.TransOrd κ] [Std.LawfulEqOrd κ] {key : α → κ}
    {table interned : Table key} {entry : α} {number : Nat}
    (h : table.intern entry = (some number, interned)) :
    Extends table.entries interned.entries ∧
      interned.entries[number]?.map key = some (key entry) ∧
      (∀ other ∈ interned.entries, other ∈ table.entries ∨ other = entry) ∧
      (table.entries.size ≤ maxEntries → interned.entries.size ≤ maxEntries) := by
  unfold Table.intern at h
  split at h
  · next found known =>
    cases h
    exact ⟨.refl _, (table.index_eq _ _).1 known, fun other listed => .inl listed, fun few => few⟩
  · next absent =>
    dsimp only at h
    split at h
    · next room =>
      cases h
      refine ⟨.push _ _, ?_, fun other listed => Array.mem_push.1 listed, fun _ => ?_⟩
      · simp [Table.push, Table.size]
      · simp only [Table.push, Array.size_push]
        exact room
    · cases h

/-- In every longer table that two bytes can number, the token of an interned entry stands for an
entry with its key. -/
theorem Table.exists_of_token {α κ : Type} [Ord κ] [Std.TransOrd κ] [Std.LawfulEqOrd κ]
    {key : α → κ}
    {table interned : Table key} {entry : α} {number : Nat} {entries : Array α}
    (h : table.intern entry = (some number, interned)) (longer : Extends interned.entries entries)
    (few : entries.size ≤ maxEntries) :
    ∃ found, entries[(UInt16.ofNat number).toNat]? = some found ∧ key found = key entry := by
  obtain ⟨-, listed, -, -⟩ := Table.intern_eq_some h
  obtain ⟨found, atNumber, sameKey⟩ := Option.map_eq_some_iff.1 listed
  have inEntries := longer number found atNumber
  have small : number < entries.size := (Array.getElem?_eq_some_iff.1 inEntries).1
  rw [UInt16.toNat_ofNat_of_lt_maxEntries (Nat.lt_of_lt_of_le small few)]
  exact ⟨found, inEntries, sameKey⟩

/-! ## Outcomes of operations -/

namespace Emitter

/-- An instruction is appended, unless it is refused. -/
theorem emit_eq (instruction : Instruction) (before : Emitter) :
    emit instruction before =
      match before.refusal? instruction with
      | some defect => .error defect before
      | none => .ok () (before.append instruction) := by
  have read : (get : Emit Emitter) before = .ok before before := rfl
  rw [emit, bind_of_ok read]
  cases before.refusal? instruction <;> rfl

/-- A new label has the next number. -/
theorem defineLabel_eq (before : Emitter) :
    defineLabel before =
      .ok before.labels.size (before.extendLabels (before.labels.size + 1)) := by
  simp [defineLabel, extendLabels, bind, EStateM.bind, get, getThe, MonadStateOf.get,
    EStateM.get, modify, modifyGet, MonadStateOf.modifyGet, EStateM.modifyGet, pure, EStateM.pure]

/-- A label is marked once, if it is defined. -/
theorem markLabelAt_eq (label : Label) (position : Nat) (before : Emitter) :
    markLabelAt label position before =
      match before.labels[label]? with
      | none => .error (.unknownLabel label) before
      | some (some _) => .error (.labelAlreadyMarked label) before
      | some none => .ok () { before with
          labels := before.labels.setIfInBounds label (some position) } := by
  have read : (get : Emit Emitter) before = .ok before before := rfl
  rw [markLabelAt, bind_of_ok read]
  rcases before.labels[label]? with _ | _ | _ <;> rfl

/-- A label is marked at the end of the instructions. -/
theorem markLabel_eq (label : Label) (before : Emitter) :
    markLabel label before = markLabelAt label before.instructions.size before := rfl

/-- A new local has the next number, if there is room for it. -/
theorem declareLocal_eq (type : Ty) (before : Emitter) :
    declareLocal type before =
      if before.maxLocals ≤ before.locals.size then .error (.tooManyLocals before.maxLocals) before
      else .ok before.locals.size { before with locals := before.locals.push type } := by
  have read : (get : Emit Emitter) before = .ok before before := rfl
  rw [declareLocal, bind_of_ok read]
  split <;> rfl

/-- The outcome of a look-up in a table: the token of a number, or no room. The table is put back in
any case. -/
def lookedUp {τ : Type} (table : TableName) (restore : τ → Emitter) :
    Option Nat × τ → EStateM.Result Defect Emitter UInt16
  | (some number, entries) => .ok (.ofNat number) (restore entries)
  | (none, entries) => .error (.tableOverflow table) (restore entries)

/-- A look-up that finds an entry. -/
theorem lookedUp_eq_ok {τ : Type} {table : TableName} {restore : τ → Emitter}
    {found : Option Nat × τ}
    {token : UInt16} {after : Emitter} (h : lookedUp table restore found = .ok token after) :
    ∃ number entries, found = (some number, entries) ∧ token = .ofNat number ∧
      after = restore entries := by
  obtain ⟨_ | number, entries⟩ := found
  · cases h
  · cases h
    exact ⟨number, entries, rfl, rfl, rfl⟩

/-- The token of a string is looked up in the strings. -/
theorem stringToken_eq (value : String) (before : Emitter) :
    stringToken value before =
      lookedUp .strings (fun strings => { before with strings }) (before.strings.intern value) := by
  simp only [stringToken, bind, EStateM.bind, modifyGet, MonadStateOf.modifyGet, EStateM.modifyGet,
    modify]
  rcases before.strings.intern value with ⟨_ | _, _⟩ <;> rfl

/-- The token of a type is looked up in the types. -/
theorem typeToken_eq (type : Ty) (before : Emitter) :
    typeToken type before =
      lookedUp .types (fun types => { before with types }) (before.types.intern type) := by
  simp only [typeToken, bind, EStateM.bind, modifyGet, MonadStateOf.modifyGet, EStateM.modifyGet,
    modify]
  rcases before.types.intern type with ⟨_ | _, _⟩ <;> rfl

/-- The token of a function is looked up in the functions, unless its entry were new and its
parameters could not be counted. -/
theorem functionToken_eq (name : String) (arity : Nat) (function : Handle) (before : Emitter) :
    functionToken name arity function before =
      if (before.functions.find? ⟨name, function⟩).isNone && before.functions.size < maxEntries &&
          maxEntries ≤ arity then .error (.tableOverflow .arguments) before
      else lookedUp .functions (fun functions => { before with functions })
        (before.functions.intern ⟨name, arity, function⟩) := by
  -- the table is taken out of the emitter before it is read
  have taken : (modifyGet fun emitter => (emitter.functions, { emitter with functions := .empty }) :
      Emit (Table FunctionEntry.key)) before =
        .ok before.functions { before with functions := .empty } := rfl
  rw [functionToken, bind_of_ok taken]
  dsimp only
  split
  · rfl
  · rcases before.functions.intern ⟨name, arity, function⟩ with ⟨_ | _, _⟩ <;> rfl

/-! ## Instructions -/

variable {env : Environment} {before after : Emitter}

variable {instruction : Instruction} {label : Label} {position slot : Nat} {token : UInt16}
  {element : Ty}

/-- An instruction that is appended fits. -/
theorem emit_eq_ok (h : emit instruction before = .ok () after) :
    instruction.operand.fits instruction.op.operandKind ∧ after = before.append instruction := by
  rw [emit_eq] at h
  cases refused : before.refusal? instruction with
  | some defect =>
    rw [refused] at h
    cases h
  | none =>
    rw [refused] at h
    cases h
    refine ⟨?_, rfl⟩
    unfold refusal? at refused
    by_cases fits : instruction.operand.fits instruction.op.operandKind
    · exact fits
    · rw [if_neg fits] at refused
      cases refused

/-- Appending an instruction that fits only adds. -/
theorem grows_append (fits : instruction.operand.fits instruction.op.operandKind) :
    Grows env before (before.append instruction) where
  instructions := .push _ _
  labels _ _ marked := marked
  locals := .refl _
  strings := .refl _
  types := .refl _
  functions := .refl _
  sound sound :=
    { sound with
      fitting := fun other listed => by
        rcases Array.mem_push.1 listed with old | rfl
        · exact sound.fitting other old
        · exact fits }

/-- An instruction that was appended is in the finished code. -/
theorem emits_emit (h : emit instruction before = .ok () after) :
    Emits env (fun image start stop => ∃ index,
      InstructionAt image index instruction ∧ start.offset = image.offset index ∧
      stop = ⟨image.offset (index + 1), start.slots⟩) before after := by
  obtain ⟨fits, rfl⟩ := emit_eq_ok h
  refine ⟨grows_append fits, fun image base placed => ⟨_, ?_, rfl, ?_⟩⟩
  · exact placed.instructions before.instructions.size instruction Array.getElem?_push_size
  · simp [Image.cursor, append, Nat.add_assoc]

/-- An instruction without a label does what it says. -/
theorem emits_action {op : Opcode} {operand : Operand}
    (h : emit ⟨op, operand⟩ before = .ok () after)
    (noLabel : Instruction.target? ⟨op, operand⟩ = none) :
    Emits env (fun image start stop =>
      ActionAt image.code start (Action.read op operand.encode) stop) before after := by
  refine (emits_emit h).mono fun image start stop => ?_
  rintro ⟨index, present, atStart, rfl⟩
  cases present with
  | plain _ decodes => exact ⟨_, atStart ▸ decodes, rfl, rfl⟩
  | branch => cases noLabel

/-- An opcode that takes no operand does what it says. -/
theorem emits_emitOp {op : Opcode} (h : emitOp op before = .ok () after) :
    Emits env (fun image start stop => ActionAt image.code start (Action.read op []) stop)
      before after := by
  unfold emitOp at h
  have emits : Emits env _ before after := emits_action h rfl
  rwa [show Operand.encode .none = [] from rfl] at emits

/-- A branch leads to what its label marks. -/
theorem emits_emitBranch {condition : BranchCondition} {form : BranchForm} {source : Nat}
    (h : emitBranch (.branch condition form) label before = .ok source after) :
    Emits env (fun image start stop =>
      BranchAt image.code start condition (image.offset (image.position label)) stop)
      before after := by
  unfold emitBranch at h
  obtain ⟨_, _, run, rest⟩ := bind_eq_ok h
  cases rest
  refine (emits_emit run).mono fun image start stop => ?_
  rintro ⟨index, present, atStart, rfl⟩
  cases present with
  | plain noLabel => cases noLabel
  | branch decodes leads => exact ⟨_, ⟨_, atStart ▸ decodes, rfl, rfl⟩, leads⟩

/-! ## Labels -/

/-- A new label marks nothing yet. -/
theorem emits_defineLabel (h : defineLabel before = .ok label after) :
    Emits env (fun _ start stop => start = stop) before after := by
  cases h
  refine ⟨⟨.refl _, fun other position marked => ?_, .refl _, .refl _, .refl _, .refl _,
    fun sound => ⟨sound.1, sound.2, sound.3, sound.4, sound.5⟩⟩, fun _ _ _ => rfl⟩
  exact Extends.push before.labels none other (some position) marked

/-- Marking a label changes no other. -/
theorem markLabelAt_eq_ok (h : markLabelAt label position before = .ok () after) :
    before.labels[label]? = some none ∧
      after = { before with labels := before.labels.setIfInBounds label (some position) } := by
  rw [markLabelAt_eq] at h
  rcases found : before.labels[label]? with _ | _ | old <;> rw [found] at h <;> cases h
  exact ⟨rfl, rfl⟩

/-- A label that is marked now was not marked before. -/
theorem grows_markLabelAt (unmarked : before.labels[label]? = some none) :
    Grows env before
      { before with labels := before.labels.setIfInBounds label (some position) } := by
  refine ⟨.refl _, fun other old marked => ?_, .refl _, .refl _, .refl _, .refl _,
    fun sound => ⟨sound.1, sound.2, sound.3, sound.4, sound.5⟩⟩
  have differ : label ≠ other := by
    rintro rfl
    rw [unmarked] at marked
    cases marked
  rw [Array.getElem?_setIfInBounds, if_neg differ, marked]

/-- A marked label stands for the place where it was marked. -/
theorem emits_markLabel (h : markLabel label before = .ok () after) :
    Emits env (fun image start stop =>
      start = stop ∧ image.offset (image.position label) = start.offset) before after := by
  obtain ⟨unmarked, rfl⟩ := markLabelAt_eq_ok h
  refine ⟨grows_markLabelAt unmarked, fun image base placed => ⟨rfl, ?_⟩⟩
  have inside : label < before.labels.size := (Array.getElem?_eq_some_iff.1 unmarked).1
  rw [placed.labels label before.instructions.size
    (by rw [Array.getElem?_setIfInBounds, if_pos rfl, if_pos inside])]
  rfl

/-! ## Locals -/

/-- A new local has the next number. -/
theorem emits_declareLocal {type : Ty} (h : declareLocal type before = .ok slot after) :
    Emits env (fun image start stop =>
      slot = start.slots ∧ slot < image.code.locals.size ∧ stop = ⟨start.offset, start.slots + 1⟩)
      before after := by
  rw [declareLocal_eq] at h
  split at h
  · cases h
  · cases h
    refine ⟨⟨.refl _, fun _ _ marked => marked, .push _ _, .refl _, .refl _, .refl _,
      fun sound => ⟨sound.1, sound.2, sound.3, sound.4, sound.5⟩⟩,
      fun image base placed => ⟨rfl, ?_, ?_⟩⟩
    · have declared := placed.locals before.locals.size type Array.getElem?_push_size
      exact (Array.getElem?_eq_some_iff.1 declared).1
    · simp [Image.cursor]

/-- Every encoding of an access to a local does the same. -/
theorem emits_localAccess {fixed : Fin 4 → Opcode} {near far : Opcode} {action : Nat → Action}
    (byOpcode : ∀ index, Action.read (fixed index) [] = action index)
    (byByte : ∀ bytes, Action.read near bytes = action (Bytes.ofBytes bytes))
    (byTwo : ∀ bytes, Action.read far bytes = action (Bytes.ofBytes bytes))
    (h : emitChecked (localAccess slot fixed near far) before = .ok () after) :
    Emits env (fun image start stop => ActionAt image.code start (action slot) stop)
      before after := by
  unfold localAccess at h
  by_cases first : slot < 4
  · rw [dif_pos first] at h
    have emits : Emits env _ before after := emits_action h rfl
    rwa [show Operand.encode .none = [] from rfl, byOpcode] at emits
  · rw [dif_neg first] at h
    by_cases oneByte : slot < 256
    · rw [if_pos oneByte] at h
      have emits : Emits env _ before after := emits_action h rfl
      have read : Bytes.ofBytes (Operand.encode (.u8 (.ofNat slot))) = slot := by
        simp [Operand.encode, Bytes.ofBytes]
        omega
      rwa [byByte, read] at emits
    · rw [if_neg oneByte] at h
      by_cases twoBytes : slot < maxSlots
      · rw [if_pos twoBytes] at h
        have emits : Emits env _ before after := emits_action h rfl
        have read : Bytes.ofBytes (Operand.encode (.u16 (.ofNat slot))) = slot := by
          rw [Operand.encode, Bytes.ofBytes_encode_u16]
          exact UInt16.toNat_ofNat_of_lt_maxEntries twoBytes
        rwa [byTwo, read] at emits
      · rw [if_neg twoBytes] at h
        cases h

/-- A load of a local. -/
theorem emits_emitLoadLocal (h : emitLoadLocal slot before = .ok () after) :
    Emits env (fun image start stop => ActionAt image.code start (.loadLocal slot) stop)
      before after :=
  emits_localAccess (fun _ => rfl) (fun _ => rfl) (fun _ => rfl) h

/-- A store into a local. -/
theorem emits_emitStoreLocal (h : emitStoreLocal slot before = .ok () after) :
    Emits env (fun image start stop => ActionAt image.code start (.storeLocal slot) stop)
      before after :=
  emits_localAccess (fun _ => rfl) (fun _ => rfl) (fun _ => rfl) h

/-! ## Constants -/

/-- A truth value. -/
theorem emits_emitLoadBool {value : Bool} (h : emitLoadBool value before = .ok () after) :
    Emits env (fun image start stop =>
      ActionAt image.code start (.push (.bool value)) stop) before after := by
  unfold emitLoadBool at h
  have emits : Emits env _ before after := emits_emitOp h
  cases value <;> exact emits

/-- The instruction that loads an Int32: it has one byte for the number if that is enough. -/
def loadInt32 (value : Int32) : Instruction :=
  if -128 ≤ value ∧ value ≤ 127 then ⟨.ldcI4S, .i8 value.toInt8⟩ else ⟨.ldcI4, .i32 value⟩

/-- Each integer is loaded by one instruction. -/
theorem emitLoadInt32_eq (value : Int32) : emitLoadInt32 value = emit (loadInt32 value) := by
  unfold emitLoadInt32 loadInt32
  split <;> rfl

/-- The load of an integer names no label. -/
theorem target?_loadInt32 (value : Int32) : (loadInt32 value).target? = none := by
  unfold loadInt32
  split <;> rfl

/-- The sign of the byte is that of the number. -/
theorem read_loadInt32 (value : Int32) :
    Action.read (loadInt32 value).op (loadInt32 value).operand.encode =
      .push (.i32 value.toInt) := by
  unfold loadInt32
  split
  · next small =>
    have low : -128 ≤ value.toInt := Int32.le_iff_toInt_le.1 small.1
    have high : value.toInt ≤ 127 := Int32.le_iff_toInt_le.1 small.2
    rw [Action.read_ldcI4S, Int32.toInt_toInt8, Int.bmod_eq_of_le (by omega) (by omega)]
  · exact Action.read_ldcI4 value

/-- An Int32, whatever the number of its bytes. -/
theorem emits_emitLoadInt32 {value : Int32} (h : emitLoadInt32 value before = .ok () after) :
    Emits env (fun image start stop =>
      ActionAt image.code start (.push (.i32 value.toInt)) stop) before after := by
  rw [emitLoadInt32_eq] at h
  have noLabel := target?_loadInt32 value
  have pushes := read_loadInt32 value
  generalize loadInt32 value = load at h noLabel pushes
  have emits : Emits env _ before after := emits_action h noLabel
  rwa [pushes] at emits

/-! ## Tokens -/

/-- The token of a string stands for it. -/
theorem emits_stringToken {value : String} (h : stringToken value before = .ok token after) :
    Emits env (fun image start stop =>
      start = stop ∧ image.code.strings[token.toNat]? = some value) before after := by
  rw [stringToken_eq] at h
  obtain ⟨number, strings, interned, rfl, rfl⟩ := lookedUp_eq_ok h
  obtain ⟨grown, -, -, few⟩ := Table.intern_eq_some interned
  refine ⟨⟨.refl _, fun _ _ marked => marked, .refl _, grown, .refl _, .refl _,
    fun sound => { sound with fewStrings := few sound.fewStrings }⟩,
    fun image base placed => ⟨rfl, ?_⟩⟩
  obtain ⟨_, listed, rfl⟩ := Table.exists_of_token interned placed.strings placed.fewEntries.1
  exact listed

/-- The token of a type stands for it. -/
theorem emits_typeToken {type : Ty} (h : typeToken type before = .ok token after) :
    Emits env (fun image start stop =>
      start = stop ∧ image.code.types[token.toNat]? = some type) before after := by
  rw [typeToken_eq] at h
  obtain ⟨number, types, interned, rfl, rfl⟩ := lookedUp_eq_ok h
  obtain ⟨grown, -, -, few⟩ := Table.intern_eq_some interned
  refine ⟨⟨.refl _, fun _ _ marked => marked, .refl _, .refl _, grown, .refl _,
    fun sound => { sound with fewTypes := few sound.fewTypes }⟩,
    fun image base placed => ⟨rfl, ?_⟩⟩
  obtain ⟨_, listed, rfl⟩ := Table.exists_of_token interned placed.types placed.fewEntries.2.1
  exact listed

/-- The token of a function stands for an entry with its name and function. -/
theorem emits_functionToken {name : String} {arity : Nat} {function : Handle}
    (callable : ⟨name, arity, function⟩ ∈ env.callables)
    (h : functionToken name arity function before = .ok token after) :
    Emits env (fun image start stop => start = stop ∧
      ∃ entry, image.code.functions[token.toNat]? = some entry ∧
        entry.key = ⟨name, function⟩ ∧ entry ∈ env.callables) before after := by
  rw [functionToken_eq] at h
  split at h
  · cases h
  · obtain ⟨number, functions, interned, rfl, rfl⟩ := lookedUp_eq_ok h
    obtain ⟨grown, -, added, few⟩ := Table.intern_eq_some interned
    refine ⟨⟨.refl _, fun _ _ marked => marked, .refl _, .refl _, .refl _, grown,
      fun sound => { sound with
        fewFunctions := few sound.fewFunctions
        callable := fun entry member => (added entry member).elim (sound.callable entry)
          fun same => same ▸ callable }⟩,
      fun image base placed => ⟨rfl, ?_⟩⟩
    obtain ⟨entry, listed, key⟩ :=
      Table.exists_of_token interned placed.functions placed.fewEntries.2.2
    exact ⟨entry, listed, key, placed.callable entry (Array.mem_of_getElem? listed)⟩

/-- A string. -/
theorem emits_emitLoadString {value : String} (h : emitLoadString value before = .ok () after) :
    Emits env (fun image start stop => ∃ token,
      ActionAt image.code start (.pushString token) stop ∧ image.code.strings[token]? = some value)
      before after := by
  obtain ⟨token, middle, tokenRun, emitRun⟩ := bind_eq_ok h
  have emits : Emits env _ before after :=
    (emits_stringToken tokenRun).trans (emits_action emitRun rfl)
  refine emits.mono fun image start stop => ?_
  rintro ⟨_, ⟨rfl, listed⟩, pushed⟩
  exact ⟨token.toNat, Bytes.ofBytes_encode_u16 token ▸ pushed, listed⟩

/-- A call. -/
theorem emits_emitCall {wanted : FunctionEntry} (callable : wanted ∈ env.callables)
    (h : emitCall wanted.name wanted.arity wanted.function before = .ok () after) :
    Emits env (fun image start stop => CallAt image.code env start wanted stop)
      before after := by
  obtain ⟨token, middle, tokenRun, emitRun⟩ := bind_eq_ok h
  have emits : Emits env _ before after :=
    (emits_functionToken callable tokenRun).trans (emits_action emitRun rfl)
  refine emits.mono fun image start stop => ?_
  rintro ⟨_, ⟨rfl, entry, listed, key, known⟩, called⟩
  exact ⟨token.toNat, entry, Bytes.ofBytes_encode_u16 token ▸ called, listed, key, known, callable⟩

/-! ## Arrays -/

/-- The making of an array. -/
theorem emits_emitNewArray (h : emitNewArray element before = .ok () after) :
    Emits env (fun image start stop => NewArrayAt image.code start element stop)
      before after := by
  obtain ⟨token, middle, tokenRun, emitRun⟩ := bind_eq_ok h
  have emits : Emits env _ before after :=
    (emits_typeToken tokenRun).trans (emits_action emitRun rfl)
  refine emits.mono fun image start stop => ?_
  rintro ⟨_, ⟨rfl, listed⟩, made⟩
  exact ⟨token.toNat, Bytes.ofBytes_encode_u16 token ▸ made, listed⟩

/-- The load of an element. -/
theorem emits_emitArrayLoad (h : emitArrayLoad element before = .ok () after) :
    Emits env (fun image start stop => ElementLoadAt image.code start stop)
      before after := by
  unfold emitArrayLoad at h
  cases known : loadKind? element with
  | some kind =>
    rw [known] at h
    exact (emits_emitOp h).mono fun image start stop loaded => .plain loaded
  | none =>
    rw [known] at h
    obtain ⟨token, named, tokenRun, rest⟩ := bind_eq_ok h
    obtain ⟨_, addressed, addressRun, loadRun⟩ := bind_eq_ok rest
    have emits : Emits env _ before after :=
      (emits_typeToken tokenRun).trans
        ((emits_action addressRun rfl).trans (emits_action loadRun rfl))
    refine emits.mono fun image start stop => ?_
    rintro ⟨_, ⟨rfl, listed⟩, middle, address, loaded⟩
    exact .byAddress (Bytes.ofBytes_encode_u16 token ▸ address) listed loaded

/-- The store of an element. -/
theorem emits_emitArrayStore (h : emitArrayStore element before = .ok () after) :
    Emits env (fun image start stop => ActionAt image.code start .storeElement stop)
      before after := by
  unfold emitArrayStore at h
  cases known : storeKind? element with
  | some kind =>
    rw [known] at h
    exact emits_emitOp h
  | none =>
    rw [known] at h
    obtain ⟨token, named, tokenRun, storeRun⟩ := bind_eq_ok h
    have emits : Emits env _ before after :=
      (emits_typeToken tokenRun).trans (emits_action storeRun rfl)
    refine emits.mono fun image start stop => ?_
    rintro ⟨_, ⟨rfl, -⟩, stored⟩
    exact stored

/-! ## Parallel paths -/

/-- The marks of an emitter are its marked labels. -/
theorem mem_marks {emitter : Emitter} :
    (label, position) ∈ emitter.marks ↔ emitter.labels[label]? = some (some position) := by
  unfold marks
  rw [List.mem_filterMap]
  constructor
  · rintro ⟨⟨mark, index⟩, listed, same⟩
    obtain ⟨_, rfl, pair⟩ := Option.map_eq_some_iff.1 same
    cases pair
    simpa using List.mem_zipIdx_iff_getElem?.1 listed
  · intro marked
    refine ⟨(some position, label), List.mem_zipIdx_iff_getElem?.2 ?_, rfl⟩
    simpa using marked

/-- Marks are set one after the other and change nothing else. -/
theorem forM_markLabelAt_eq_ok {marked : List (Label × Nat)} {base : Nat}
    (h : (marked.forM fun (label, position) => markLabelAt label (base + position)) before =
      .ok () after) :
    after = { before with labels := after.labels } ∧ Grows env before after ∧
      ∀ label position, (label, position) ∈ marked →
        after.labels[label]? = some (some (base + position)) := by
  induction marked generalizing before with
  | nil =>
    cases h
    exact ⟨rfl, .refl _, fun _ _ listed => absurd listed List.not_mem_nil⟩
  | cons mark marked ih =>
    obtain ⟨label, position⟩ := mark
    obtain ⟨_, middle, markRun, rest⟩ := bind_eq_ok h
    obtain ⟨unmarked, rfl⟩ := markLabelAt_eq_ok markRun
    obtain ⟨same, grows, others⟩ := ih rest
    refine ⟨same, (grows_markLabelAt unmarked).trans grows, fun other place listed => ?_⟩
    rcases List.mem_cons.1 listed with first | later
    · cases first
      have inside : label < before.labels.size := (Array.getElem?_eq_some_iff.1 unmarked).1
      -- the marks that follow leave this one where it is
      refine grows.labels label (base + position) ?_
      rw [Array.getElem?_setIfInBounds, if_pos rfl, if_pos inside]
    · exact others other place later

/-- More labels change none that is marked. -/
theorem grows_extendLabels (count : Nat) : Grows env before (before.extendLabels count) where
  instructions := .refl _
  labels label position marked := Extends.append _ _ label (some position) marked
  locals := .refl _
  strings := .refl _
  types := .refl _
  functions := .refl _
  sound sound := ⟨sound.1, sound.2, sound.3, sound.4, sound.5⟩

/-- The parts of a splice. -/
theorem splice_eq_ok (env : Environment) {child : Emitter}
    (h : splice child before = .ok () after) :
    ∃ marked : Emitter, Grows env before marked ∧
      marked.instructions = before.instructions ∧
      (∀ (label : Label) (position : Nat), child.labels[label]? = some (some position) →
        marked.labels[label]? = some (some (before.instructions.size + position))) ∧
      after = { marked with
        instructions := marked.instructions ++ child.instructions
        offset := marked.offset + child.offset
        locals := child.locals
        strings := child.strings
        types := child.types
        functions := child.functions } := by
  unfold splice at h
  obtain ⟨_, _, run, rest⟩ := bind_eq_ok h
  cases run
  -- a splice that succeeds has marked all labels of the child
  by_cases fresh : child.forkedFrom = some before.forkPoint
  · rw [if_pos fresh] at rest
    obtain ⟨_, _, run, rest⟩ := bind_eq_ok rest
    cases run
    obtain ⟨_, _, run, rest⟩ := bind_eq_ok rest
    cases run
    obtain ⟨_, marked, markRun, last⟩ := bind_eq_ok rest
    cases last
    obtain ⟨same, grows, marks⟩ := forM_markLabelAt_eq_ok markRun
    refine ⟨marked, (grows_extendLabels _).trans grows, ?_, fun label position inChild => ?_, rfl⟩
    · rw [same]
      rfl
    · exact marks label position (mem_marks.2 inChild)
  · rw [if_neg fresh] at rest
    cases rest

/-- A fork of a sound emitter is sound. -/
theorem Sound.fork (sound : before.Sound env) : before.fork.Sound env where
  fitting _ listed := absurd listed (Array.not_mem_empty _)
  callable := sound.callable
  fewStrings := sound.fewStrings
  fewTypes := sound.fewTypes
  fewFunctions := sound.fewFunctions

/-- What was emitted into a fork keeps its shape when the fork is spliced. -/
theorem emits_splice {shape : Shape} {child : Emitter}
    (inner : Emits env shape before.fork child)
    (h : splice child before = .ok () after) : Emits env shape before after := by
  obtain ⟨marked, grows, sameInstructions, marks, rfl⟩ := splice_eq_ok env h
  refine ⟨⟨?_, grows.labels, inner.grows.locals, inner.grows.strings, inner.grows.types,
    inner.grows.functions, fun sound => ?_⟩, fun image base placed => ?_⟩
  · dsimp only
    rw [sameInstructions]
    exact .append _ _
  · have childSound := inner.grows.sound sound.fork
    refine ⟨fun instruction listed => ?_, childSound.callable, childSound.fewStrings,
      childSound.fewTypes, childSound.fewFunctions⟩
    dsimp only at listed
    rw [sameInstructions] at listed
    exact (Array.mem_append.1 listed).elim (sound.fitting instruction)
      (childSound.fitting instruction)
  -- the instructions of the fork lie behind those of the emitter it is spliced into
  · have childPlaced : Placed env image (base + before.instructions.size) child := by
      refine ⟨fun index instruction found => ?_, fun label position inChild => ?_, placed.locals,
        placed.strings, placed.types, placed.functions, placed.callable, placed.fewEntries⟩
      · rw [Nat.add_assoc]
        refine placed.instructions _ instruction ?_
        dsimp only
        rw [sameInstructions, Array.getElem?_append_right (Nat.le_add_right _ _),
          Nat.add_sub_cancel_left, found]
      · rw [Nat.add_assoc]
        exact placed.labels label _ (marks label position inChild)
    have holds := inner.holds image _ childPlaced
    simpa only [Image.cursor, fork, sameInstructions, Array.size_append, Array.size_empty,
      Nat.add_zero, Nat.add_assoc] using holds

end Emitter

end ExprCode
