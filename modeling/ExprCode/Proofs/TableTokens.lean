import ExprCode.Proofs.CallTokens

/-! # What string and type tokens stand for

Main statement: `reference_denotes`. Tables list nothing twice and only grow at the end. The token
that is put into the instructions of a string or of a type stands for exactly that string or type in
all finished code that the instructions get into: that of the emitter itself, whatever is done to
it, and that of every emitter it is spliced into. -/

namespace ExprCode

/-! ## Tables -/

namespace Table

variable {α κ : Type} [Ord κ] [Std.TransOrd κ] [Std.LawfulEqOrd κ] {key : α → κ}

/-- No key is listed twice. -/
theorem nodup_keys (table : Table key) : (table.entries.toList.map key).Nodup := by
  rw [List.nodup_iff_getElem?_ne_getElem?]
  intro i j earlier inside same
  obtain ⟨wanted, atSecond⟩ : ∃ wanted, (table.entries.toList.map key)[j]? = some wanted :=
    ⟨_, List.getElem?_eq_getElem inside⟩
  have atFirst := same.trans atSecond
  simp only [List.getElem?_map, Array.getElem?_toList] at atFirst atSecond
  -- the index has one number for the key
  have number := (table.index_eq wanted i).2 atFirst
  rw [(table.index_eq wanted j).2 atSecond, Option.some.injEq] at number
  exact Nat.ne_of_lt earlier number.symm

/-- What is interned gets a number that has two bytes, or else it is new and there is no number left
for it. -/
theorem intern_cases {table : Table key} (few : table.entries.size ≤ maxEntries) (entry : α) :
    (∃ number interned, table.intern entry = (some number, interned) ∧ number < maxEntries ∧
      interned.entries[number]?.map key = some (key entry)) ∨
    table.intern entry = (none, table) ∧ (∀ known ∈ table.entries, key known ≠ key entry) ∧
      table.entries.size = maxEntries := by
  cases interned : table.intern entry with
  | mk number? after =>
    cases number? with
    | some number =>
      obtain ⟨found, atNumber, same, -⟩ := entry_of_intern interned
      have size := size_intern_le few entry
      rw [interned] at size
      have inside := (Array.getElem?_eq_some_iff.1 atNumber).1
      exact .inl ⟨number, after, rfl, inside.trans_le size, by rw [atNumber, Option.map_some, same]⟩
    | none =>
      right
      -- an entry without a number was not listed, and there was no room for it
      unfold intern at interned
      split at interned
      · cases interned
      · next absent =>
        dsimp only at interned
        split at interned
        · cases interned
        · next full =>
          cases interned
          exact ⟨rfl, key_ne_of_find?_eq_none absent, few.antisymm (Nat.le_of_not_lt full)⟩

end Table

namespace Emitter

variable {before after start now later parent child : Emitter} {own : Bool} {shift : Nat}

/-- The token that a look-up gives is that of the entry, or else the table is full and the entry is
new. -/
theorem lookedUp_cases {α κ : Type} [Ord κ] [Std.TransOrd κ] [Std.LawfulEqOrd κ] {key : α → κ}
    {table : Table key}
    (few : table.entries.size ≤ maxEntries) (entry : α) (name : TableName)
    (restore : Table key → Emitter) :
    (∃ token interned, lookedUp name restore (table.intern entry) = .ok token (restore interned) ∧
      interned.entries[token.toNat]?.map key = some (key entry)) ∨
    lookedUp name restore (table.intern entry) = .error (.tableOverflow name) (restore table) ∧
      (∀ known ∈ table.entries, key known ≠ key entry) ∧ table.entries.size = maxEntries := by
  rcases Table.intern_cases few entry with ⟨number, interned, found, small, there⟩ | ⟨full, unknown⟩
  · refine .inl ⟨.ofNat number, interned, by rw [found]; rfl, ?_⟩
    rwa [UInt16.toNat_ofNat_of_lt_maxEntries small]
  · exact .inr ⟨by rw [full]; rfl, unknown⟩

/-! ## What tokens refer to -/

/-- What the token of an instruction may refer to. -/
inductive Referent where
  /-- A string. -/
  | string (value : String)
  /-- A type. -/
  | type (value : Ty)

namespace Referent

/-- The table that lists it. -/
def table : Referent → TableName
  | string _ => .strings
  | type _ => .types

/-- The token of it. -/
def token : Referent → Emit UInt16
  | string value => stringToken value
  | type value => typeToken value

/-- The entry with a number in the tables of strings and of types is it. -/
def IsEntry (strings : Array String) (types : Array Ty) (number : Nat) : Referent → Prop
  | string value => strings[number]? = some value
  | type value => types[number]? = some value

/-- An emitter lists it already. -/
def Listed (emitter : Emitter) : Referent → Prop
  | string value => value ∈ emitter.strings.entries
  | type value => value ∈ emitter.types.entries

/-- The number of entries of its table. -/
def tableSize (emitter : Emitter) : Referent → Nat
  | string _ => emitter.strings.entries.size
  | type _ => emitter.types.entries.size

/-- Entries stay where they are in tables that grow at the end. -/
theorem IsEntry.extends {strings strings' : Array String} {types types' : Array Ty} {number : Nat}
    {referent : Referent} (there : referent.IsEntry strings types number)
    (moreStrings : Extends strings strings') (moreTypes : Extends types types') :
    referent.IsEntry strings' types' number := by
  cases referent with
  | string value => exact moreStrings _ _ there
  | type value => exact moreTypes _ _ there

/-- A token is that of the entry, or else the table is full and lists no such entry. -/
theorem token_cases (few : before.FewEntries) (referent : Referent) :
    (∃ token strings types, referent.token before = .ok token { before with strings, types } ∧
      referent.IsEntry strings.entries types.entries token.toNat) ∨
    referent.token before = .error (.tableOverflow referent.table) before ∧
      ¬ referent.Listed before ∧ referent.tableSize before = maxEntries := by
  cases referent with
  | string value =>
    rw [token, stringToken_eq]
    rcases lookedUp_cases few.strings value .strings fun strings => { before with strings } with
      ⟨token, strings, found, there⟩ | ⟨full, unknown, size⟩
    · exact .inl ⟨token, strings, before.types, found, by simpa [IsEntry] using there⟩
    · exact .inr ⟨full, fun listed => unknown value listed rfl, size⟩
  | type value =>
    rw [token, typeToken_eq]
    rcases lookedUp_cases few.types value .types fun types => { before with types } with
      ⟨token, types, found, there⟩ | ⟨full, unknown, size⟩
    · exact .inl ⟨token, before.strings, types, found, by simpa [IsEntry] using there⟩
    · exact .inr ⟨full, fun listed => unknown value listed rfl, size⟩

end Referent

/-! ## Instructions with a token -/

/-- An emitter with more instructions, all with one token. -/
def appendTokens (emitter : Emitter) (token : UInt16) (ops : List Opcode) : Emitter :=
  ops.foldl (fun now op => now.append ⟨op, .token token⟩) emitter

section AppendTokens

variable (emitter : Emitter) (token : UInt16) (ops : List Opcode)

/-- One instruction is appended for each opcode. -/
@[simp] theorem instructions_appendTokens :
    (emitter.appendTokens token ops).instructions =
      emitter.instructions ++ (ops.map fun op => (⟨op, .token token⟩ : Instruction)).toArray := by
  induction ops generalizing emitter with
  | nil => simp [appendTokens]
  | cons op ops ih =>
    rw [appendTokens, List.foldl_cons, ← appendTokens, ih]
    simp [append]

/-- Appended instructions leave the strings as they are. -/
@[simp] theorem strings_appendTokens :
    (emitter.appendTokens token ops).strings = emitter.strings := by
  induction ops generalizing emitter with
  | nil => rfl
  | cons op ops ih => exact ih _

/-- Appended instructions leave the types as they are. -/
@[simp] theorem types_appendTokens : (emitter.appendTokens token ops).types = emitter.types := by
  induction ops generalizing emitter with
  | nil => rfl
  | cons op ops ih => exact ih _

end AppendTokens

/-- An instruction that takes a token is never refused one. -/
theorem refusal?_token {op : Opcode} (takes : op.operandKind = .token) (emitter : Emitter)
    (token : UInt16) :
    emitter.refusal? ⟨op, .token token⟩ = none := by
  have fits : (Operand.token token).fits op.operandKind := by rw [takes]; rfl
  have noLocal : Instruction.localIndex? ⟨op, .token token⟩ = none := by
    cases op <;> first | rfl | cases takes
  rw [refusal?, if_pos fits, noLocal]
  rfl

/-- Instructions that take a token are appended one after the other. -/
theorem forM_emit_token {ops : List Opcode} (takes : ∀ op ∈ ops, op.operandKind = .token)
    (token : UInt16)
    (before : Emitter) :
    ops.forM (fun op => emit ⟨op, .token token⟩) before =
      .ok () (before.appendTokens token ops) := by
  induction ops generalizing before with
  | nil => rfl
  | cons op ops ih =>
    have emitted : emit ⟨op, .token token⟩ before = .ok () (before.append ⟨op, .token token⟩) := by
      rw [emit_eq, refusal?_token (takes op List.mem_cons_self)]
    rw [List.forM_eq_forM, List.forM_cons, bind_of_ok emitted]
    exact ih (fun other listed => takes other (List.mem_cons_of_mem _ listed)) _

/-- What a command refers to, and the opcodes of the instructions that it appends for it. Elements
have a token only if the machine does not know their type. -/
def Command.reference? : Command → Option (Referent × List Opcode)
  | .loadString value => some (.string value, [.ldstr])
  | .newArray element => some (.type element, [.newarr])
  | .arrayLoad (.named name) => some (.type (.named name), [.ldelema, .ldobj])
  | .arrayStore (.named name) => some (.type (.named name), [.stelem])
  | _ => none

section Reference

variable {command : Command} {referent : Referent} {ops : List Opcode}

/-- The instructions of a command with a reference take a token. -/
theorem operandKind_of_reference? (refers : command.reference? = some (referent, ops)) :
    ∀ op ∈ ops, op.operandKind = .token := by
  unfold Command.reference? at refers
  split at refers <;> cases refers <;> decide

/-- A command that refers to something finds the token of it and appends its instructions. -/
theorem perform_of_reference? (refers : command.reference? = some (referent, ops)) :
    command.perform = silent (do
      let token ← referent.token
      ops.forM fun op => emit ⟨op, .token token⟩) := by
  unfold Command.reference? at refers
  split at refers <;> cases refers <;>
    simp [Command.perform, Referent.token, emitLoadString, emitNewArray, emitArrayLoad,
      emitArrayStore, loadKind?, storeKind?]

/-- A command that refers to something appends its instructions, or else the table is full. -/
theorem perform_cases (few : before.FewEntries)
    (refers : command.reference? = some (referent, ops)) :
    (∃ token after, command.perform before = .ok none after ∧
      after.instructions =
        before.instructions ++ (ops.map fun op => (⟨op, .token token⟩ : Instruction)).toArray ∧
      referent.IsEntry after.strings.entries after.types.entries token.toNat) ∨
    command.perform before = .error (.tableOverflow referent.table) before ∧
      ¬ referent.Listed before ∧ referent.tableSize before = maxEntries := by
  rw [perform_of_reference? refers, silent]
  rcases referent.token_cases few with ⟨token, strings, types, found, there⟩ | ⟨failed, overflow⟩
  · left
    have appended :=
      forM_emit_token (operandKind_of_reference? refers) token { before with strings, types }
    refine ⟨token, _, ?_, instructions_appendTokens { before with strings, types } token ops, ?_⟩
    · rw [bind_of_ok ((bind_of_ok found).trans appended)]
      rfl
    · simpa using there
  · exact .inr ⟨by simp only [bind, EStateM.bind, failed], overflow⟩

end Reference

/-! ## Emitters that instructions get into -/

/-- What updates and splices keep, and forks have if their emitter has it later, all operations keep
on an emitter that is only given back its own forks. -/
theorem Leads.induction_own {holds : Emitter → Prop}
    (update : ∀ before after, holds before → Update before after → holds after)
    (fork : ∀ base now, BuildsOn base now → holds now → holds base.fork)
    (splice : ∀ now child after, holds now → holds child → Emitter.splice child now = .ok () after →
      holds after)
    (brokenOff : ∀ now child defect after, holds now →
      Emitter.splice child now = .error defect after → holds after)
    (leads : Leads own start now) : own = true → holds start → holds now := by
  induction leads with
  | refl => exact fun _ initially => initially
  | perform _ command ih =>
    intro isOwn initially
    -- a command is a sequence of updates, whatever its outcome
    exact (command.updates _).rec (ih isOwn initially) fun _ step before => update _ _ before step
  | @splice _ _ now base child _ forked _ ih _ ihChild =>
    intro isOwn initially
    have here : holds now := ih isOwn initially
    have inChild : holds child := ihChild rfl (fork base now (forked.buildsOn rfl) here)
    unfold afterwards
    cases run : Emitter.splice child now with
    | error defect after => exact brokenOff now child defect after here run
    | ok value after => exact splice now child after here inChild run
  | foreign => exact fun isOwn => nomatch isOwn

/-- Tokens number all entries of an emitter that is only given back its own forks. -/
theorem Leads.fewEntries (leads : Leads true start now) (few : start.FewEntries) :
    now.FewEntries := by
  refine leads.induction_own (fun _ _ few step => few.update step) ?_ ?_ ?_ rfl few
  · -- the emitter had no more entries when it was forked
    intro base now builds few
    exact ⟨builds.strings.size_le.trans few.strings, builds.types.size_le.trans few.types,
      builds.functions.size_le.trans few.functions⟩
  · intro now child after _ few spliced
    obtain ⟨-, -, rfl⟩ := splice_eq_ok_iff.1 spliced
    exact ⟨few.strings, few.types, few.functions⟩
  · intro now child defect after few failed
    rw [eq_of_splice_error failed]
    exact ⟨few.strings, few.types, few.functions⟩

/-- Instructions stay well formed in an emitter that is only given back its own forks. -/
theorem Leads.wellFormed (leads : Leads true start now) (wellFormed : start.WellFormed) :
    now.WellFormed := by
  refine leads.induction_own (fun _ _ before step => before.update step)
    (fun base _ _ _ => .fork base)
    (fun _ _ _ before inChild spliced => before.splice inChild spliced) ?_ rfl wellFormed
  intro now child defect after before failed
  obtain ⟨same, more⟩ := splice_eq_error failed
  exact before.of_labels same more

/-- The instructions of the first emitter have got into the second, from an instruction on: it is
the first one after more operations, or one that the first was spliced into, and so on. -/
inductive PartOf : (start : Emitter) → (shift : Nat) → (now : Emitter) → Prop
  /-- They are its own. -/
  | refl (start : Emitter) : PartOf start 0 start
  /-- Operations on the emitter that has them. -/
  | leads {start now later : Emitter} {shift : Nat} (part : PartOf start shift now)
      (leads : Leads true now later) : PartOf start shift later
  /-- A splice of the emitter that has them. -/
  | splice {start child parent after : Emitter} {shift : Nat} {intact : Bool}
      (part : PartOf start shift child)
      (reachable : Reachable intact parent) (spliced : Emitter.splice child parent = .ok () after) :
      PartOf start (parent.instructions.size + shift) after

namespace PartOf

/-- A part of a well-formed emitter is well-formed. -/
theorem wellFormed (part : PartOf start shift now) (wellFormed : start.WellFormed) :
    now.WellFormed := by
  induction part with
  | refl => exact wellFormed
  | leads _ leads ih => exact leads.wellFormed ih
  | splice _ reachable spliced ih =>
    exact reachable.wellFormed.splice ih spliced

/-- The instructions are there. -/
theorem instructions (part : PartOf start shift now) {index : Nat} {instruction : Instruction}
    (found : start.instructions[index]? = some instruction) :
    now.instructions[shift + index]? = some instruction := by
  induction part with
  | refl => rwa [Nat.zero_add]
  | leads _ leads ih =>
    exact (leads.buildsOn rfl).instructions _ _ ih
  | splice _ _ spliced ih =>
    -- they stand behind those of the parent
    obtain ⟨-, -, rfl⟩ := splice_eq_ok_iff.1 spliced
    rw [graft, Nat.add_assoc, Array.getElem?_append_right (Nat.le_add_right _ _),
      Nat.add_sub_cancel_left]
    exact ih

/-- The tables come along. -/
theorem tables (part : PartOf start shift now) :
    Extends start.strings.entries now.strings.entries ∧
      Extends start.types.entries now.types.entries := by
  induction part with
  | refl => exact ⟨.refl _, .refl _⟩
  | leads _ leads ih =>
    have builds := leads.buildsOn rfl
    exact ⟨ih.1.trans builds.strings, ih.2.trans builds.types⟩
  | splice _ _ spliced ih =>
    obtain ⟨-, -, rfl⟩ := splice_eq_ok_iff.1 spliced
    exact ih

end PartOf

/-! ## Finished code -/

/-- The instruction of code with a number has an opcode and a token that stands for something. -/
def RefersTo (code : Code) (index : Nat) (op : Opcode) (referent : Referent) : Prop :=
  ∃ offset immediate next, code.instructionOffsets[index]? = some offset ∧
    code.decodeAt? offset = some ⟨op, immediate, next⟩ ∧
    referent.IsEntry code.strings code.types (Bytes.ofBytes immediate)

/-- Instructions without labels are found in finished code, under their number. -/
theorem decodes_of_finalize {code : Code} {index : Nat} {op : Opcode} {operand : Operand}
    (fitting : ∀ instruction ∈ now.instructions,
      instruction.operand.fits instruction.op.operandKind)
    (finished : now.finalize = .ok code) (found : now.instructions[index]? = some ⟨op, operand⟩)
    (noLabel : Instruction.target? ⟨op, operand⟩ = none) :
    (∃ offset next, code.instructionOffsets[index]? = some offset ∧
      code.decodeAt? offset = some ⟨op, operand.encode, next⟩) ∧
    code.strings = now.strings.entries ∧ code.types = now.types.entries := by
  obtain ⟨positions, _, done⟩ := finished_of_finalize finished
  obtain ⟨forms, passes, rfl, -, bytes⟩ := done.encoding fitting
  obtain ⟨inside, here⟩ := Array.getElem?_eq_some_iff.1 found
  have decoded := decodeAt?_plain fitting bytes inside (by rw [here]; exact noLabel)
  rw [here] at decoded
  refine ⟨⟨_, _, ?_, decoded⟩, done.strings, done.types⟩
  have offset : (Layout.offsets now.instructions forms)[index]? = _ :=
    Layout.getElem?_offsets inside.le
  rw [instructionOffsets_eq fitting bytes, List.getElem?_dropLast, if_pos (by simpa using inside),
    Array.getElem?_toList, offset]

/-- An instruction with the token of an entry refers to it in all finished code that it gets
into. -/
theorem PartOf.refersTo {code : Code} {index : Nat} {op : Opcode} {token : UInt16}
    {referent : Referent}
    (part : PartOf start shift now) (wellFormed : start.WellFormed)
    (found : start.instructions[index]? = some ⟨op, .token token⟩)
    (there : referent.IsEntry start.strings.entries start.types.entries token.toNat)
    (finished : now.finalize = .ok code) : RefersTo code (shift + index) op referent := by
  obtain ⟨⟨offset, next, starts, decoded⟩, strings, types⟩ :=
    decodes_of_finalize (part.wellFormed wellFormed).fitting finished (part.instructions found) rfl
  refine ⟨offset, _, next, starts, decoded, ?_⟩
  rw [strings, types, Operand.encode, Bytes.ofBytes_encode_u16]
  exact there.extends part.tables.1 part.tables.2

/-- **String and type tokens are faithful.** The tables of strings and of types list nothing twice,
have at most 65536 entries and keep what they list, as long as the emitter is only given back its
own forks. A command that refers to a string or a type appends its instructions, and they refer to
it in all finished code that they get into; or it fails and changes nothing, because the table is
full and does not list what the command refers to. Elements of the types that the machine knows need
no token. -/
theorem reference_denotes {intact : Bool} (reachable : Reachable intact before) :
    (∀ later, Leads true before later →
      later.strings.entries.toList.Nodup ∧ later.types.entries.toList.Nodup ∧
      later.strings.entries.size ≤ 65536 ∧ later.types.entries.size ≤ 65536 ∧
      Extends before.strings.entries later.strings.entries ∧
      Extends before.types.entries later.types.entries) ∧
    (∀ (command : Command) (referent : Referent) (ops : List Opcode),
      command.reference? = some (referent, ops) →
      (∃ token after, command.perform before = .ok none after ∧
        after.instructions =
          before.instructions ++ (ops.map fun op => (⟨op, .token token⟩ : Instruction)).toArray ∧
        ∀ shift later, PartOf after shift later → ∀ code, later.finalize = .ok code →
          ∀ k op, ops[k]? = some op →
            RefersTo code (shift + (before.instructions.size + k)) op referent) ∨
      command.perform before = .error (.tableOverflow referent.table) before ∧
        ¬ referent.Listed before ∧ referent.tableSize before = 65536) ∧
    ∀ element,
      ((Command.arrayLoad element).reference? = none →
        ∃ kind, (Command.arrayLoad element).perform before =
          .ok none (before.append ⟨.ldelem kind, .none⟩)) ∧
      ((Command.arrayStore element).reference? = none →
        ∃ kind, (Command.arrayStore element).perform before =
          .ok none (before.append ⟨.stelemAt kind, .none⟩)) := by
  refine ⟨fun later leads => ?_, fun command referent ops refers => ?_, fun element => ?_⟩
  · have few := leads.fewEntries reachable.fewEntries
    have builds := leads.buildsOn rfl
    refine ⟨?_, ?_, few.strings, few.types, builds.strings, builds.types⟩
    · simpa using later.strings.nodup_keys
    · simpa using later.types.nodup_keys
  · rcases perform_cases reachable.fewEntries refers with ⟨token, after, done, appended, there⟩ |
      overflow
    · refine .inl ⟨token, after, done, appended, fun shift later part code finished k op listed =>
        ?_⟩
      -- larger code keeps the instruction with its token, further behind
      have wellFormed : after.WellFormed := by
        have reached := (reachable.perform command).wellFormed
        rwa [afterwards, done] at reached
      refine part.refersTo wellFormed ?_ there finished
      rw [appended, Array.getElem?_append_right (Nat.le_add_right _ _), Nat.add_sub_cancel_left]
      simp [listed]
    · exact .inr overflow
  · constructor
    · intro unnamed
      cases element with
      | named name => cases unnamed
      | int type => cases type <;> exact ⟨_, rfl⟩
      | _ => exact ⟨_, rfl⟩
    · intro unnamed
      cases element with
      | named name => cases unnamed
      | int type => cases type <;> exact ⟨_, rfl⟩
      | _ => exact ⟨_, rfl⟩

/-- An emitter that has loaded a string. -/
def loadingName : Emitter := afterwards (Command.loadString "name").perform (withMaxLocals 4)

/-- The emitter of the example is reachable. -/
theorem reachable_loadingName : Reachable true loadingName := (Reachable.new 4).perform _

/-- A fork of it that has loaded an element of a type that only the host knows. -/
def loadingPoint : Emitter :=
  afterwards (Command.arrayLoad (.named "point")).perform loadingName.fork

/-- The load in the fork refers to the type in the code of the parent, behind the instructions of
the parent. -/
theorem reference_denotes_loadingPoint :
    ∃ later code, splice loadingPoint loadingName = .ok () later ∧ later.finalize = .ok code ∧
      RefersTo code 1 .ldelema (.type (.named "point")) ∧
      RefersTo code 2 .ldobj (.type (.named "point")) := by
  obtain ⟨later, spliced⟩ : ∃ later, splice loadingPoint loadingName = .ok () later := ⟨_, rfl⟩
  obtain ⟨code, finished⟩ : ∃ code, later.finalize = .ok code := by
    obtain ⟨-, -, rfl⟩ := splice_eq_ok_iff.1 spliced
    -- there are no labels that could be unmarked
    exact (reachable_loadingName.splice (reachable_loadingName.fork.perform _)
      spliced).exists_finalize
      nofun
  have done : (Command.arrayLoad (.named "point")).perform loadingName.fork =
      .ok none loadingPoint := rfl
  rcases (reference_denotes reachable_loadingName.fork).2.1 (.arrayLoad (.named "point")) _ _
    rfl with
    ⟨token, after, done', -, refers⟩ | ⟨failed, -⟩
  · rw [done] at done'
    cases done'
    have part : PartOf loadingPoint 1 later := (PartOf.refl _).splice reachable_loadingName spliced
    exact ⟨later, code, spliced, finished, refers 1 later part code finished 0 _ rfl,
      refers 1 later part code finished 1 _ rfl⟩
  · rw [done] at failed
    cases failed

end Emitter

end ExprCode
