import ExprCode.Proofs.ForwardGeneration
import ExprCode.Proofs.SemanticPreservation
import ExprCode.Proofs.ShortestLayout
import ExprCode.Proofs.StraightCode

/-! # Compiled code is closed and goes forward

Main statement: `closed_of_compile`. The bytes of compiled code are instructions from the first to
the last, of which only the last one is a return. Branches lead forward to instructions, and all
that instructions refer to is there (`Code.Closed`). So a machine performs every instruction at most
once and stops after at most as many steps as there are instructions. -/

namespace ExprCode

/-- How many there are of what instructions of code refer to. -/
def Code.sizes (code : Code) (arguments : Nat) : ReferenceKind → Nat
  | .argument => arguments
  | .slot => code.locals.size
  | .string => code.strings.size
  | .type => code.types.size
  | .function => code.functions.size

/-- Code that consists of instructions, goes forward to a return at its end, and refers only to what
is there. -/
structure Code.Closed (code : Code) (arguments : Nat) : Prop where
  /-- The first instruction is at the start. -/
  starts : code.instructionOffsets.head? = some 0
  /-- Every instruction ends where the next one starts, and the last one where the bytes end. -/
  whole : code.instructionOffsets.map (fun offset => (code.decodeAt? offset).map Decoded.next) =
    (code.instructionOffsets.tail ++ [code.bytes.size]).map some
  /-- The last instruction is a return, and no other is. -/
  returns : ∃ body last, code.instructionOffsets = body ++ [last] ∧
    code.decodeAt? last = some ⟨.ret, [], code.bytes.size⟩ ∧
    ∀ offset ∈ body, ∃ decoded, code.decodeAt? offset = some decoded ∧ decoded.op ≠ .ret
  /-- Branches lead forward to instructions. -/
  branches : ∀ offset ∈ code.instructionOffsets, ∀ condition form immediate next,
    code.decodeAt? offset = some ⟨.branch condition form, immediate, next⟩ →
      ∃ target ∈ code.instructionOffsets, offset < target ∧
        (next : Int) + Bytes.toInt immediate = target
  /-- What other instructions refer to is there. -/
  references : ∀ offset ∈ code.instructionOffsets, ∀ decoded, code.decodeAt? offset = some decoded →
    decoded.op.isBranch = false → ∃ operand, decoded.op.operandKind.operand? decoded.immediate =
      some operand ∧
      ∀ kind number, Instruction.reference? ⟨decoded.op, operand⟩ = some (kind, number) →
        number < code.sizes arguments kind

/-! ## Machines in closed code -/

namespace Code.Closed

variable {code : Code} {arguments : Nat} {program : Program} {before after : Machine}

/-- What is not a return is followed by another instruction. -/
theorem next_mem (closed : code.Closed arguments) {offset : Nat} {decoded : Decoded}
    (listed : offset ∈ code.instructionOffsets) (decodes : code.decodeAt? offset = some decoded)
    (goesOn : decoded.op ≠ .ret) : decoded.next ∈ code.instructionOffsets := by
  obtain ⟨body, last, split, atLast, -⟩ := closed.returns
  have inBody : offset ∈ body := by
    rw [split] at listed
    rcases List.mem_append.1 listed with inBody | isLast
    · exact inBody
    · -- the last one is a return
      cases List.mem_singleton.1 isLast
      rw [atLast] at decodes
      cases decodes
      exact absurd rfl goesOn
  -- the last instruction ends where the bytes end, so the others end where instructions start
  have nexts := closed.whole
  rw [List.map_append, split, List.map_append] at nexts
  have bodyNexts := List.append_inj_left' nexts rfl
  have isNext : some decoded.next ∈ (body ++ [last]).tail.map some := by
    rw [← bodyNexts]
    exact List.mem_map.2 ⟨offset, inBody, by rw [decodes]; rfl⟩
  obtain ⟨next, inTail, same⟩ := List.mem_map.1 isNext
  cases same
  exact split ▸ List.mem_of_mem_tail inTail

/-- A step that does not end the run leads forward to an instruction. -/
theorem step_forward (closed : code.Closed arguments) (isCode : program.code = code)
    (listed : before.pc ∈ code.instructionOffsets)
    (h : Machine.step program before = .ok none after) :
    before.pc < after.pc ∧ after.pc ∈ code.instructionOffsets := by
  subst isCode
  obtain ⟨decoded, pops, pushes, decodes, effect, -, target⟩ := Machine.step_effect h
  obtain ⟨op, immediate, next⟩ := decoded
  -- a return would have ended the run
  have goesOn : op ≠ .ret := by
    rintro rfl
    cases effect
  have further := (Code.lt_next_of_decodeAt? decodes).1
  have isNext := closed.next_mem listed decodes goesOn
  have straight (same : (after.pc : Int) = next) :
      before.pc < after.pc ∧ after.pc ∈ program.code.instructionOffsets := by
    rw [Int.ofNat_inj.1 same]
    exact ⟨further, isNext⟩
  cases op with
  | branch condition form =>
    obtain ⟨place, isPlace, forward, leads⟩ :=
      closed.branches _ listed condition form immediate next decodes
    have jumps (same : (after.pc : Int) = next + Bytes.toInt immediate) :
        before.pc < after.pc ∧ after.pc ∈ program.code.instructionOffsets := by
      rw [leads] at same
      rw [Int.ofNat_inj.1 same]
      exact ⟨forward, isPlace⟩
    cases condition with
    | always => exact jumps (List.mem_singleton.1 target)
    | ifTrue | ifFalse =>
      rcases List.mem_cons.1 target with same | rest
      · exact straight same
      · exact jumps (List.mem_singleton.1 rest)
  | _ => exact straight (List.mem_singleton.1 target)

/-- A machine passes instructions in their order, so none of them twice. -/
theorem passes_ascending (closed : code.Closed arguments) (isCode : program.code = code)
    (listed : before.pc ∈ code.instructionOffsets) {trace : List Nat}
    (passes : Machine.Passes program trace before after) :
    (trace ++ [after.pc]).Pairwise (· < ·) ∧ (∀ offset ∈ trace ++ [after.pc], before.pc ≤ offset) ∧
      ∀ offset ∈ trace ++ [after.pc], offset ∈ code.instructionOffsets := by
  induction passes with
  | refl machine => simpa using listed
  | @head trace before middle after first _ ih =>
    obtain ⟨forward, middleListed⟩ := closed.step_forward isCode listed first
    obtain ⟨ascending, behind, inside⟩ := ih middleListed
    rw [List.cons_append, List.pairwise_cons, List.forall_mem_cons, List.forall_mem_cons]
    refine ⟨⟨fun offset passed => ?_, ascending⟩, ⟨Nat.le_refl _, fun offset passed => ?_⟩, listed,
      inside⟩
    · exact Nat.lt_of_lt_of_le forward (behind offset passed)
    · exact (Nat.lt_of_lt_of_le forward (behind offset passed)).le

/-- The instructions from an offset on. -/
def ahead (code : Code) (offset : Nat) : Finset Nat :=
  code.instructionOffsets.toFinset.filter (offset ≤ ·)

/-- A run ends after at most as many steps as there are instructions from its start on. -/
theorem run_ends (closed : code.Closed arguments) (isCode : program.code = code) {limit : Nat}
    (listed : before.pc ∈ code.instructionOffsets) (enough : (ahead code before.pc).card ≤ limit) :
    ∃ outcome, ∀ more, Machine.run program (limit + more) before = some outcome := by
  -- every step leaves one instruction behind
  induction limit generalizing before with
  | zero =>
    have here : before.pc ∈ ahead code before.pc := by simpa [ahead] using listed
    rw [Nat.le_zero, Finset.card_eq_zero] at enough
    rw [enough] at here
    cases here
  | succ limit ih =>
    simp only [Nat.add_right_comm limit 1, Machine.run]
    cases step : (Machine.step program).run before with
    | error error after => exact ⟨_, fun _ => rfl⟩
    | ok value after =>
      cases value with
      | some value => exact ⟨_, fun _ => rfl⟩
      | none =>
        obtain ⟨forward, afterListed⟩ := closed.step_forward isCode listed step
        refine ih afterListed ?_
        have fewer : ahead code after.pc ⊂ ahead code before.pc := by
          refine Finset.ssubset_iff_subset_ne.2 ⟨fun offset => ?_, fun same => ?_⟩
          · simp only [ahead, Finset.mem_filter]
            rintro ⟨inside, behind⟩
            exact ⟨inside, forward.le.trans behind⟩
          · have here : before.pc ∈ ahead code before.pc := by simpa [ahead] using listed
            rw [← same] at here
            exact absurd (Finset.mem_filter.1 here).2 (Nat.not_le.2 forward)
        have := Finset.card_lt_card fewer
        omega

/-- Closed code stops after at most as many steps as it has instructions. -/
theorem execute_ends (closed : code.Closed arguments) (isCode : program.code = code) (heap : Heap) :
    ∃ outcome, ∀ limit, code.instructionOffsets.length ≤ limit →
      Machine.execute limit program heap = some outcome := by
  subst isCode
  unfold Machine.execute
  split
  · have start : (Machine.initial program.code heap).pc ∈ program.code.instructionOffsets :=
      List.mem_of_mem_head? closed.starts
    obtain ⟨outcome, ends⟩ := closed.run_ends rfl start
      ((Finset.card_filter_le _ _).trans (List.toFinset_card_le _))
    refine ⟨outcome, fun limit much => ?_⟩
    rw [← Nat.add_sub_of_le much]
    exact ends _
  · exact ⟨_, fun _ _ => rfl⟩

end Code.Closed

/-! ## Finished code -/

/-- An opcode with an operand that is no label is no branch. -/
theorem Opcode.isBranch_of_plain {op : Opcode} {operand : Operand}
    (fits : operand.fits op.operandKind)
    (noLabel : Instruction.target? ⟨op, operand⟩ = none) : op.isBranch = false := by
  cases op with
  | branch condition form =>
    -- all forms of branches ask for a label
    cases operand with
    | label => cases noLabel
    | _ => cases form <;> cases fits
  | _ => rfl

/-- Instructions have bytes, so their order is that of their places. -/
theorem Layout.offsets_lt {instructions : Array Instruction} (forms : Forms instructions)
    {first second : Nat}
    (ordered : first < second) (inside : second ≤ instructions.size) :
    (offsets instructions forms).getD first 0 < (offsets instructions forms).getD second 0 := by
  have next : (offsets instructions forms).getD (first + 1) 0 = _ :=
    getD_offsets_succ (Nat.lt_of_lt_of_le ordered inside)
  calc (offsets instructions forms).getD first 0
      < (offsets instructions forms).getD (first + 1) 0 := by
        rw [next, Instruction.encodedLength, Opcode.encodedLength]
        omega
    _ ≤ (offsets instructions forms).getD second 0 := offsets_le forms ordered inside

namespace Emitter

variable {arguments last : Nat} {emitter : Emitter} {code : Code}

/-- Finishing keeps what instructions refer to. -/
theorem sizes_of_finalize (h : emitter.finalize = .ok code) (kind : ReferenceKind) :
    code.sizes arguments kind = emitter.sizes arguments kind := by
  obtain ⟨_, _, finished⟩ := finished_of_finalize h
  cases kind with
  | argument => rfl
  | slot => exact (congrArg Array.size finished.locals).trans Array.size_map
  | string => exact congrArg Array.size finished.strings
  | type => exact congrArg Array.size finished.types
  | function => exact congrArg Array.size finished.functions

section Encoding

variable {positions : Array Nat} {forms : Layout.Forms emitter.instructions}
  (rounded : emitter.Rounded arguments last) (bytes : code.bytes.toList = encoding positions forms)

include rounded bytes

namespace Rounded

/-- Instructions are where the layout has them. -/
theorem instructionOffsets_eq : code.instructionOffsets =
    (List.range (last + 1)).map fun index =>
    (Layout.offsets emitter.instructions forms).getD index 0 := by
  have start : (Layout.offsets emitter.instructions forms).getD 0 0 = 0 :=
    Layout.getD_offsets (Nat.zero_le _)
  have walk := offsetsFrom_eq rounded.fitting bytes emitter.instructions.size 0 (Nat.zero_add _)
  rw [start, rounded.size, ← List.range_eq_range'] at walk
  exact walk

/-- The offsets of finished code are those of its layout. -/
theorem mem_instructionOffsets {offset : Nat} : offset ∈ code.instructionOffsets ↔
    ∃ index ≤ last, (Layout.offsets emitter.instructions forms).getD index 0 = offset := by
  simp only [rounded.instructionOffsets_eq bytes, List.mem_map, List.mem_range, Nat.lt_succ_iff]

/-- The code ends behind its last instruction. -/
theorem getD_offsets_end :
    (Layout.offsets emitter.instructions forms).getD (last + 1) 0 = code.bytes.size := by
  rw [← rounded.size, Layout.getD_offsets_size, size_bytes rounded.fitting bytes]

/-- The last instruction is decoded as a return. -/
theorem decodeAt?_last : code.decodeAt? ((Layout.offsets emitter.instructions forms).getD last 0) =
    some ⟨.ret, [], code.bytes.size⟩ := by
  obtain ⟨inside, isReturn⟩ := Array.getElem?_eq_some_iff.1 rounded.returns
  have decodes := decodeAt?_plain rounded.fitting bytes inside (by rw [isReturn]; rfl)
  rwa [isReturn, rounded.getD_offsets_end bytes] at decodes

/-- Every instruction ends where the next one starts. -/
theorem whole :
    code.instructionOffsets.map (fun offset => (code.decodeAt? offset).map Decoded.next) =
    (code.instructionOffsets.tail ++ [code.bytes.size]).map some := by
  have next (index : Nat) (listed : index ∈ List.range (last + 1)) :
      (code.decodeAt? ((Layout.offsets emitter.instructions forms).getD index 0)).map Decoded.next =
        some ((Layout.offsets emitter.instructions forms).getD (index + 1) 0) := by
    rw [List.mem_range, ← rounded.size] at listed
    obtain ⟨decoded, decodes, ends⟩ := next_of_decodeAt? rounded.fitting bytes listed
    rw [decodes, Option.map_some, ends]
  rw [rounded.instructionOffsets_eq bytes, List.map_map, ← rounded.getD_offsets_end bytes]
  calc _ = (List.range (last + 1)).map fun index =>
        some ((Layout.offsets emitter.instructions forms).getD (index + 1) 0) :=
          List.map_congr_left next
    _ = _ := by
      nth_rewrite 1 [List.range_succ]
      rw [List.range_succ_eq_map]
      simp

variable (labelled : emitter.labelPositions = .ok positions)
  (stable : Layout.widen emitter.instructions positions forms = .ok forms)
  (small : code.bytes.size < 2 ^ 31)

include labelled stable small

/-- An instruction before the return is a branch that leads forward, or it refers to what is
there. -/
theorem decodeAt?_body {index : Nat} (inside : index < last) :
    (∃ op operand, code.decodeAt? ((Layout.offsets emitter.instructions forms).getD index 0) =
        some ⟨op, operand.encode, (Layout.offsets emitter.instructions forms).getD (index + 1) 0⟩ ∧
      op.isBranch = false ∧ op ≠ .ret ∧ op.operandKind.operand? operand.encode = some operand ∧
      Instruction.Admitted (emitter.sizes arguments) ⟨op, operand⟩) ∨
    ∃ condition form immediate target,
      code.decodeAt? ((Layout.offsets emitter.instructions forms).getD index 0) =
        some ⟨.branch condition form, immediate,
          (Layout.offsets emitter.instructions forms).getD (index + 1) 0⟩ ∧
      index < target ∧ target ≤ last ∧
      ((Layout.offsets emitter.instructions forms).getD (index + 1) 0 : Int) +
        Bytes.toInt immediate =
        (Layout.offsets emitter.instructions forms).getD target 0 := by
  have known : index < emitter.instructions.size := by
    rw [rounded.size]
    omega
  obtain ⟨⟨op, operand⟩, here⟩ : ∃ instruction, emitter.instructions[index] = instruction :=
    ⟨_, rfl⟩
  have found := Array.getElem?_eq_some_iff.2 ⟨known, here⟩
  have admitted := rounded.admitted inside found
  cases names : Instruction.target? ⟨op, operand⟩ with
  | none =>
    left
    have decodes := decodeAt?_plain rounded.fitting bytes known (by rw [here]; exact names)
    rw [here] at decodes
    exact ⟨op, operand, decodes, Opcode.isBranch_of_plain admitted.fits names, admitted.goesOn,
      Operand.operand?_encode admitted.fits names, admitted⟩
  | some label =>
    right
    obtain ⟨rfl, condition, form, rfl⟩ := Instruction.branch_of_target? admitted.fits names
    obtain ⟨position, marked, behind, atMost⟩ := rounded.ahead inside found names
    -- the displacement counts from the end of the branch, and code this short has room for it
    rw [size_bytes rounded.fitting bytes] at small
    refine ⟨condition, forms[index], _, position, decodeAt?_branch rounded.fitting bytes known here,
      behind, atMost, ?_⟩
    rw [toInt_displacement stable small known here, Layout.displacement,
      getD_labelPositions labelled marked]
    omega

/-- Instructions before the return are none. -/
theorem goesOn_body {index : Nat} (inside : index < last) :
    ∃ decoded, code.decodeAt? ((Layout.offsets emitter.instructions forms).getD index 0) =
      some decoded ∧
      decoded.op ≠ .ret := by
  rcases rounded.decodeAt?_body bytes labelled stable small inside with
    ⟨op, operand, plain, -, goesOn, -⟩ | ⟨condition, form, immediate, target, branches, -⟩
  · exact ⟨_, plain, goesOn⟩
  · exact ⟨_, branches, by simp⟩

/-- Branches lead forward to instructions. -/
theorem leads {offset : Nat} (listed : offset ∈ code.instructionOffsets)
    {condition : BranchCondition}
    {form : BranchForm} {immediate : List UInt8} {next : Nat}
    (decodes : code.decodeAt? offset = some ⟨.branch condition form, immediate, next⟩) :
    ∃ target ∈ code.instructionOffsets, offset < target ∧
      (next : Int) + Bytes.toInt immediate = target := by
  obtain ⟨index, atMost, rfl⟩ := (rounded.mem_instructionOffsets bytes).1 listed
  rcases Nat.lt_or_eq_of_le atMost with inside | rfl
  · rcases rounded.decodeAt?_body bytes labelled stable small inside with
      ⟨op, operand, plain, noBranch, -⟩ |
      ⟨otherCondition, otherForm, displacement, target, branches, forward, inCode, leads⟩
    · rw [plain, Option.some.injEq] at decodes
      cases decodes
      cases noBranch
    · rw [branches, Option.some.injEq] at decodes
      cases decodes
      refine ⟨_, (rounded.mem_instructionOffsets bytes).2 ⟨target, inCode, rfl⟩, ?_, leads⟩
      exact Layout.offsets_lt forms forward (by rw [rounded.size]; omega)
  · -- the last instruction is no branch
    rw [rounded.decodeAt?_last bytes] at decodes
    cases decodes

/-- What other instructions refer to is there. -/
theorem refers {offset : Nat} (listed : offset ∈ code.instructionOffsets) {decoded : Decoded}
    (decodes : code.decodeAt? offset = some decoded) (noBranch : decoded.op.isBranch = false) :
    ∃ operand, decoded.op.operandKind.operand? decoded.immediate = some operand ∧
      ∀ kind number, Instruction.reference? ⟨decoded.op, operand⟩ = some (kind, number) →
        number < emitter.sizes arguments kind := by
  obtain ⟨index, atMost, rfl⟩ := (rounded.mem_instructionOffsets bytes).1 listed
  rcases Nat.lt_or_eq_of_le atMost with inside | rfl
  · rcases rounded.decodeAt?_body bytes labelled stable small inside with
      ⟨op, operand, plain, -, -, reads, admitted⟩ |
        ⟨condition, form, displacement, target, branches, -⟩
    · rw [plain, Option.some.injEq] at decodes
      subst decodes
      exact ⟨operand, reads, admitted.inBounds⟩
    · rw [branches, Option.some.injEq] at decodes
      subst decodes
      cases noBranch
  · rw [rounded.decodeAt?_last bytes, Option.some.injEq] at decodes
    subst decodes
    exact ⟨.none, rfl, by rintro kind number ⟨⟩⟩

end Rounded

end Encoding

/-- The finished code of an emitter that ends with the only return is closed. -/
theorem Rounded.closed (rounded : emitter.Rounded arguments last)
    (finished : emitter.finalize = .ok code)
    (small : code.bytes.size < 2 ^ 31) : code.Closed arguments := by
  obtain ⟨positions, _, done⟩ := finished_of_finalize finished
  have labelled := done.labelled
  obtain ⟨forms, passes, rfl, stable, bytes⟩ := done.encoding rounded.fitting
  have offsets := rounded.instructionOffsets_eq bytes
  constructor
  case starts =>
    rw [offsets, List.range_succ_eq_map, List.map_cons, List.head?_cons,
      Layout.getD_offsets (Nat.zero_le _)]
    rfl
  case whole => exact rounded.whole bytes
  case returns =>
    refine ⟨_, _, by rw [offsets, List.range_succ, List.map_append]; rfl,
      rounded.decodeAt?_last bytes, ?_⟩
    intro offset listed
    obtain ⟨index, inRange, rfl⟩ := List.mem_map.1 listed
    exact rounded.goesOn_body bytes labelled stable small (List.mem_range.1 inRange)
  case branches =>
    intro offset listed condition form immediate next decodes
    exact rounded.leads bytes labelled stable small listed decodes
  case references =>
    intro offset listed decoded decodes noBranch
    simp only [sizes_of_finalize finished]
    exact rounded.refers bytes labelled stable small listed decodes noBranch

end Emitter

/-! ## Compiled code -/

section

variable {env : Environment} {expr : Expr} {maxLocals : Nat} {code : Code}

/-- **Compiled code is closed.** It goes forward to its only return and refers only to what is
there, whatever the environment and the expression, also if nodes occur in it several times. So a
machine performs no instruction twice, and stops. What the host does is a function here, so it
answers. -/
theorem closed_of_compile (compiled : compile env expr maxLocals = .ok code)
    (small : code.bytes.size < 2 ^ 31) :
    code.Closed env.variableTypes.size ∧ ∀ arguments host heap,
      (∀ trace after, Machine.Passes ⟨code, arguments, host⟩ trace (.initial code heap) after →
        (trace ++ [after.pc]).Pairwise (· < ·) ∧
          ∀ offset ∈ trace ++ [after.pc], offset ∈ code.instructionOffsets) ∧
      ∃ outcome, ∀ limit, code.instructionOffsets.length ≤ limit →
        Machine.execute limit ⟨code, arguments, host⟩ heap = some outcome := by
  obtain ⟨type, typing, emitter, -, generated, finished⟩ := compile_eq_ok compiled
  obtain ⟨last, rounded⟩ := Codegen.rounded_of_program generated
  have closed := rounded.closed finished small
  refine ⟨closed, fun arguments host heap =>
    ⟨fun trace after passes => ?_, closed.execute_ends rfl heap⟩⟩
  have start : (Machine.initial code heap).pc ∈ code.instructionOffsets :=
    List.mem_of_mem_head? closed.starts
  obtain ⟨ascending, -, listed⟩ := closed.passes_ascending rfl start passes
  exact ⟨ascending, listed⟩

end

/-- One node in two places of a chain. The first place branches to the second, by a label of that
node. -/
def memberTwice : Expr :=
  let member := .ident ⟨2, 0, 0⟩ "member"
  .logical ⟨0, 0, 0⟩ .or (.logical ⟨1, 0, 0⟩ .and member (.literal ⟨3, 0, 0⟩ (.bool false))) member

/-- The code of a chain with a repeated node is closed, and runs as many steps as it has
instructions at most. -/
theorem closed_memberTwice :
    ¬ memberTwice.IsTree ∧ ∃ code, compile pricing memberTwice 4 = .ok code ∧
    code.Closed 1 ∧
      ∃ outcome, Machine.execute code.instructionOffsets.length ⟨code, #[.bool true], fiveHost⟩ {} =
      some outcome := by
  obtain ⟨code, compiled, small⟩ :
      ∃ code, compile pricing memberTwice 4 = .ok code ∧ code.bytes.size < 2 ^ 31 :=
        ⟨_, by cbv, by decide⟩
  obtain ⟨closed, runs⟩ := closed_of_compile compiled small
  obtain ⟨outcome, ends⟩ := (runs #[.bool true] fiveHost {}).2
  exact ⟨by decide, code, compiled, closed, outcome, ends _ (Nat.le_refl _)⟩

end ExprCode
