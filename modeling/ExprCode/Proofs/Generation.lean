import ExprCode.Proofs.EmitterSteps
import ExprCode.Proofs.IntegerArithmetic

/-! # Operations that emit code

`Generates environment strict operation shape` says of an operation of code generation what code it
emits if it succeeds, and that it fails by a defect only, provided that the *strict* condition
holds. Operations are put together with `Generates.bind`; there is one lemma for every operation
that expressions share. -/

namespace ExprCode

namespace Codegen

/-- The code that an operation emits has a shape, and under the strict condition it rejects
nothing. -/
structure Generates (env : Environment) (strict : Prop) {α : Type} (operation : Codegen Emitter α)
    (shape : α → Shape) : Prop where
  /-- What is emitted. -/
  emits : ∀ {before after : Emitter} {value : α}, operation before = .ok value after →
    Emits env (shape value) before after
  /-- How it fails. -/
  fails : ∀ {before after : Emitter} {error : CompileError},
    operation before = .error error after → strict → ∃ defect, error = .defect defect

variable {env : Environment} {strict : Prop} {α β : Type}

namespace Generates

variable {shape : α → Shape} {operation : Codegen Emitter α} {next : α → Codegen Emitter β}

/-- An operation on the emitter fails by a defect only. -/
theorem ofEmit {operation : Emit α}
    (emits : ∀ before value after, operation before = .ok value after →
      Emits env (shape value) before after) :
    Generates env strict (Codegen.ofEmit operation) shape where
  emits {before after value} h := by
    rw [Codegen.ofEmit_eq] at h
    cases run : operation before with
    | ok result emitter =>
      rw [run] at h
      cases h
      exact emits before value after run
    | error defect emitter =>
      rw [run] at h
      cases h
  fails {before after error} h _ := by
    rw [Codegen.ofEmit_eq] at h
    cases run : operation before with
    | ok result emitter =>
      rw [run] at h
      cases h
    | error defect emitter =>
      rw [run] at h
      cases h
      exact ⟨defect, rfl⟩

/-- A plain value generates nothing. -/
theorem pure (value : α) :
    Generates env strict (Pure.pure value)
      (fun result _ start stop => result = value ∧ start = stop) where
  emits h := by
    cases h
    exact (Emits.refl _).mono fun _ _ _ same => ⟨rfl, same⟩
  fails h := by cases h

/-- A shape may be weakened. -/
theorem mono {otherShape : α → Shape} (generates : Generates env strict operation shape)
    (weaker : ∀ value image start stop, shape value image start stop →
      otherShape value image start stop) : Generates env strict operation otherShape :=
  ⟨fun h => (generates.emits h).mono (weaker _), generates.fails⟩

/-- Two operations, the second of which may rely on what the first returns. -/
theorem bindOf {nextShape : α → β → Shape} {fact : α → Prop}
    (first : Generates env strict operation shape)
    (returns : ∀ {before after : Emitter} {value : α}, operation before = .ok value after →
      fact value)
    (second : ∀ value, fact value → Generates env strict (next value) (nextShape value)) :
    Generates env strict (operation >>= next) (fun result image start stop =>
      ∃ value between, shape value image start between ∧
        nextShape value result image between stop) where
  emits h := by
    obtain ⟨value, middle, firstRun, secondRun⟩ := bind_eq_ok h
    refine ((first.emits firstRun).trans
      ((second value (returns firstRun)).emits secondRun)).mono fun _ _ _ => ?_
    rintro ⟨between, left, right⟩
    exact ⟨value, between, left, right⟩
  fails h := by
    rcases bind_eq_error h with failed | ⟨value, middle, firstRun, failed⟩
    · exact first.fails failed
    · exact (second value (returns firstRun)).fails failed

/-- Two operations, one after the other. -/
theorem bind {nextShape : α → β → Shape} (first : Generates env strict operation shape)
    (second : ∀ value, Generates env strict (next value) (nextShape value)) :
    Generates env strict (operation >>= next) (fun result image start stop =>
      ∃ value between, shape value image start between ∧
        nextShape value result image between stop) :=
  first.bindOf (fun _ => trivial) fun value _ => second value

/-- A failure that is a defect whenever the strict condition holds. -/
theorem throw {error : CompileError} (allowed : strict → ∃ defect, error = .defect defect) :
    Generates env strict (MonadExcept.throw error) shape where
  emits h := by cases h
  fails h := by
    cases h
    exact allowed

/-- An operation that goes on with the result of a look-up. -/
theorem ofExcept_bind {lookup : Except Defect α} {shape : β → Shape}
    (each : ∀ value, lookup = .ok value → Generates env strict (next value) shape) :
    Generates env strict (Codegen.ofExcept lookup >>= next) shape := by
  cases lookup with
  | ok value => exact each value rfl
  | error defect => exact throw fun _ => ⟨defect, rfl⟩

/-- An operation that goes on with what typing found out. -/
theorem known_bind {node : Node} {found : Option α} {shape : β → Shape}
    (each : ∀ value, found = some value → Generates env strict (next value) shape) :
    Generates env strict (Codegen.known node found >>= next) shape := by
  cases found with
  | some value => exact each value rfl
  | none => exact throw fun _ => ⟨_, rfl⟩

/-- What typing found out is there, and looking it up emits nothing. -/
theorem known (node : Node) (found : Option α) :
    Generates env strict (Codegen.known node found)
      (fun value _ start stop => found = some value ∧ start = stop) := by
  cases found with
  | some value => exact (pure value).mono fun _ _ _ _ h => ⟨by rw [h.1], h.2⟩
  | none => exact throw fun _ => ⟨_, rfl⟩

end Generates

/-! ## Emitter operations -/

section EmitterOperations

/-- An instruction without operand generates its action. -/
theorem generates_emitOp (op : Opcode) :
    Generates env strict (Emitter.emitOp op)
      (fun _ image start stop => ActionAt image.code start (Action.read op []) stop) :=
  .ofEmit fun _ _ _ => Emitter.emits_emitOp

/-- A branch leads to the place of its label. -/
theorem generates_emitBranch (condition : BranchCondition) (form : BranchForm) (label : Label) :
    Generates env strict (Emitter.emitBranch (.branch condition form) label)
      (fun _ image start stop =>
        BranchAt image.code start condition (image.offset (image.position label)) stop) :=
  .ofEmit fun _ _ _ => Emitter.emits_emitBranch

/-- A new label generates nothing. -/
theorem generates_defineLabel :
    Generates env strict Emitter.defineLabel (fun _ _ start stop => start = stop) :=
  .ofEmit fun _ _ _ => Emitter.emits_defineLabel

/-- A mark generates nothing, and its label stands for the place. -/
theorem generates_markLabel (label : Label) :
    Generates env strict (Emitter.markLabel label) (fun _ image start stop =>
      start = stop ∧ image.offset (image.position label) = start.offset) :=
  .ofEmit fun _ _ _ => Emitter.emits_markLabel

/-- A truth value is pushed. -/
theorem generates_emitLoadBool (value : Bool) :
    Generates env strict (Emitter.emitLoadBool value)
      (fun _ image start stop => ActionAt image.code start (.push (.bool value)) stop) :=
  .ofEmit fun _ _ _ => Emitter.emits_emitLoadBool

/-- A local is loaded. -/
theorem generates_emitLoadLocal (slot : Nat) :
    Generates env strict (Emitter.emitLoadLocal slot)
      (fun _ image start stop => ActionAt image.code start (.loadLocal slot) stop) :=
  .ofEmit fun _ _ _ => Emitter.emits_emitLoadLocal

/-- A function is called. -/
theorem generates_emitCall {wanted : FunctionEntry} (callable : wanted ∈ env.callables) :
    Generates env strict (Emitter.emitCall wanted.name wanted.arity wanted.function)
      (fun _ image start stop => CallAt image.code env start wanted stop) :=
  .ofEmit fun _ _ _ => Emitter.emits_emitCall callable

/-- A local gets the next slot. -/
theorem generates_declareLocal (type : Ty) :
    Generates env strict (Emitter.declareLocal type) (fun slot image start stop =>
      slot = start.slots ∧ slot < image.code.locals.size ∧
        stop = ⟨start.offset, start.slots + 1⟩) :=
  .ofEmit fun _ _ _ => Emitter.emits_declareLocal

/-- A local is stored. -/
theorem generates_emitStoreLocal (slot : Nat) :
    Generates env strict (Emitter.emitStoreLocal slot)
      (fun _ image start stop => ActionAt image.code start (.storeLocal slot) stop) :=
  .ofEmit fun _ _ _ => Emitter.emits_emitStoreLocal

end EmitterOperations

/-! ## Constants and arms -/

/-- An instruction without a label. -/
theorem generates_emit (op : Opcode) (operand : Operand)
    (noLabel : Instruction.target? ⟨op, operand⟩ = none) :
    Generates env strict (Emitter.emit ⟨op, operand⟩) (fun _ image start stop =>
      ActionAt image.code start (Action.read op operand.encode) stop) :=
  .ofEmit fun _ _ _ h => Emitter.emits_action h noLabel

/-- An Int32. -/
theorem generates_emitLoadInt32 (value : Int32) :
    Generates env strict (Emitter.emitLoadInt32 value)
      (fun _ image start stop => ActionAt image.code start (.push (.i32 value.toInt)) stop) :=
  .ofEmit fun _ _ _ => Emitter.emits_emitLoadInt32

/-- The length or an index of an array literal. -/
theorem generates_emitLength {length : Nat} (short : strict → length < 2 ^ 31) :
    Generates env strict (emitLength length) (fun _ image start stop =>
      length < 2 ^ 31 ∧ ActionAt image.code start (.push (.i32 length)) stop) := by
  have limit : lengthLimit = 2 ^ 31 := rfl
  unfold emitLength
  by_cases small : length < 2 ^ 31
  · rw [limit, if_pos small]
    refine (generates_emitLoadInt32 (.ofNat length)).mono fun _ _ _ _ pushed => ⟨small, ?_⟩
    rwa [Int32.toInt_ofNat_of_lt small] at pushed
  · rw [limit, if_neg small]
    exact .throw fun holds => absurd (short holds) small

/-- The bits of an unsigned number, taken as signed and converted, give the number. -/
theorem convert?_signed (signed unsigned : IntType) (sameBits : signed.bits = unsigned.bits)
    {n bits : Int} (sameWord : bits = signed.wrap n) :
    (Value.int (.ofInt signed bits)).convert? (.int unsigned) =
      some (.int (.ofInt unsigned n)) := by
  have value : unsigned.wrap (signed.wrap bits) = unsigned.wrap n := by
    rw [sameWord, IntType.wrap_wrap le_rfl, IntType.wrap_wrap sameBits.ge]
  rw [Value.convert?_int]
  exact congrArg (fun word => some (Value.int word)) (Word.ext rfl value)

/-- The bits of an unsigned number of four bytes, taken as signed. -/
theorem toInt_toInt32 (n : UInt32) : n.toInt32.toInt = IntType.i32.wrap n.toNat := by
  simp only [IntType.wrap, IntType.signed, IntType.bits, if_true]
  exact BitVec.toInt_eq_toNat_bmod n.toBitVec

/-- The bits of an unsigned number of eight bytes, taken as signed. -/
theorem toInt_toInt64 (n : UInt64) : n.toInt64.toInt = IntType.i64.wrap n.toNat := by
  simp only [IntType.wrap, IntType.signed, IntType.bits, if_true]
  exact BitVec.toInt_eq_toNat_bmod n.toBitVec

/-- A constant. -/
theorem generates_emitLiteral (value : Literal) :
    Generates env strict (emitLiteral value)
      (fun _ image start stop => LiteralAt image.code value start stop) := by
  cases value with
  | bool b => exact (generates_emitLoadBool b).mono fun _ _ _ _ pushed => .plain pushed
  | int n => exact (generates_emitLoadInt32 n).mono fun _ _ _ _ pushed => .plain pushed
  | long n =>
    refine (generates_emit .ldcI8 (.i64 n) rfl).mono fun _ _ _ _ pushed => .plain ?_
    rwa [Action.read_ldcI8] at pushed
  | single x =>
    refine (generates_emit .ldcR4 (.f32 x) rfl).mono fun _ _ _ _ pushed => .plain ?_
    rwa [Action.read_ldcR4] at pushed
  | double x =>
    refine (generates_emit .ldcR8 (.f64 x) rfl).mono fun _ _ _ _ pushed => .plain ?_
    rwa [Action.read_ldcR8] at pushed
  | str text =>
    refine (Generates.ofEmit fun _ _ _ => Emitter.emits_emitLoadString).mono
      fun _ image start stop => ?_
    rintro ⟨token, pushed, listed⟩
    exact .string pushed listed
  | uint n =>
    refine ((generates_emitLoadInt32 n.toInt32).bind fun _ =>
      generates_emit .conv (.typeCode (.int .u32)) rfl).mono fun _ _ _ _ => ?_
    rintro ⟨_, middle, pushed, conversion⟩
    rw [Action.read_conv] at conversion
    exact .converted pushed conversion (convert?_signed .i32 .u32 rfl (toInt_toInt32 n))
  | ulong n =>
    refine ((generates_emit .ldcI8 (.i64 n.toInt64) rfl).bind fun _ =>
      generates_emit .conv (.typeCode (.int .u64)) rfl).mono fun _ _ _ _ => ?_
    rintro ⟨_, middle, pushed, conversion⟩
    rw [Action.read_ldcI8] at pushed
    rw [Action.read_conv] at conversion
    exact .converted pushed conversion (convert?_signed .i64 .u64 rfl (toInt_toInt64 n))

/-- What is emitted into a fork is spliced as it is. -/
theorem generates_emitArm {arm : Codegen Emitter Unit} {shape : Unit → Shape}
    (generates : Generates env strict arm shape) :
    Generates env strict (emitArm arm) shape where
  emits {before after _} h := by
    rw [emitArm_eq] at h
    -- the arm is emitted into a fork, which is then spliced
    cases run : arm before.fork with
    | error error child =>
      simp only [run] at h
      cases h
    | ok _ child =>
      simp only [run] at h
      cases spliced : Emitter.splice child before with
      | error defect emitter =>
        rw [ofEmit_eq, spliced] at h
        cases h
      | ok _ emitter =>
        rw [ofEmit_eq, spliced] at h
        cases h
        exact Emitter.emits_splice (generates.emits run) spliced
  fails {before after error} h holds := by
    rw [emitArm_eq] at h
    cases run : arm before.fork with
    | error error child =>
      simp only [run] at h
      cases h
      exact generates.fails run holds
    | ok _ child =>
      simp only [run] at h
      cases spliced : Emitter.splice child before with
      | error defect emitter =>
        rw [ofEmit_eq, spliced] at h
        cases h
        exact ⟨defect, rfl⟩
      | ok _ emitter =>
        rw [ofEmit_eq, spliced] at h
        cases h

/-! ## Conversions -/

/-- A conversion between number types. -/
theorem generates_emitNumericConversion (source target : Ty) :
    Generates env strict (emitNumericConversion source target)
      (fun _ image start stop => NumberAt image.code source target start stop) := by
  unfold emitNumericConversion
  by_cases same : source = target
  · subst same
    rw [if_pos rfl]
    refine (Generates.pure ()).mono fun _ _ _ _ => ?_
    rintro ⟨-, rfl⟩
    exact .same
  · rw [if_neg same]
    refine (generates_emit .conv (.typeCode target.code) rfl).mono fun _ _ _ _ conversion => ?_
    rw [Action.read_conv] at conversion
    exact .convert same conversion

/-- A call of a declared method. -/
theorem generates_emitMethodCall {method : OperatorMethod}
    (declared : ∃ type, (type, method) ∈ env.operators.declared) :
    Generates env strict (emitMethodCall method)
      (fun _ image start stop => CallAt image.code env start method.entry stop) := by
  obtain ⟨type, declared⟩ := declared
  have callable : method.entry ∈ env.callables :=
    Environment.mem_callables_of_declared declared
  have generates : Generates env strict _ _ := generates_emitCall callable
  exact generates

/-- A conversion that was not asked for. -/
theorem generates_emitConversion {source target : Ty} {span : Span}
    (converts : strict → env.operators.canConvert source target ≠ .ok false) :
    Generates env strict (emitConversion env source target span)
      (fun _ image start stop =>
        ConversionAt image.code env source target start stop) := by
  unfold emitConversion
  by_cases implicit : source.isImplicitlyConvertible target
  · rw [if_pos implicit]
    exact (generates_emitNumericConversion source target).mono fun _ _ _ _ conversion =>
      .number implicit conversion
  · rw [if_neg implicit]
    refine .ofExcept_bind fun method? found => ?_
    cases method? with
    | some method =>
      obtain ⟨declared, -⟩ := OperatorRegistry.conversionMethod_eq_some found
      exact (generates_emitMethodCall declared).mono fun _ _ _ _ called =>
        .method implicit found called
    | none =>
      -- the look-up that comes out empty is the one by which `canConvert` says no
      refine .throw fun holds => absurd ?_ (converts holds)
      unfold OperatorRegistry.canConvert
      rw [if_neg implicit, found]
      rfl

/-- A conversion that was asked for. -/
theorem generates_emitCast {source target : Ty} {span : Span}
    (possible : strict → Typing.canCast env source target = .ok true) :
    Generates env strict (emitCast env source target span)
      (fun _ image start stop => CastAt image.code env source target start stop) := by
  unfold emitCast
  refine .ofExcept_bind fun converts found => ?_
  cases converts with
  | true =>
    rw [if_pos rfl]
    exact (generates_emitConversion fun _ => by simp [found]).mono fun _ _ _ _ conversion =>
      .implicit found conversion
  | false =>
    rw [if_neg Bool.false_ne_true]
    by_cases numbers : source.isNumeric && target.isNumeric
    · rw [if_pos numbers]
      exact (generates_emitNumericConversion source target).mono fun _ _ _ _ conversion =>
        .number found numbers conversion
    · rw [if_neg numbers]
      refine .ofExcept_bind fun method? explicit => ?_
      cases method? with
      | some method =>
        obtain ⟨declared, -⟩ := OperatorRegistry.conversionMethod_eq_some explicit
        exact (generates_emitMethodCall declared).mono fun _ _ _ _ called =>
          .method found numbers explicit called
      | none =>
        -- typing looks for the same method, so it would have refused the cast
        refine .throw fun holds => ?_
        have cast := possible holds
        unfold Typing.canCast at cast
        rw [found] at cast
        simp only [bind, Except.bind, Bool.false_eq_true, if_false, if_neg numbers,
          explicit] at cast
        cases cast

/-! ## Operands -/

variable {typing : Typing} {scope : SlotScope}

/-- No type of an expression that typing found lacks the conversion to a type. -/
def Convertible (env : Environment) (typing : Typing) (expr : Expr) (target : Ty) : Prop :=
  ∀ source, typing.types[expr.id]? = some source →
    env.operators.canConvert source target ≠ .ok false

/-- An operation emits the code of an expression. -/
def GeneratesCode (env : Environment) (strict : Prop) (typing : Typing) (scope : SlotScope)
    (expr : Expr) (operation : Codegen Emitter Unit) : Prop :=
  Generates env strict operation fun _ image start stop =>
    CodeAt image.code env typing scope expr start stop

/-- An operand with its conversion. -/
theorem generates_emitConverted {expr : Expr} {code : Codegen Emitter Unit} {target : Ty}
    (generates : GeneratesCode env strict typing scope expr code)
    (converts : strict → Convertible env typing expr target) :
    Generates env strict (emitConverted env typing expr code target)
      (fun _ image start stop =>
        ConvertedAt image.code env typing scope expr target start stop) := by
  unfold emitConverted
  refine .known_bind fun source known => ?_
  refine (generates.bind fun _ => generates_emitConversion fun holds =>
    converts holds source known).mono fun _ image start stop => ?_
  rintro ⟨_, evaluated, operandCode, conversion⟩
  exact .intro known operandCode conversion

/-- A name. -/
theorem generates_emitName {node : Node} {name : String}
    (named : strict → (scope.lookup name).isSome ∨ (env.findVariable? name).isSome) :
    GeneratesCode env strict typing scope (.ident node name)
      (emitName env node name scope) := by
  unfold emitName GeneratesCode
  cases found : scope.lookup name with
  | some slot =>
    exact (generates_emitLoadLocal slot).mono fun _ _ _ _ loaded => .bound found loaded
  | none =>
    cases declared : env.findVariable? name with
    | some entry =>
      obtain ⟨index, type⟩ := entry
      refine (generates_emit .ldarg (.u16 index) rfl).mono fun _ _ _ _ loaded => ?_
      have read : Action.read .ldarg (Operand.encode (.u16 index)) = .loadArgument index.toNat := by
        rw [Action.read, Operand.encode, Bytes.ofBytes_encode_u16]
      rw [read] at loaded
      exact .variable found declared loaded
    | none =>
      refine .throw fun holds => ?_
      rcases named holds with bound | ofEnvironment
      · rw [found] at bound
        cases bound
      · rw [declared] at ofEnvironment
        cases ofEnvironment

/-- Operands convert to types, one by one. -/
inductive AllConvertible (env : Environment) (typing : Typing) : List Expr → List Ty → Prop
  | nil : AllConvertible env typing [] []
  | cons {operand : Expr} {operands : List Expr} {target : Ty} {targets : List Ty}
      (head : Convertible env typing operand target)
      (tail : AllConvertible env typing operands targets) :
      AllConvertible env typing (operand :: operands) (target :: targets)

/-- What typing found out of an expression converts. -/
theorem convertible_of_known {expr : Expr} {type target : Ty}
    (known : typing.types[expr.id]? = some type)
    (converts : env.operators.canConvert type target = .ok true) :
    Convertible env typing expr target := by
  intro source found
  rw [known, Option.some.injEq] at found
  subst found
  rw [converts]
  exact fun h => by cases h

/-- Operands with their conversions. -/
theorem generates_emitArguments {operands : List (Expr × Codegen Emitter Unit)} {targets : List Ty}
    (generates : ∀ operand ∈ operands,
      GeneratesCode env strict typing scope operand.1 operand.2)
    (converts : AllConvertible env typing (operands.map (·.1)) targets) :
    Generates env strict (emitArguments env typing operands targets)
      (fun _ image start stop => OperandsAt image.code env typing scope
        (operands.map (·.1)) targets start stop) := by
  induction operands generalizing targets with
  | nil =>
    cases converts
    refine (Generates.pure ()).mono fun _ _ _ _ => ?_
    rintro ⟨-, rfl⟩
    exact .nil
  | cons operand operands ih =>
    obtain ⟨expr, code⟩ := operand
    cases converts with
    | cons head tail =>
      refine ((generates_emitConverted (generates _ List.mem_cons_self) fun _ => head).bind fun _ =>
        ih (fun other listed => generates other (List.mem_cons_of_mem _ listed))
          tail).mono fun _ _ _ _ => ?_
      rintro ⟨_, evaluated, operandCode, operandsCode⟩
      exact .cons operandCode operandsCode

/-- An operator: its operands, then an action or a call. -/
theorem generates_emitOperator {node : Node} {op : Opcode}
    {operands : List (Expr × Codegen Emitter Unit)}
    {resolution : Resolution} (resolved : typing.resolutions[node.id]? = some resolution)
    (converts : AllConvertible env typing (operands.map (·.1))
      (resolution.targets (operands.map (·.1))))
    (declared : ∀ method, resolution = .overload method →
      ∃ type, (type, method) ∈ env.operators.declared)
    (generates : ∀ operand ∈ operands,
      GeneratesCode env strict typing scope operand.1 operand.2) :
    Generates env strict (emitOperator env typing node op operands)
      (fun _ image start stop => OperatorAt image.code env typing scope resolution
        (operands.map (·.1)) (Action.read op []) start stop) := by
  unfold emitOperator resolutionOf
  refine .known_bind fun found known => ?_
  rw [resolved, Option.some.injEq] at known
  subst known
  cases resolution with
  | primitive type =>
    rw [Resolution.targets, List.map_map] at converts
    refine ((generates_emitArguments generates converts).bind fun _ => generates_emitOp op).mono
      fun _ _ _ _ => ?_
    rintro ⟨_, evaluated, operandsCode, done⟩
    refine .primitive ?_ done
    rwa [List.map_map]
  | overload method =>
    refine ((generates_emitArguments generates converts).bind fun _ =>
      generates_emitMethodCall (declared method rfl)).mono fun _ _ _ _ => ?_
    rintro ⟨_, evaluated, operandsCode, called⟩
    exact .overload operandsCode called

/-- A shift. -/
theorem generates_emitShift {node : Node} {direction : ShiftDirection} {left right : Expr}
    {leftCode rightCode : Codegen Emitter Unit} {resolution : Resolution} {leftType type : Ty}
    (resolved : typing.resolutions[node.id]? = some resolution)
    (rule : ShiftRule env direction leftType resolution type)
    (known : typing.types[left.id]? = some leftType)
    (leftGenerates : GeneratesCode env strict typing scope left leftCode)
    (rightGenerates : GeneratesCode env strict typing scope right rightCode) :
    GeneratesCode env strict typing scope (.shift node direction left right)
      (emitShift env typing node direction left right leftCode rightCode) := by
  unfold emitShift GeneratesCode resolutionOf
  refine .known_bind fun found chosen => ?_
  rw [resolved, Option.some.injEq] at chosen
  subst chosen
  cases rule with
  | primitive intType =>
    -- a width and its promotion differ by a promotion, which needs no method
    have converts : Convertible env typing left (.int intType.promoted) :=
      convertible_of_known known
        (OperatorRegistry.canConvert_of_implicit (by cases intType <;> rfl))
    refine ((generates_emitConverted leftGenerates fun _ => converts).bind fun _ =>
      rightGenerates.bind fun _ => (Generates.known right.node _).bind fun source =>
        (generates_emitNumericConversion source (.int .i32)).bind fun _ =>
          generates_emitOp (.shift direction)).mono fun _ _ _ _ => ?_
    rintro ⟨_, converted, shifted, _, _, count, source, _, ⟨countKnown, rfl⟩, _, counted,
      conversion, done⟩
    exact .shift resolved shifted (.intro countKnown count conversion) done
  | @overload name method found =>
    obtain ⟨declared, -, params⟩ := OperatorRegistry.find?_eq_some found
    -- the method was found with the type of the left operand itself as its first parameter
    have converts : Convertible env typing left (method.params.headD (.int .i32)) := by
      rw [params]
      exact convertible_of_known known (OperatorRegistry.canConvert_self _)
    refine ((generates_emitConverted leftGenerates fun _ => converts).bind fun _ =>
      rightGenerates.bind fun _ => (Generates.known right.node _).bind fun source =>
        (generates_emitNumericConversion source (.int .i32)).bind fun _ =>
          generates_emitMethodCall ⟨_, declared⟩).mono fun _ _ _ _ => ?_
    rintro ⟨_, converted, shifted, _, _, count, source, _, ⟨countKnown, rfl⟩, _, counted,
      conversion, called⟩
    rw [params] at shifted
    exact .shiftMethod resolved params shifted (.intro countKnown count conversion) called

/-- The comparison with an item of a membership test. -/
theorem generates_emitItemTest {operandType itemType : Ty} {operandSpan : Span} {slot : Nat}
    {item : Expr} {code : Codegen Emitter Unit} {test : Resolution}
    (tested : typing.memberships[item.id]? = some test)
    (rule : ItemRule env operandType itemType test)
    (known : typing.types[item.id]? = some itemType)
    (generates : GeneratesCode env strict typing scope item code) :
    Generates env strict
      (emitItemTest env typing operandType operandSpan slot item code)
      (fun _ image start stop =>
        ItemAt image.code env typing scope operandType slot item start stop) := by
  have accepts := rule.accepts
  unfold emitItemTest
  refine .known_bind fun found chosen => ?_
  rw [tested, Option.some.injEq] at chosen
  subst chosen
  cases test with
  | primitive type =>
    -- both sides are converted to one type and compared
    obtain ⟨operandConverts, itemConverts⟩ : env.operators.canConvert operandType type =
        .ok true ∧ env.operators.canConvert itemType type = .ok true := by
      cases accepts.converts with
      | cons head tail =>
        cases tail with
        | cons second _ => exact ⟨head, second⟩
    refine ((generates_emitLoadLocal slot).bind fun _ =>
      (generates_emitConversion fun _ => by simp [operandConverts]).bind fun _ =>
        (generates_emitConverted generates fun _ =>
          convertible_of_known known itemConverts).bind fun _ =>
            generates_emitOp (.compare .eq)).mono fun _ _ _ _ => ?_
    rintro ⟨_, loaded, operandLoaded, _, converted, conversion, _, evaluated, itemCode, comparison⟩
    exact .primitive tested operandLoaded conversion itemCode comparison
  | overload method =>
    -- operand and item are the arguments of a method
    obtain ⟨first, second, params, operandConverts, itemConverts⟩ : ∃ first second,
        method.params = [first, second] ∧
        env.operators.canConvert operandType first = .ok true ∧
        env.operators.canConvert itemType second = .ok true := by
      cases rule with
      | overload named found => exact (OperatorRegistry.binaryOverload_eq_some found).2.2
    have headParam : method.params.headD operandType = first := by rw [params]; rfl
    have nextParam : ∀ type, method.params.getD 1 type = second := by
      intro type
      rw [params]
      rfl
    refine ((generates_emitLoadLocal slot).bind fun _ =>
      (generates_emitConversion fun _ => by
        rw [headParam, operandConverts]
        exact fun h => by cases h).bind fun _ =>
        (Generates.known item.node _).bind fun type =>
          (generates_emitConverted generates fun _ => by
            rw [nextParam]
            exact convertible_of_known known itemConverts).bind fun _ =>
              generates_emitMethodCall (accepts.declared method rfl)).mono fun _ _ _ _ => ?_
    rintro ⟨_, loaded, operandLoaded, _, _, conversion, type, _, ⟨-, rfl⟩, _, evaluated, itemCode,
      called⟩
    rw [headParam] at conversion
    rw [nextParam] at itemCode
    exact .overload tested params operandLoaded conversion itemCode called

end Codegen

end ExprCode
