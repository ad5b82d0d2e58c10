import ExprCode.Proofs.ArrayWrites
import ExprCode.Proofs.TypeSoundness

/-! # Conditions

Main statement: `condition_of_reaches`. Whenever compiled code comes to a conditional branch, there
is a truth value on the stack for it, except behind the test of an item by a method that was not
declared to answer with one: typing does not look at the result of such a method (`Unanswered`). The
branches of conditionals and of chains have no exception. -/

namespace ExprCode

open Semantics

/-! ## Host calls of a run -/

/-- All host calls were answered. -/
def Answered (host : Host) (calls : Array HostCall) : Prop :=
  ∀ call ∈ calls, ∃ value, (host.call call.function call.arguments call.heap).1 = .ok value

namespace Machine

variable {program : Program}

/-- A step behind which the run goes on makes no host call that is not answered. -/
theorem answered_of_step {machine after : Machine} (stepped : step program machine = .ok none after)
    (answered : Answered program.host machine.calls) : Answered program.host after.calls := by
  have change := worldChange_of_step stepped
  show Answered program.host after.world.calls
  generalize after.world = world at change
  cases change with
  | none | made | stored => exact answered
  | called function arguments answers =>
    intro call listed
    rcases Array.mem_push.1 listed with old | rfl
    · exact answered call old
    · exact answers none after stepped

/-- Whatever a run reaches, all host calls on the way were answered. -/
theorem Reaches.answered {before after : Machine} (reaches : Reaches program before after)
    (answered : Answered program.host before.calls) : Answered program.host after.calls := by
  induction reaches with
  | refl => exact answered
  | head first _ ih =>
    exact ih (answered_of_step first answered)

/-! ## Conditional branches -/

/-- A conditional branch finds a truth value on the stack, or ends the run by a fault and makes no
host call. -/
theorem step_of_condition (program : Program) {machine : Machine} {decoded : Decoded}
    {condition : BranchCondition}
    {displacement : Int} (decodes : program.code.decodeAt? machine.pc = some decoded)
    (reads : Action.read decoded.op decoded.immediate = .branch condition displacement)
    (conditional : condition ≠ .always) :
    (∃ b rest, machine.stack = .bool b :: rest) ∨
      ∃ fault after, step program machine = .error (.invalidProgram fault) after ∧
        after.calls = machine.calls := by
  rw [step_of_decodes decodes, reads]
  obtain ⟨pc, stack, locals, heap, calls⟩ := machine
  cases stack with
  | nil =>
    refine .inr ⟨.stackUnderflow, ?_⟩
    cases condition with
    | always => exact absurd rfl conditional
    | ifTrue | ifFalse => exact ⟨_, rfl, rfl⟩
  | cons value rest =>
    cases value with
    | bool b => exact .inl ⟨b, rest, rfl⟩
    | _ =>
      refine .inr ⟨.expectedBoolean, ?_⟩
      cases condition with
      | always => exact absurd rfl conditional
      | ifTrue | ifFalse => exact ⟨_, rfl, rfl⟩

/-- A run that has ended ends so under every greater limit. -/
theorem run_of_le {limit more : Nat} {machine : Machine} {outcome : Outcome} (enough : limit ≤ more)
    (ended : run program limit machine = some outcome) :
    run program more machine = some outcome := by
  induction limit generalizing machine more with
  | zero => cases ended
  | succ limit ih =>
    obtain ⟨more, rfl⟩ : ∃ fewer, more = fewer + 1 := ⟨more - 1, by omega⟩
    rw [run] at ended ⊢
    split at ended
    · exact ih (by omega) ended
    · exact ended
    · exact ended

/-- An execution has one outcome. -/
theorem outcome_unique {limit : Nat} {heap : Heap} {one other : Outcome}
    (executed : execute limit program heap = some one)
    (ends : ∃ steps, ∀ limit, steps ≤ limit → execute limit program heap = some other) :
    one = other := by
  obtain ⟨steps, ends⟩ := ends
  have ended := ends (max limit steps) (Nat.le_max_right _ _)
  unfold execute at executed ended
  by_cases version : program.code.version = formatVersion
  · rw [if_pos version] at executed ended
    exact Option.some.inj ((run_of_le (Nat.le_max_left _ _) executed).symm.trans ended)
  · rw [if_neg version] at executed ended
    exact Option.some.inj (executed.symm.trans ended)

/-- A run that reaches a state in which the next step fails ends with that error. -/
theorem execute_of_reaches {heap : Heap} {last after : Machine} {error : RuntimeError}
    {outcome : Outcome}
    (version : program.code.version = formatVersion)
    (reaches : Reaches program (initial program.code heap) last)
    (failed : step program last = .error error after)
    (ends : ∃ steps, ∀ limit, steps ≤ limit → execute limit program heap = some outcome) :
    outcome = ⟨.error error, after.heap, after.calls⟩ := by
  obtain ⟨steps, same⟩ := reaches.run_eq
  have executed : execute (steps + 1) program heap =
      some ⟨.error error, after.heap, after.calls⟩ := by
    have failedRun : (step program).run last = .error error after := failed
    rw [execute, if_pos version, same, run, failedRun]
  exact (outcome_unique executed ends).symm

end Machine

/-! ## Compiled code -/

/-- The last host call was the test of an item of an expression by a method that is not declared to
answer with a truth value, and did not. -/
def Unanswered (env : Environment) (expr : Expr) (host : Host) (calls : Array HostCall) : Prop :=
  ∃ node operand items item method, Expr.member node operand items ∈ expr.parts ∧ item ∈ items ∧
    (typingOf env expr).memberships[item.id]? = some (.overload method) ∧
    method.result ≠ .bool ∧ Misanswered host method calls

section Compiled

variable {env : Environment} {expr : Expr} {maxLocals : Nat} {code : Code} {host : Host}
  {arguments : Array Value} {types : HeapTyping} {heap : Heap}

/-- Executing the code of a tree ends with a value, with a permitted error, or behind the test of an
item that was not answered with a truth value. -/
theorem execute_ends_or_unanswered (declared : env.Declared) (coherent : env.Coherent)
    (honours : host.Honours env) (tree : expr.IsTree)
    (compiled : compile env expr maxLocals = .ok code) (small : code.bytes.size < 2 ^ 31)
    (heapTyped : heap.WellTyped types) (argumentsTyped : ArgumentsTyped env types arguments) :
    ∃ outcome : Machine.Outcome,
      (∃ steps, ∀ limit, steps ≤ limit →
        Machine.execute limit ⟨code, arguments, host⟩ heap = some outcome) ∧
      ∀ error, outcome.result = .error error →
        Permitted host outcome.calls error ∨
          error = .invalidProgram .expectedBoolean ∧ Unanswered env expr host outcome.calls := by
  obtain ⟨⟨type, typed⟩, isCompiled⟩ := compiled_of_compile tree compiled
  refine ⟨_, isCompiled.execute_eq coherent small host arguments heap, ?_⟩
  -- a method that does not answer with a Boolean excuses the error of its test
  have excuse (node : Node) (operand : Expr) (items : List Expr)
      (inExpr : Expr.member node operand items ∈ expr.parts) (item : Expr) (listed : item ∈ items) :
      ItemExcused ⟨env, typingOf env expr, host, arguments⟩
        (fun calls error => error = .invalidProgram .expectedBoolean ∧
          Unanswered env expr host calls)
        item := by
    intro _ _ method tested _ notBool calls misanswered
    exact ⟨rfl, node, operand, items, item, method, inExpr, listed, tested, notBool, misanswered⟩
  have ends := ends_of_excused declared.size_variableTypes_le coherent honours excuse typed
    isCompiled heapTyped argumentsTyped
  unfold outcome ending
  revert ends
  cases eval _ expr [] ⟨heap, #[]⟩ with
  | ok value world => exact fun _ _ returned => nomatch returned
  | error error world =>
    rintro ends _ ⟨⟩
    exact ends

/-- **Conditions are truth values.** Whenever the code of a tree comes to a conditional branch,
there is a truth value on the stack, unless the last host call was the test of an item by a method
that is not declared to answer with a truth value. Execution finds no truth value where one is
expected only then, unless a host function reports such an error of its own. -/
theorem condition_of_reaches (declared : env.Declared) (coherent : env.Coherent)
    (honours : host.Honours env) (tree : expr.IsTree)
    (compiled : compile env expr maxLocals = .ok code) (small : code.bytes.size < 2 ^ 31)
    (heapTyped : heap.WellTyped types) (argumentsTyped : ArgumentsTyped env types arguments) :
    (∀ machine decoded condition displacement,
      Machine.Reaches ⟨code, arguments, host⟩ (Machine.initial code heap) machine →
      code.decodeAt? machine.pc = some decoded →
      Action.read decoded.op decoded.immediate = .branch condition displacement →
        condition ≠ .always →
        (∃ b rest, machine.stack = .bool b :: rest) ∨ Unanswered env expr host machine.calls) ∧
      ∀ limit outcome, Machine.execute limit ⟨code, arguments, host⟩ heap = some outcome →
        outcome.result = .error (.invalidProgram .expectedBoolean) →
          Unanswered env expr host outcome.calls ∨
            ∃ call, outcome.calls.back? = some call ∧
              (host.call call.function call.arguments call.heap).1 =
                .error (.invalidProgram .expectedBoolean) := by
  obtain ⟨final, ends, errors⟩ :=
    execute_ends_or_unanswered declared coherent honours tree compiled small
    heapTyped argumentsTyped
  constructor
  · intro machine decoded condition displacement reaches decodes reads conditional
    rcases Machine.step_of_condition ⟨code, arguments, host⟩ decodes reads conditional with
      isBool | ⟨fault, after, failed, calls⟩
    · exact .inl isBool
    · -- the run ends here, and the last host call was answered
      have version := (compiled_of_compile tree compiled).2.version
      obtain rfl := Machine.execute_of_reaches version reaches failed ends
      have answered : Answered host machine.calls :=
        reaches.answered fun _ none => absurd none (Array.not_mem_empty _)
      rcases errors _ rfl with permitted | ⟨-, unanswered⟩
      · cases permitted with
        | @host call _ last refused =>
          rw [calls] at last
          obtain ⟨value, returned⟩ := answered call (Array.mem_of_back? last)
          rw [returned] at refused
          cases refused
      · exact .inr (calls ▸ unanswered)
  · intro limit outcome executed failed
    obtain rfl := Machine.outcome_unique executed ends
    rcases errors _ failed with permitted | ⟨-, unanswered⟩
    · cases permitted with
      | @host call _ last refused => exact .inr ⟨call, last, refused⟩
    · exact .inl unanswered

end Compiled

/-- Whether the one who pays is a member is asked of a truth value. -/
theorem condition_payment : ∃ code, compile pricing payment 8 = .ok code ∧
    ∀ machine decoded condition displacement,
      Machine.Reaches ⟨code, #[.bool true], fiveHost⟩ (Machine.initial code {}) machine →
      code.decodeAt? machine.pc = some decoded →
      Action.read decoded.op decoded.immediate = .branch condition displacement →
        condition ≠ .always →
        ∃ b rest, machine.stack = .bool b :: rest := by
  obtain ⟨code, compiled, small⟩ := compile_payment
  have noArrays : Heap.WellTyped [] {} := ⟨rfl, fun _ _ none => by cases none⟩
  have isMember : ArgumentsTyped pricing [] #[.bool true] := by
    intro index name type listed
    have first : index < 1 := (Array.getElem?_eq_some_iff.1 listed).1
    obtain rfl : index = 0 := by omega
    cases listed
    exact ⟨.bool true, rfl, .bool⟩
  have conditions :=
    condition_of_reaches declared_pricing (by decide) honours_fiveHost (by decide) compiled
    small noArrays isMember
  refine ⟨code, compiled,
    fun machine decoded condition displacement reaches decodes reads conditional => ?_⟩
  refine (conditions.1 machine decoded condition displacement reaches decodes reads
    conditional).resolve_right ?_
  -- the exception is about membership tests, and there is none
  rintro ⟨_, _, _, _, _, inPayment, -⟩
  simp [payment, Expr.parts, Expr.partsOfList] at inPayment

/-- A variable of a named type, and a method that compares its values and answers with a number. -/
def ranking : Environment where
  variableTypes := #[("price", .named "Money")]
  operators :=
    ⟨[(.named "Money", ⟨"operator_Equality", [.named "Money", .named "Money"], .int .i32, ⟨0⟩⟩)]⟩

/-- Whether a price is one of the prices of a list. -/
def priceListed : Expr := .member ⟨0, 0, 0⟩ (.ident ⟨1, 0, 0⟩ "price") [.ident ⟨2, 0, 0⟩ "price"]

/-- Keep the price, compare it with the item, and branch on the answer. -/
def priceListedCode : Code where
  version := formatVersion
  bytes := #[0x2e, 0, 0, 0x24, 0x20, 0x2e, 0, 0, 0x80, 0, 0, 0x51, 3, 0x11, 0x50, 1, 0x10, 0x02]
  locals := #[.object]
  strings := #[]
  types := #[]
  functions := #[⟨"operator_Equality", 2, ⟨0⟩⟩]
  branches := [⟨5, 0, .short⟩, ⟨7, 1, .short⟩]

/-- The typing of the membership test where the price is a variable and a method compares prices. -/
theorem typeOf_priceListed {env : Environment} {method : OperatorMethod}
    (price : env.findVariable? "price" = some (0, .named "Money"))
    (compares : env.operators.binaryOverload "Equality" (.named "Money") (.named "Money") =
      .ok (some method)) :
    (Typing.typeOf env priceListed []).run {} = .ok .bool
      { types := (((∅ : Std.TreeMap NodeId Ty).insert 1 (.named "Money")).insert 2
        (.named "Money")).insert 0 .bool
        memberships := (∅ : Std.TreeMap NodeId Resolution).insert 2 (.overload method) } := by
  have name : Relation.methodName .eq = "Equality" := rfl
  simp [EStateM.run, priceListed, Typing.typeOf, Typing.typeItems, Typing.remember, Typing.typeItem,
    Typing.typeName, Typing.membershipTest?, Typing.ofExcept, name, compares, price, bind,
    EStateM.bind, get, getThe, MonadStateOf.get, EStateM.get, modify, modifyGet,
    MonadStateOf.modifyGet, EStateM.modifyGet, pure, EStateM.pure, Expr.node, Ty.isNamed]

/-- The method is found for two prices. -/
theorem binaryOverload_ranking :
    ranking.operators.binaryOverload "Equality" (.named "Money") (.named "Money") =
      .ok (some ⟨"operator_Equality", [.named "Money", .named "Money"], .int .i32, ⟨0⟩⟩) := by
  simp [OperatorRegistry.binaryOverload, OperatorRegistry.binarySignatures, OperatorRegistry.find?,
    ranking, OperatorRegistry.methodsOf, OperatorMethod.isNamed, OperatorMethod.sameName,
    OperatorMethod.fullName, bind, Except.bind, pure, Except.pure]

/-- The example compiles to this code. -/
theorem compile_priceListed : compile ranking priceListed 8 = .ok priceListedCode := by
  -- names of methods are compared by `simp` above; evaluation would take the letters one by one
  rw [compile_of_typed (typeOf_priceListed (by cbv) binaryOverload_ranking)]
  cbv

/-- The environment of the example declares its names. -/
theorem declared_ranking : ranking.Declared := by
  have price : Environment.declareVariable {} "price" (.named "Money") =
      .ok (0, { variableTypes := ranking.variableTypes }) := by cbv
  have equality : Environment.registerOperator { variableTypes := ranking.variableTypes }
    (.named "Money")
      ⟨"operator_Equality", [.named "Money", .named "Money"], .int .i32, ⟨0⟩⟩ = .ok ranking := rfl
  exact .registerOperator (.declareVariable .empty price) equality

/-- The environment of the example is coherent. -/
theorem coherent_ranking : ranking.Coherent := by
  constructor
  · refine List.forall_mem_singleton.2 fun converts => ?_
    have compares : ((⟨"operator_Equality", [.named "Money", .named "Money"], .int .i32, ⟨0⟩⟩ :
        OperatorMethod).isNamed implicitConversion || OperatorMethod.isNamed
        ⟨"operator_Equality", [.named "Money", .named "Money"], .int .i32, ⟨0⟩⟩
          explicitConversion) =
        false := by cbv
    exact absurd converts (by simp [compares])
  · decide

/-- The number that the host answers with is of the type that the method declares. -/
theorem honours_ranking : fiveHost.Honours ranking := by
  refine ⟨fun _ none => absurd none List.not_mem_nil, List.forall_mem_singleton.2 ?_⟩
  intro types heap arguments typed _
  refine ⟨types, List.prefix_refl types, typed, fun value returned => ?_⟩
  cases returned
  exact .int rfl

/-- The test of the item is answered with a number, and the branch behind it finds no truth
value. -/
theorem unanswered_ranking : ranking.Declared ∧ ranking.Coherent ∧ fiveHost.Honours ranking ∧
    priceListed.IsTree ∧ compile ranking priceListed 8 = .ok priceListedCode ∧
    Machine.execute 16 ⟨priceListedCode, #[.object "Money" []], fiveHost⟩ {} =
      some ⟨.error (.invalidProgram .expectedBoolean), {},
        #[⟨⟨0⟩, [.object "Money" [], .object "Money" []], {}⟩]⟩ :=
  ⟨declared_ranking, coherent_ranking, honours_ranking, by decide, compile_priceListed, by cbv⟩

end ExprCode
