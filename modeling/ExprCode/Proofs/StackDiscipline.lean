import ExprCode.Proofs.CodeParts
import ExprCode.Proofs.SemanticPreservation
import ExprCode.Proofs.StackEffects

/-! # Stack discipline

All ways through the code of an expression leave one value more on the stack than they found, and
take nothing that was there before. Besides the number of values, code alone tells which of them are
arrays made by a literal (`Mark`), and these are the only ones it stores into (`Guards`).

The lemmas go backwards: from all ways behind some code to all ways in front of it. Calls are the
only instructions whose effect depends on the environment; it has to be coherent. -/

namespace ExprCode

/-! ## What code knows of the stack -/

/-- What is known of a value on the stack: that it is an array made by a literal, or nothing. -/
inductive Mark where
  | made
  | unknown

/-- Whether an action forgets about what it takes and what it leaves instead. -/
def Action.isPlain : Action → Bool
  | .dup | .newArray _ | .storeElement => false
  | _ => true

/-- How an instruction at an offset changes what is known of the stack. Arrays are made at certain
offsets only, and only what is known to be such an array is stored into. -/
inductive Action.Marks (code : Code) (literals : Nat → Prop) (offset : Nat) :
    Action → List Mark → List Mark → Prop
  | plain {action : Action} {pushes : Nat} {marks : List Mark} (taken : List Mark)
      (plain : action.isPlain) (effect : action.effect? code = some (taken.length, pushes)) :
      Marks code literals offset action (taken ++ marks)
        (List.replicate pushes .unknown ++ marks)
  | dup {mark : Mark} {marks : List Mark} :
      Marks code literals offset .dup (mark :: marks) (mark :: mark :: marks)
  | newArray {token : Nat} {length : Mark} {marks : List Mark} (literal : literals offset) :
      Marks code literals offset (.newArray token) (length :: marks) (.made :: marks)
  | storeElement {value index : Mark} {marks : List Mark} :
      Marks code literals offset .storeElement (value :: index :: .made :: marks) marks

/-- All ways from an offset go forward to the stop and arrive there with one value, or leave behind
it at an exit with none, and obey the marks, given what is known of the stack. -/
inductive Guards (code : Code) (literals : Nat → Prop) (stop : Nat) (exits : Nat → Prop) :
    Nat → List Mark → Prop
  | arrived {mark : Mark} : Guards code literals stop exits stop [mark]
  | left {offset : Nat} (leads : exits offset) (behind : stop < offset) :
      Guards code literals stop exits offset []
  | step {offset : Nat} {before after : List Mark} {decoded : Decoded} (inside : offset < stop)
      (decodes : code.decodeAt? offset = some decoded)
      (marks : (Action.read decoded.op decoded.immediate).Marks code literals offset before after)
      (forward : ∀ target ∈ (Action.read decoded.op decoded.immediate).targets decoded.next,
        (offset : Int) < target)
      (onward : ∀ place : Nat,
        (place : Int) ∈ (Action.read decoded.op decoded.immediate).targets decoded.next →
          Guards code literals stop exits place after) :
      Guards code literals stop exits offset before

/-- At an offset an array literal of an expression makes its array; the elements are stored
behind. -/
def AllocatesAt (code : Code) (env : Environment) (typing : Typing) (expr : Expr)
    (offset : Nat) : Prop :=
  ∃ node elements scope element start made stop, Expr.array node elements ∈ expr.parts ∧
    start.offset = offset ∧ NewArrayAt code start element made ∧
    ElementsAt code env typing scope element 0 elements made stop

/-- All ways from a place that is not behind the stop obey the marks. -/
structure Approaches (code : Code) (literals : Nat → Prop) (stop : Nat) (exits : Nat → Prop)
    (offset : Nat) (marks : List Mark) : Prop where
  /-- The place is not behind the stop. -/
  reach : offset ≤ stop
  /-- The ways from it obey the marks. -/
  guards : Guards code literals stop exits offset marks

/-- All ways from one place obey the marks if those from another do, with one value more, whatever
is known of it. -/
def Pushes (code : Code) (literals : Nat → Prop) (final : Nat) (exits : Nat → Prop)
    (start stop : Cursor) : Prop :=
  ∀ {base : List Mark},
    (∀ mark, Approaches code literals final exits stop.offset (mark :: base)) →
      Approaches code literals final exits start.offset base

/-- All ways from one place obey the marks if those from another do, whatever is known there of the
value on top. -/
def Replaces (code : Code) (literals : Nat → Prop) (final : Nat) (exits : Nat → Prop)
    (start stop : Cursor) : Prop :=
  ∀ {base : List Mark} {mark : Mark},
    (∀ mark, Approaches code literals final exits stop.offset (mark :: base)) →
      Approaches code literals final exits start.offset (mark :: base)

variable {code : Code} {env : Environment} {typing : Typing} {literals : Nat → Prop}
  {final : Nat} {exits : Nat → Prop}

variable {offset : Nat} {finish : Cursor} {decoded : Decoded} {program : Program}
  {machine : Machine}

/-- What is known of the stack counts the values that an instruction takes and leaves. -/
theorem Action.Marks.effect {action : Action} {before after : List Mark}
    (marks : action.Marks code literals offset before after) :
    ∃ pops pushes, action.effect? code = some (pops, pushes) ∧ pops ≤ before.length ∧
      before.length - pops + pushes = after.length := by
  cases marks with
  | plain taken _ effect =>
    refine ⟨taken.length, _, effect, ?_, ?_⟩ <;> rw [List.length_append]
    · exact Nat.le_add_right _ _
    · rw [List.length_append, List.length_replicate, Nat.add_sub_cancel_left, Nat.add_comm]
  | dup => exact ⟨1, 2, rfl, Nat.le_add_left _ _, rfl⟩
  | newArray _ => exact ⟨1, 1, rfl, Nat.le_add_left _ _, rfl⟩
  | storeElement => exact ⟨3, 0, rfl, Nat.le_add_left _ _, rfl⟩

/-- Ways that obey the marks settle. -/
theorem Guards.settles {stop : Nat} {marks : List Mark}
    (guards : Guards code literals stop exits offset marks) :
    Settles code stop exits offset marks.length := by
  induction guards with
  | arrived => exact .arrived
  | left leads behind => exact .left leads behind
  | step inside decodes marks forward _ ih =>
    obtain ⟨pops, pushes, effect, enough, count⟩ := marks.effect
    refine .step inside decodes effect enough forward fun place listed => ?_
    rw [count]
    exact ih place listed

/-! ## Single instructions -/

section Instructions

variable {start stop : Cursor} {action : Action} {before after base : List Mark}

/-- An instruction obeys the marks if what is at all its targets does. -/
theorem ActionAt.approaches_of_targets (instruction : ActionAt code start action stop)
    (marks : action.Marks code literals start.offset before after) (reach : stop.offset ≤ final)
    (onward : ∀ target ∈ action.targets stop.offset, ∃ place : Nat, target = place ∧
      start.offset < place ∧ Guards code literals final exits place after) :
    Approaches code literals final exits start.offset before := by
  have inside : start.offset < final := Nat.lt_of_lt_of_le instruction.offset_lt reach
  obtain ⟨decoded, decodes, rfl, rfl⟩ := instruction
  refine ⟨Nat.le_of_lt inside, .step inside decodes marks ?_ ?_⟩
  · intro target listed
    obtain ⟨place, rfl, ahead, -⟩ := onward target listed
    exact Int.ofNat_lt.2 ahead
  · intro place listed
    obtain ⟨same, isSame, -, guards⟩ := onward place listed
    rwa [Int.ofNat_inj.1 isSame]

/-- So does an instruction behind which only the next one comes. -/
theorem ActionAt.approaches (instruction : ActionAt code start action stop)
    (marks : action.Marks code literals start.offset before after)
    (next : action.targets stop.offset = [(stop.offset : Int)])
    (rest : Approaches code literals final exits stop.offset after) :
    Approaches code literals final exits start.offset before := by
  refine instruction.approaches_of_targets marks rest.reach ?_
  rw [next, List.forall_mem_singleton]
  exact ⟨stop.offset, rfl, instruction.offset_lt, rest.guards⟩

/-- So does a branch that is always taken. -/
theorem BranchAt.approaches {target : Nat} (small : code.bytes.size < 2 ^ 31)
    (branch : BranchAt code start .always target stop) (ahead : stop.offset ≤ target)
    (rest : Approaches code literals final exits target base) :
    Approaches code literals final exits start.offset base := by
  have order : start.offset < target := Nat.lt_of_lt_of_le branch.offset_lt ahead
  obtain ⟨displacement, instruction, leads⟩ := branch
  refine instruction.approaches_of_targets (.plain [] rfl rfl) (Nat.le_trans ahead rest.reach) ?_
  exact List.forall_mem_singleton.2 ⟨target, leads small, order, rest.guards⟩

/-- So does one on a condition, which it takes. -/
theorem BranchAt.approaches_on {truth : Bool} {target : Nat} {condition : Mark}
    (small : code.bytes.size < 2 ^ 31) (branch : BranchAt code start (.on truth) target stop)
    (ahead : start.offset < target) (taken : Guards code literals final exits target base)
    (rest : Approaches code literals final exits stop.offset base) :
    Approaches code literals final exits start.offset (condition :: base) := by
  obtain ⟨displacement, instruction, leads⟩ := branch
  have effect : (Action.branch (.on truth) displacement).effect? code = some (1, 0) := by
    cases truth <;> rfl
  have targets : (Action.branch (.on truth) displacement).targets stop.offset =
      [(stop.offset : Int), stop.offset + displacement] := by
    cases truth <;> rfl
  refine instruction.approaches_of_targets (.plain [condition] rfl effect) rest.reach ?_
  rw [targets]
  refine List.forall_mem_cons.2 ⟨⟨stop.offset, rfl, instruction.offset_lt, rest.guards⟩, ?_⟩
  exact List.forall_mem_singleton.2 ⟨target, leads small, ahead, taken⟩

/-- In a coherent environment a call takes as many values as what was meant. -/
theorem CallAt.approaches (coherent : env.Coherent) {wanted : FunctionEntry}
    (taken : List Mark) (call : CallAt code env start wanted stop)
    (arity : wanted.arity = taken.length)
    (rest : ∀ mark, Approaches code literals final exits stop.offset (mark :: base)) :
    Approaches code literals final exits start.offset (taken ++ base) := by
  obtain ⟨token, entry, called, listed, sameKey, callable, wantedCallable⟩ := call
  have sameArity : entry.arity = taken.length :=
    (coherent.sameArity entry callable wanted wantedCallable sameKey).trans arity
  have effect : (Action.call token).effect? code = some (taken.length, 1) := by
    rw [Action.effect?, listed, ← sameArity]
    rfl
  exact called.approaches (.plain taken rfl effect) rfl (rest .unknown)

/-- A literal is pushed. -/
theorem LiteralAt.pushes {value : Literal} (literal : LiteralAt code value start stop) :
    Pushes code literals final exits start stop := by
  intro base rest
  cases literal with
  | plain pushed => exact pushed.approaches (.plain [] rfl rfl) rfl (rest .unknown)
  | string pushed listed => exact pushed.approaches (.plain [] rfl rfl) rfl (rest .unknown)
  | converted pushed conversion result =>
    exact pushed.approaches (.plain [] rfl rfl) rfl
      (conversion.approaches (.plain [_] rfl rfl) rfl (rest .unknown))

/-- An element takes the place of its array and its position. -/
theorem ElementLoadAt.approaches {index array : Mark} (load : ElementLoadAt code start stop)
    (rest : ∀ mark, Approaches code literals final exits stop.offset (mark :: base)) :
    Approaches code literals final exits start.offset (index :: array :: base) := by
  cases load with
  | plain loaded => exact loaded.approaches (.plain [_, _] rfl rfl) rfl (rest .unknown)
  | byAddress address listed loaded =>
    exact address.approaches (.plain [_, _] rfl rfl) rfl
      (loaded.approaches (.plain [_] rfl rfl) rfl (rest .unknown))

/-- A truth value is pushed where a chain is decided. -/
theorem TerminalAt.approaches {value : Bool} {finish target : Nat}
    (small : code.bytes.size < 2 ^ 31) (terminal : TerminalAt code value finish target)
    (rest : ∀ mark, Approaches code literals final exits finish (mark :: base)) :
    Approaches code literals final exits target base := by
  cases terminal with
  | last pushed finished =>
    subst finished
    exact pushed.approaches (.plain [] rfl rfl) rfl (rest .unknown)
  | leave pushed left ahead =>
    exact pushed.approaches (.plain [] rfl rfl) rfl (left.approaches small ahead (rest .unknown))

/-! ## Conversions -/

/-- A number is replaced by another. -/
theorem NumberAt.replaces {source target : Ty} (number : NumberAt code source target start stop) :
    Replaces code literals final exits start stop := by
  intro base mark rest
  cases number with
  | same => exact rest mark
  | convert differ conversion =>
    exact conversion.approaches (.plain [_] rfl rfl) rfl (rest .unknown)

/-- In a coherent environment a method that converts takes one value. -/
theorem CallAt.replaces (coherent : env.Coherent) {operator : String} {source target : Ty}
    {method : OperatorMethod}
    (converts : operator = implicitConversion ∨ operator = explicitConversion)
    (found : env.operators.conversionMethod operator source target = .ok (some method))
    (call : CallAt code env start method.entry stop) :
    Replaces code literals final exits start stop :=
  fun rest => call.approaches coherent [_] (coherent.arity_conversion converts found) rest

/-- A value is replaced by what it is converted to. -/
theorem ConversionAt.replaces (coherent : env.Coherent) {source target : Ty}
    (conversion : ConversionAt code env source target start stop) :
    Replaces code literals final exits start stop := by
  cases conversion with
  | number implicit number => exact number.replaces
  | method notImplicit found called => exact called.replaces coherent (.inl rfl) found

/-- A value is replaced by what it is cast to. -/
theorem CastAt.replaces (coherent : env.Coherent) {source target : Ty}
    (cast : CastAt code env source target start stop) :
    Replaces code literals final exits start stop := by
  cases cast with
  | implicit converts conversion => exact conversion.replaces coherent
  | number notImplicit numbers number => exact number.replaces
  | method notImplicit notNumbers found called => exact called.replaces coherent (.inr rfl) found

end Instructions

/-! ## Expressions -/

section Expressions

/-- There are as many operands as types they are converted to. -/
theorem OperandsAt.length_eq {scope : SlotScope} {operands : List Expr} {targets : List Ty}
    {start stop : Cursor}
    (operandsCode : OperandsAt code env typing scope operands targets start stop) :
    operands.length = targets.length := by
  induction operands generalizing targets start with
  | nil =>
    cases operandsCode
    rfl
  | cons operand operands ih =>
    cases operandsCode with
    | cons _ operandsCode => exact congrArg (· + 1) (ih operandsCode)

open ExprCode.Expr (child_inside)

variable {whole : Expr}

mutual

/-- All ways from in front of the code of an expression obey the marks if those from behind it do,
whatever is known of its value. -/
theorem CodeAt.pushes (coherent : env.Coherent) (small : code.bytes.size < 2 ^ 31)
    {scope : SlotScope} {expr : Expr} {start stop : Cursor} :
    CodeAt code env typing scope expr start stop → expr ∈ whole.parts →
      Pushes code (AllocatesAt code env typing whole) final exits start stop
  | .literal pushed, _, _, rest => pushed.pushes rest
  | .bound _ loaded, _, _, rest | .variable _ _ loaded, _, _, rest =>
    loaded.approaches (.plain [] rfl rfl) rfl (rest .unknown)
  | .unary _ carriedOut, inside, _, rest =>
    carriedOut.pushes coherent small (fun _ => child_inside inside) (by split <;> rfl)
      (by split <;> rfl) (by split <;> exact fun _ => rfl) rest
  | .arithmetic _ carriedOut, inside, _, rest | .comparison _ carriedOut, inside, _, rest
  | .bitwise _ _ carriedOut, inside, _, rest | .xor _ carriedOut, inside, _, rest =>
    carriedOut.pushes coherent small (fun _ => child_inside inside) rfl rfl (fun _ => rfl) rest
  | .chain _ chained finished ahead decided _, inside, _, rest =>
    chained.approaches coherent small inside (.of_decided finished decided)
      (fun mark => finished.approaches small ahead (rest mark))
      fun value target leads => ((decided value target leads).2.approaches small rest).guards
  | .shift _ shifted count carriedOut, inside, _, rest =>
    shifted.pushes coherent small (child_inside inside (.head _)) fun _ =>
      count.pushes coherent small (child_inside inside (.tail _ (.head _))) fun _ =>
        carriedOut.approaches (.plain [_, _] rfl rfl) rfl (rest .unknown)
  | .shiftMethod _ params shifted count called, inside, _, rest =>
    shifted.pushes coherent small (child_inside inside (.head _)) fun _ =>
      count.pushes coherent small (child_inside inside (.tail _ (.head _))) fun _ =>
        called.approaches coherent [_, _] (congrArg List.length params) rest
  | .conditional _ test (chosen : BranchAt code _ (.on false) _ _) thenCode left elseCode,
      inside, _, rest => by
    -- both arms come to the end with one value more, the first over the second
    have atElse :=
      elseCode.pushes coherent small (child_inside inside (.tail _ (.tail _ (.head _)))) rest
    have atThen :=
      thenCode.pushes coherent small (child_inside inside (.tail _ (.head _))) fun mark =>
        left.approaches small elseCode.precedes.offset (rest mark)
    refine test.pushes coherent small (child_inside inside (.head _)) fun _ =>
      chosen.approaches_on small ?_ atElse.guards atThen
    exact Nat.lt_of_lt_of_le chosen.offset_lt
      (Nat.le_trans thenCode.precedes.offset left.precedes.offset)
  | .member _ operandCode kept itemsCode falsePushed left truePushed, inside, _, rest => by
    -- a local keeps the operand, so the items find the stack as it was before the test
    have atEqual := truePushed.approaches (.plain [] rfl rfl) rfl (rest .unknown)
    have atUnequal := falsePushed.approaches (.plain [] rfl rfl) rfl
      (left.approaches small truePushed.precedes.offset (rest .unknown))
    have order := Nat.lt_of_lt_of_le falsePushed.offset_lt left.precedes.offset
    have atItems := itemsCode.approaches coherent small
      (fun _ item => child_inside inside (.tail _ item)) order atEqual.guards atUnequal
    exact operandCode.pushes coherent small (child_inside inside (.head _)) fun _ =>
      kept.2.approaches (.plain [_] rfl rfl) rfl atItems
  | .index arrayCode positionCode loaded, inside, _, rest =>
    arrayCode.pushes coherent small (child_inside inside (.head _)) fun _ =>
      positionCode.pushes coherent small (child_inside inside (.tail _ (.head _))) fun _ =>
        loaded.approaches rest
  -- the one place where an array is made: from here on the top of the stack is known
  | .array _ _ length allocated elementsCode, inside, _, rest => by
    have atElements :=
      elementsCode.approaches coherent small (fun _ => child_inside inside) (rest .made)
    have literal : AllocatesAt code env typing whole _ :=
      ⟨_, _, _, _, _, _, _, inside, rfl, allocated, elementsCode⟩
    obtain ⟨_, instruction, _⟩ := allocated
    exact length.approaches (.plain [] rfl rfl) rfl
      (instruction.approaches (.newArray literal) rfl atElements)
  | .call _ sameLength argumentsCode called, inside, _, rest =>
    argumentsCode.approaches coherent small (fun _ => child_inside inside) fun taken count =>
      called.approaches coherent taken (sameLength.trans count.symm) rest
  | .cast _ operandCode conversion, inside, _, rest =>
    operandCode.pushes coherent small (child_inside inside (.head _)) fun _ =>
      conversion.replaces coherent rest
  | .bindings valuesCode bodyCode, inside, _, rest =>
    valuesCode.approaches coherent small
      (fun _ listed => child_inside inside (.tail _ (List.mem_map_of_mem listed)))
      (bodyCode.pushes coherent small (child_inside inside (.head _)) rest)

/-- The code of a converted tree pushes one value. -/
theorem ConvertedAt.pushes (coherent : env.Coherent) (small : code.bytes.size < 2 ^ 31)
    {scope : SlotScope} {expr : Expr} {target : Ty} {start stop : Cursor} :
    ConvertedAt code env typing scope expr target start stop → expr ∈ whole.parts →
      Pushes code (AllocatesAt code env typing whole) final exits start stop
  | .intro _ operandCode conversion, inside, _, rest =>
    operandCode.pushes coherent small inside fun _ => conversion.replaces coherent rest

/-- The code of a count pushes one value. -/
theorem CountAt.pushes (coherent : env.Coherent) (small : code.bytes.size < 2 ^ 31)
    {scope : SlotScope} {expr : Expr} {start stop : Cursor} :
    CountAt code env typing scope expr start stop → expr ∈ whole.parts →
      Pushes code (AllocatesAt code env typing whole) final exits start stop
  | .intro _ operandCode conversion, inside, _, rest =>
    operandCode.pushes coherent small inside fun _ => conversion.replaces rest

/-- Behind operands there is a value more for each of them. -/
theorem OperandsAt.approaches (coherent : env.Coherent) (small : code.bytes.size < 2 ^ 31)
    {scope : SlotScope} {operands : List Expr} {targets : List Ty} {start stop : Cursor} :
    OperandsAt code env typing scope operands targets start stop →
      operands ⊆ whole.parts → ∀ {base : List Mark},
      (∀ marks : List Mark, marks.length = operands.length →
        Approaches code (AllocatesAt code env typing whole) final exits stop.offset
          (marks ++ base)) →
      Approaches code (AllocatesAt code env typing whole) final exits start.offset base
  | .nil, _, _, rest => rest [] rfl
  | .cons operandCode operandsCode, inside, base, rest => by
    obtain ⟨first, others⟩ := List.cons_subset.1 inside
    refine operandCode.pushes coherent small first fun mark =>
      operandsCode.approaches coherent small others fun marks count => ?_
    have more := rest (marks ++ [mark]) (by rw [List.length_append, count]; rfl)
    rwa [List.append_assoc] at more

/-- The code of an operator pushes one value. -/
theorem OperatorAt.pushes (coherent : env.Coherent) (small : code.bytes.size < 2 ^ 31)
    {scope : SlotScope} {resolution : Resolution} {operands : List Expr} {action : Action}
    {start stop : Cursor} :
    OperatorAt code env typing scope resolution operands action start stop →
      operands ⊆ whole.parts → action.isPlain →
      action.effect? code = some (operands.length, 1) →
      (∀ next, action.targets next = [(next : Int)]) →
      Pushes code (AllocatesAt code env typing whole) final exits start stop
  | .primitive operandsCode done, inside, plain, effect, targets, _, rest => by
    refine operandsCode.approaches coherent small inside fun taken count => ?_
    rw [← count] at effect
    exact done.approaches (.plain taken plain effect) (targets _) (rest .unknown)
  | .overload operandsCode called, inside, _, _, _, _, rest =>
    operandsCode.approaches coherent small inside fun taken count =>
      called.approaches coherent taken (operandsCode.length_eq.symm.trans count.symm) rest

/-- The code of an item pushes one value. -/
theorem ItemAt.pushes (coherent : env.Coherent) (small : code.bytes.size < 2 ^ 31)
    {scope : SlotScope} {operandType : Ty} {slot : Nat} {item : Expr} {start stop : Cursor} :
    ItemAt code env typing scope operandType slot item start stop → item ∈ whole.parts →
      Pushes code (AllocatesAt code env typing whole) final exits start stop
  | .primitive _ operandLoaded conversion itemCode comparison, inside, _, rest =>
    operandLoaded.approaches (.plain [] rfl rfl) rfl <| conversion.replaces coherent fun _ =>
      itemCode.pushes coherent small inside fun _ =>
        comparison.approaches (.plain [_, _] rfl rfl) rfl (rest .unknown)
  | .overload _ params operandLoaded conversion itemCode comparison, inside, _, rest =>
    operandLoaded.approaches (.plain [] rfl rfl) rfl <| conversion.replaces coherent fun _ =>
      itemCode.pushes coherent small inside fun _ =>
        comparison.approaches coherent [_, _] (congrArg List.length params) rest

/-- All branches of the items lead to one place, which is behind them. -/
theorem ItemsAt.approaches (coherent : env.Coherent) (small : code.bytes.size < 2 ^ 31)
    {scope : SlotScope} {operandType : Ty} {slot equal : Nat} {items : List Expr}
    {start stop : Cursor} :
    ItemsAt code env typing scope operandType slot equal items start stop →
      items ⊆ whole.parts → stop.offset < equal → ∀ {base : List Mark},
      Guards code (AllocatesAt code env typing whole) final exits equal base →
      Approaches code (AllocatesAt code env typing whole) final exits stop.offset base →
      Approaches code (AllocatesAt code env typing whole) final exits start.offset base
  | .nil, _, _, _, _, rest => rest
  | .cons itemCode (chosen : BranchAt code _ (.on true) _ _) itemsCode, inside, ahead, _, atEqual,
      rest => by
    obtain ⟨first, others⟩ := List.cons_subset.1 inside
    have order := Nat.lt_trans chosen.offset_lt
      (Nat.lt_of_le_of_lt itemsCode.precedes.offset ahead)
    have atItems := itemsCode.approaches coherent small others ahead atEqual rest
    exact itemCode.pushes coherent small first fun _ =>
      chosen.approaches_on small order atEqual atItems

/-- The copy of the array that is stored into stays known while the value is evaluated above it. -/
theorem ElementsAt.approaches (coherent : env.Coherent) (small : code.bytes.size < 2 ^ 31)
    {scope : SlotScope} {element : Ty} {index : Nat} {values : List Expr} {start stop : Cursor} :
    ElementsAt code env typing scope element index values start stop →
      values ⊆ whole.parts → ∀ {base : List Mark},
      Approaches code (AllocatesAt code env typing whole) final exits stop.offset
        (.made :: base) →
      Approaches code (AllocatesAt code env typing whole) final exits start.offset
        (.made :: base)
  | .nil, _, _, rest => rest
  | .cons _ copy position valueCode storing valuesCode, inside, _, rest => by
    obtain ⟨first, others⟩ := List.cons_subset.1 inside
    refine copy.approaches .dup rfl (position.approaches (.plain [] rfl rfl) rfl ?_)
    exact valueCode.pushes coherent small first fun _ => storing.approaches .storeElement rfl
      (valuesCode.approaches coherent small others rest)

/-- The code of bindings leaves the stack as it is. -/
theorem BindingsAt.approaches (coherent : env.Coherent) (small : code.bytes.size < 2 ^ 31)
    {scope inner : SlotScope} {values : List (String × Expr)} {start stop : Cursor} :
    BindingsAt code env typing scope values inner start stop →
      (∀ value ∈ values, value.2 ∈ whole.parts) → ∀ {base : List Mark},
      Approaches code (AllocatesAt code env typing whole) final exits stop.offset base →
      Approaches code (AllocatesAt code env typing whole) final exits start.offset base
  | .nil, _, _, rest => rest
  | .cons valueCode kept valuesCode, inside, _, rest => by
    obtain ⟨first, others⟩ := List.forall_mem_cons.1 inside
    exact valueCode.pushes coherent small first fun _ => kept.2.approaches (.plain [_] rfl rfl) rfl
      (valuesCode.approaches coherent small others rest)

/-- A part of a chain has two ways out: at its end with one value more, and at the exits with
none. -/
theorem ChainAt.approaches (coherent : env.Coherent) (small : code.bytes.size < 2 ^ 31)
    {scope : SlotScope} {expr : Expr} {exit : Bool → Option Nat} {start stop : Cursor} :
    ChainAt code env typing scope expr exit start stop → expr ∈ whole.parts →
      ExitsAhead exit stop → ∀ {base : List Mark},
      (∀ mark, Approaches code (AllocatesAt code env typing whole) final exits stop.offset
        (mark :: base)) →
      (∀ value target, exit value = some target →
        Guards code (AllocatesAt code env typing whole) final exits target base) →
      Approaches code (AllocatesAt code env typing whole) final exits start.offset base
  | .operand _ operandCode, inside, _, _, rest, _ => operandCode.pushes coherent small inside rest
  | .joined _ leftCode decided undecided chosen leads rightCode, inside, ahead, _, rest,
    atExits => by
    have atRight := rightCode.approaches coherent small (child_inside inside (.tail _ (.head _)))
      ahead rest atExits
    have order := Nat.lt_trans chosen.offset_lt
      (Nat.lt_of_le_of_lt rightCode.precedes.offset (ahead _ _ leads))
    refine leftCode.approaches coherent small (child_inside inside (.head _))
      (ahead.left decided undecided chosen rightCode.precedes)
      (fun _ => chosen.approaches_on small order (atExits _ _ leads) atRight) ?_
    -- an exit of the left operand is one of the chain, or leads to the right operand
    intro value target leftLeads
    rcases exit_of_left decided undecided leftLeads with outer | rfl
    · exact atExits _ _ outer
    · exact atRight.guards

end

/-- All ways through the code of an expression obey the marks. -/
theorem CodeAt.guards {scope : SlotScope} {expr : Expr} {start stop : Cursor}
    (exprCode : CodeAt code env typing scope expr start stop)
    (coherent : env.Coherent) (small : code.bytes.size < 2 ^ 31) :
    Guards code (AllocatesAt code env typing expr) stop.offset NoExit start.offset [] :=
  (exprCode.pushes coherent small (Expr.mem_parts expr) fun _ => ⟨Nat.le_refl _, .arrived⟩).guards

/-- All ways through the code of an expression settle. -/
theorem CodeAt.settles {scope : SlotScope} {expr : Expr} {start stop : Cursor}
    (exprCode : CodeAt code env typing scope expr start stop)
    (coherent : env.Coherent) (small : code.bytes.size < 2 ^ 31) :
    Settles code stop.offset NoExit start.offset 0 :=
  (exprCode.guards coherent small).settles

/-- All ways through a part of a chain settle, or leave at an exit. -/
theorem ChainAt.settles {scope : SlotScope} {expr : Expr} {exit : Bool → Option Nat}
    {start stop : Cursor} (linkCode : ChainAt code env typing scope expr exit start stop)
    (coherent : env.Coherent) (small : code.bytes.size < 2 ^ 31)
    (ahead : ExitsAhead exit stop) :
    Settles code stop.offset (fun offset => ∃ value, exit value = some offset) start.offset 0 := by
  refine (linkCode.approaches coherent small (Expr.mem_parts expr) ahead
    (fun _ => ⟨Nat.le_refl _, .arrived⟩) ?_).guards.settles
  intro value target leads
  exact .left ⟨value, leads⟩ (ahead value target leads)

end Expressions

/-! ## Runs -/

/-- Where all ways settle before a return, an instruction that does not end the run has what it
takes, and all ways behind it settle. -/
theorem Settles.onward {stop : Cursor} {height pops pushes : Nat}
    (settles : Settles code stop.offset NoExit offset height)
    (returned : ActionAt code stop .ret finish) (decodes : code.decodeAt? offset = some decoded)
    (effect : (Action.read decoded.op decoded.immediate).effect? code = some (pops, pushes)) :
    pops ≤ height ∧ ∀ place : Nat,
      (place : Int) ∈ (Action.read decoded.op decoded.immediate).targets decoded.next →
        Settles code stop.offset NoExit place (height - pops + pushes) := by
  cases settles with
  | arrived =>
    -- at the stop is the return, which has no effect
    obtain ⟨_, sameDecodes, read, -⟩ := returned
    cases sameDecodes.symm.trans decodes
    rw [read] at effect
    cases effect
  | left leads _ => exact leads.elim
  | step _ sameDecodes sameEffect enough _ onward =>
    cases sameDecodes.symm.trans decodes
    cases sameEffect.symm.trans effect
    exact ⟨enough, onward⟩

/-- Where all ways settle and a return is next, one value is left. -/
theorem Machine.Settling.stack_of_ret {stop : Nat} {below : List Value}
    (settling : Settling program stop NoExit below machine)
    (decodes : program.code.decodeAt? machine.pc = some decoded)
    (read : Action.read decoded.op decoded.immediate = .ret) :
    ∃ value, machine.stack = value :: below := by
  obtain ⟨values, stack, settles⟩ := settling
  generalize heightEq : values.length = height at settles
  generalize offsetEq : machine.pc = offset at settles
  cases settles with
  | arrived =>
    obtain ⟨value, rfl⟩ := List.length_eq_one_iff.1 heightEq
    exact ⟨value, stack⟩
  | left leads _ => exact leads.elim
  | step _ sameDecodes effect _ _ _ =>
    cases sameDecodes.symm.trans (offsetEq ▸ decodes)
    rw [read] at effect
    cases effect

/-- From a return the machine does not go on. -/
theorem Machine.Reaches.eq_of_ret {after : Machine} (reaches : Reaches program machine after)
    (decodes : program.code.decodeAt? machine.pc = some decoded)
    (read : Action.read decoded.op decoded.immediate = .ret) : after = machine := by
  cases reaches with
  | refl => rfl
  | head first _ =>
    obtain ⟨_, _, _, sameDecodes, effect, -⟩ := step_effect first
    cases sameDecodes.symm.trans decodes
    rw [read] at effect
    cases effect

/-- All states of a run of code that settles before a return settle. -/
theorem Machine.settling_of_reaches {heap : Heap} {stop : Cursor}
    (settles : Settles program.code stop.offset NoExit 0 0)
    (returned : ActionAt program.code stop .ret finish)
    (reaches : Reaches program (initial program.code heap) machine) :
    Settling program stop.offset NoExit [] machine := by
  have atStart : Settling program stop.offset NoExit [] (initial program.code heap) :=
    ⟨[], rfl, settles⟩
  rcases atStart.reaches reaches with settling | ⟨middle, -, settled, behind⟩
  · exact settling
  · obtain ⟨decoded, decodes, read, -⟩ := returned
    rcases settled with ⟨here, value, stack⟩ | ⟨leads, -⟩
    · rw [behind.eq_of_ret (here ▸ decodes) read]
      exact ⟨[value], stack, here ▸ .arrived⟩
    · exact leads.elim

/-- What code does to the stack, on all ways through it and in all runs. -/
structure KeepsStack (code : Code) (env : Environment) (typing : Typing) (expr : Expr) :
    Prop where
  /-- The code is that of the expression, and a return. -/
  body : ∃ stop finish, CodeAt code env typing [] expr ⟨0, 0⟩ stop ∧
    ActionAt code stop .ret finish
  /-- Every part of the expression has instructions. -/
  parts : ∀ part ∈ expr.parts, PartAt code env typing part
  /-- All ways through the instructions of an expression take nothing that was there before and end
  with one value more. -/
  wholes : ∀ scope part start stop, CodeAt code env typing scope part start stop →
    Settles code stop.offset NoExit start.offset 0
  /-- So do all ways through a connective inside a chain, unless they leave at an exit, with
  nothing. -/
  links : ∀ scope part exit start stop, ChainAt code env typing scope part exit start stop →
    ExitsAhead exit stop →
      Settles code stop.offset (fun offset => ∃ value, exit value = some offset) start.offset 0
  /-- A machine that starts the instructions of an expression keeps its stack until it is behind
  them, where it has one value above it. -/
  kept : ∀ arguments host scope part start stop before after,
    CodeAt code env typing scope part start stop → before.pc = start.offset →
    Machine.Reaches ⟨code, arguments, host⟩ before after →
      Machine.Settling ⟨code, arguments, host⟩ stop.offset NoExit before.stack after ∨
        ∃ middle, Machine.Reaches ⟨code, arguments, host⟩ before middle ∧
          Machine.Settled stop.offset NoExit before.stack middle ∧
          Machine.Reaches ⟨code, arguments, host⟩ middle after
  /-- A machine that comes to a return has one value. -/
  returns : ∀ arguments host heap machine here finish,
    Machine.Reaches ⟨code, arguments, host⟩ (Machine.initial code heap) machine →
    machine.pc = here.offset → ActionAt code here .ret finish → ∃ value, machine.stack = [value]

/-- In a coherent environment the code of a tree keeps the stack. -/
theorem keepsStack_of_compile {env : Environment} {expr : Expr} {maxLocals : Nat} {code : Code}
    (coherent : env.Coherent) (tree : expr.IsTree)
    (compiled : compile env expr maxLocals = .ok code) (small : code.bytes.size < 2 ^ 31) :
    KeepsStack code env (typingOf env expr) expr := by
  obtain ⟨-, isCompiled⟩ := compiled_of_compile tree compiled
  obtain ⟨stop, finish, bodyCode, returned⟩ := isCompiled.body
  exact {
    body := ⟨stop, finish, bodyCode, returned⟩
    parts := bodyCode.part
    wholes := fun _ _ _ _ partCode => partCode.settles coherent small
    links := fun _ _ _ _ _ linkCode ahead => linkCode.settles coherent small ahead
    kept := fun arguments host _ _ start stop before after partCode here reaches => by
      have settles := partCode.settles coherent small
      have settling : Machine.Settling ⟨code, arguments, host⟩ stop.offset NoExit before.stack
          before :=
        ⟨[], rfl, here ▸ settles⟩
      exact settling.reaches reaches
    returns := fun arguments host heap machine here finish reaches atReturn returns => by
      have settling :=
        Machine.settling_of_reaches (bodyCode.settles coherent small) returned reaches
      obtain ⟨decoded, decodes, read, -⟩ := returns
      exact settling.stack_of_ret (atReturn ▸ decodes) read }

/-- The code of the example keeps the stack. -/
theorem keepsStack_payment : ∃ code, compile pricing payment 8 = .ok code ∧
    KeepsStack code pricing (typingOf pricing payment) payment := by
  obtain ⟨code, compiled, small⟩ := compile_payment
  exact ⟨code, compiled,
    keepsStack_of_compile (by decide) (by decide) compiled small⟩

/-! ## An incoherent environment -/

/-- An amount of money becomes a number by a method with two parameters. -/
def exchange : Environment where
  variableTypes := #[("amount", .named "Money")]
  functions := [("share", ⟨[.int .i32, .int .i32], .int .i32, ⟨1⟩⟩)]
  operators :=
    ⟨[(.named "Money", ⟨"operator_Implicit", [.named "Money", .int .i32], .int .i32, ⟨0⟩⟩)]⟩

/-- A function of a number and an amount. -/
def sharing : Expr :=
  .call ⟨0, 0, 0⟩ "share" [.literal ⟨1, 0, 0⟩ (.int 7), .ident ⟨2, 0, 0⟩ "amount"]

/-- Push seven, load the amount, convert it, call the function, return. -/
def sharingCode : Code where
  version := formatVersion
  bytes := #[0x13, 7, 0x2e, 0, 0, 0x80, 0, 0, 0x80, 1, 0, 0x02]
  locals := #[]
  strings := #[]
  types := #[]
  functions := #[⟨"operator_Implicit", 2, ⟨0⟩⟩, ⟨"share", 2, ⟨1⟩⟩]
  branches := []

/-- The environment of the example declares its names. -/
theorem declared_exchange : exchange.Declared := by
  have amount : Environment.declareVariable {} "amount" (.named "Money") =
      .ok (0, { variableTypes := exchange.variableTypes }) := by cbv
  have implicit : Environment.registerOperator { variableTypes := exchange.variableTypes }
      (.named "Money") ⟨"operator_Implicit", [.named "Money", .int .i32], .int .i32, ⟨0⟩⟩ =
      .ok { variableTypes := exchange.variableTypes, operators := exchange.operators } := rfl
  have share : Environment.registerFunction
      { variableTypes := exchange.variableTypes, operators := exchange.operators } "share"
      ⟨[.int .i32, .int .i32], .int .i32, ⟨1⟩⟩ = .ok exchange := rfl
  exact .registerFunction (.registerOperator (.declareVariable .empty amount) implicit) share

/-- The example compiles to this code. -/
theorem compile_sharing : compile exchange sharing 8 = .ok sharingCode := by cbv

/-- The conversion takes the seven with the amount, and nothing is left for the function. -/
theorem not_settles_sharing {stop : Cursor} (returned : ActionAt sharingCode stop .ret finish) :
    ¬ Settles sharingCode stop.offset NoExit 0 0 := by
  intro atStart
  have pushed : sharingCode.decodeAt? 0 = some ⟨.ldcI4S, [7], 2⟩ := by cbv
  have loaded : sharingCode.decodeAt? 2 = some ⟨.ldarg, [0, 0], 5⟩ := by cbv
  have converted : sharingCode.decodeAt? 5 = some ⟨.call, [0, 0], 8⟩ := by cbv
  have called : sharingCode.decodeAt? 8 = some ⟨.call, [1, 0], 11⟩ := by cbv
  have atLoad := (atStart.onward returned pushed rfl).2 2 (.head _)
  have atConversion := (atLoad.onward returned loaded rfl).2 5 (.head _)
  have atCall := (atConversion.onward returned converted rfl).2 8 (.head _)
  exact absurd (atCall.onward returned called rfl).1 (by decide)

/-- With a conversion of two parameters, code takes what was on the stack before it, and runs
out. -/
theorem underflow_sharing : exchange.Declared ∧ sharing.IsTree ∧
    compile exchange sharing 8 = .ok sharingCode ∧
    ¬ KeepsStack sharingCode exchange (typingOf exchange sharing) sharing ∧
    Machine.execute 8 ⟨sharingCode, #[.object "Money" []], fiveHost⟩ {} =
      some ⟨.error (.invalidProgram .stackUnderflow), {},
        #[⟨⟨0⟩, [.i32 7, .object "Money" []], {}⟩]⟩ := by
  refine ⟨declared_exchange, by decide, compile_sharing, ?_, by cbv⟩
  intro keeps
  obtain ⟨stop, finish, bodyCode, returned⟩ := keeps.body
  exact not_settles_sharing returned (keeps.wholes _ _ _ _ bodyCode)

end ExprCode
