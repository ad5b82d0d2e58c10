import ExprCode.Proofs.Compilation
import ExprCode.Proofs.Execution

/-! # Compiled code means what the expression means

Main statement: `execute_eq_outcome`. Running the code of a tree gives the value or the error of its
evaluation, with the same heap and the same host calls. It follows from what the code of every kind
of expression does, which is proved along the description of the code. -/

namespace ExprCode

open Semantics
open Machine (Triple Moves At)

/-- Code is run with the arguments and the host of a setting. -/
abbrev Setting.program (setting : Setting) (code : Code) : Program :=
  ⟨code, setting.arguments, setting.host⟩

/-! ## Conversions and calls -/

section Conversions

variable {setting : Setting} {code : Code} {kept : List (Nat × Value)} {stack : List Value}
  {start stop : Cursor}

/-- What must be there is there. -/
theorem triple_known {program : Program} {α β : Type} {fault : Fault} {value? : Option α}
    {value : α}
    {next : α → Eval β} {pre : Machine → Prop} {post : β → Machine → Prop}
    (known : value? = some value) (triple : Triple program pre (next value) post) :
    Triple program pre (require fault value? >>= next) post := by
  subst known
  exact triple

/-- The code of a literal leaves its value. -/
theorem LiteralAt.moves {value : Literal} (literal : LiteralAt code value start stop) :
    Moves (setting.program code) (At (setting.program code) start kept stack)
      (At (setting.program code) stop kept (value.value :: stack)) := by
  cases literal with
  | plain pushed => exact Machine.moves_push pushed
  | string pushed listed => exact Machine.moves_pushString pushed listed
  | @converted _ signed kind _ middle _ pushed conversion result =>
    have evaluation : Triple (setting.program code)
        (At (setting.program code) middle kept (signed :: stack))
        (require .invalidConversion (signed.convert? kind))
        (fun converted => At (setting.program code) stop kept (converted :: stack)) :=
      Machine.triple_convert conversion
    rw [result] at evaluation
    exact (Machine.moves_push pushed).trans evaluation

/-- The code of a conversion between numbers converts the value on top. -/
theorem NumberAt.triple {source target : Ty} {value : Value}
    (number : NumberAt code source target start stop) :
    Triple (setting.program code) (At (setting.program code) start kept (value :: stack))
      (convertNumber source target value)
      (fun converted => At (setting.program code) stop kept (converted :: stack)) := by
  unfold convertNumber
  cases number with
  | same =>
    rw [if_pos rfl]
    exact .pure value fun _ here => here
  | convert differ conversion =>
    rw [if_neg differ]
    exact Machine.triple_convert conversion

/-- A conversion by a method has one operand. -/
theorem triple_conversionMethod {operator : String} {source target : Ty} {method : OperatorMethod}
    {value : Value} (coherent : setting.env.Coherent)
    (converts : operator = implicitConversion ∨ operator = explicitConversion)
    (found : setting.env.operators.conversionMethod operator source target =
      .ok (some method))
    (called : CallAt code setting.env start method.entry stop) :
    Triple (setting.program code) (At (setting.program code) start kept (value :: stack))
      (convertByMethod setting operator source target value)
      (fun converted => At (setting.program code) stop kept (converted :: stack)) := by
  unfold convertByMethod
  rw [found]
  have arity : [value].length = method.entry.arity :=
    (coherent.arity_conversion converts found).symm
  exact Machine.triple_call rfl coherent called arity

/-- The code of a conversion converts the value on top. -/
theorem ConversionAt.triple {source target : Ty} {value : Value}
    (coherent : setting.env.Coherent)
    (conversion : ConversionAt code setting.env source target start stop) :
    Triple (setting.program code) (At (setting.program code) start kept (value :: stack))
      (convert setting source target value)
      (fun converted => At (setting.program code) stop kept (converted :: stack)) := by
  unfold convert
  cases conversion with
  | number implicit conversion =>
    rw [if_pos implicit]
    exact conversion.triple
  | method notImplicit found called =>
    rw [if_neg notImplicit]
    exact triple_conversionMethod coherent (.inl rfl) found called

/-- The code of a cast casts the value on top. -/
theorem CastAt.triple {source target : Ty} {value : Value}
    (coherent : setting.env.Coherent)
    (conversion : CastAt code setting.env source target start stop) :
    Triple (setting.program code) (At (setting.program code) start kept (value :: stack))
      (Semantics.cast setting source target value)
      (fun converted => At (setting.program code) stop kept (converted :: stack)) := by
  unfold Semantics.cast
  cases conversion with
  | implicit converts conversion =>
    rw [converts]
    exact conversion.triple coherent
  | number notImplicit numbers conversion =>
    simp only [notImplicit, if_pos numbers]
    exact conversion.triple
  | method notImplicit notNumbers found called =>
    simp only [notImplicit, if_neg notNumbers]
    exact triple_conversionMethod coherent (.inr rfl) found called

end Conversions

/-! ## Names -/

/-- The values of bound names are kept in their slots. -/
structure Names (scope : SlotScope) (values : ValueScope) (kept : List (Nat × Value)) : Prop where
  /-- A name with a slot has the value that is kept there. -/
  bound : ∀ name slot, scope.lookup name = some slot →
    ∃ value, values.lookup name = some value ∧ (slot, value) ∈ kept
  /-- A name without a slot has no value. -/
  unbound : ∀ name, scope.lookup name = none → values.lookup name = none

namespace Names

variable {scope : SlotScope} {values : ValueScope} {kept more : List (Nat × Value)}

/-- No names are bound at first. -/
theorem empty : Names [] [] kept where
  bound _ _ found := by cases found
  unbound _ _ := rfl

/-- Names stay bound where more is kept. -/
theorem mono (names : Names scope values kept) (subset : kept ⊆ more) :
    Names scope values more where
  bound name slot found := by
    obtain ⟨value, known, listed⟩ := names.bound name slot found
    exact ⟨value, known, subset listed⟩
  unbound := names.unbound

/-- A name that is bound to a slot has the value that is kept there. -/
theorem bind (names : Names scope values kept) (name : String) (slot : Nat) (value : Value) :
    Names ((name, slot) :: scope) ((name, value) :: values) ((slot, value) :: kept) where
  bound other place found := by
    rw [List.lookup_cons] at found ⊢
    cases same : other == name with
    | true =>
      simp only [same, Option.some.injEq] at found
      subst found
      exact ⟨value, rfl, List.mem_cons_self⟩
    | false =>
      simp only [same] at found
      exact (names.mono (List.subset_cons_self _ _)).bound other place found
  unbound other notFound := by
    rw [List.lookup_cons] at notFound ⊢
    cases same : other == name with
    | true =>
      simp only [same] at notFound
      cases notFound
    | false =>
      simp only [same] at notFound
      exact names.unbound other notFound

end Names

/-! ## Operators -/

section Operators

variable {setting : Setting} {code : Code} {kept : List (Nat × Value)}

/-- An action does to operands on the stack what a function does to their values. -/
def Acts (program : Program) (kept : List (Nat × Value)) (count : Nat) (action : Action)
    (apply : List Value → Except RuntimeError Value) : Prop :=
  ∀ {start stop : Cursor} {stack : List Value} (values : List Value), values.length = count →
    ActionAt program.code start action stop →
    Triple program (At program start kept (values.reverse ++ stack))
      (Semantics.ofExcept (apply values))
      (fun value => At program stop kept (value :: stack))

/-- Unary operators act on one value. -/
theorem acts_unary (op : UnaryOp) :
    Acts (setting.program code) kept 1
      (match op with | .neg => .negate | .not => .complement) (applyUnary op) := by
  intro start stop stack values length instruction
  obtain ⟨value, rfl⟩ := List.length_eq_one_iff.1 length
  cases op with
  | neg => exact Machine.triple_negate instruction
  | not => exact Machine.triple_complement instruction

/-- Arithmetic operators act on two values. -/
theorem acts_binary (function : BinaryFunction) :
    Acts (setting.program code) kept 2 (.binary function) (applyBinary function) := by
  intro start stop stack values length instruction
  match values, length with
  | [left, right], _ => exact Machine.triple_binary instruction

/-- Comparisons act on two values. -/
theorem acts_relation (relation : Relation) :
    Acts (setting.program code) kept 2 (.compare relation) (applyRelation relation) := by
  intro start stop stack values length instruction
  match values, length with
  | [left, right], _ => exact Machine.triple_compare instruction

/-- The arguments of a call are evaluated as the operands of an operator are. -/
theorem evalArguments_eq (arguments : List Expr) (params : List Ty) (values : ValueScope) :
    evalArguments setting arguments params values =
      operands setting (arguments.map fun argument => (argument, eval setting argument values))
        params := by
  induction arguments generalizing params with
  | nil => cases params <;> rfl
  | cons argument arguments ih =>
    cases params with
    | nil => rfl
    | cons param params =>
      rw [evalArguments, List.map_cons, operands, ih]

end Operators

/-! ## Chains -/

section Chains

variable {code : Code} {start stop : Cursor} {action : Action}

/-- An instruction does the same wherever locals are counted from. -/
theorem ActionAt.withSlots (instruction : ActionAt code start action stop) (slots : Nat) :
    ActionAt code ⟨start.offset, slots⟩ action ⟨stop.offset, slots⟩ := by
  obtain ⟨decoded, decodes, read, rfl⟩ := instruction
  exact ⟨decoded, decodes, read, rfl⟩

/-- A branch does not depend on the number of slots. -/
theorem BranchAt.withSlots {condition : BranchCondition} {target : Nat}
    (branch : BranchAt code start condition target stop) (slots : Nat) :
    BranchAt code ⟨start.offset, slots⟩ condition target ⟨stop.offset, slots⟩ := by
  obtain ⟨displacement, instruction, leads⟩ := branch
  exact ⟨displacement, instruction.withSlots slots, leads⟩

/-- The result of a decided chain is pushed. -/
theorem TerminalAt.moves {program : Program} {kept : List (Nat × Value)} {stack : List Value}
    {value : Bool} {finish target slots : Nat} (small : program.code.bytes.size < 2 ^ 31)
    (terminal : TerminalAt program.code value finish target) :
    Moves program (At program ⟨target, slots⟩ kept stack)
      (At program ⟨finish, slots⟩ kept (.bool value :: stack)) := by
  cases terminal with
  | last pushed finished =>
    rw [← finished]
    exact Machine.moves_push (pushed.withSlots slots)
  | leave pushed left ahead =>
    exact (Machine.moves_push (pushed.withSlots slots)).trans
      (Machine.moves_branch small (left.withSlots slots) (Nat.le_refl _))

/-- A part of a chain is left at its end with its value on the stack, or, if it is decided, at the
exit for its value with nothing on the stack. -/
def Leaves (program : Program) (exit : Bool → Option Nat) (stop : Cursor)
    (kept : List (Nat × Value)) (stack : List Value) (value : Value) (machine : Machine) : Prop :=
  At program stop kept (value :: stack) machine ∨
    ∃ truth target, value = .bool truth ∧ exit truth = some target ∧
      At program ⟨target, stop.slots⟩ kept stack machine

/-- Behind the left operand of a connective: its truth value decides the connective, or the right
operand is evaluated. -/
theorem triple_decide {program : Program} {kept : List (Nat × Value)} {stack : List Value}
    {connective : Connective} {leftExit exit : Bool → Option Nat} {target slots : Nat}
    {tested next : Cursor} {value : Value} (small : program.code.bytes.size < 2 ^ 31)
    (decided : ∀ target, leftExit connective.decidedBy = some target →
      exit connective.decidedBy = some target)
    (undecided : ∀ target, leftExit (!connective.decidedBy) = some target → target = next.offset)
    (chosen : BranchAt program.code tested (.on connective.decidedBy) target next)
    (leads : exit connective.decidedBy = some target) (grown : tested.slots ≤ slots) :
    Triple program (Leaves program leftExit tested kept stack value) (truth value)
      (fun truth machine =>
        if truth = connective.decidedBy then
          ∃ target, exit truth = some target ∧ At program ⟨target, slots⟩ kept stack machine
        else At program next kept stack machine) := by
  rintro machine (here | ⟨truth, early, rfl, found, here⟩)
  · refine (Machine.triple_branch small _ chosen grown).mono (fun truth after there => ?_) machine
      here
    by_cases isDecided : truth = connective.decidedBy
    · simp only [if_pos isDecided] at there ⊢
      exact ⟨target, isDecided ▸ leads, there⟩
    · simp only [if_neg isDecided] at there ⊢
      exact there
  · -- the left operand was decided within: its branch led to the exit or to the right operand
    refine ⟨machine, .refl _, rfl, ?_⟩
    by_cases isDecided : truth = connective.decidedBy
    · simp only [if_pos isDecided]
      subst isDecided
      exact ⟨early, decided early found, here.relax grown (List.Subset.refl _)⟩
    · simp only [if_neg isDecided]
      rw [undecided early (Bool.eq_not_of_ne isDecided ▸ found)] at here
      exact here.relax (Nat.le_of_eq chosen.slots_eq.symm) (List.Subset.refl _)

end Chains

/-! ## Expressions -/

section Expressions

variable {setting : Setting} {code : Code}

/-- A conjunction or disjunction of truth values. -/
theorem eval_joined {node : Node} {connective : Connective} {left right : Expr}
    {values : ValueScope}
    (joined : isJoined setting.typing (.logical node connective left right)) :
    eval setting (.logical node connective left right) values = (do
      let value ← eval setting left values
      let first ← truth value
      if first = connective.decidedBy then return .bool first else eval setting right values) := by
  rw [eval]
  refine (if_pos joined).trans ?_
  refine congrArg (bind _) (funext fun value => congrArg (bind _) (funext fun first => ?_))
  cases connective <;> cases first <;> rfl

/-- The type of an expression that is converted is known. -/
theorem ConvertedAt.known {env : Environment} {typing : Typing} {scope : SlotScope}
    {expr : Expr} {target : Ty} {start stop : Cursor}
    (h : ConvertedAt code env typing scope expr target start stop) :
    ∃ source, typing.types[expr.id]? = some source := by
  cases h with
  | intro known operandCode conversion => exact ⟨_, known⟩

mutual

/-- The code of a tree leaves the value of the tree, or fails as the tree does. -/
theorem CodeAt.triple (coherent : setting.env.Coherent)
    (small : code.bytes.size < 2 ^ 31) {scope : SlotScope} {expr : Expr} {start stop : Cursor} :
    CodeAt code setting.env setting.typing scope expr start stop →
    ∀ {values : ValueScope} {kept : List (Nat × Value)} {stack : List Value},
      Names scope values kept →
      Triple (setting.program code) (At (setting.program code) start kept stack)
        (eval setting expr values)
        (fun value => At (setting.program code) stop kept (value :: stack))
  | .literal pushed, _, _, _, _ => .after pushed.moves (.pure _ fun _ here => here)
  | .bound found loaded, _, _, _, names => by
    obtain ⟨value, known, listed⟩ := names.bound _ _ found
    rw [eval, nameValue, known]
    exact .after (Machine.moves_loadLocal loaded listed) (.pure value fun _ here => here)
  | .variable unbound found loaded, _, _, _, names => by
    rw [eval, nameValue, names.unbound _ unbound, found]
    exact Machine.triple_loadArgument loaded
  | .unary resolved carriedOut, _, _, _, names => by
    rw [eval, resolved]
    exact carriedOut.triple coherent small names (acts_unary _)
  | .arithmetic resolved carriedOut, _, _, _, names => by
    rw [eval, resolved]
    exact carriedOut.triple coherent small names (acts_binary _)
  | .comparison resolved carriedOut, _, _, _, names => by
    rw [eval, resolved]
    exact carriedOut.triple coherent small names (acts_relation _)
  | .bitwise notJoined resolved carriedOut, _, _, _, names => by
    rw [eval, resolved]
    exact (if_neg notJoined).symm ▸ carriedOut.triple coherent small names (acts_binary _)
  | .xor resolved carriedOut, _, _, _, names => by
    rw [eval, resolved]
    exact carriedOut.triple coherent small names (acts_binary _)
  | .chain _ chained finished _ decided sameSlots, _, _, _, names => by
    -- the chain has left its value at its end, or come to the place where that value is pushed
    refine (chained.triple coherent small names).before fun value => ?_
    rintro machine (here | ⟨truth, target, rfl, found, here⟩)
    · exact Machine.moves_branch small finished (Nat.le_of_eq sameSlots.symm) machine here
    · exact (decided truth target found).2.moves small machine
        (here.relax (Nat.le_of_eq sameSlots.symm) (List.Subset.refl _))
  | .shift resolved shifted (.intro known countCode conversion) carriedOut, _, _, _, names => by
    rw [eval, shift]
    exact triple_known resolved ((shifted.triple coherent small names).bind fun _ =>
      (countCode.triple coherent small names).bind fun _ => triple_known known
        (conversion.triple.bind fun _ => Machine.triple_shift carriedOut))
  | .shiftMethod resolved params shifted (.intro known countCode conversion) called, _, _, _,
      names => by
    rw [eval, shift]
    refine triple_known resolved ?_
    simp only [params, List.headD_cons]
    refine (shifted.triple coherent small names).bind fun value =>
      (countCode.triple coherent small names).bind fun _ =>
      triple_known known (conversion.triple.bind fun count => ?_)
    have arity : [value, count].length = (OperatorMethod.entry _).arity :=
      (congrArg List.length params).symm
    exact Machine.triple_call rfl coherent called arity
  | .conditional known test chosen thenCode left elseCode, _, _, _, names => by
    -- the other arm may have declared locals, whether it is taken or not
    have thenGrows := Nat.le_trans (Nat.le_of_eq chosen.slots_eq.symm)
      (Nat.le_trans thenCode.precedes.slots (Nat.le_of_eq left.slots_eq.symm))
    have elseGrows := Nat.le_trans (Nat.le_of_eq left.slots_eq.symm) elseCode.precedes.slots
    rw [eval]
    refine triple_known known ((test.triple coherent small names).bind fun _ =>
      (Machine.triple_branch small false chosen thenGrows).bind fun truth => ?_)
    cases truth with
    | true =>
      exact (thenCode.triple coherent small names).before fun _ =>
      Machine.moves_branch small left elseGrows
    | false => exact elseCode.triple coherent small names
  | .member known operandCode stored itemsCode falsePushed left truePushed, _, _, _, names => by
    rw [eval]
    refine triple_known known ((operandCode.triple coherent small names).bind fun value => ?_)
    refine .after (Machine.moves_store stored) ?_
    -- while the items are compared, the operand is kept in the local that was declared for it
    have sameSlots := left.slots_eq.trans falsePushed.slots_eq
    refine (itemsCode.triple coherent small (names.mono (List.subset_cons_self _ _))
      List.mem_cons_self
      (Nat.le_of_eq sameSlots.symm)).bind fun found => ?_
    cases found with
    | true =>
      exact .after (Machine.moves_push truePushed) (.pure _ fun _ here =>
        here.relax (Nat.le_refl _) (List.subset_cons_self _ _))
    | false =>
      refine .after ((Machine.moves_push falsePushed).trans (Machine.moves_branch small left
        (Nat.le_of_eq (truePushed.slots_eq.trans left.slots_eq).symm))) (.pure _ fun _ here => ?_)
      exact here.relax (Nat.le_refl _) (List.subset_cons_self _ _)
  | .index arrayCode positionCode loaded, _, _, _, names => by
    rw [eval]
    exact (arrayCode.triple coherent small names).bind fun _ =>
      (positionCode.triple coherent small names).bind fun _ =>
      Machine.triple_elementLoad loaded
  | .array known short length allocated elementsCode, _, _, _, names => by
    rw [eval]
    refine triple_known known (triple_known rfl (.after (Machine.moves_push length) ?_))
    exact (Machine.triple_newArray allocated (Machine.int?_i32 short)).bind fun _ =>
      (elementsCode.triple coherent small names).bind fun _ => .pure _ fun _ here => here
  | .call found _ argumentsCode called, _, _, _, names => by
    rw [eval]
    refine triple_known found ?_
    rw [evalArguments_eq]
    refine (argumentsCode.triple coherent small names).bind fun results => ?_
    rintro machine ⟨length, here⟩
    exact Machine.triple_call rfl coherent called length machine here
  | .cast known operandCode conversion, _, _, _, names => by
    rw [eval]
    exact triple_known known ((operandCode.triple coherent small names).bind fun _ =>
      conversion.triple coherent)
  | .bindings valuesCode bodyCode, _, _, _, names => by
    rw [eval]
    refine (valuesCode.triple coherent small names).bind fun inner => ?_
    -- the values that are kept besides those from outside are forgotten behind the body
    rintro machine ⟨more, subset, innerNames, here⟩
    exact (bodyCode.triple coherent small innerNames).mono
      (fun _ _ there => there.relax (Nat.le_refl _) subset) machine here

/-- The code of a converted tree leaves the converted value. -/
theorem ConvertedAt.triple (coherent : setting.env.Coherent)
    (small : code.bytes.size < 2 ^ 31) {scope : SlotScope} {expr : Expr} {target : Ty}
    {start stop : Cursor} :
    ConvertedAt code setting.env setting.typing scope expr target start stop →
    ∀ {values : ValueScope} {kept : List (Nat × Value)} {stack : List Value},
      Names scope values kept →
      Triple (setting.program code) (At (setting.program code) start kept stack)
        (converted setting expr (eval setting expr values) target)
        (fun value => At (setting.program code) stop kept (value :: stack))
  | .intro known operandCode conversion, _, _, _, names =>
    triple_known known ((operandCode.triple coherent small names).bind fun _ =>
      conversion.triple coherent)

/-- The code of operands leaves the values of the operands, in their order. -/
theorem OperandsAt.triple (coherent : setting.env.Coherent)
    (small : code.bytes.size < 2 ^ 31) {scope : SlotScope} {operands : List Expr}
    {targets : List Ty}
    {start stop : Cursor} :
    OperandsAt code setting.env setting.typing scope operands targets start stop →
    ∀ {values : ValueScope} {kept : List (Nat × Value)} {stack : List Value},
      Names scope values kept →
      Triple (setting.program code) (At (setting.program code) start kept stack)
        (Semantics.operands setting
          (operands.map fun operand => (operand, eval setting operand values)) targets)
        (fun results machine => results.length = targets.length ∧
          At (setting.program code) stop kept (results.reverse ++ stack) machine)
  | .nil, _, _, _, _ => .pure [] fun _ here => ⟨rfl, here⟩
  | .cons operandCode operandsCode, _, _, _, names => by
    refine (operandCode.triple coherent small names).bind fun value =>
      (operandsCode.triple coherent small names).bind fun results =>
        .pure (value :: results) fun _ here => ?_
    refine ⟨by rw [List.length_cons, here.1, List.length_cons], ?_⟩
    rw [List.reverse_cons, List.append_assoc]
    exact here.2

/-- The code of an operator leaves what the operator gives for its operands. -/
theorem OperatorAt.triple (coherent : setting.env.Coherent)
    (small : code.bytes.size < 2 ^ 31) {scope : SlotScope} {resolution : Resolution}
    {operands : List Expr}
    {action : Action} {start stop : Cursor} :
    OperatorAt code setting.env setting.typing scope resolution operands action start stop →
    ∀ {values : ValueScope} {kept : List (Nat × Value)} {stack : List Value}
      {apply : List Value → Except RuntimeError Value}, Names scope values kept →
      Acts (setting.program code) kept operands.length action apply →
      Triple (setting.program code) (At (setting.program code) start kept stack)
        (operator setting (some resolution)
          (operands.map fun operand => (operand, eval setting operand values)) apply)
        (fun value => At (setting.program code) stop kept (value :: stack))
  | .primitive operandsCode done, _, _, _, _, names, acts => by
    refine triple_known rfl ?_
    simp only [List.map_map, Function.comp_def]
    refine (operandsCode.triple coherent small names).bind fun results => ?_
    rintro machine ⟨length, here⟩
    exact acts results (length.trans (List.length_map _)) done machine here
  | .overload operandsCode called, _, _, _, _, names, _ => by
    refine triple_known rfl ((operandsCode.triple coherent small names).bind fun results => ?_)
    rintro machine ⟨length, here⟩
    exact Machine.triple_call rfl coherent called length machine here

/-- The code of an item leaves whether the operand equals the item. -/
theorem ItemAt.triple (coherent : setting.env.Coherent)
    (small : code.bytes.size < 2 ^ 31) {scope : SlotScope} {operandType : Ty} {slot : Nat}
    {item : Expr}
    {start stop : Cursor} :
    ItemAt code setting.env setting.typing scope operandType slot item start stop →
    ∀ {values : ValueScope} {kept : List (Nat × Value)} {stack : List Value} {operand : Value},
      Names scope values kept → (slot, operand) ∈ kept →
      Triple (setting.program code) (At (setting.program code) start kept stack)
        (itemTest setting operandType operand item (eval setting item values))
        (fun value => At (setting.program code) stop kept (value :: stack))
  | .primitive tested loaded conversion itemCode comparison, _, _, _, _, names, listed => by
    refine triple_known tested (.after (Machine.moves_loadLocal loaded listed) ?_)
    exact (conversion.triple coherent).bind fun _ =>
      (itemCode.triple coherent small names).bind fun _ =>
      Machine.triple_compare comparison
  | .overload tested params loaded conversion itemCode comparison, _, _, _, _, names, listed => by
    obtain ⟨_, known⟩ := itemCode.known
    refine triple_known tested (.after (Machine.moves_loadLocal loaded listed) ?_)
    simp only [params, List.headD_cons]
    refine (conversion.triple coherent).bind fun left => triple_known known
      ((itemCode.triple coherent small names).bind fun right => ?_)
    have arity : [left, right].length = (OperatorMethod.entry _).arity :=
      (congrArg List.length params).symm
    exact Machine.triple_call rfl coherent comparison arity

/-- The code of items leads to the place for an equal item, if there is one. -/
theorem ItemsAt.triple (coherent : setting.env.Coherent)
    (small : code.bytes.size < 2 ^ 31) {scope : SlotScope} {operandType : Ty} {slot equal : Nat}
    {items : List Expr} {start stop : Cursor} :
    ItemsAt code setting.env setting.typing scope operandType slot equal items start stop →
    ∀ {values : ValueScope} {kept : List (Nat × Value)} {stack : List Value} {operand : Value}
      {slots : Nat}, Names scope values kept → (slot, operand) ∈ kept → stop.slots ≤ slots →
      Triple (setting.program code) (At (setting.program code) start kept stack)
        (evalItems setting operandType operand items values)
        (fun found => At (setting.program code) (if found = true then ⟨equal, slots⟩ else stop) kept
          stack)
  | .nil, _, _, _, _, _, _, _, _ => .pure false fun _ here => here
  | .cons itemCode chosen itemsCode, _, _, _, _, _, names, listed, grown => by
    have nextGrows := Nat.le_trans (Nat.le_of_eq chosen.slots_eq.symm)
      (Nat.le_trans itemsCode.precedes.slots grown)
    rw [evalItems]
    refine (itemCode.triple coherent small names listed).bind fun result =>
      (Machine.triple_branch small true chosen nextGrows).bind fun found => ?_
    cases found with
    | true => exact .pure true fun _ here => here
    | false => exact itemsCode.triple coherent small names listed grown

/-- The code of elements stores every element in the new array. -/
theorem ElementsAt.triple (coherent : setting.env.Coherent)
    (small : code.bytes.size < 2 ^ 31) {scope : SlotScope} {element : Ty} {index : Nat}
    {elements : List Expr}
    {start stop : Cursor} :
    ElementsAt code setting.env setting.typing scope element index elements start stop →
    ∀ {values : ValueScope} {kept : List (Nat × Value)} {stack : List Value} {reference : ArrayRef},
      Names scope values kept →
      Triple (setting.program code)
        (At (setting.program code) start kept (.array reference :: stack))
        (evalElements setting reference element index elements values)
        (fun _ => At (setting.program code) stop kept (.array reference :: stack))
  | .nil, _, _, _, _, _ => .pure () fun _ here => here
  | .cons short copy position valueCode storing valuesCode, _, _, _, _, names => by
    rw [evalElements]
    refine .after ((Machine.moves_dup copy).trans (Machine.moves_push position)) ?_
    exact (valueCode.triple coherent small names).bind fun _ =>
      (Machine.triple_storeElement storing (Machine.integer?_i32 short) short).bind fun _ =>
        valuesCode.triple coherent small names

/-- The code of bindings keeps the bound values in their slots. -/
theorem BindingsAt.triple (coherent : setting.env.Coherent)
    (small : code.bytes.size < 2 ^ 31) {scope inner : SlotScope} {bindings : List (String × Expr)}
    {start stop : Cursor} :
    BindingsAt code setting.env setting.typing scope bindings inner start stop →
    ∀ {values : ValueScope} {kept : List (Nat × Value)} {stack : List Value},
      Names scope values kept →
      Triple (setting.program code) (At (setting.program code) start kept stack)
        (evalBindings setting bindings values)
        (fun innerValues machine => ∃ more, kept ⊆ more ∧ Names inner innerValues more ∧
          At (setting.program code) stop more stack machine)
  | .nil, _, kept, _, names => .pure _ fun _ here => ⟨kept, List.Subset.refl _, names, here⟩
  | .cons valueCode stored valuesCode, _, _, _, names => by
    rw [evalBindings]
    refine (valueCode.triple coherent small names).bind fun value =>
      .after (Machine.moves_store stored) ?_
    refine (valuesCode.triple coherent small (names.bind _ _ value)).mono fun _ _ => ?_
    rintro ⟨more, subset, innerNames, here⟩
    exact ⟨more, List.Subset.trans (List.subset_cons_self _ _) subset, innerNames, here⟩

/-- The code of a chain leads to the exit for its value, or to its end. -/
theorem ChainAt.triple (coherent : setting.env.Coherent)
    (small : code.bytes.size < 2 ^ 31) {scope : SlotScope} {expr : Expr} {exit : Bool → Option Nat}
    {start stop : Cursor} :
    ChainAt code setting.env setting.typing scope expr exit start stop →
    ∀ {values : ValueScope} {kept : List (Nat × Value)} {stack : List Value},
      Names scope values kept →
      Triple (setting.program code) (At (setting.program code) start kept stack)
        (eval setting expr values) (Leaves (setting.program code) exit stop kept stack)
  | .operand _ operandCode, _, _, _, names =>
    (operandCode.triple coherent small names).mono fun _ _ here => .inl here
  | .joined joined leftCode decided undecided chosen leads rightCode, _, _, _, names => by
    have grown := Nat.le_trans (Nat.le_of_eq chosen.slots_eq.symm) rightCode.precedes.slots
    rw [eval_joined joined]
    refine (leftCode.triple coherent small names).bind fun value =>
      (triple_decide small decided undecided chosen leads grown).bind fun first => ?_
    refine .ite (.pure _ fun machine there => ?_) (rightCode.triple coherent small names)
    obtain ⟨target, found, here⟩ := there
    exact .inr ⟨first, target, rfl, found, here⟩

end

end Expressions

/-! ## Runs -/

section Runs

variable {program : Program} {machine : Machine} {stop finish : Cursor}

/-- A return ends the run with the value on the stack. -/
theorem run_return {limit : Nat} {value : Value}
    (returned : ActionAt program.code stop .ret finish)
    (here : At program stop [] [value] machine) :
    Machine.run program (limit + 1) machine = some ⟨.ok value, machine.heap, machine.calls⟩ := by
  have stepped : (Machine.step program).run machine = .ok (some value)
      { machine with pc := finish.offset, stack := [] } := by
    refine (Machine.step_eq returned here).trans ?_
    rw [here.stack]
    rfl
  rw [Machine.run, stepped]

/-- A run that comes to what an evaluation ended with, and then to a return, ends so. -/
theorem run_of_delivers {result : EStateM.Result RuntimeError World Value}
    (returned : ActionAt program.code stop .ret finish)
    (delivers : Machine.Delivers program machine (fun value => At program stop [] [value]) result) :
    ∃ steps, ∀ limit, steps ≤ limit →
      Machine.run program limit machine = some (ending result) := by
  cases result with
  | ok value world =>
    obtain ⟨last, reaches, rfl, here⟩ := delivers
    obtain ⟨steps, same⟩ := reaches.run_eq
    refine ⟨steps + 1, fun limit enough => ?_⟩
    obtain ⟨more, rfl⟩ := Nat.exists_eq_add_of_le enough
    rw [Nat.add_assoc, Nat.add_comm 1 more, same]
    exact run_return returned here
  | error error world =>
    obtain ⟨last, after, reaches, failed, rfl⟩ := delivers
    obtain ⟨steps, same⟩ := reaches.run_eq
    refine ⟨steps + 1, fun limit enough => ?_⟩
    obtain ⟨more, rfl⟩ := Nat.exists_eq_add_of_le enough
    have failedRun : (Machine.step program).run last = .error error after := failed
    rw [Nat.add_assoc, Nat.add_comm 1 more, same, Machine.run, failedRun]
    rfl

/-- The machine starts at the first instruction. -/
theorem at_initial (program : Program) (heap : Heap) :
    At program ⟨0, 0⟩ [] [] (Machine.initial program.code heap) where
  pc := rfl
  stack := rfl
  size := Array.size_map
  kept _ listed := by cases listed

end Runs

/-- The machine brings compiled code to the end that the evaluation of the expression has. -/
theorem Compiled.execute_eq {env : Environment} {expr : Expr} {code : Code}
    (compiled : Compiled env expr code) (coherent : env.Coherent)
    (small : code.bytes.size < 2 ^ 31) (host : Host) (arguments : Array Value) (heap : Heap) :
    ∃ steps, ∀ limit, steps ≤ limit → Machine.execute limit ⟨code, arguments, host⟩ heap =
      some (outcome ⟨env, typingOf env expr, host, arguments⟩ expr heap) := by
  obtain ⟨stop, finish, bodyCode, returned⟩ := compiled.body
  let setting : Setting := ⟨env, typingOf env expr, host, arguments⟩
  have triple : Triple (setting.program code) (At (setting.program code) ⟨0, 0⟩ [] [])
      (eval setting expr []) (fun value => At (setting.program code) stop [] [value]) :=
    bodyCode.triple coherent small Names.empty
  obtain ⟨steps, ends⟩ := run_of_delivers returned
    (triple _ (at_initial (setting.program code) heap))
  refine ⟨steps, fun limit enough => ?_⟩
  unfold Machine.execute
  rw [if_pos compiled.version]
  exact ends limit enough

/-- One variable and one function. -/
def pricing : Environment where
  variableTypes := #[("member", .bool)]
  functions := [("price", ⟨[.int .i64], .int .i32, ⟨0⟩⟩)]

/-- Members pay the price of two pieces, others pay ten. -/
def payment : Expr :=
  .conditional ⟨0, 0, 0⟩ (.ident ⟨1, 0, 0⟩ "member")
    (.call ⟨2, 0, 0⟩ "price" [.literal ⟨3, 0, 0⟩ (.int 2)]) (.literal ⟨4, 0, 0⟩ (.long 10))

/-- A host whose functions answer five. -/
def fiveHost : Host := ⟨fun _ _ heap => (.ok (.int (.ofInt .i32 5)), heap)⟩

/-- The environment of the example declares its names. -/
theorem declared_pricing : pricing.Declared := by
  have member : Environment.declareVariable {} "member" .bool =
      .ok (0, { variableTypes := #[("member", .bool)] }) := by cbv
  have price : Environment.registerFunction { variableTypes := #[("member", .bool)] } "price"
      ⟨[.int .i64], .int .i32, ⟨0⟩⟩ = .ok pricing := rfl
  exact .registerFunction (.declareVariable .empty member) price

/-- The example compiles. -/
theorem compile_payment : ∃ code, compile pricing payment 8 = .ok code ∧ code.bytes.size < 2 ^ 31 :=
  ⟨_, by cbv, by decide⟩

end ExprCode
