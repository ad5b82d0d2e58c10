import ExprCode.Proofs.FramePool
import ExprCode.Proofs.Renaming

/-! # Bindings are lexical

Main statement: `compile_of_renamed`. The names of bindings leave no trace: two trees that are the
same up to these names have the same type and the same code, or fail with the same error.

Typing was followed in `Renaming`. Code is generated from tables that agree on paired nodes, so the
operations that emit it are not only in step but equal; only the labels of a chain are kept under
the identities of its operands, and are followed in step once more. -/

namespace ExprCode

/-! ## Chains of paired operands -/

/-- Places of two chains that stand for each other. -/
inductive BranchKey.Twins (pairs : NodeId → NodeId → Prop) : BranchKey → BranchKey → Prop
  | operand {node other : NodeId} (paired : pairs node other) :
      Twins pairs (.operand node) (.operand other)
  | trueTerminal : Twins pairs .trueTerminal .trueTerminal
  | falseTerminal : Twins pairs .falseTerminal .falseTerminal
  | finish : Twins pairs .finish .finish

/-- Chains of the same connectives whose operands are paired and have the same code. -/
inductive Chain.Twins (pairs : NodeId → NodeId → Prop) :
    Chain (ChainOperand Emitter) → Chain (ChainOperand Emitter) → Prop
  | operand {node other : NodeId} {code otherCode : Codegen Emitter Unit}
      (paired : pairs node other)
      (same : code = otherCode) : Twins pairs (.operand ⟨node, code⟩) (.operand ⟨other, otherCode⟩)
  | joined {connective : Connective}
      {left right otherLeft otherRight : Chain (ChainOperand Emitter)}
      (lefts : Twins pairs left otherLeft) (rights : Twins pairs right otherRight) :
      Twins pairs (.joined connective left right) (.joined connective otherLeft otherRight)

/-- Tables that give the same labels, in the same order, to places that stand for each other. -/
def Branches.Twins (pairs : NodeId → NodeId → Prop) (branches other : Branches) : Prop :=
  List.Forall₂ (fun entry copy => BranchKey.Twins pairs entry.1 copy.1 ∧ entry.2 = copy.2)
    branches.labels other.labels

section Chains

variable {pairs : NodeId → NodeId → Prop} {key copy : BranchKey}

/-- Places that stand for each other are equal to places that stand for each other. -/
theorem BranchKey.Twins.eq_iff (oneToOne : OneToOne pairs) {more otherMore : BranchKey}
    (twins : BranchKey.Twins pairs key copy) (moreTwins : BranchKey.Twins pairs more otherMore) :
    key = more ↔ copy = otherMore := by
  cases twins with
  | operand paired =>
    cases moreTwins with
    | operand alsoPaired => simpa using oneToOne _ _ _ _ paired alsoPaired
    | _ => simp
  | _ => cases moreTwins <;> simp

/-- Twin tables have the same label for twin keys. -/
theorem Branches.Twins.find? (oneToOne : OneToOne pairs) {branches other : Branches}
    (twins : Branches.Twins pairs branches other) (keys : BranchKey.Twins pairs key copy) :
    branches.find? key = other.find? copy := by
  unfold Branches.find?
  unfold Branches.Twins at twins
  generalize branches.labels = entries, other.labels = others at twins
  induction twins with
  | nil => rfl
  | @cons entry otherEntry entries others first _ ih =>
    obtain ⟨place, label⟩ := entry
    obtain ⟨otherPlace, otherLabel⟩ := otherEntry
    obtain ⟨places, rfl⟩ := first
    have equal : (key == place) = (copy == otherPlace) := by
      rw [Bool.eq_iff_iff, beq_iff_eq, beq_iff_eq]
      exact keys.eq_iff oneToOne places
    rw [List.lookup_cons, List.lookup_cons, equal, ih]

/-- The same emitter with tables that stand for each other. -/
def TablesAlike (pairs : NodeId → NodeId → Prop) (state other : Branches × Emitter) : Prop :=
  Branches.Twins pairs state.1 other.1 ∧ state.2 = other.2

namespace Branches

/-- Reading the tables gives tables that stand for each other. -/
theorem inStep_get :
    InStep (TablesAlike pairs) (TablesAlike pairs) (get : Branching (Branches × Emitter)) get :=
  fun _ _ alike => .ok alike alike

/-- What the emitter does is the same beside twin tables. -/
theorem inStep_emitting {α : Type} (operation : Emit α) :
    InStep (TablesAlike pairs) Eq (emitting operation) (emitting operation) := by
  rintro ⟨branches, emitter⟩ ⟨others, _⟩ ⟨twins, rfl⟩
  dsimp only [emitting]
  cases operation emitter with
  | ok value after => exact .ok rfl ⟨twins, rfl⟩
  | error defect after => exact .error ⟨twins, rfl⟩

/-- A place has its label in both tables, or gets the same one. -/
theorem inStep_label (oneToOne : OneToOne pairs) (keys : BranchKey.Twins pairs key copy) :
    InStep (TablesAlike pairs) Eq (label key) (label copy) := by
  refine inStep_get.bind fun state other alike => ?_
  rw [alike.1.find? oneToOne keys]
  cases other.1.find? copy with
  | some label => exact .pure rfl
  | none =>
    refine (inStep_emitting Emitter.defineLabel).next fun label => ?_
    -- both tables get an entry at their end, for places that stand for each other
    refine InStep.next (fun _ _ alike => .ok rfl ⟨?_, alike.2⟩) fun _ => .pure rfl
    exact List.rel_append alike.1 (.cons ⟨keys, rfl⟩ .nil)

/-- The branches that are recorded have no part in `TablesAlike`: nothing is emitted from them. -/
theorem inStep_addBranch (oneToOne : OneToOne pairs) (op : Opcode)
    (keys : BranchKey.Twins pairs key copy) :
    InStep (TablesAlike pairs) Eq (addBranch op key) (addBranch op copy) := by
  refine (inStep_label oneToOne keys).next fun target => (inStep_emitting _).next fun source => ?_
  exact InStep.next (fun _ _ alike => .ok rfl alike) fun _ => .pure rfl

/-- Twin keys are marked in step. -/
theorem inStep_mark (oneToOne : OneToOne pairs) (keys : BranchKey.Twins pairs key copy) :
    InStep (TablesAlike pairs) Eq (mark key) (mark copy) := by
  refine inStep_get.bind fun state other alike => ?_
  rw [alike.1.find? oneToOne keys]
  cases other.1.find? copy with
  | some label => exact (inStep_emitting _).next fun _ => .pure rfl
  | none => exact .pure rfl

end Branches

namespace Frame

open Branches

/-- The same emitter with frames whose tables stand for each other. -/
def FramesAlike (pairs : NodeId → NodeId → Prop) (state other : Frame × Emitter) : Prop :=
  TablesAlike pairs (state.1.branches, state.2) (other.1.branches, other.2)

/-- What is in step on tables is in step on frames. -/
theorem inStep_branching {α : Type} {operation other : Branching α}
    (inStep : InStep (TablesAlike pairs) Eq operation other) :
    InStep (FramesAlike pairs) Eq (branching operation : Lowering Emitter α) (branching other) := by
  rintro ⟨frame, emitter⟩ ⟨otherFrame, otherEmitter⟩ alike
  have ends := inStep _ _ alike
  dsimp only [branching, HasEmitter.emitter, HasEmitter.withEmitter]
  generalize operation (frame.branches, emitter) = one,
    other (otherFrame.branches, otherEmitter) = two at ends
  cases ends with
  | ok result state => exact .ok result state
  | error state => exact .error state

/-- Code outside of a chain is in step with itself. -/
theorem inStep_outside (code : Codegen Emitter Unit) :
    InStep (FramesAlike pairs) Eq (outside code) (outside code) := by
  rintro ⟨frame, emitter⟩ ⟨otherFrame, otherEmitter⟩ ⟨twins, same⟩
  cases same
  dsimp only [outside]
  cases code emitter with
  | ok value after => exact .ok rfl ⟨twins, rfl⟩
  | error error after => exact .error ⟨twins, rfl⟩

/-- Twin chains start at twin places. -/
theorem first_twins {chain other : Chain (ChainOperand Emitter)}
    (twins : Chain.Twins pairs chain other) :
    BranchKey.Twins pairs chain.first.place other.first.place := by
  induction twins with
  | operand paired => exact .operand paired
  | joined _ _ ihLeft => exact ihLeft

/-- Along the trees of two chains, whose exits stand for each other. -/
theorem inStep_emitTree (oneToOne : OneToOne pairs) {chain other : Chain (ChainOperand Emitter)}
    (twins : Chain.Twins pairs chain other) {exits otherExits : Bool → BranchKey}
    (exitTwins : ∀ value, BranchKey.Twins pairs (exits value) (otherExits value)) :
    InStep (FramesAlike pairs) Eq (emitTree chain exits) (emitTree other otherExits) := by
  induction twins generalizing exits otherExits with
  | operand paired same =>
    subst same
    exact (inStep_branching (inStep_mark oneToOne (.operand paired))).next fun _ => inStep_outside _
  | @joined connective left right otherLeft otherRight _ rights ihLeft ihRight =>
    refine (ihLeft fun value => ?_).next fun _ => ?_
    · split
      · exact exitTwins value
      · -- the left part leaves undecided for the first operand on the right
        exact first_twins rights
    · refine (inStep_branching (inStep_addBranch oneToOne _ (exitTwins _))).next fun _ => ?_
      exact ihRight exitTwins

/-- The places where results are made are the same in both chains. -/
theorem inStep_emitTerminals (oneToOne : OneToOne pairs) :
    InStep (TablesAlike pairs) Eq emitTerminals emitTerminals := by
  have made : InStep (TablesAlike pairs) Eq emitTrue emitTrue := by
    refine (inStep_mark oneToOne .trueTerminal).next fun marked => ?_
    have finished : InStep (TablesAlike pairs) Eq emitFinish emitFinish :=
      (inStep_label oneToOne .finish).next fun _ => inStep_emitting _
    split
    · exact (inStep_emitting _).next fun _ => finished
    · exact finished
  refine inStep_get.bind fun state other alike => ?_
  rw [alike.1.find? oneToOne .trueTerminal]
  refine (inStep_mark oneToOne .falseTerminal).next fun marked => ?_
  split
  · refine (inStep_emitting _).next fun _ => ?_
    split
    · exact (inStep_addBranch oneToOne _ .finish).next fun _ => made
    · exact made
  · exact made

/-- Two chains are lowered in step, each in a frame of its own. -/
theorem lower_endsAlike (oneToOne : OneToOne pairs) (connective : Connective)
    {left right otherLeft otherRight : Chain (ChainOperand Emitter)}
    (lefts : Chain.Twins pairs left otherLeft)
    (rights : Chain.Twins pairs right otherRight) (emitter : Emitter) :
    EndsAlike (FramesAlike pairs) Eq (lower (.joined connective left right) (({} : Frame), emitter))
      (lower (.joined connective otherLeft otherRight) (({} : Frame), emitter)) := by
  rw [lower_eq, lower_eq]
  refine ((inStep_emitTree oneToOne (.joined lefts rights) fun value => ?_).next fun _ =>
    (inStep_branching (inStep_addBranch oneToOne _ .finish)).next fun _ =>
    (inStep_branching (inStep_emitTerminals oneToOne)).next fun _ => ?_) _ _ ⟨.nil, rfl⟩
  · cases value with
    | false => exact .falseTerminal
    | true => exact .trueTerminal
  · exact fun _ _ alike => .ok rfl alike

/-- Chains of paired operands have the same code. -/
theorem emitCode_congr (oneToOne : OneToOne pairs) {chain other : Chain (ChainOperand Emitter)}
    (twins : Chain.Twins pairs chain other) : Codegen.emitCode chain = Codegen.emitCode other := by
  cases twins with
  | operand _ same => exact same
  | @joined connective left right otherLeft otherRight lefts rights =>
    funext emitter
    have ends := lower_endsAlike oneToOne connective lefts rights emitter
    show Codegen.emitJoined _ emitter = Codegen.emitJoined _ emitter
    rw [Codegen.emitJoined_eq, Codegen.emitJoined_eq]
    generalize lower (.joined connective left right) (({} : Frame), emitter) = one,
      lower (.joined connective otherLeft otherRight) (({} : Frame), emitter) = two at ends
    cases ends with
    | ok _ state =>
      obtain ⟨_, same⟩ := state
      exact congrArg _ same
    | error state =>
      obtain ⟨_, same⟩ := state
      exact congrArg _ same

end Frame

end Chains

/-! ## Code of paired nodes -/

section Code

/-- An operation goes in step with itself. -/
theorem InStep.refl {ε σ α : Type} (operation : EStateM ε σ α) :
    InStep Eq Eq operation operation := by
  rintro state _ rfl
  cases operation state with
  | ok value after => exact .ok rfl rfl
  | error error after => exact .error rfl

/-- Sequences are equal if their first parts go in step and their rests are equal. -/
theorem InStep.bind_eq {ε σ α β γ : Type} {results : α → β → Prop} {first : EStateM ε σ α}
    {second : EStateM ε σ β} {next : α → EStateM ε σ γ} {otherNext : β → EStateM ε σ γ}
    (inStep : InStep Eq results first second)
    (rest : ∀ value other, results value other → next value = otherNext other) :
    (first >>= next) = (second >>= otherNext) := by
  funext state
  have ends := inStep state state rfl
  generalize firstRun : first state = one, secondRun : second state = two at ends
  cases ends with
  | ok result same =>
    rw [bind_of_ok firstRun, bind_of_ok secondRun, rest _ _ result, same]
  | error same =>
    rw [bind_of_error firstRun, bind_of_error secondRun, same]

namespace Codegen

variable {env : Environment} {pairs : NodeId → NodeId → Prop} {typing other : Typing}
  {node copy : Node} {expr renamed : Expr} {names : NamePairs}

/-- What is known of a node is known of its copy. -/
theorem known_congr {α : Type} (span : node.span = copy.span) {entry otherEntry : Option α}
    (same : entry = otherEntry) :
    (known node entry : Codegen Emitter α) = known copy otherEntry := by
  subst same
  cases entry with
  | some value => rfl
  | none =>
    unfold known
    rw [span]

section Tables

variable (tables : Typing.Twins pairs typing other)
include tables

/-- A tree and its copy have the same type. -/
theorem typeOf_congr (twins : Twins pairs expr.node renamed.node) :
    (typeOf typing expr : Codegen Emitter Ty) = typeOf other renamed :=
  known_congr twins.span (tables.types _ _ twins.paired)

/-- A node and its copy have the same resolution. -/
theorem resolutionOf_congr (twins : Twins pairs node copy) :
    (resolutionOf typing node : Codegen Emitter Resolution) = resolutionOf other copy :=
  known_congr twins.span (tables.resolutions _ _ twins.paired)

/-- A tree and its copy are truth values together. -/
theorem isBool_congr (twins : Twins pairs expr.node renamed.node) :
    isBool typing expr = isBool other renamed :=
  congrArg (· == some Ty.bool) (tables.types _ _ twins.paired)

/-- A tree and its copy are converted alike. -/
theorem emitConverted_congr (twins : Twins pairs expr.node renamed.node)
    (code : Codegen Emitter Unit) (target : Ty) :
    emitConverted env typing expr code target = emitConverted env other renamed code target := by
  unfold emitConverted Expr.span
  rw [typeOf_congr tables twins, twins.span]

/-- Operands that are paired and have the same code. -/
def OperandsAlike (pairs : NodeId → NodeId → Prop)
    (operands others : List (Expr × Codegen Emitter Unit)) : Prop :=
  List.Forall₂ (fun operand copy => Twins pairs operand.1.node copy.1.node ∧ operand.2 = copy.2)
    operands others

/-- Operands and their copies have the same code. -/
theorem emitArguments_congr {operands others : List (Expr × Codegen Emitter Unit)}
    (alike : OperandsAlike pairs operands others) (params : List Ty) :
    emitArguments env typing operands params = emitArguments env other others params := by
  unfold OperandsAlike at alike
  induction alike generalizing params with
  | nil => rfl
  | @cons operand copy _ _ first _ ih =>
    cases params with
    | nil => rfl
    | cons param params =>
      obtain ⟨twins, same⟩ := first
      rw [emitArguments, emitArguments, emitConverted_congr tables twins, same, ih]

/-- An operator and its copy have the same code. -/
theorem emitOperator_congr (twins : Twins pairs node copy) (op : Opcode)
    {operands others : List (Expr × Codegen Emitter Unit)}
    (alike : OperandsAlike pairs operands others) :
    emitOperator env typing node op operands = emitOperator env other copy op others := by
  have length : operands.length = others.length := List.Forall₂.length_eq alike
  unfold emitOperator
  rw [resolutionOf_congr tables twins]
  simp only [List.map_const', length, emitArguments_congr tables alike]

/-- A shift and its copy have the same code. -/
theorem emitShift_congr (twins : Twins pairs node copy) (direction : ShiftDirection)
    {left right otherLeft otherRight : Expr} (lefts : Twins pairs left.node otherLeft.node)
    (rights : Twins pairs right.node otherRight.node) (leftCode rightCode : Codegen Emitter Unit) :
    emitShift env typing node direction left right leftCode rightCode =
      emitShift env other copy direction otherLeft otherRight leftCode rightCode := by
  unfold emitShift
  rw [resolutionOf_congr tables twins, typeOf_congr tables rights]
  simp only [emitConverted_congr tables lefts]

/-- The tests of an item and of its copy have the same code. -/
theorem emitItemTest_congr (twins : Twins pairs expr.node renamed.node) (type : Ty) (span : Span)
    (slot : Nat)
    (code : Codegen Emitter Unit) :
    emitItemTest env typing type span slot expr code =
      emitItemTest env other type span slot renamed code := by
  have entry : (known expr.node typing.memberships[expr.id]? : Codegen Emitter Resolution) =
      known renamed.node other.memberships[renamed.id]? :=
    known_congr twins.span (tables.memberships _ _ twins.paired)
  unfold emitItemTest
  rw [entry, typeOf_congr tables twins]
  simp only [emitConverted_congr tables twins]

end Tables

/-- A name and its copy have the same code. -/
theorem emitName_congr {name otherName : String} {scope others : SlotScope}
    (span : node.span = copy.span)
    (same : SameName names name otherName) (alike : ScopesAlike names scope others) :
    (emitName env node name scope : Codegen Emitter Unit) =
      emitName env copy otherName others := by
  obtain ⟨found, free⟩ := same.lookup alike
  unfold emitName
  rw [← found]
  cases bound : scope.lookup name with
  | some slot => rfl
  | none => rw [free bound, span]

/-- The plans of two expressions stand for each other, under every two scopes that bind the names
alike. -/
def PlansAlike (env : Environment) (pairs : NodeId → NodeId → Prop) (typing other : Typing)
    (names : NamePairs) (expr renamed : Expr) : Prop :=
  ∀ scope others, ScopesAlike names scope others →
    Chain.Twins pairs (plan env typing expr scope) (plan env other renamed others)

/-- Paired expressions have the same code, under every two scopes that bind the names alike. -/
structure CodesAlike (env : Environment) (pairs : NodeId → NodeId → Prop) (typing other : Typing)
    (names : NamePairs) (expr renamed : Expr) : Prop where
  /-- They are paired. -/
  twins : Twins pairs expr.node renamed.node
  /-- They have the same code. -/
  code : ∀ scope others, ScopesAlike names scope others →
    (emitCode (plan env typing expr scope) : Codegen Emitter Unit) =
      emitCode (plan env other renamed others)

/-- The operands of an operator on two of them. -/
theorem operandsAlike {left right otherLeft otherRight : Expr}
    (lefts : CodesAlike env pairs typing other names left otherLeft)
    (rights : CodesAlike env pairs typing other names right otherRight) {scope others : SlotScope}
    (alike : ScopesAlike names scope others) :
    OperandsAlike pairs
      [(left, emitCode (plan env typing left scope)),
        (right, emitCode (plan env typing right scope))]
      [(otherLeft, emitCode (plan env other otherLeft others)),
        (otherRight, emitCode (plan env other otherRight others))] :=
  .cons ⟨lefts.twins, lefts.code _ _ alike⟩ (.cons ⟨rights.twins, rights.code _ _ alike⟩ .nil)

section Lists

variable (tables : Typing.Twins pairs typing other) {exprs others : List Expr}
  {scope otherScope : SlotScope}
include tables

/-- Items and their copies have the same code. -/
theorem emitItems_congr (each : List.Forall₂ (CodesAlike env pairs typing other names) exprs others)
    (alike : ScopesAlike names scope otherScope) (type : Ty) (span : Span) (slot : Nat)
    (found : Label) :
    (emitItems env typing type span slot found exprs scope : Codegen Emitter Unit) =
      emitItems env other type span slot found others otherScope := by
  induction each with
  | nil => rfl
  | cons first _ ih =>
    rw [emitItems, emitItems, emitItemTest_congr tables first.twins, first.code _ _ alike, ih]

/-- Elements and their copies have the same code. -/
theorem emitElements_congr
    (each : List.Forall₂ (CodesAlike env pairs typing other names) exprs others)
    (alike : ScopesAlike names scope otherScope) (element : Ty) (index : Nat) :
    (emitElements env typing element index exprs scope : Codegen Emitter Unit) =
      emitElements env other element index others otherScope := by
  induction each generalizing index with
  | nil => rfl
  | cons first _ ih =>
    rw [emitElements, emitElements, emitConverted_congr tables first.twins, first.code _ _ alike,
      ih]

/-- Arguments and their copies have the same code. -/
theorem emitCallArguments_congr
    (each : List.Forall₂ (CodesAlike env pairs typing other names) exprs others)
    (alike : ScopesAlike names scope otherScope) (params : List Ty) :
    (emitCallArguments env typing exprs params scope : Codegen Emitter Unit) =
      emitCallArguments env other others params otherScope := by
  induction each generalizing params with
  | nil => rfl
  | cons first _ ih =>
    cases params with
    | nil => rfl
    | cons param params =>
      rw [emitCallArguments, emitCallArguments, emitConverted_congr tables first.twins,
        first.code _ _ alike, ih]

end Lists

end Codegen

end Code

namespace Expr

open Codegen

variable {env : Environment} {pairs : NodeId → NodeId → Prop} {typing other : Typing}

/-- Expressions whose plans stand for each other have the same code. -/
theorem Renamed.codesAlike (oneToOne : OneToOne pairs) {names : NamePairs} {expr renamed : Expr}
    (same : Renamed (Twins pairs) names expr renamed)
    (plans : PlansAlike env pairs typing other names expr renamed) :
    CodesAlike env pairs typing other names expr renamed :=
  ⟨same.node, fun scope others alike => Frame.emitCode_congr oneToOne (plans scope others alike)⟩

mutual

/-- Expressions that are the same up to the names of bindings have plans that stand for each
other. -/
theorem Renamed.plansAlike (oneToOne : OneToOne pairs)
    (tables : Typing.Twins pairs typing other) {names : NamePairs} {expr renamed : Expr} :
    Renamed (Twins pairs) names expr renamed → PlansAlike env pairs typing other names expr renamed
  | .literal twins, _, _, _ => .operand twins.paired rfl
  | .ident twins refers, _, _, alike =>
    .operand twins.paired (emitName_congr twins.span refers alike)
  | .unary twins operands, _, _, alike =>
    have part := operands.codesAlike oneToOne (operands.plansAlike oneToOne tables)
    .operand twins.paired
      (emitOperator_congr tables twins _ (.cons ⟨part.twins, part.code _ _ alike⟩ .nil))
  | .arithmetic twins lefts rights, _, _, alike | .comparison twins lefts rights, _, _, alike
  | .xor twins lefts rights, _, _, alike =>
    have left := lefts.codesAlike oneToOne (lefts.plansAlike oneToOne tables)
    have right := rights.codesAlike oneToOne (rights.plansAlike oneToOne tables)
    .operand twins.paired (emitOperator_congr tables twins _ (operandsAlike left right alike))
  -- the types of the operands agree, so either both are links of a chain or neither is
  | .logical twins lefts rights, _, _, alike => by
    have left := lefts.codesAlike oneToOne (lefts.plansAlike oneToOne tables)
    have right := rights.codesAlike oneToOne (rights.plansAlike oneToOne tables)
    unfold plan
    rw [isBool_congr tables left.twins, isBool_congr tables right.twins]
    split
    · exact .joined (lefts.plansAlike oneToOne tables _ _ alike)
        (rights.plansAlike oneToOne tables _ _ alike)
    · exact .operand twins.paired
        (emitOperator_congr tables twins _ (operandsAlike left right alike))
  | .shift twins lefts rights, _, _, alike => by
    have left := lefts.codesAlike oneToOne (lefts.plansAlike oneToOne tables)
    have right := rights.codesAlike oneToOne (rights.plansAlike oneToOne tables)
    refine .operand twins.paired ?_
    rw [left.code _ _ alike, right.code _ _ alike]
    exact emitShift_congr tables twins _ left.twins right.twins _ _
  | .conditional twins conditions thens elses, _, _, alike => by
    have condition := conditions.codesAlike oneToOne (conditions.plansAlike oneToOne tables)
    have thenArm := thens.codesAlike oneToOne (thens.plansAlike oneToOne tables)
    have elseArm := elses.codesAlike oneToOne (elses.plansAlike oneToOne tables)
    refine .operand twins.paired ?_
    rw [known_congr twins.span (tables.types _ _ twins.paired), condition.code _ _ alike,
      thenArm.code _ _ alike, elseArm.code _ _ alike]
    simp only [emitConverted_congr tables thenArm.twins, emitConverted_congr tables elseArm.twins]
  | .member twins operands tests, _, _, alike => by
    have operand := operands.codesAlike oneToOne (operands.plansAlike oneToOne tables)
    refine .operand twins.paired ?_
    unfold Expr.span
    rw [typeOf_congr tables operand.twins, operand.code _ _ alike, operand.twins.span]
    simp only [emitItems_congr tables (tests.codesAlike oneToOne tables) alike]
  | .index twins sources positions, _, _, alike => by
    have source := sources.codesAlike oneToOne (sources.plansAlike oneToOne tables)
    have position := positions.codesAlike oneToOne (positions.plansAlike oneToOne tables)
    refine .operand twins.paired ?_
    rw [known_congr twins.span (tables.types _ _ twins.paired), source.code _ _ alike,
      position.code _ _ alike]
  | .array twins copies, _, _, alike => by
    have each := copies.codesAlike oneToOne tables
    refine .operand twins.paired ?_
    rw [known_congr twins.span (tables.types _ _ twins.paired), each.length_eq]
    simp only [known_congr twins.span rfl, emitElements_congr tables each alike]
  | .call twins copies, _, _, alike => by
    have each := copies.codesAlike oneToOne tables
    refine .operand twins.paired ?_
    rw [each.length_eq, twins.span]
    simp only [emitCallArguments_congr tables each alike]
  | .cast twins operands, _, _, alike => by
    have operand := operands.codesAlike oneToOne (operands.plansAlike oneToOne tables)
    refine .operand twins.paired ?_
    rw [typeOf_congr tables operand.twins, operand.code _ _ alike, twins.span]
  | .bindings twins bound bodies, _, _, alike =>
    have body := bodies.codesAlike oneToOne (bodies.plansAlike oneToOne tables)
    .operand twins.paired ((bound.emitInStep oneToOne tables _ _ alike).bind_eq body.code)

/-- The trees of a renamed list have the same code. -/
theorem RenamedList.codesAlike (oneToOne : OneToOne pairs)
    (tables : Typing.Twins pairs typing other) {names : NamePairs} {exprs others : List Expr} :
    RenamedList (Twins pairs) names exprs others →
      List.Forall₂ (CodesAlike env pairs typing other names) exprs others
  | .nil => .nil
  | .cons first rest => .cons (first.codesAlike oneToOne (first.plansAlike oneToOne tables))
    (rest.codesAlike oneToOne tables)

/-- Bound values are emitted in step, into the same slots. -/
theorem RenamedBindings.emitInStep (oneToOne : OneToOne pairs)
    (tables : Typing.Twins pairs typing other) {names inner : NamePairs}
    {values others : List (String × Expr)} :
    RenamedBindings (Twins pairs) names values others inner → ∀ scope otherScope,
      ScopesAlike names scope otherScope →
      InStep Eq (ScopesAlike inner)
        (emitBindings env typing values scope : Codegen Emitter SlotScope)
        (emitBindings env other others otherScope)
  | .nil, _, _, alike => .pure alike
  | .cons first rest, _, _, alike => by
    have value := first.codesAlike oneToOne (first.plansAlike oneToOne tables)
    unfold emitBindings
    rw [typeOf_congr tables value.twins, value.code _ _ alike]
    exact (InStep.refl _).next fun _ => (InStep.refl _).next fun _ => (InStep.refl _).next fun _ =>
      (InStep.refl _).next fun _ => rest.emitInStep oneToOne tables _ _ (.cons alike)

end

end Expr

/-! ## The main statement -/

/-- Nodes at the same place of two lists. -/
def PlacedAlike (ids others : List NodeId) (id other : NodeId) : Prop :=
  (id, other) ∈ ids.zip others

/-- In lists without repetitions the nodes at the same place are paired one to one. -/
theorem oneToOne_placedAlike {ids others : List NodeId} (nodup : ids.Nodup)
    (otherNodup : others.Nodup) :
    OneToOne (PlacedAlike ids others) := by
  intro id other more otherMore paired alsoPaired
  obtain ⟨place, bound, found⟩ := List.mem_iff_getElem.1 paired
  obtain ⟨otherPlace, otherBound, otherFound⟩ := List.mem_iff_getElem.1 alsoPaired
  simp only [List.getElem_zip, Prod.mk.injEq] at found otherFound
  obtain ⟨rfl, rfl⟩ := found
  obtain ⟨rfl, rfl⟩ := otherFound
  rw [nodup.getElem_inj_iff, otherNodup.getElem_inj_iff]

/-- Bindings are lexical: two trees that are the same up to the names of their bindings, in which
every name refers to the same binding, to the same variable or to nothing, have the same type or the
same error, and for every limit on the number of locals the same code or the same error. -/
theorem compile_of_renamed (env : Environment) {expr other : Expr} (tree : expr.IsTree)
    (otherTree : other.IsTree) (renamed : expr.Renamed SamePlace [] other) :
    check env expr = check env other ∧
      ∀ maxLocals, compile env expr maxLocals = compile env other maxLocals := by
  have oneToOne := oneToOne_placedAlike tree otherTree
  have paired : expr.Renamed (Twins (PlacedAlike expr.ids other.ids)) [] other :=
    renamed.pair fun _ member => member
  have empty : Typing.Twins (PlacedAlike expr.ids other.ids) {} {} := ⟨by simp, by simp, by simp⟩
  have ends := paired.typesInStep env oneToOne {} {} empty
  have codes (typing otherTyping : Typing)
      (tables : Typing.Twins (PlacedAlike expr.ids other.ids) typing otherTyping) :
      (Codegen.emitExpr env typing expr : Codegen Emitter Unit) =
        Codegen.emitExpr env otherTyping other :=
    Frame.emitCode_congr oneToOne (paired.plansAlike oneToOne tables [] [] .nil)
  simp only [compile_eq, check, EStateM.run]
  generalize Typing.typeOf env expr [] {} = one, Typing.typeOf env other [] {} = two at ends
  cases ends with
  | ok same tables =>
    rw [same]
    refine ⟨rfl, fun maxLocals => ?_⟩
    simp only [Codegen.program, codes _ _ tables]
  | error _ => exact ⟨rfl, fun _ => rfl⟩

/-- The sum of a number with itself, both under names of their own; the first name hides the
variable that its value is computed from. -/
def doubled : Expr :=
  .bindings ⟨0, 0, 0⟩ (.arithmetic ⟨1, 0, 0⟩ .add (.ident ⟨2, 0, 0⟩ "x") (.ident ⟨3, 0, 0⟩ "y"))
    [("x", .arithmetic ⟨4, 0, 0⟩ .add (.ident ⟨5, 0, 0⟩ "x") (.literal ⟨6, 0, 0⟩ (.int 1))),
      ("y", .ident ⟨7, 0, 0⟩ "x")]

/-- The same sum, in which the second name hides the variable. -/
def doubledAgain : Expr :=
  .bindings ⟨7, 0, 0⟩ (.arithmetic ⟨6, 0, 0⟩ .add (.ident ⟨5, 0, 0⟩ "z") (.ident ⟨4, 0, 0⟩ "x"))
    [("z", .arithmetic ⟨3, 0, 0⟩ .add (.ident ⟨2, 0, 0⟩ "x") (.literal ⟨1, 0, 0⟩ (.int 1))),
      ("x", .ident ⟨0, 0, 0⟩ "z")]

/-- The two trees of the example differ only in a bound name. -/
theorem doubled_renamed : doubled.Renamed SamePlace [] doubledAgain :=
  .bindings rfl
    (.cons (.arithmetic rfl (.ident rfl (.free "x")) (.literal rfl))
      (.cons (.ident rfl .here) .nil))
    (.arithmetic rfl (.ident rfl (.outer (by decide) (by decide) .here)) (.ident rfl .here))

/-- Both are compiled, to the same code. -/
theorem compile_doubled :
    ∃ code, compile { variableTypes := #[("x", .int .i32)] } doubled 8 = .ok code ∧
    compile { variableTypes := #[("x", .int .i32)] } doubledAgain 8 = .ok code := by
  have same := (compile_of_renamed { variableTypes := #[("x", .int .i32)] } (by decide) (by decide)
    doubled_renamed).2 8
  have compiled : ∃ code, compile { variableTypes := #[("x", .int .i32)] } doubled 8 = .ok code :=
    ⟨_, by cbv⟩
  obtain ⟨code, compiled⟩ := compiled
  exact ⟨code, compiled, same ▸ compiled⟩

end ExprCode
