import ExprCode.Proofs.ExpectedErrors
import ExprCode.Proofs.ExprTree

/-! # Renaming bindings

Two expressions are the same up to the names of their bindings if they have the same form and every
name refers to the same binding in both (`Expr.Renamed`). Typing is followed through both at once: a
relation that is kept by the few operations that typing is put together from (`Typing.Congruence`)
relates the typings of two such expressions (`Expr.Renamed.typings`).

Their nodes are different ones, so whatever is kept under the identity of a node is kept under two
identities. If nodes that stand for each other are paired one to one, the tables agree on every pair
all the way (`Typing.Twins`), and both expressions come to the same type or fail with the same error
(`Expr.Renamed.typesInStep`). An expression is also a renaming of itself, and then the relation is a
property of its typing: it fails only by errors that the input brings about
(`Typing.fromInput_of_typeOf`). -/

namespace ExprCode

/-! ## Expressions that differ in names -/

/-- The names of bindings in two expressions, innermost first. -/
abbrev NamePairs := List (String × String)

/-- Two names refer to the same binding: the innermost one with the first name in one expression is
the innermost one with the second name in the other. A name that is not bound is the same in
both. -/
inductive SameName : NamePairs → String → String → Prop
  | free (name : String) : SameName [] name name
  | here {name other : String} {names : NamePairs} : SameName ((name, other) :: names) name other
  | outer {inner otherInner name other : String} {names : NamePairs} (differ : name ≠ inner)
      (otherDiffer : other ≠ otherInner) (same : SameName names name other) :
      SameName ((inner, otherInner) :: names) name other

/-- Nodes that stand at one place of the source text. -/
def SamePlace (node copy : Node) : Prop := node.span = copy.span

/-- Nodes that stand at one place of the source text and are paired. -/
structure Twins (pairs : NodeId → NodeId → Prop) (node copy : Node) : Prop where
  /-- They stand at one place. -/
  span : node.span = copy.span
  /-- They are paired. -/
  paired : pairs node.id copy.id

namespace Expr

mutual

/-- Two expressions are the same up to the names of bindings, under bindings with the given names.
Nodes at the same place stand in a relation. -/
inductive Renamed (nodes : Node → Node → Prop) : NamePairs → Expr → Expr → Prop
  | literal {names : NamePairs} {node copy : Node} {value : Literal} (paired : nodes node copy) :
      Renamed nodes names (.literal node value) (.literal copy value)
  | ident {names : NamePairs} {node copy : Node} {name other : String} (paired : nodes node copy)
      (refers : SameName names name other) :
      Renamed nodes names (.ident node name) (.ident copy other)
  | unary {names : NamePairs} {node copy : Node} {op : UnaryOp} {operand other : Expr}
      (paired : nodes node copy) (operands : Renamed nodes names operand other) :
      Renamed nodes names (.unary node op operand) (.unary copy op other)
  | arithmetic {names : NamePairs} {node copy : Node} {op : ArithmeticOp}
      {left right otherLeft otherRight : Expr} (paired : nodes node copy)
      (lefts : Renamed nodes names left otherLeft) (rights : Renamed nodes names right otherRight) :
      Renamed nodes names (.arithmetic node op left right)
        (.arithmetic copy op otherLeft otherRight)
  | comparison {names : NamePairs} {node copy : Node} {relation : Relation}
      {left right otherLeft otherRight : Expr} (paired : nodes node copy)
      (lefts : Renamed nodes names left otherLeft) (rights : Renamed nodes names right otherRight) :
      Renamed nodes names (.comparison node relation left right)
        (.comparison copy relation otherLeft otherRight)
  | logical {names : NamePairs} {node copy : Node} {connective : Connective}
      {left right otherLeft otherRight : Expr} (paired : nodes node copy)
      (lefts : Renamed nodes names left otherLeft) (rights : Renamed nodes names right otherRight) :
      Renamed nodes names (.logical node connective left right)
        (.logical copy connective otherLeft otherRight)
  | xor {names : NamePairs} {node copy : Node} {left right otherLeft otherRight : Expr}
      (paired : nodes node copy) (lefts : Renamed nodes names left otherLeft)
      (rights : Renamed nodes names right otherRight) :
      Renamed nodes names (.xor node left right) (.xor copy otherLeft otherRight)
  | shift {names : NamePairs} {node copy : Node} {direction : ShiftDirection}
      {left right otherLeft otherRight : Expr} (paired : nodes node copy)
      (lefts : Renamed nodes names left otherLeft) (rights : Renamed nodes names right otherRight) :
      Renamed nodes names (.shift node direction left right)
        (.shift copy direction otherLeft otherRight)
  | conditional {names : NamePairs} {node copy : Node}
      {condition thenBranch elseBranch otherCondition otherThen otherElse : Expr}
      (paired : nodes node copy)
      (conditions : Renamed nodes names condition otherCondition)
      (thens : Renamed nodes names thenBranch otherThen)
      (elses : Renamed nodes names elseBranch otherElse) :
      Renamed nodes names (.conditional node condition thenBranch elseBranch)
        (.conditional copy otherCondition otherThen otherElse)
  | member {names : NamePairs} {node copy : Node} {operand otherOperand : Expr}
      {items otherItems : List Expr} (paired : nodes node copy)
      (operands : Renamed nodes names operand otherOperand)
      (tests : RenamedList nodes names items otherItems) :
      Renamed nodes names (.member node operand items) (.member copy otherOperand otherItems)
  | index {names : NamePairs} {node copy : Node} {source position otherSource otherPosition : Expr}
      (paired : nodes node copy) (sources : Renamed nodes names source otherSource)
      (positions : Renamed nodes names position otherPosition) :
      Renamed nodes names (.index node source position) (.index copy otherSource otherPosition)
  | array {names : NamePairs} {node copy : Node} {elements others : List Expr}
      (paired : nodes node copy) (copies : RenamedList nodes names elements others) :
      Renamed nodes names (.array node elements) (.array copy others)
  | call {names : NamePairs} {node copy : Node} {name : String} {arguments others : List Expr}
      (paired : nodes node copy) (copies : RenamedList nodes names arguments others) :
      Renamed nodes names (.call node name arguments) (.call copy name others)
  | cast {names : NamePairs} {node copy : Node} {operand other : Expr} {target : Ty}
      (paired : nodes node copy) (operands : Renamed nodes names operand other) :
      Renamed nodes names (.cast node operand target) (.cast copy other target)
  | bindings {names inner : NamePairs} {node copy : Node} {body other : Expr}
      {values others : List (String × Expr)} (paired : nodes node copy)
      (bound : RenamedBindings nodes names values others inner)
      (bodies : Renamed nodes inner body other) :
      Renamed nodes names (.bindings node body values) (.bindings copy other others)

/-- Several expressions are the same up to the names of bindings. -/
inductive RenamedList (nodes : Node → Node → Prop) : NamePairs → List Expr → List Expr → Prop
  | nil {names : NamePairs} : RenamedList nodes names [] []
  | cons {names : NamePairs} {expr other : Expr} {exprs others : List Expr}
      (first : Renamed nodes names expr other) (rest : RenamedList nodes names exprs others) :
      RenamedList nodes names (expr :: exprs) (other :: others)

/-- Bound values are the same up to the names of bindings, of which the values themselves add
some. -/
inductive RenamedBindings (nodes : Node → Node → Prop) :
    NamePairs → List (String × Expr) → List (String × Expr) → NamePairs → Prop
  | nil {names : NamePairs} : RenamedBindings nodes names [] [] names
  | cons {names inner : NamePairs} {name otherName : String} {value other : Expr}
      {values others : List (String × Expr)} (first : Renamed nodes names value other)
      (rest : RenamedBindings nodes ((name, otherName) :: names) values others inner) :
      RenamedBindings nodes names ((name, value) :: values) ((otherName, other) :: others) inner

end

/-- The roots are paired. -/
theorem Renamed.node {nodes : Node → Node → Prop} {names : NamePairs} {expr other : Expr}
    (renamed : Renamed nodes names expr other) : nodes expr.node other.node := by
  cases renamed <;> assumption

/-! ## Pairs of nodes -/

section Pairs

variable {nodes : Node → Node → Prop} {pairs : NodeId → NodeId → Prop}

mutual

/-- Expressions of the same form have the same number of nodes. -/
theorem Renamed.length_ids {names : NamePairs} {expr other : Expr} :
    Renamed nodes names expr other → expr.ids.length = other.ids.length
  | .literal _ | .ident _ _ => rfl
  | .unary _ operands | .cast _ operands => by simp [ids, operands.length_ids]
  | .arithmetic _ lefts rights | .comparison _ lefts rights | .logical _ lefts rights |
      .xor _ lefts rights
  | .shift _ lefts rights | .index _ lefts rights => by
    simp [ids, lefts.length_ids, rights.length_ids]
  | .conditional _ conditions thens elses => by
    simp [ids, conditions.length_ids, thens.length_ids, elses.length_ids]
  | .member _ operands tests => by simp [ids, operands.length_ids, tests.length_ids]
  | .array _ copies | .call _ copies => by simp [ids, copies.length_ids]
  | .bindings _ bound bodies => by simp [ids, bound.length_ids, bodies.length_ids]

/-- Renaming keeps the number of nodes of a list. -/
theorem RenamedList.length_ids {names : NamePairs} {exprs others : List Expr} :
    RenamedList nodes names exprs others → (idsOfList exprs).length = (idsOfList others).length
  | .nil => rfl
  | .cons first rest => by simp [idsOfList, first.length_ids, rest.length_ids]

/-- Renaming keeps the number of nodes of bindings. -/
theorem RenamedBindings.length_ids {names inner : NamePairs}
    {values others : List (String × Expr)} :
    RenamedBindings nodes names values others inner →
      (idsOfBindings values).length = (idsOfBindings others).length
  | .nil => rfl
  | .cons first rest => by simp [idsOfBindings, first.length_ids, rest.length_ids]

end

/-- All nodes at the same place of two lists are paired. -/
def AllPaired (pairs : NodeId → NodeId → Prop) (ids others : List NodeId) : Prop :=
  ∀ pair ∈ ids.zip others, pairs pair.1 pair.2

/-- The first nodes are a pair, and so are the others. -/
theorem AllPaired.cons {id other : NodeId} {ids others : List NodeId}
    (all : AllPaired pairs (id :: ids) (other :: others)) :
    pairs id other ∧ AllPaired pairs ids others :=
  List.forall_mem_cons.1 all

/-- Nodes in two parts are pairs in each. -/
theorem AllPaired.append {ids others more otherMore : List NodeId}
    (length : ids.length = others.length)
    (all : AllPaired pairs (ids ++ more) (others ++ otherMore)) :
    AllPaired pairs ids others ∧ AllPaired pairs more otherMore := by
  rw [AllPaired, List.zip_append length] at all
  exact List.forall_mem_append.1 all

mutual

/-- Nodes that stand for each other are paired if the nodes of both expressions are, in order. -/
theorem Renamed.pair {names : NamePairs} {expr other : Expr} :
    Renamed SamePlace names expr other → AllPaired pairs expr.ids other.ids →
      Renamed (Twins pairs) names expr other
  | .literal paired, all => .literal ⟨paired, all.cons.1⟩
  | .ident paired refers, all => .ident ⟨paired, all.cons.1⟩ refers
  | .unary paired operands, all => .unary ⟨paired, all.cons.1⟩ (operands.pair all.cons.2)
  | .cast paired operands, all => .cast ⟨paired, all.cons.1⟩ (operands.pair all.cons.2)
  | .arithmetic paired lefts rights, all =>
    have both := all.cons.2.append lefts.length_ids
    .arithmetic ⟨paired, all.cons.1⟩ (lefts.pair both.1) (rights.pair both.2)
  | .comparison paired lefts rights, all =>
    have both := all.cons.2.append lefts.length_ids
    .comparison ⟨paired, all.cons.1⟩ (lefts.pair both.1) (rights.pair both.2)
  | .logical paired lefts rights, all =>
    have both := all.cons.2.append lefts.length_ids
    .logical ⟨paired, all.cons.1⟩ (lefts.pair both.1) (rights.pair both.2)
  | .xor paired lefts rights, all =>
    have both := all.cons.2.append lefts.length_ids
    .xor ⟨paired, all.cons.1⟩ (lefts.pair both.1) (rights.pair both.2)
  | .shift paired lefts rights, all =>
    have both := all.cons.2.append lefts.length_ids
    .shift ⟨paired, all.cons.1⟩ (lefts.pair both.1) (rights.pair both.2)
  | .index paired sources positions, all =>
    have both := all.cons.2.append sources.length_ids
    .index ⟨paired, all.cons.1⟩ (sources.pair both.1) (positions.pair both.2)
  | .conditional paired conditions thens elses, all =>
    have first := all.cons.2.append conditions.length_ids
    have arms := first.2.append thens.length_ids
    .conditional ⟨paired, all.cons.1⟩ (conditions.pair first.1) (thens.pair arms.1)
      (elses.pair arms.2)
  | .member paired operands tests, all =>
    have both := all.cons.2.append operands.length_ids
    .member ⟨paired, all.cons.1⟩ (operands.pair both.1) (tests.pair both.2)
  | .array paired copies, all => .array ⟨paired, all.cons.1⟩ (copies.pair all.cons.2)
  | .call paired copies, all => .call ⟨paired, all.cons.1⟩ (copies.pair all.cons.2)
  | .bindings paired bound bodies, all =>
    have both := all.cons.2.append bound.length_ids
    .bindings ⟨paired, all.cons.1⟩ (bound.pair both.1) (bodies.pair both.2)

/-- Lists that are renamed in place pair their nodes. -/
theorem RenamedList.pair {names : NamePairs} {exprs others : List Expr} :
    RenamedList SamePlace names exprs others →
      AllPaired pairs (idsOfList exprs) (idsOfList others) →
      RenamedList (Twins pairs) names exprs others
  | .nil, _ => .nil
  | .cons first rest, all =>
    have both := all.append first.length_ids
    .cons (first.pair both.1) (rest.pair both.2)

/-- Bindings that are renamed in place pair their nodes. -/
theorem RenamedBindings.pair {names inner : NamePairs} {values others : List (String × Expr)} :
    RenamedBindings SamePlace names values others inner →
      AllPaired pairs (idsOfBindings values) (idsOfBindings others) →
      RenamedBindings (Twins pairs) names values others inner
  | .nil, _ => .nil
  | .cons first rest, all =>
    have both := all.append first.length_ids
    .cons (first.pair both.1) (rest.pair both.2)

end

end Pairs

end Expr

/-! ## Scopes -/

/-- Two scopes bind the given names to the same things. -/
inductive ScopesAlike {α : Type} : NamePairs → List (String × α) → List (String × α) → Prop
  | nil : ScopesAlike [] [] []
  | cons {names : NamePairs} {scope others : List (String × α)} {name other : String} {value : α}
      (rest : ScopesAlike names scope others) :
      ScopesAlike ((name, other) :: names) ((name, value) :: scope) ((other, value) :: others)

/-- Names that refer to the same binding are looked up alike; if there is none, they are one
name. -/
theorem SameName.lookup {α : Type} {names : NamePairs} {name other : String}
    {scope others : List (String × α)} (same : SameName names name other)
    (alike : ScopesAlike names scope others) :
    scope.lookup name = others.lookup other ∧ (scope.lookup name = none → name = other) := by
  induction same generalizing scope others with
  | free name =>
    cases alike
    exact ⟨rfl, fun _ => rfl⟩
  | here =>
    cases alike
    simp
  | outer differ otherDiffer _ ih =>
    cases alike with
    | cons rest =>
      -- neither name is the innermost one, so both look-ups go on outside
      rw [List.lookup_cons, List.lookup_cons, beq_false_of_ne differ, beq_false_of_ne otherDiffer]
      exact ih rest

/-! ## Going through typing -/

namespace Typing

/-- A relation of typings that is kept by the operations that typing is put together from, where
nodes that stand for each other are at the same place. -/
structure Congruence (nodes : Node → Node → Prop)
    (related : {α β : Type} → (α → β → Prop) → Infer α → Infer β → Prop) : Prop where
  /-- Nodes that stand for each other are at one place of the source text. -/
  span {node copy : Node} (twins : nodes node copy) : node.span = copy.span
  /-- Nothing is left to find out. -/
  pure {α β : Type} {results : α → β → Prop} {value : α} {other : β}
    (result : results value other) : related results (pure value) (pure other)
  /-- Both expressions are rejected. -/
  reject {α : Type} (key : MessageKey) (arguments : List String) (span : Span) :
    related (@Eq α) (reject key arguments span) (reject key arguments span)
  /-- One thing is found out after the other. -/
  bind {α β γ δ : Type} {results : α → β → Prop} {finalResults : γ → δ → Prop} {first : Infer α}
    {second : Infer β} {next : α → Infer γ} {otherNext : β → Infer δ}
    (firsts : related results first second)
    (rests : ∀ value other, results value other →
      related finalResults (next value) (otherNext other)) :
    related finalResults (first >>= next) (second >>= otherNext)
  /-- Something is looked up among operators. -/
  ofExcept {α : Type} {found : Except Defect α} (expected : ExpectedLookup found) :
    related Eq (ofExcept found) (ofExcept found)
  /-- The resolution of a node is kept. -/
  resolve {node copy : Node} (twins : nodes node copy) (resolution : Resolution) :
    related Eq (resolve node resolution) (resolve copy resolution)
  /-- The test of an item is kept. -/
  compare {node copy : Node} (twins : nodes node copy) (test : Resolution) :
    related (@Eq Unit)
      (modify fun typing => { typing with memberships := typing.memberships.insert node.id test })
      (modify fun typing => { typing with memberships := typing.memberships.insert copy.id test })
  /-- The type of a node is kept. -/
  remember {node copy : Node} (twins : nodes node copy) {infer other : Infer Ty}
    (inferred : related Eq infer other) : related Eq (remember node infer) (remember copy other)

namespace Congruence

variable {nodes : Node → Node → Prop}
  {related : {α β : Type} → (α → β → Prop) → Infer α → Infer β → Prop}
  (keeps : Congruence nodes related) {env : Environment} {node copy : Node}

include keeps

/-- One thing is found out after another that is the same on both sides. -/
theorem next {α γ δ : Type} {finalResults : γ → δ → Prop} {first second : Infer α}
    {next : α → Infer γ} {otherNext : α → Infer δ} (firsts : related Eq first second)
    (rests : ∀ value, related finalResults (next value) (otherNext value)) :
    related finalResults (first >>= next) (second >>= otherNext) :=
  keeps.bind firsts fun value _ same => same ▸ rests value

/-- Expressions at the same place are rejected. -/
theorem rejectAt {α : Type} (key : MessageKey) (arguments : List String)
    (twins : nodes node copy) :
    related (@Eq α) (Typing.reject key arguments node.span)
      (Typing.reject key arguments copy.span) :=
  keeps.span twins ▸ keeps.reject key arguments _

/-- An operation on primitive types. -/
theorem primitive (twins : nodes node copy) (operand result : Ty) :
    related Eq (primitive node operand result) (primitive copy operand result) :=
  keeps.next (keeps.resolve twins _) fun _ => keeps.pure rfl

/-- An overload. -/
theorem overload (twins : nodes node copy) (method : OperatorMethod) :
    related Eq (overload node method) (overload copy method) :=
  keeps.next (keeps.resolve twins _) fun _ => keeps.pure rfl

/-- A name. -/
theorem typeName {names : NamePairs} {name other : String} {scope others : TypeScope}
    (twins : nodes node copy) (same : SameName names name other)
    (alike : ScopesAlike names scope others) :
    related Eq (typeName env node name scope) (typeName env copy other others) := by
  obtain ⟨found, free⟩ := same.lookup alike
  rw [Typing.typeName, Typing.typeName, ← found]
  cases bound : scope.lookup name with
  | some type => exact keeps.pure rfl
  | none =>
    -- a name that is not bound is not renamed either
    obtain rfl := free bound
    cases env.findVariable? name with
    | some entry => exact keeps.pure rfl
    | none => exact keeps.rejectAt _ _ twins

/-- A unary operation. -/
theorem typeUnary (twins : nodes node copy) (op : UnaryOp) (type : Ty) :
    related Eq (typeUnary env node op type) (typeUnary env copy op type) := by
  unfold Typing.typeUnary
  split
  · cases env.operators.unaryOverload? op type with
    | some method => exact keeps.overload twins method
    | none => exact keeps.rejectAt _ _ twins
  · cases unaryOperand? op type with
    | some result => exact keeps.primitive twins result result
    | none => exact keeps.rejectAt _ _ twins

/-- A binary operation. -/
theorem typeBinary (twins : nodes node copy) (symbol operator : String) (left right : Ty)
    (operand? : Option Ty) (result : Ty → Ty) :
    related Eq (typeBinary env node symbol operator left right operand? result)
      (typeBinary env copy symbol operator left right operand? result) := by
  unfold Typing.typeBinary
  split
  · refine keeps.next (keeps.ofExcept (env.operators.expected_binaryOverload _ _ _)) fun method? =>
      ?_
    cases method? with
    | some method => exact keeps.overload twins method
    | none => exact keeps.rejectAt _ _ twins
  · cases operand? with
    | some operand => exact keeps.primitive twins operand (result operand)
    | none => exact keeps.rejectAt _ _ twins

/-- A shift, by a count at some node. -/
theorem typeShift (twins : nodes node copy) (direction : ShiftDirection) (left right : Ty)
    {count other : Node} (counts : nodes count other) :
    related Eq (typeShift env node direction left right count.span)
      (typeShift env copy direction left right other.span) := by
  unfold Typing.typeShift
  split
  · cases left with
    | named name =>
      dsimp only
      cases env.operators.find? direction.methodName (.named name) [.named name, .int .i32] with
      | some method => exact keeps.overload twins method
      | none => exact keeps.rejectAt _ _ twins
    | int type => exact keeps.primitive twins _ _
    | _ => exact keeps.rejectAt _ _ twins
  · exact keeps.rejectAt _ _ counts

/-- An item of a membership test. -/
theorem typeItem (twins : nodes node copy) (operand type : Ty) :
    related Eq (typeItem env operand node type) (typeItem env operand copy type) := by
  have tests : related Eq (membershipTest? env operand type)
      (membershipTest? env operand type) := by
    unfold membershipTest?
    split
    · exact keeps.next (keeps.ofExcept (env.operators.expected_binaryOverload _ _ _)) fun _ =>
        keeps.pure rfl
    · exact keeps.pure rfl
  refine keeps.next tests fun test? => ?_
  cases test? with
  | some test => exact keeps.compare twins test
  | none => exact keeps.rejectAt _ _ twins

/-- An argument of a call. -/
theorem typeArgument (twins : nodes node copy) (param type : Ty) :
    related Eq (typeArgument env param node type) (typeArgument env param copy type) := by
  refine keeps.next (keeps.ofExcept (env.operators.expected_canConvert _ _)) fun convertible => ?_
  cases convertible with
  | true => exact keeps.pure rfl
  | false => exact keeps.rejectAt _ _ twins

end Congruence

/-- Two expressions at one place whose typings are related, in scopes that bind the given names to
the same types. -/
structure PartsRelated (env : Environment) (nodes : Node → Node → Prop)
    (related : {α β : Type} → (α → β → Prop) → Infer α → Infer β → Prop) (names : NamePairs)
    (expr other : Expr) : Prop where
  /-- The roots stand for each other. -/
  twins : nodes expr.node other.node
  /-- Their typings are related. -/
  typed : ∀ scope others, ScopesAlike names scope others →
    related Eq (typeOf env expr scope) (typeOf env other others)

namespace Congruence

variable {nodes : Node → Node → Prop}
  {related : {α β : Type} → (α → β → Prop) → Infer α → Infer β → Prop}
  (keeps : Congruence nodes related) {env : Environment} {names : NamePairs}
  {exprs others : List Expr} {scope otherScope : TypeScope}
  (each : List.Forall₂ (PartsRelated env nodes related names) exprs others)
  (alike : ScopesAlike names scope otherScope)

include keeps each alike

/-- The items of a membership test. -/
theorem typeItems (operand : Ty) :
    related Eq (typeItems env operand exprs scope) (typeItems env operand others otherScope) := by
  induction each with
  | nil => exact keeps.pure rfl
  | cons first _ ih =>
    refine keeps.next (first.typed _ _ alike) fun type => ?_
    exact keeps.next (keeps.typeItem first.twins operand type) fun _ => ih

/-- The elements of an array. -/
theorem typeElements (element : Ty) :
    related Eq (typeElements env element exprs scope)
      (typeElements env element others otherScope) := by
  induction each generalizing element with
  | nil => exact keeps.pure rfl
  | cons first _ ih =>
    refine keeps.next (first.typed _ _ alike) fun type =>
      keeps.next (keeps.ofExcept (env.operators.expected_unify _ _)) fun common? => ?_
    cases common? with
    | some common => exact ih common
    | none => exact keeps.rejectAt _ _ first.twins

/-- The arguments of a call. -/
theorem typeArguments (params : List Ty) :
    related Eq (typeArguments env params exprs scope)
      (typeArguments env params others otherScope) := by
  induction each generalizing params with
  | nil => cases params <;> exact keeps.pure rfl
  | cons first _ ih =>
    cases params with
    | nil => exact keeps.pure rfl
    | cons param params =>
      refine keeps.next (first.typed _ _ alike) fun type => ?_
      exact keeps.next (keeps.typeArgument first.twins param type) fun _ => ih params

end Congruence

end Typing

namespace Expr

open Typing

section Typings

variable {env : Environment} {nodes : Node → Node → Prop}
  {related : {α β : Type} → (α → β → Prop) → Infer α → Infer β → Prop}

mutual

/-- The typings of expressions that are the same up to the names of bindings are related. -/
theorem Renamed.typings (keeps : Congruence nodes related) {names : NamePairs}
    {expr other : Expr} :
    Renamed nodes names expr other → ∀ scope others, ScopesAlike names scope others →
      related Eq (typeOf env expr scope) (typeOf env other others)
  | .literal twins, _, _, _ => keeps.remember twins (keeps.pure rfl)
  | .ident twins refers, _, _, alike => keeps.remember twins (keeps.typeName twins refers alike)
  | .unary twins operands, _, _, alike =>
    keeps.remember twins (keeps.next (operands.typings keeps _ _ alike) fun type =>
      keeps.typeUnary twins _ type)
  | .arithmetic twins lefts rights, _, _, alike | .comparison twins lefts rights, _, _, alike
  | .xor twins lefts rights, _, _, alike =>
    keeps.remember twins (keeps.next (lefts.typings keeps _ _ alike) fun _ =>
      keeps.next (rights.typings keeps _ _ alike) fun _ => keeps.typeBinary twins _ _ _ _ _ _)
  | .logical twins lefts rights, _, _, alike =>
    keeps.remember twins (keeps.next (lefts.typings keeps _ _ alike) fun _ =>
      keeps.next (rights.typings keeps _ _ alike) fun _ => by
        split
        · exact keeps.pure rfl
        · exact keeps.typeBinary twins _ _ _ _ _ _)
  | .shift twins lefts rights, _, _, alike =>
    keeps.remember twins (keeps.next (lefts.typings keeps _ _ alike) fun _ =>
      keeps.next (rights.typings keeps _ _ alike) fun _ => keeps.typeShift twins _ _ _ rights.node)
  | .conditional twins conditions thens elses, _, _, alike =>
    keeps.remember twins (keeps.next (conditions.typings keeps _ _ alike) fun _ => by
      split
      · refine keeps.next (thens.typings keeps _ _ alike) fun _ =>
          keeps.next (elses.typings keeps _ _ alike) fun _ =>
            keeps.next (keeps.ofExcept (env.operators.expected_unify _ _)) fun common? => ?_
        cases common? with
        | some type => exact keeps.pure rfl
        | none => exact keeps.rejectAt _ _ twins
      · exact keeps.rejectAt _ _ conditions.node)
  | .member twins operands tests, _, _, alike =>
    keeps.remember twins (keeps.next (operands.typings keeps _ _ alike) fun type =>
      keeps.next (keeps.typeItems (tests.typings keeps) alike type) fun _ => keeps.pure rfl)
  | .index twins sources positions, _, _, alike =>
    keeps.remember twins (keeps.next (sources.typings keeps _ _ alike) fun type => by
      cases type.element? with
      | none => exact keeps.rejectAt _ _ sources.node
      | some element =>
        refine keeps.next (positions.typings keeps _ _ alike) fun _ => ?_
        split
        · exact keeps.pure rfl
        · exact keeps.rejectAt _ _ positions.node)
  | .array twins .nil, _, _, _ => keeps.remember twins (keeps.rejectAt _ _ twins)
  | .array twins (.cons first rest), _, _, alike =>
    keeps.remember twins (keeps.next (first.typings keeps _ _ alike) fun type =>
      keeps.next (keeps.typeElements (rest.typings keeps) alike type) fun _ => keeps.pure rfl)
  | .call twins copies, _, _, alike =>
    have each := copies.typings keeps
    keeps.remember twins (by
      generalize env.findFunction? _ = found
      cases found with
      | none => exact keeps.rejectAt _ _ twins
      | some signature =>
        dsimp only
        rw [each.length_eq]
        split
        · exact keeps.next (keeps.typeArguments each alike _) fun _ => keeps.pure rfl
        · exact keeps.rejectAt _ _ twins)
  | .cast twins operands, _, _, alike =>
    keeps.remember twins (keeps.next (operands.typings keeps _ _ alike) fun _ =>
      keeps.next (keeps.ofExcept (expected_canCast env _ _)) fun possible => by
        cases possible with
        | true => exact keeps.pure rfl
        | false => exact keeps.rejectAt _ _ twins)
  | .bindings twins bound bodies, _, _, alike =>
    keeps.remember twins (keeps.bind (bound.typings keeps _ _ alike) fun _ _ inner =>
      bodies.typings keeps _ _ inner)

/-- The typings of the trees of a renamed list are related. -/
theorem RenamedList.typings (keeps : Congruence nodes related) {names : NamePairs}
    {exprs others : List Expr} :
    RenamedList nodes names exprs others →
      List.Forall₂ (PartsRelated env nodes related names) exprs others
  | .nil => .nil
  | .cons first rest => .cons ⟨first.node, first.typings keeps⟩ (rest.typings keeps)

/-- The typings of renamed bindings are related and extend the scopes alike. -/
theorem RenamedBindings.typings (keeps : Congruence nodes related) {names inner : NamePairs}
    {values others : List (String × Expr)} :
    RenamedBindings nodes names values others inner → ∀ scope otherScope,
      ScopesAlike names scope otherScope →
      related (ScopesAlike inner) (typeBindings env values scope)
        (typeBindings env others otherScope)
  | .nil, _, _, alike => keeps.pure alike
  | .cons first rest, _, _, alike =>
    keeps.next (first.typings keeps _ _ alike) fun _ => rest.typings keeps _ _ (.cons alike)

end

end Typings

end Expr

/-! ## Typing in step -/

/-- Nodes are paired one to one. -/
def OneToOne (pairs : NodeId → NodeId → Prop) : Prop :=
  ∀ id other more otherMore, pairs id other → pairs more otherMore → (id = more ↔ other = otherMore)

/-- Tables with the same entries for paired nodes. -/
structure Typing.Twins (pairs : NodeId → NodeId → Prop) (typing other : Typing) : Prop where
  /-- The same types. -/
  types : ∀ id copy, pairs id copy → typing.types[id]? = other.types[copy]?
  /-- Operators are carried out in the same way. -/
  resolutions : ∀ id copy, pairs id copy → typing.resolutions[id]? = other.resolutions[copy]?
  /-- Items are compared in the same way. -/
  memberships : ∀ id copy, pairs id copy → typing.memberships[id]? = other.memberships[copy]?

variable {pairs : NodeId → NodeId → Prop}

/-- An entry that is made for both of a pair. -/
theorem OneToOne.insert (oneToOne : OneToOne pairs) {α : Type} {table others : Std.TreeMap NodeId α}
    (same : ∀ id copy, pairs id copy → table[id]? = others[copy]?)
    {id copy : NodeId} (paired : pairs id copy) (value : α) :
    ∀ more otherMore, pairs more otherMore →
      (table.insert id value)[more]? = (others.insert copy value)[otherMore]? := by
  intro more otherMore alsoPaired
  have equal := oneToOne id copy more otherMore paired alsoPaired
  -- both insertions are at the node that is looked up, or neither is
  simp only [Std.TreeMap.getElem?_insert, compare_eq_iff_eq, equal, same more otherMore alsoPaired]

/-- Typings in step keep the tables of paired nodes alike. -/
theorem OneToOne.congruence (oneToOne : OneToOne pairs) :
    Typing.Congruence (Twins pairs) fun {_ _} results first second =>
      InStep (Typing.Twins pairs) results first second where
  span twins := twins.span
  pure := .pure
  reject _ _ _ := .throw _
  bind := .bind
  ofExcept {_ found} _ := by
    cases found with
    | ok value => exact .pure rfl
    | error defect => exact .throw _
  resolve twins resolution _ _ related := .ok rfl
    { related with resolutions := oneToOne.insert related.resolutions twins.paired resolution }
  compare twins test _ _ related := .ok rfl
    { related with memberships := oneToOne.insert related.memberships twins.paired test }
  remember {node copy} twins {infer other} inferred before otherBefore related := by
    have read : (get : Infer Typing) before = .ok before before := rfl
    have otherRead : (get : Infer Typing) otherBefore = .ok otherBefore otherBefore := rfl
    rw [Typing.remember, Typing.remember, bind_of_ok read, bind_of_ok otherRead,
      ← related.types _ _ twins.paired]
    -- what is known is known of both, and what is found is found of both
    cases before.types[node.id]? with
    | some type => exact .ok rfl related
    | none =>
      refine (inferred.next fun type => ?_) _ _ related
      refine InStep.next (fun _ _ found => .ok rfl ?_) fun _ => .pure rfl
      exact { found with types := oneToOne.insert found.types twins.paired type }

/-- Expressions that are the same up to the names of bindings are typed in step. -/
theorem Expr.Renamed.typesInStep {expr other : Expr}
    (renamed : Renamed (Twins pairs) [] expr other) (env : Environment)
    (oneToOne : OneToOne pairs) :
    InStep (Typing.Twins pairs) Eq (Typing.typeOf env expr []) (Typing.typeOf env other []) :=
  renamed.typings oneToOne.congruence _ _ .nil

/-! ## Errors of typing -/

/-- Under the same names, a name refers to the same binding as itself. -/
theorem SameName.refl {names : NamePairs} (same : ∀ pair ∈ names, pair.1 = pair.2)
    (name : String) : SameName names name name := by
  induction names with
  | nil => exact .free name
  | cons pair names ih =>
    obtain ⟨inner, other⟩ := pair
    obtain rfl : inner = other := same _ List.mem_cons_self
    by_cases here : name = inner
    · subst here
      exact .here
    · exact .outer here here (ih fun pair listed => same pair (.tail _ listed))

namespace Expr

/-- A list is a renaming of itself if its members are renamings of themselves. -/
theorem RenamedList.refl {nodes : Node → Node → Prop} {names : NamePairs} {exprs : List Expr}
    (each : ∀ expr ∈ exprs, Renamed nodes names expr expr) :
    RenamedList nodes names exprs exprs := by
  induction exprs with
  | nil => exact .nil
  | cons expr exprs ih =>
    exact .cons (each _ List.mem_cons_self) (ih fun other listed => each other (.tail _ listed))

/-- An expression is a renaming of itself. -/
theorem Renamed.refl {nodes : Node → Node → Prop} (reflexive : ∀ node, nodes node node)
    (expr : Expr) {names : NamePairs} (same : ∀ pair ∈ names, pair.1 = pair.2) :
    Renamed nodes names expr expr := by
  induction expr using Expr.inductionOn generalizing names with
  | literal node value => exact .literal (reflexive node)
  | ident node name => exact .ident (reflexive node) (.refl same name)
  | unary node op operand ih => exact .unary (reflexive node) (ih same)
  | arithmetic node op left right ihLeft ihRight =>
    exact .arithmetic (reflexive node) (ihLeft same) (ihRight same)
  | comparison node relation left right ihLeft ihRight =>
    exact .comparison (reflexive node) (ihLeft same) (ihRight same)
  | logical node connective left right ihLeft ihRight =>
    exact .logical (reflexive node) (ihLeft same) (ihRight same)
  | xor node left right ihLeft ihRight =>
    exact .xor (reflexive node) (ihLeft same) (ihRight same)
  | shift node direction left right ihLeft ihRight =>
    exact .shift (reflexive node) (ihLeft same) (ihRight same)
  | conditional node condition thenBranch elseBranch ihCondition ihThen ihElse =>
    exact .conditional (reflexive node) (ihCondition same) (ihThen same) (ihElse same)
  | member node operand items ihOperand ihItems =>
    exact .member (reflexive node) (ihOperand same)
      (.refl fun item listed => ihItems item listed same)
  | index node array position ihArray ihPosition =>
    exact .index (reflexive node) (ihArray same) (ihPosition same)
  | array node elements ihElements =>
    exact .array (reflexive node) (.refl fun element listed => ihElements element listed same)
  | call node name arguments ihArguments =>
    exact .call (reflexive node) (.refl fun argument listed => ihArguments argument listed same)
  | cast node operand target ihOperand => exact .cast (reflexive node) (ihOperand same)
  | bindings node body values ihBody ihValues =>
    -- the values bind the same names on both sides, one after the other
    suffices bound : ∃ inner : NamePairs, RenamedBindings nodes names values values inner ∧
        ∀ pair ∈ inner, pair.1 = pair.2 by
      obtain ⟨inner, values, innerSame⟩ := bound
      exact .bindings (reflexive node) values (ihBody innerSame)
    clear ihBody
    induction values generalizing names with
    | nil => exact ⟨names, .nil, same⟩
    | cons value values ih =>
      obtain ⟨first, rest⟩ := List.forall_mem_cons.1 ihValues
      have more : ∀ pair ∈ (value.1, value.1) :: names, pair.1 = pair.2 :=
        List.forall_mem_cons.2 ⟨rfl, same⟩
      obtain ⟨inner, bound, innerSame⟩ := ih rest more
      exact ⟨inner, .cons (first same) bound, innerSame⟩

end Expr

namespace Typing

/-- What typing is put together from fails only by errors that the input brings about. -/
theorem congruence_fromInput :
    Congruence Eq fun {_ _} results first _ => ∀ before,
      Ensures CompileError.FromInput first before fun value _ => ∃ other, results value other where
  span same := same ▸ rfl
  pure result _ := .pure ⟨_, result⟩
  reject _ _ _ _ := .throw (.rejected _)
  bind firsts rests before := (firsts before).bind fun value middle ⟨other, result⟩ =>
    rests value other result middle
  ofExcept {_ found} expected before := by
    cases result : found with
    | ok value => exact .pure ⟨_, rfl⟩
    | error defect => exact .throw (.defect (expected defect result))
  resolve _ _ _ := .of_ok rfl ⟨_, rfl⟩
  compare _ _ _ := .of_ok rfl ⟨_, rfl⟩
  remember _ _ _ inferred before := by
    refine .get_bind ?_
    split
    · exact .pure ⟨_, rfl⟩
    · exact (inferred before).bind fun _ _ _ => .bind_ok rfl (.pure ⟨_, rfl⟩)

/-- Typing fails only by errors that the input brings about. -/
theorem fromInput_of_typeOf {env : Environment} {expr : Expr} {error : CompileError}
    {before after : Typing} (failed : typeOf env expr [] before = .error error after) :
    error.FromInput :=
  ((Expr.Renamed.refl (fun _ => rfl) expr (List.forall_mem_nil _)).typings congruence_fromInput
    _ _ .nil before).allowed_of_error failed

end Typing

end ExprCode
