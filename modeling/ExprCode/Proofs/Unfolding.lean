import ExprCode.Proofs.SharedTyping

/-! # Unfolding an expression into a tree

An unfolding of an expression in which nodes occur at several places is a tree with a copy of the
node at every one of them. Every expression without bound names has one (`Expr.exists_unfolding`).
Typing goes through for a copy whose nodes are all new as it did for the original, with the same
type (`Typing.accepts_of_typed`). -/

namespace ExprCode

namespace Expr

/-- The second expression is a copy of the first: its nodes may have other identities. No names are
bound. -/
inductive Alike : Expr → Expr → Prop
  | literal {node copy : Node} {value : Literal} (span : node.span = copy.span) :
      Alike (.literal node value) (.literal copy value)
  | ident {node copy : Node} {name : String} (span : node.span = copy.span) :
      Alike (.ident node name) (.ident copy name)
  | unary {node copy : Node} {op : UnaryOp} {operand other : Expr} (span : node.span = copy.span)
      (operands : Alike operand other) : Alike (.unary node op operand) (.unary copy op other)
  | arithmetic {node copy : Node} {op : ArithmeticOp} {left right otherLeft otherRight : Expr}
      (span : node.span = copy.span) (lefts : Alike left otherLeft)
      (rights : Alike right otherRight) :
      Alike (.arithmetic node op left right) (.arithmetic copy op otherLeft otherRight)
  | comparison {node copy : Node} {relation : Relation} {left right otherLeft otherRight : Expr}
      (span : node.span = copy.span) (lefts : Alike left otherLeft)
      (rights : Alike right otherRight) :
      Alike (.comparison node relation left right) (.comparison copy relation otherLeft otherRight)
  | logical {node copy : Node} {connective : Connective} {left right otherLeft otherRight : Expr}
      (span : node.span = copy.span) (lefts : Alike left otherLeft)
      (rights : Alike right otherRight) :
      Alike (.logical node connective left right) (.logical copy connective otherLeft otherRight)
  | xor {node copy : Node} {left right otherLeft otherRight : Expr} (span : node.span = copy.span)
      (lefts : Alike left otherLeft) (rights : Alike right otherRight) :
      Alike (.xor node left right) (.xor copy otherLeft otherRight)
  | shift {node copy : Node} {direction : ShiftDirection} {left right otherLeft otherRight : Expr}
      (span : node.span = copy.span) (lefts : Alike left otherLeft)
      (rights : Alike right otherRight) :
      Alike (.shift node direction left right) (.shift copy direction otherLeft otherRight)
  | conditional {node copy : Node}
      {condition thenBranch elseBranch otherCondition otherThen otherElse : Expr}
      (span : node.span = copy.span) (conditions : Alike condition otherCondition)
      (thens : Alike thenBranch otherThen) (elses : Alike elseBranch otherElse) :
      Alike (.conditional node condition thenBranch elseBranch)
        (.conditional copy otherCondition otherThen otherElse)
  | member {node copy : Node} {operand otherOperand : Expr} {items otherItems : List Expr}
      (span : node.span = copy.span) (operands : Alike operand otherOperand)
      (tests : List.Forall₂ Alike items otherItems) :
      Alike (.member node operand items) (.member copy otherOperand otherItems)
  | index {node copy : Node} {source position otherSource otherPosition : Expr}
      (span : node.span = copy.span) (sources : Alike source otherSource)
      (positions : Alike position otherPosition) :
      Alike (.index node source position) (.index copy otherSource otherPosition)
  | array {node copy : Node} {elements others : List Expr} (span : node.span = copy.span)
      (copies : List.Forall₂ Alike elements others) :
      Alike (.array node elements) (.array copy others)
  | call {node copy : Node} {name : String} {arguments others : List Expr}
      (span : node.span = copy.span)
      (copies : List.Forall₂ Alike arguments others) :
      Alike (.call node name arguments) (.call copy name others)
  | cast {node copy : Node} {operand other : Expr} {target : Ty} (span : node.span = copy.span)
      (operands : Alike operand other) : Alike (.cast node operand target) (.cast copy other target)

/-- The second expression is a tree that is a copy of the first. -/
structure Unfolds (expr tree : Expr) : Prop where
  /-- It is a copy. -/
  alike : Alike expr tree
  /-- No node occurs twice. -/
  tree : tree.IsTree

/-- A copy stands at the same place of the source text. -/
theorem Alike.span {expr tree : Expr} (alike : Alike expr tree) : expr.span = tree.span := by
  cases alike <;> assumption

/-- No names are bound in an expression. -/
def Unbound (expr : Expr) : Prop := ∀ node body values, Expr.bindings node body values ∉ expr.parts

/-- No names are bound in a child. -/
theorem Unbound.child {expr child : Expr} (unbound : expr.Unbound)
    (isChild : child ∈ expr.children) :
    child.Unbound :=
  fun node body values listed => unbound node body values (parts_subset_of_child isChild listed)

/-! ## Numbered copies -/

/-- From every number on there is a copy whose nodes are numbered in order. -/
def Numbered (expr : Expr) : Prop :=
  ∀ start, ∃ tree count, Alike expr tree ∧ tree.ids = List.range' start count

/-- Copies of several expressions, numbered in order. -/
theorem exists_numbered_list {exprs : List Expr} (each : ∀ expr ∈ exprs, Numbered expr)
    (start : Nat) :
    ∃ trees count, List.Forall₂ Alike exprs trees ∧ idsOfList trees = List.range' start count := by
  induction exprs generalizing start with
  | nil => exact ⟨[], 0, .nil, rfl⟩
  | cons expr exprs ih =>
    rw [List.forall_mem_cons] at each
    obtain ⟨tree, count, alike, ids⟩ := each.1 start
    obtain ⟨trees, others, allAlike, otherIds⟩ := ih each.2 (start + count)
    refine ⟨tree :: trees, count + others, .cons alike allAlike, ?_⟩
    rw [idsOfList, ids, otherIds, List.range'_append_1]

/-- A node above one expression is numbered before it. -/
theorem Numbered.single {expr operand : Expr} (build : Node → Expr → Expr)
    (copies : ∀ copy other, expr.span = copy.span → Alike operand other →
      Alike expr (build copy other))
    (ids : ∀ node operand, (build node operand).ids = node.id :: operand.ids)
    (numbered : Numbered operand) : Numbered expr := by
  intro start
  obtain ⟨tree, count, alike, treeIds⟩ := numbered (start + 1)
  refine ⟨build ⟨start, expr.span⟩ tree, count + 1, copies _ _ rfl alike, ?_⟩
  rw [ids, treeIds, List.range'_succ]

/-- Copies of two expressions, numbered in order. -/
theorem Numbered.pair {left right : Expr} (leftNumbered : Numbered left)
    (rightNumbered : Numbered right)
    (start : Nat) : ∃ leftTree rightTree count, Alike left leftTree ∧ Alike right rightTree ∧
      leftTree.ids ++ rightTree.ids = List.range' start count := by
  obtain ⟨leftTree, leftCount, leftAlike, leftIds⟩ := leftNumbered start
  obtain ⟨rightTree, rightCount, rightAlike, rightIds⟩ := rightNumbered (start + leftCount)
  refine ⟨leftTree, rightTree, leftCount + rightCount, leftAlike, rightAlike, ?_⟩
  rw [leftIds, rightIds, List.range'_append_1]

/-- A node above two expressions is numbered before them. -/
theorem Numbered.binary {expr left right : Expr} (build : Node → Expr → Expr → Expr)
    (copies : ∀ copy otherLeft otherRight, expr.span = copy.span → Alike left otherLeft →
      Alike right otherRight → Alike expr (build copy otherLeft otherRight))
    (ids : ∀ node left right, (build node left right).ids = node.id :: (left.ids ++ right.ids))
    (leftNumbered : Numbered left) (rightNumbered : Numbered right) : Numbered expr := by
  intro start
  obtain ⟨leftTree, rightTree, count, leftAlike, rightAlike, treeIds⟩ :=
    leftNumbered.pair rightNumbered (start + 1)
  refine ⟨build ⟨start, expr.span⟩ leftTree rightTree, count + 1,
    copies _ _ _ rfl leftAlike rightAlike, ?_⟩
  rw [ids, treeIds, List.range'_succ]

/-- A node above several expressions is numbered before them. -/
theorem Numbered.list {expr : Expr} {exprs : List Expr} (build : Node → List Expr → Expr)
    (copies : ∀ copy others, expr.span = copy.span → List.Forall₂ Alike exprs others →
      Alike expr (build copy others))
    (ids : ∀ node exprs, (build node exprs).ids = node.id :: idsOfList exprs)
    (each : ∀ child ∈ exprs, Numbered child) : Numbered expr := by
  intro start
  obtain ⟨trees, count, allAlike, treeIds⟩ := exists_numbered_list each (start + 1)
  refine ⟨build ⟨start, expr.span⟩ trees, count + 1, copies _ _ rfl allAlike, ?_⟩
  rw [ids, treeIds, List.range'_succ]

/-- Every expression without bound names has numbered copies. -/
theorem numbered {expr : Expr} (unbound : expr.Unbound) : Numbered expr := by
  induction expr using Expr.inductionOn with
  | literal node value =>
    exact fun start => ⟨.literal ⟨start, node.span⟩ value, 1, .literal rfl, rfl⟩
  | ident node name => exact fun start => ⟨.ident ⟨start, node.span⟩ name, 1, .ident rfl, rfl⟩
  | unary node op operand operandNumbered =>
    exact .single (.unary · op) (fun _ _ => .unary) (fun _ _ => rfl)
      (operandNumbered (unbound.child (.head _)))
  | arithmetic node op left right leftNumbered rightNumbered =>
    exact .binary (.arithmetic · op) (fun _ _ _ => .arithmetic) (fun _ _ _ => rfl)
      (leftNumbered (unbound.child (.head _)))
      (rightNumbered (unbound.child (.tail _ (.head _))))
  | comparison node relation left right leftNumbered rightNumbered =>
    exact .binary (.comparison · relation) (fun _ _ _ => .comparison) (fun _ _ _ => rfl)
      (leftNumbered (unbound.child (.head _)))
      (rightNumbered (unbound.child (.tail _ (.head _))))
  | logical node connective left right leftNumbered rightNumbered =>
    exact .binary (.logical · connective) (fun _ _ _ => .logical) (fun _ _ _ => rfl)
      (leftNumbered (unbound.child (.head _)))
      (rightNumbered (unbound.child (.tail _ (.head _))))
  | xor node left right leftNumbered rightNumbered =>
    exact .binary .xor (fun _ _ _ => .xor) (fun _ _ _ => rfl)
      (leftNumbered (unbound.child (.head _)))
      (rightNumbered (unbound.child (.tail _ (.head _))))
  | shift node direction left right leftNumbered rightNumbered =>
    exact .binary (.shift · direction) (fun _ _ _ => .shift) (fun _ _ _ => rfl)
      (leftNumbered (unbound.child (.head _)))
      (rightNumbered (unbound.child (.tail _ (.head _))))
  | conditional node condition thenBranch elseBranch conditionNumbered thenNumbered elseNumbered =>
    -- the node has the first number; the numbers of the parts follow in order
    intro start
    obtain ⟨conditionTree, first, conditionAlike, conditionIds⟩ :=
      conditionNumbered (unbound.child (.head _)) (start + 1)
    obtain ⟨thenTree, elseTree, others, thenAlike, elseAlike, otherIds⟩ :=
      (thenNumbered (unbound.child (.tail _ (.head _)))).pair
        (elseNumbered (unbound.child (.tail _ (.tail _ (.head _))))) (start + 1 + first)
    refine ⟨.conditional ⟨start, node.span⟩ conditionTree thenTree elseTree, first + others + 1,
      .conditional rfl conditionAlike thenAlike elseAlike, ?_⟩
    rw [Expr.ids, conditionIds, otherIds, List.range'_append_1, List.range'_succ]
  | member node operand items operandNumbered itemsNumbered =>
    intro start
    obtain ⟨operandTree, first, operandAlike, operandIds⟩ :=
      operandNumbered (unbound.child (.head _)) (start + 1)
    obtain ⟨trees, others, itemsAlike, itemIds⟩ := exists_numbered_list
      (fun item listed => itemsNumbered item listed (unbound.child (by simp [children, listed])))
      (start + 1 + first)
    refine ⟨.member ⟨start, node.span⟩ operandTree trees, first + others + 1,
      .member rfl operandAlike itemsAlike, ?_⟩
    rw [Expr.ids, operandIds, itemIds, List.range'_append_1, List.range'_succ]
  | index node source position sourceNumbered positionNumbered =>
    exact .binary .index (fun _ _ _ => .index) (fun _ _ _ => rfl)
      (sourceNumbered (unbound.child (.head _)))
      (positionNumbered (unbound.child (.tail _ (.head _))))
  | array node elements elementsNumbered =>
    exact .list .array (fun _ _ => .array) (fun _ _ => rfl) fun element listed =>
      elementsNumbered element listed (unbound.child listed)
  | call node name arguments argumentsNumbered =>
    exact .list (.call · name) (fun _ _ => .call) (fun _ _ => rfl) fun argument listed =>
      argumentsNumbered argument listed (unbound.child listed)
  | cast node operand target operandNumbered =>
    exact .single (.cast · · target) (fun _ _ => .cast) (fun _ _ => rfl)
      (operandNumbered (unbound.child (.head _)))
  | bindings node body values => exact absurd (mem_parts _) (unbound node body values)

/-- Every expression without bound names can be unfolded. -/
theorem exists_unfolding {expr : Expr} (unbound : expr.Unbound) : ∃ tree, expr.Unfolds tree := by
  obtain ⟨tree, count, alike, ids⟩ := numbered unbound 0
  refine ⟨tree, alike, ?_⟩
  rw [IsTree, ids]
  exact List.nodup_range'

end Expr

namespace Typing

/-! ## Typing a copy -/

section Rules

variable {env : Environment} {node : Node} {before : Typing} {resolution : Resolution} {type : Ty}

/-- A node of unknown type is typed now, if it can be. -/
theorem remember_of_unknown {infer : Infer Ty} (unknown : before.types[node.id]? = none)
    (run : ∃ middle, infer before = .ok type middle) :
    ∃ after, remember node infer before = .ok type after := by
  obtain ⟨middle, run⟩ := run
  have read : (get : Infer Typing) before = .ok before before := rfl
  unfold remember
  rw [bind_of_ok read, unknown]
  simp only
  rw [bind_of_ok run]
  exact ⟨_, rfl⟩

/-- A name that has a type by the rule for names is typed. -/
theorem typeName_of_rule {name : String} {scope : TypeScope}
    (found : nameType? env name scope = some type) :
    typeName env node name scope before = .ok type before := by
  unfold nameType? at found
  unfold typeName
  cases bound : scope.lookup name with
  | some type =>
    rw [bound] at found
    cases found
    rfl
  | none =>
    rw [bound] at found
    obtain ⟨entry, declared, rfl⟩ := Option.map_eq_some_iff.1 found
    rw [declared]
    rfl

/-- An operator on one operand is typed by its rule. -/
theorem typeUnary_of_rule {op : UnaryOp} {operand : Ty}
    (rule : UnaryRule env op operand resolution type) :
    ∃ after, typeUnary env node op operand before = .ok type after := by
  unfold typeUnary
  cases rule with
  | overload named found =>
    rw [if_pos named, found]
    exact ⟨_, rfl⟩
  | primitive plain found =>
    rw [if_neg plain, found]
    exact ⟨_, rfl⟩

/-- An operator on two operands is typed by its rule. -/
theorem typeBinary_of_rule {symbol operator : String} {left right : Ty} {operand? : Option Ty}
    {result : Ty → Ty} (rule : BinaryRule env operator left right operand? result resolution type) :
    ∃ after, typeBinary env node symbol operator left right operand? result before =
      .ok type after := by
  unfold typeBinary
  cases rule with
  | overload named found =>
    rw [if_pos named, found]
    exact ⟨_, rfl⟩
  | primitive plain found =>
    rw [if_neg plain, found]
    exact ⟨_, rfl⟩

/-- A shift by an integer is typed by its rule. -/
theorem typeShift_of_rule {direction : ShiftDirection} {left right : Ty} {countSpan : Span}
    (count : isCount right) (rule : ShiftRule env direction left resolution type) :
    ∃ after, typeShift env node direction left right countSpan before = .ok type after := by
  unfold typeShift
  rw [if_pos count]
  cases rule with
  | overload found =>
    simp only [found]
    exact ⟨_, rfl⟩
  | primitive => exact ⟨_, rfl⟩

/-- An item is typed by its rule; no type of a node is noted. -/
theorem typeItem_of_rule {operand : Ty} (rule : ItemRule env operand type resolution) :
    ∃ after, typeItem env operand node type before = .ok () after ∧ after.types = before.types := by
  unfold typeItem membershipTest?
  cases rule with
  | overload named found =>
    rw [if_pos named, found]
    exact ⟨_, rfl, rfl⟩
  | primitive plain found =>
    rw [if_neg plain, found]
    exact ⟨_, rfl, rfl⟩

/-- An argument that converts is typed. -/
theorem typeArgument_of_converts {param : Ty}
    (converts : env.operators.canConvert type param = .ok true) :
    typeArgument env param node type before = .ok () before := by
  unfold typeArgument
  rw [converts]
  rfl

end Rules

/-- Typing a tree of which nothing is known finds the type. -/
def Accepts (env : Environment) (tree : Expr) (type : Ty) : Prop :=
  ∀ before, tree.ids.Nodup → Fresh tree.ids before →
    ∃ after, typeOf env tree [] before = .ok type after

section Copy

variable {env : Environment} {typing before : Typing} {tree : Expr} {type : Ty}

/-- A tree is typed, and nothing becomes known of others. -/
theorem Accepts.first (accepts : Accepts env tree type) {ids : List NodeId}
    (nodup : (tree.ids ++ ids).Nodup) (fresh : Fresh (tree.ids ++ ids) before) :
    ∃ after, typeOf env tree [] before = .ok type after ∧ ids.Nodup ∧ Fresh ids after := by
  obtain ⟨treeNodup, otherNodup, disjoint⟩ := List.nodup_append.1 nodup
  obtain ⟨after, run⟩ := accepts before treeNodup fresh.left
  have found := typesFound tree [] before type after treeNodup fresh.left run
  exact ⟨after, run, otherNodup,
    found.fresh (fun id inside => fresh id (List.mem_append_right _ inside)) disjoint⟩

/-- Two trees are typed one after the other. -/
theorem Accepts.pair {left right : Expr} {leftType rightType : Ty}
    (leftAccepts : Accepts env left leftType) (rightAccepts : Accepts env right rightType)
    (nodup : (left.ids ++ right.ids).Nodup) (fresh : Fresh (left.ids ++ right.ids) before) :
    ∃ middle after, typeOf env left [] before = .ok leftType middle ∧
      typeOf env right [] middle = .ok rightType after := by
  obtain ⟨middle, leftRun, rightNodup, rightFresh⟩ := leftAccepts.first nodup fresh
  obtain ⟨after, rightRun⟩ := rightAccepts middle rightNodup rightFresh
  exact ⟨middle, after, leftRun, rightRun⟩

/-- A node of which nothing is known is typed by its rule, which finds its children as unknown. -/
theorem Accepts.ofRule {ids : List NodeId} {rule : Infer Ty} (nodes : tree.ids = tree.id :: ids)
    (byRule : typeOf env tree [] = remember tree.node rule)
    (run : ∀ before, ids.Nodup → Fresh ids before → ∃ middle, rule before = .ok type middle) :
    Accepts env tree type := by
  intro before nodup fresh
  rw [nodes] at nodup fresh
  rw [byRule]
  exact remember_of_unknown (fresh _ List.mem_cons_self)
    (run before (List.nodup_cons.1 nodup).2 fresh.tail)

/-- An operator on two operands is typed by its rule behind them. -/
theorem Accepts.binary {left right : Expr} {leftType rightType : Ty} {symbol operator : String}
    {operand? : Ty → Ty → Option Ty} {result : Ty → Ty} (leftAccepts : Accepts env left leftType)
    (rightAccepts : Accepts env right rightType)
    (ids : tree.ids = tree.id :: (left.ids ++ right.ids))
    (shape : typeOf env tree [] = remember tree.node do
      let leftType ← typeOf env left []
      let rightType ← typeOf env right []
      typeBinary env tree.node symbol operator leftType rightType (operand? leftType rightType)
        result)
    (rule : ∃ resolution,
      BinaryRule env operator leftType rightType (operand? leftType rightType) result resolution
      type) :
    Accepts env tree type := by
  obtain ⟨resolution, rule⟩ := rule
  refine .ofRule ids shape fun before nodup fresh => ?_
  obtain ⟨_, _, leftRun, rightRun⟩ := leftAccepts.pair rightAccepts nodup fresh
  rw [bind_of_ok leftRun, bind_of_ok rightRun]
  exact typeBinary_of_rule rule

/-- Whatever has a type, its copies are typed. -/
def CopiesAccepted (env : Environment) (typing : Typing) (expr : Expr) : Prop :=
  ∀ tree type, Expr.Alike expr tree → Typed env typing [] expr type →
    Accepts env tree type

/-- Copies of items are typed, one after the other. -/
theorem accepts_items {items trees : List Expr} {operandType : Ty}
    (each : ∀ item ∈ items, CopiesAccepted env typing item)
    (alike : List.Forall₂ Expr.Alike items trees)
    (typed : TypedItems env typing [] operandType items) (nodup : (Expr.idsOfList trees).Nodup)
    (fresh : Fresh (Expr.idsOfList trees) before) :
    ∃ after, typeItems env operandType trees [] before = .ok () after := by
  induction alike generalizing before with
  | nil => exact ⟨before, by rw [typeItems]; rfl⟩
  | cons itemAlike _ ih =>
    rw [List.forall_mem_cons] at each
    cases typed with
    | cons itemTyped rule tested itemsTyped =>
      obtain ⟨middle, run, othersNodup, othersFresh⟩ :=
        (each.1 _ _ itemAlike itemTyped).first nodup fresh
      obtain ⟨noted, testRun, sameTypes⟩ := typeItem_of_rule rule
      -- tests are noted apart from types, so the items behind are as unknown as before
      have notedFresh : Fresh (Expr.idsOfList _) noted := fun id inside => by
        rw [sameTypes]
        exact othersFresh id inside
      obtain ⟨after, othersRun⟩ := ih each.2 itemsTyped othersNodup notedFresh
      refine ⟨after, ?_⟩
      rw [typeItems, bind_of_ok run, bind_of_ok testRun, othersRun]

/-- Copies of elements are typed, one after the other. -/
theorem accepts_elements {elements trees : List Expr} {element common : Ty}
    (each : ∀ other ∈ elements, CopiesAccepted env typing other)
    (alike : List.Forall₂ Expr.Alike elements trees)
    (typed : TypedElements env typing [] element elements common)
    (nodup : (Expr.idsOfList trees).Nodup) (fresh : Fresh (Expr.idsOfList trees) before) :
    ∃ after, typeElements env element trees [] before = .ok common after := by
  induction alike generalizing before element with
  | nil =>
    cases typed
    exact ⟨before, by rw [typeElements]; rfl⟩
  | cons otherAlike _ ih =>
    rw [List.forall_mem_cons] at each
    cases typed with
    | cons otherTyped unified restTyped =>
      obtain ⟨middle, run, restNodup, restFresh⟩ :=
        (each.1 _ _ otherAlike otherTyped).first nodup fresh
      obtain ⟨after, restRun⟩ := ih each.2 restTyped restNodup restFresh
      refine ⟨after, ?_⟩
      rw [typeElements, bind_of_ok run, unified]
      exact restRun

/-- Copies of arguments are typed, one after the other. -/
theorem accepts_arguments {params : List Ty} {arguments trees : List Expr}
    (each : ∀ argument ∈ arguments, CopiesAccepted env typing argument)
    (alike : List.Forall₂ Expr.Alike arguments trees)
    (typed : TypedArguments env typing [] params arguments)
    (nodup : (Expr.idsOfList trees).Nodup) (fresh : Fresh (Expr.idsOfList trees) before) :
    ∃ after, typeArguments env params trees [] before = .ok () after := by
  induction alike generalizing before params with
  | nil =>
    cases typed
    exact ⟨before, by rw [typeArguments]; rfl; simp⟩
  | cons argumentAlike _ ih =>
    rw [List.forall_mem_cons] at each
    cases typed with
    | cons argumentTyped converts argumentsTyped =>
      obtain ⟨middle, run, restNodup, restFresh⟩ :=
        (each.1 _ _ argumentAlike argumentTyped).first nodup fresh
      obtain ⟨after, restRun⟩ := ih each.2 argumentsTyped restNodup restFresh
      refine ⟨after, ?_⟩
      rw [typeArguments, bind_of_ok run, bind_of_ok (typeArgument_of_converts converts), restRun]

/-- Copies of what has a type are typed. -/
theorem copiesAccepted (expr : Expr) : CopiesAccepted env typing expr := by
  -- in each case the copy has the same shape, and its parts are typed one after the other
  induction expr using Expr.inductionOn with
  | literal node value =>
    intro _ _ alike typed
    cases alike
    cases typed
    exact .ofRule rfl (by rw [typeOf]; rfl) fun before _ _ => ⟨before, rfl⟩
  | ident node name =>
    intro _ _ alike typed
    cases alike
    cases typed with
    | ident found =>
      exact .ofRule rfl (by rw [typeOf]; rfl) fun before _ _ => ⟨before, typeName_of_rule found⟩
  | unary node op operand operandAccepted =>
    intro _ _ alike typed
    cases alike with
    | unary span operands =>
      cases typed with
      | unary operandTyped rule =>
        refine .ofRule rfl (by rw [typeOf]; rfl) fun before nodup fresh => ?_
        obtain ⟨_, operandRun⟩ := operandAccepted _ _ operands operandTyped before nodup fresh
        rw [bind_of_ok operandRun]
        exact typeUnary_of_rule rule
  | arithmetic node op left right leftAccepted rightAccepted =>
    intro _ _ alike typed
    cases alike with
    | arithmetic span lefts rights =>
      cases typed with
      | arithmetic leftTyped rightTyped rule =>
        exact (leftAccepted _ _ lefts leftTyped).binary (rightAccepted _ _ rights rightTyped) rfl
          (by rw [typeOf]; rfl) ⟨_, rule⟩
  | comparison node relation left right leftAccepted rightAccepted =>
    intro _ _ alike typed
    cases alike with
    | comparison span lefts rights =>
      cases typed with
      | comparison leftTyped rightTyped rule =>
        exact (leftAccepted _ _ lefts leftTyped).binary (rightAccepted _ _ rights rightTyped) rfl
          (by rw [typeOf]; rfl) ⟨_, rule⟩
  | logical node connective left right leftAccepted rightAccepted =>
    intro _ _ alike typed
    cases alike with
    | logical span lefts rights =>
      cases typed with
      | chain leftTyped rightTyped =>
        refine .ofRule rfl (by rw [typeOf]; rfl) fun before nodup fresh => ?_
        obtain ⟨_, _, leftRun, rightRun⟩ := (leftAccepted _ _ lefts leftTyped).pair
          (rightAccepted _ _ rights rightTyped) nodup fresh
        rw [bind_of_ok leftRun, bind_of_ok rightRun]
        exact ⟨_, rfl⟩
      | bitwise leftTyped rightTyped notBoth rule =>
        refine .ofRule rfl (by rw [typeOf]; rfl) fun before nodup fresh => ?_
        obtain ⟨_, _, leftRun, rightRun⟩ := (leftAccepted _ _ lefts leftTyped).pair
          (rightAccepted _ _ rights rightTyped) nodup fresh
        rw [bind_of_ok leftRun, bind_of_ok rightRun, if_neg notBoth]
        exact typeBinary_of_rule rule
  | xor node left right leftAccepted rightAccepted =>
    intro _ _ alike typed
    cases alike with
    | xor span lefts rights =>
      cases typed with
      | xor leftTyped rightTyped rule =>
        exact (leftAccepted _ _ lefts leftTyped).binary (rightAccepted _ _ rights rightTyped) rfl
          (by rw [typeOf]; rfl) ⟨_, rule⟩
  | shift node direction left right leftAccepted rightAccepted =>
    intro _ _ alike typed
    cases alike with
    | shift span lefts rights =>
      cases typed with
      | shift leftTyped rightTyped count rule =>
        refine .ofRule rfl (by rw [typeOf]; rfl) fun before nodup fresh => ?_
        obtain ⟨_, _, leftRun, rightRun⟩ := (leftAccepted _ _ lefts leftTyped).pair
          (rightAccepted _ _ rights rightTyped) nodup fresh
        rw [bind_of_ok leftRun, bind_of_ok rightRun]
        exact typeShift_of_rule count rule
  | conditional node condition thenBranch elseBranch conditionAccepted thenAccepted elseAccepted =>
    intro _ _ alike typed
    cases alike with
    | conditional span conditions thens elses =>
      cases typed with
      | conditional conditionTyped thenTyped elseTyped unified =>
        refine .ofRule rfl (by rw [typeOf]; rfl) fun before nodup fresh => ?_
        obtain ⟨_, conditionRun, branchesNodup, branchesFresh⟩ :=
          (conditionAccepted _ _ conditions conditionTyped).first nodup fresh
        obtain ⟨_, _, thenRun, elseRun⟩ := (thenAccepted _ _ thens thenTyped).pair
          (elseAccepted _ _ elses elseTyped) branchesNodup branchesFresh
        rw [bind_of_ok conditionRun, if_pos rfl, bind_of_ok thenRun, bind_of_ok elseRun, unified]
        exact ⟨_, rfl⟩
  | member node operand items operandAccepted itemsAccepted =>
    intro _ _ alike typed
    cases alike with
    | member span operands tests =>
      cases typed with
      | member operandTyped itemsTyped =>
        refine .ofRule rfl (by rw [typeOf]; rfl) fun before nodup fresh => ?_
        obtain ⟨_, operandRun, itemsNodup, itemsFresh⟩ :=
          (operandAccepted _ _ operands operandTyped).first nodup fresh
        obtain ⟨_, itemsRun⟩ := accepts_items itemsAccepted tests itemsTyped itemsNodup itemsFresh
        rw [bind_of_ok operandRun, bind_of_ok itemsRun]
        exact ⟨_, rfl⟩
  | index node source position sourceAccepted positionAccepted =>
    intro _ _ alike typed
    cases alike with
    | index span sources positions =>
      cases typed with
      | index sourceTyped positionTyped count =>
        refine .ofRule rfl (by rw [typeOf]; rfl) fun before nodup fresh => ?_
        obtain ⟨_, _, sourceRun, positionRun⟩ := (sourceAccepted _ _ sources sourceTyped).pair
          (positionAccepted _ _ positions positionTyped) nodup fresh
        rw [bind_of_ok sourceRun]
        simp only [Ty.element?]
        rw [bind_of_ok positionRun, if_pos count]
        exact ⟨_, rfl⟩
  | array node elements elementsAccepted =>
    intro _ _ alike typed
    cases alike with
    | array span copies =>
      cases typed with
      | array firstTyped restTyped =>
        cases copies with
        | cons firstAlike restAlike =>
          refine .ofRule rfl (by rw [typeOf.eq_def]; rfl) fun before nodup fresh => ?_
          rw [List.forall_mem_cons] at elementsAccepted
          obtain ⟨_, firstRun, restNodup, restFresh⟩ :=
            (elementsAccepted.1 _ _ firstAlike firstTyped).first nodup fresh
          obtain ⟨_, restRun⟩ :=
            accepts_elements elementsAccepted.2 restAlike restTyped restNodup restFresh
          simp only
          rw [bind_of_ok firstRun, bind_of_ok restRun]
          exact ⟨_, rfl⟩
  | call node name arguments argumentsAccepted =>
    intro _ _ alike typed
    cases alike with
    | call span copies =>
      cases typed with
      | call found sameLength argumentsTyped =>
        refine .ofRule rfl (by rw [typeOf]; rfl) fun before nodup fresh => ?_
        obtain ⟨_, run⟩ := accepts_arguments argumentsAccepted copies argumentsTyped nodup fresh
        simp only [found, if_pos (sameLength.trans copies.length_eq)]
        rw [bind_of_ok run]
        exact ⟨_, rfl⟩
  | cast node operand target operandAccepted =>
    intro _ _ alike typed
    cases alike with
    | cast span operands =>
      cases typed with
      | cast operandTyped possible =>
        refine .ofRule rfl (by rw [typeOf]; rfl) fun before nodup fresh => ?_
        obtain ⟨_, operandRun⟩ := operandAccepted _ _ operands operandTyped before nodup fresh
        rw [bind_of_ok operandRun, possible]
        exact ⟨_, rfl⟩
  | bindings node body values =>
    intro _ _ alike
    cases alike

/-- An unfolding of an expression that has a type is typed, and has the type. -/
theorem typed_of_unfolds {expr : Expr} (unfolds : expr.Unfolds tree)
    (typed : Typed env typing [] expr type) :
    ∃ final, (typeOf env tree []).run {} = .ok type final ∧ Typed env final [] tree type := by
  obtain ⟨final, run⟩ :=
    copiesAccepted expr tree type unfolds.alike typed {} unfolds.tree fun _ _ => rfl
  exact ⟨final, run, typed_of_run unfolds.tree run⟩

end Copy

end Typing

end ExprCode
