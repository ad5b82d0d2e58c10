import ExprCode.Proofs.TypeJudgement

/-! # What typing finds out

Typing an expression in which no node occurs twice fills the tables at the nodes of the expression
and at no others, and what stands there then is what the judgement asks for. `Found` is this
statement for one stretch of typing; stretches on disjoint sets of nodes are put together by
`Found.append`. The table of membership tests is kept apart from the two others: the root of an
expression has its entry there from outside, as an item. -/

namespace ExprCode

namespace Typing

/-- Two states of typing know the same type and resolution of a node. -/
def SameAt (first second : Typing) (id : NodeId) : Prop :=
  first.types[id]? = second.types[id]? ∧ first.resolutions[id]? = second.resolutions[id]?

/-- A table says the same as itself. -/
theorem SameAt.refl (typing : Typing) (id : NodeId) : SameAt typing typing id := ⟨rfl, rfl⟩

/-- Tables that say the same as a third say the same. -/
theorem SameAt.trans {first second third : Typing} {id : NodeId} (h : SameAt first second id)
    (h' : SameAt second third id) : SameAt first third id :=
  ⟨h.1.trans h'.1, h.2.trans h'.2⟩

/-- Noting a type for a node changes nothing for another. -/
theorem sameAt_insert_types {typing : Typing} {id other : NodeId} {type : Ty}
    (differ : id ≠ other) :
    SameAt typing { typing with types := typing.types.insert id type } other := by
  refine ⟨?_, rfl⟩
  rw [Std.TreeMap.getElem?_insert, if_neg (by simpa using differ)]

/-- Noting a resolution for a node changes nothing for another. -/
theorem sameAt_insert_resolutions {typing : Typing} {id other : NodeId} {resolution : Resolution}
    (differ : id ≠ other) :
    SameAt typing { typing with resolutions := typing.resolutions.insert id resolution } other := by
  refine ⟨rfl, ?_⟩
  rw [Std.TreeMap.getElem?_insert, if_neg (by simpa using differ)]

/-- From one state to the next only the given nodes have changed, and whoever knows about them what
the second state knows has the property. -/
structure Found (ids tests : List NodeId) (property : Typing → Prop) (before after : Typing) :
    Prop where
  /-- Other nodes keep their type and resolution. -/
  unchanged : ∀ id, id ∉ ids → SameAt before after id
  /-- Other nodes keep their membership test. -/
  untested : ∀ id, id ∉ tests → before.memberships[id]? = after.memberships[id]?
  /-- What is known about the given nodes gives the property. -/
  holds : ∀ final, (∀ id ∈ ids, SameAt after final id) →
    (∀ id ∈ tests, after.memberships[id]? = final.memberships[id]?) → property final

namespace Found

variable {ids otherIds tests otherTests : List NodeId} {property otherProperty : Typing → Prop}
  {before middle after : Typing}

/-- Nothing is done. -/
theorem nil (typing : Typing) : Found [] [] (fun _ => True) typing typing :=
  ⟨fun _ _ => .refl _ _, fun _ _ => rfl, fun _ _ _ => trivial⟩

/-- A stretch has every property that follows from one it has. -/
theorem mono (found : Found ids tests property before after)
    (weaker : ∀ final, property final → otherProperty final) :
    Found ids tests otherProperty before after :=
  ⟨found.unchanged, found.untested,
    fun final same sameTests => weaker final (found.holds final same sameTests)⟩

/-- More nodes may have changed their test. -/
theorem widen (found : Found ids tests property before after) (subset : tests ⊆ otherTests) :
    Found ids otherTests property before after :=
  ⟨found.unchanged, fun id outside => found.untested id fun inside => outside (subset inside),
    fun final same sameTests => found.holds final same fun id inside =>
    sameTests id (subset inside)⟩

/-- Two stretches on disjoint sets of nodes. -/
theorem append (first : Found ids tests property before middle)
    (second : Found otherIds otherTests otherProperty middle after)
    (disjoint : ∀ id ∈ ids, ∀ other ∈ otherIds, id ≠ other) (subset : tests ⊆ ids)
    (otherSubset : otherTests ⊆ otherIds) :
    Found (ids ++ otherIds) (tests ++ otherTests)
      (fun final => property final ∧ otherProperty final) before after where
  unchanged id outside := by
    rw [List.mem_append, not_or] at outside
    exact (first.unchanged id outside.1).trans (second.unchanged id outside.2)
  untested id outside := by
    rw [List.mem_append, not_or] at outside
    exact (first.untested id outside.1).trans (second.untested id outside.2)
  holds final same sameTests := by
    -- what the first stretch found out is still there after the second, which is on other nodes
    have apart : ∀ id ∈ ids, id ∉ otherIds := fun id inside h => disjoint id inside id h rfl
    refine ⟨first.holds final (fun id inside => ?_) fun id inside => ?_,
      second.holds final (fun id inside => same id (List.mem_append_right _ inside))
        fun id inside => sameTests id (List.mem_append_right _ inside)⟩
    · exact (second.unchanged id (apart id inside)).trans (same id (List.mem_append_left _ inside))
    · have notSecond : id ∉ otherTests := fun h => apart id (subset inside) (otherSubset h)
      exact (second.untested id notSecond).trans (sameTests id (List.mem_append_left _ inside))

/-- A type is noted for a node. -/
theorem know {id : NodeId} {type : Ty} (found : Found ids tests property before after)
    (absent : id ∉ ids) :
    Found (id :: ids) tests (fun final => property final ∧ final.types[id]? = some type) before
      { after with types := after.types.insert id type } where
  unchanged other outside := by
    rw [List.mem_cons, not_or] at outside
    exact (found.unchanged other outside.2).trans (sameAt_insert_types (Ne.symm outside.1))
  untested := found.untested
  holds final same sameTests := by
    refine ⟨found.holds final (fun other inside => ?_) sameTests, ?_⟩
    · have differ : id ≠ other := fun equal => absent (equal ▸ inside)
      exact (sameAt_insert_types differ).trans (same other (List.mem_cons_of_mem _ inside))
    · rw [← (same id List.mem_cons_self).1]
      exact Std.TreeMap.getElem?_insert_self

/-- A resolution and a type are noted for a node. -/
theorem resolve {id : NodeId} {resolution : Resolution} {type : Ty}
    (found : Found ids tests property before after) (absent : id ∉ ids) :
    Found (id :: ids) tests
      (fun final => property final ∧ final.resolutions[id]? = some resolution ∧
        final.types[id]? = some type) before
      { after with
        resolutions := after.resolutions.insert id resolution
        types := after.types.insert id type } where
  unchanged other outside := by
    rw [List.mem_cons, not_or] at outside
    have differ := Ne.symm outside.1
    exact (found.unchanged other outside.2).trans
      ((sameAt_insert_resolutions differ).trans (sameAt_insert_types differ))
  untested := found.untested
  holds final same sameTests := by
    refine ⟨found.holds final (fun other inside => ?_) sameTests, ?_, ?_⟩
    · have differ : id ≠ other := fun equal => absent (equal ▸ inside)
      exact ((sameAt_insert_resolutions differ).trans (sameAt_insert_types differ)).trans
        (same other (List.mem_cons_of_mem _ inside))
    · rw [← (same id List.mem_cons_self).2]
      exact Std.TreeMap.getElem?_insert_self
    · rw [← (same id List.mem_cons_self).1]
      exact Std.TreeMap.getElem?_insert_self

/-- A membership test is noted for a node that had none to keep. -/
theorem test {id : NodeId} (found : Found ids tests property before after) (absent : id ∉ tests)
    (resolution : Resolution) :
    Found ids (id :: tests)
      (fun final => property final ∧ final.memberships[id]? = some resolution) before
      { after with memberships := after.memberships.insert id resolution } where
  unchanged := found.unchanged
  untested other outside := by
    rw [List.mem_cons, not_or] at outside
    rw [Std.TreeMap.getElem?_insert, if_neg (by simpa using Ne.symm outside.1)]
    exact found.untested other outside.2
  holds final same sameTests := by
    refine ⟨found.holds final same fun other inside => ?_, ?_⟩
    · rw [← sameTests other (List.mem_cons_of_mem _ inside)]
      have differ : id ≠ other := fun equal => absent (equal ▸ inside)
      rw [Std.TreeMap.getElem?_insert, if_neg (by simpa using differ)]
    · rw [← sameTests id List.mem_cons_self]
      exact Std.TreeMap.getElem?_insert_self

end Found

/-! ## Operations of typing -/

section Operations

variable {env : Environment} {node : Node} {before after : Typing} {type : Ty}

/-- A look-up that succeeds changes nothing. -/
theorem ofExcept_eq_ok {α : Type} {lookup : Except Defect α} {value : α}
    (h : ofExcept lookup before = .ok value after) : lookup = .ok value ∧ after = before := by
  cases lookup with
  | error defect => cases h
  | ok found =>
    cases h
    exact ⟨rfl, rfl⟩

/-- A node of unknown type is typed now. -/
theorem remember_eq_ok {infer : Infer Ty} (unknown : before.types[node.id]? = none)
    (h : remember node infer before = .ok type after) :
    ∃ middle, infer before = .ok type middle ∧
      after = { middle with types := middle.types.insert node.id type } := by
  unfold remember at h
  obtain ⟨_, _, run, h⟩ := bind_eq_ok h
  cases run
  rw [unknown] at h
  obtain ⟨found, middle, run, h⟩ := bind_eq_ok h
  cases h
  exact ⟨middle, run, rfl⟩

/-- A name that has a type has it by the rule for names. -/
theorem typeName_eq_ok {name : String} {scope : TypeScope}
    (h : typeName env node name scope before = .ok type after) :
    nameType? env name scope = some type ∧ after = before := by
  unfold typeName at h
  unfold nameType?
  cases bound : scope.lookup name with
  | some found =>
    rw [bound] at h
    cases h
    exact ⟨rfl, rfl⟩
  | none =>
    rw [bound] at h
    cases declared : env.findVariable? name with
    | some found =>
      rw [declared] at h
      cases h
      exact ⟨rfl, rfl⟩
    | none =>
      rw [declared] at h
      cases h

/-- An operator on one operand that is typed follows its rule. -/
theorem typeUnary_eq_ok {op : UnaryOp} {operand : Ty}
    (h : typeUnary env node op operand before = .ok type after) :
    ∃ resolution, UnaryRule env op operand resolution type ∧
      after = { before with resolutions := before.resolutions.insert node.id resolution } := by
  unfold typeUnary at h
  by_cases named : operand.isNamed
  · rw [if_pos named] at h
    cases found : env.operators.unaryOverload? op operand with
    | none =>
      rw [found] at h
      cases h
    | some method =>
      rw [found] at h
      cases h
      exact ⟨_, .overload named found, rfl⟩
  · rw [if_neg named] at h
    cases found : unaryOperand? op operand with
    | none =>
      rw [found] at h
      cases h
    | some result =>
      rw [found] at h
      cases h
      exact ⟨_, .primitive named found, rfl⟩

/-- An operator on two operands that is typed follows its rule. -/
theorem typeBinary_eq_ok {symbol operator : String} {left right : Ty} {operand? : Option Ty}
    {result : Ty → Ty}
    (h : typeBinary env node symbol operator left right operand? result before =
      .ok type after) :
    ∃ resolution, BinaryRule env operator left right operand? result resolution type ∧
      after = { before with resolutions := before.resolutions.insert node.id resolution } := by
  unfold typeBinary at h
  by_cases named : left.isNamed || right.isNamed
  · rw [if_pos named] at h
    obtain ⟨method?, _, run, rest⟩ := bind_eq_ok h
    obtain ⟨found, rfl⟩ := ofExcept_eq_ok run
    cases method? with
    | none => cases rest
    | some method =>
      cases rest
      exact ⟨_, .overload named found, rfl⟩
  · rw [if_neg named] at h
    cases operand? with
    | none => cases h
    | some operand =>
      cases h
      exact ⟨_, .primitive named rfl, rfl⟩

/-- A shift that is typed follows its rule, and its count is an integer. -/
theorem typeShift_eq_ok {direction : ShiftDirection} {left right : Ty} {countSpan : Span}
    (h : typeShift env node direction left right countSpan before = .ok type after) :
    isCount right ∧ ∃ resolution, ShiftRule env direction left resolution type ∧
      after = { before with resolutions := before.resolutions.insert node.id resolution } := by
  unfold typeShift at h
  by_cases count : isCount right
  · refine ⟨count, ?_⟩
    rw [if_pos count] at h
    cases left with
    | named name =>
      cases found : env.operators.find? direction.methodName (.named name)
          [.named name, .int .i32] with
      | none =>
        rw [found] at h
        cases h
      | some method =>
        rw [found] at h
        cases h
        exact ⟨_, .overload found, rfl⟩
    | int intType =>
      cases h
      exact ⟨_, .primitive intType, rfl⟩
    | _ => cases h
  · rw [if_neg count] at h
    cases h

/-- An item that is typed follows its rule. -/
theorem typeItem_eq_ok {operand : Ty} {item : Node}
    (h : typeItem env operand item type before = .ok () after) :
    ∃ test, ItemRule env operand type test ∧
      after = { before with memberships := before.memberships.insert item.id test } := by
  unfold typeItem at h
  obtain ⟨test?, middle, testRun, rest⟩ := bind_eq_ok h
  unfold membershipTest? at testRun
  by_cases named : operand.isNamed || type.isNamed
  · rw [if_pos named] at testRun
    obtain ⟨method?, _, run, last⟩ := bind_eq_ok testRun
    obtain ⟨found, rfl⟩ := ofExcept_eq_ok run
    cases last
    cases method? with
    | none => cases rest
    | some method =>
      cases rest
      exact ⟨_, .overload named found, rfl⟩
  · rw [if_neg named] at testRun
    cases testRun
    cases found : comparisonOperand? .eq operand type with
    | none =>
      rw [found] at rest
      cases rest
    | some result =>
      rw [found] at rest
      cases rest
      exact ⟨_, .primitive named found, rfl⟩

/-- An argument that is typed converts to its parameter type. -/
theorem typeArgument_eq_ok {param : Ty} {argument : Node}
    (h : typeArgument env param argument type before = .ok () after) :
    env.operators.canConvert type param = .ok true ∧ after = before := by
  unfold typeArgument at h
  obtain ⟨converts, _, run, rest⟩ := bind_eq_ok h
  obtain ⟨found, rfl⟩ := ofExcept_eq_ok run
  cases converts with
  | true =>
    cases rest
    exact ⟨found, rfl⟩
  | false => cases rest

end Operations

/-! ## Typing a tree -/

section Tree

variable {env : Environment} {scope : TypeScope} {before middle after : Typing}

/-- No type is known yet of the given nodes. -/
def Fresh (ids : List NodeId) (typing : Typing) : Prop := ∀ id ∈ ids, typing.types[id]? = none

/-- A stretch on other nodes leaves unknown what was unknown. -/
theorem Found.fresh {ids otherIds tests : List NodeId} {property : Typing → Prop}
    (found : Found ids tests property before after) (fresh : Fresh otherIds before)
    (disjoint : ∀ id ∈ ids, ∀ other ∈ otherIds, id ≠ other) : Fresh otherIds after := by
  intro id inside
  rw [← (found.unchanged id fun h => disjoint id h id inside rfl).1]
  exact fresh id inside

/-- Typing the expression, if it is a tree of which nothing is known, gives what the judgement asks
for. -/
def TypesFound (env : Environment) (expr : Expr) : Prop :=
  ∀ scope before type after, expr.ids.Nodup → Fresh expr.ids before →
    typeOf env expr scope before = .ok type after →
    Found expr.ids expr.ids.tail (fun final => Typed env final scope expr type) before after

/-- An expression by itself, as the only child of a node. -/
theorem TypesFound.child {expr : Expr} {type : Ty} (typesFound : TypesFound env expr)
    (nodup : expr.ids.Nodup) (fresh : Fresh expr.ids before)
    (h : typeOf env expr scope before = .ok type after) :
    Found expr.ids expr.ids (fun final => Typed env final scope expr type) before after :=
  (typesFound scope before type after nodup fresh h).widen fun _ => List.mem_of_mem_tail

/-- Two stretches of typing one after the other, the second on a list of nodes that is still
fresh. -/
theorem Found.both {ids otherIds : List NodeId} {property otherProperty : Typing → Prop}
    (first : Found ids ids property before middle) (nodup : (ids ++ otherIds).Nodup)
    (fresh : Fresh (ids ++ otherIds) before)
    (second : otherIds.Nodup → Fresh otherIds middle →
      Found otherIds otherIds otherProperty middle after) :
    Found (ids ++ otherIds) (ids ++ otherIds)
      (fun final => property final ∧ otherProperty final) before after := by
  obtain ⟨-, otherNodup, disjoint⟩ := List.nodup_append.1 nodup
  have otherFresh : Fresh otherIds before := fun id inside =>
    fresh id (List.mem_append_right _ inside)
  exact first.append (second otherNodup (first.fresh otherFresh disjoint)) disjoint
    (List.Subset.refl _) (List.Subset.refl _)

/-- The first of two lists of nodes. -/
theorem Fresh.left {ids otherIds : List NodeId} (fresh : Fresh (ids ++ otherIds) before) :
    Fresh ids before := fun id inside => fresh id (List.mem_append_left _ inside)

/-- The children of a node. -/
theorem Fresh.tail {id : NodeId} {ids : List NodeId} (fresh : Fresh (id :: ids) before) :
    Fresh ids before := fun other inside => fresh other (List.mem_cons_of_mem _ inside)

/-- Two operands, typed left to right. -/
theorem TypesFound.pair {left right : Expr} {leftType rightType : Ty}
    (leftFound : TypesFound env left) (rightFound : TypesFound env right)
    (nodup : (left.ids ++ right.ids).Nodup) (fresh : Fresh (left.ids ++ right.ids) before)
    (leftRun : typeOf env left scope before = .ok leftType middle)
    (rightRun : typeOf env right scope middle = .ok rightType after) :
    Found (left.ids ++ right.ids) (left.ids ++ right.ids)
      (fun final => Typed env final scope left leftType ∧
        Typed env final scope right rightType) before after :=
  (leftFound.child (List.nodup_append.1 nodup).1 fresh.left leftRun).both nodup fresh
    fun rightNodup rightFresh => rightFound.child rightNodup rightFresh rightRun

/-- Items are typed one after the other, each with its test. -/
theorem found_typeItems {operandType : Ty} {items : List Expr}
    (itemsFound : ∀ item ∈ items, TypesFound env item)
    (nodup : (Expr.idsOfList items).Nodup) (fresh : Fresh (Expr.idsOfList items) before)
    (h : typeItems env operandType items scope before = .ok () after) :
    Found (Expr.idsOfList items) (Expr.idsOfList items)
      (fun final => TypedItems env final scope operandType items) before after := by
  induction items generalizing before with
  | nil =>
    rw [typeItems] at h
    cases h
    exact (Found.nil _).mono fun _ _ => .nil
  | cons item items ih =>
    rw [typeItems] at h
    obtain ⟨type, typed, typeRun, rest⟩ := bind_eq_ok h
    obtain ⟨_, tested, testRun, itemsRun⟩ := bind_eq_ok rest
    obtain ⟨test, rule, rfl⟩ := typeItem_eq_ok testRun
    have itemNodup : item.ids.Nodup := (List.nodup_append.1 nodup).1
    have itemFound := itemsFound item List.mem_cons_self scope before type typed itemNodup
      fresh.left typeRun
    -- the test is noted for the root of the item, which typing the item itself leaves alone
    have ids_eq : item.ids = item.id :: item.ids.tail := by
      cases item <;> rfl
    have rootAbsent : item.id ∉ item.ids.tail := by
      rw [ids_eq, List.nodup_cons] at itemNodup
      exact itemNodup.1
    have first := itemFound.test rootAbsent test
    rw [← ids_eq] at first
    refine (first.both nodup fresh fun itemsNodup itemsFresh => ?_).mono fun final both =>
      .cons both.1.1 rule both.1.2 both.2
    exact ih (fun other inside => itemsFound other (List.mem_cons_of_mem _ inside))
      itemsNodup itemsFresh itemsRun

/-- Elements are typed one after the other, with the common type of those before. -/
theorem found_typeElements {element result : Ty} {elements : List Expr}
    (elementsFound : ∀ other ∈ elements, TypesFound env other)
    (nodup : (Expr.idsOfList elements).Nodup) (fresh : Fresh (Expr.idsOfList elements) before)
    (h : typeElements env element elements scope before = .ok result after) :
    Found (Expr.idsOfList elements) (Expr.idsOfList elements)
      (fun final => TypedElements env final scope element elements result) before after := by
  induction elements generalizing before element with
  | nil =>
    rw [typeElements] at h
    cases h
    exact (Found.nil _).mono fun _ _ => .nil
  | cons other elements ih =>
    rw [typeElements] at h
    obtain ⟨type, typed, typeRun, rest⟩ := bind_eq_ok h
    obtain ⟨common?, _, unifyRun, elementsRun⟩ := bind_eq_ok rest
    obtain ⟨unified, rfl⟩ := ofExcept_eq_ok unifyRun
    cases common? with
    | none => cases elementsRun
    | some common =>
      have first := (elementsFound other List.mem_cons_self).child (List.nodup_append.1 nodup).1
        fresh.left typeRun
      refine (first.both nodup fresh fun restNodup restFresh => ?_).mono fun final both =>
        .cons both.1 unified both.2
      exact ih
        (fun next inside => elementsFound next (List.mem_cons_of_mem _ inside))
        restNodup restFresh elementsRun

/-- Arguments are typed one after the other and convert to their parameter types. -/
theorem found_typeArguments {params : List Ty} {arguments : List Expr}
    (argumentsFound : ∀ argument ∈ arguments, TypesFound env argument)
    (sameLength : params.length = arguments.length)
    (nodup : (Expr.idsOfList arguments).Nodup) (fresh : Fresh (Expr.idsOfList arguments) before)
    (h : typeArguments env params arguments scope before = .ok () after) :
    Found (Expr.idsOfList arguments) (Expr.idsOfList arguments)
      (fun final => TypedArguments env final scope params arguments) before after := by
  induction arguments generalizing before params with
  | nil =>
    cases params with
    | cons => cases sameLength
    | nil =>
      rw [typeArguments] at h
      · cases h
        exact (Found.nil _).mono fun _ _ => .nil
      · intros
        contradiction
  | cons argument arguments ih =>
    cases params with
    | nil => cases sameLength
    | cons param params =>
      rw [typeArguments] at h
      obtain ⟨type, typed, typeRun, rest⟩ := bind_eq_ok h
      obtain ⟨_, _, convertRun, argumentsRun⟩ := bind_eq_ok rest
      obtain ⟨converts, rfl⟩ := typeArgument_eq_ok convertRun
      have first := (argumentsFound argument List.mem_cons_self).child
        (List.nodup_append.1 nodup).1 fresh.left typeRun
      refine (first.both nodup fresh fun restNodup restFresh => ?_).mono fun final both =>
        .cons both.1 converts both.2
      exact ih
        (fun next inside => argumentsFound next (List.mem_cons_of_mem _ inside))
        (Nat.succ.inj sameLength) restNodup restFresh argumentsRun

/-- Bound values are typed one after the other, each in scope of those behind it. -/
theorem found_typeBindings {values : List (String × Expr)} {inner : TypeScope}
    (valuesFound : ∀ value ∈ values, TypesFound env value.2)
    (nodup : (Expr.idsOfBindings values).Nodup) (fresh : Fresh (Expr.idsOfBindings values) before)
    (h : typeBindings env values scope before = .ok inner after) :
    Found (Expr.idsOfBindings values) (Expr.idsOfBindings values)
      (fun final => TypedBindings env final scope values inner) before after := by
  induction values generalizing before scope with
  | nil =>
    rw [typeBindings] at h
    cases h
    exact (Found.nil _).mono fun _ _ => .nil
  | cons value values ih =>
    rw [typeBindings] at h
    obtain ⟨type, typed, typeRun, valuesRun⟩ := bind_eq_ok h
    have first := (valuesFound value List.mem_cons_self).child (List.nodup_append.1 nodup).1
      fresh.left typeRun
    refine (first.both nodup fresh fun restNodup restFresh => ?_).mono fun final both =>
      .cons both.1 both.2
    exact ih
      (fun next inside => valuesFound next (List.mem_cons_of_mem _ inside))
      restNodup restFresh valuesRun

/-- A node of unknown type is typed by its rule: what the rule finds out about the children and the
node, with the type that is noted for the node, has to give the judgement. -/
theorem TypesFound.ofRule {expr : Expr} {node : Node} {ids : List NodeId}
    {rule : TypeScope → Infer Ty} (nodes : expr.ids = node.id :: ids)
    (byRule : ∀ scope, typeOf env expr scope = remember node (rule scope))
    (found : ∀ {scope before type after}, node.id ∉ ids → ids.Nodup → Fresh ids before →
      rule scope before = .ok type after →
      Found (node.id :: ids) ids (fun final => Typed env final scope expr type) before
        { after with types := after.types.insert node.id type }) :
    TypesFound env expr := by
  intro scope before type after nodup fresh h
  rw [nodes] at nodup fresh ⊢
  rw [byRule] at h
  obtain ⟨absent, childNodup⟩ := List.nodup_cons.1 nodup
  obtain ⟨last, run, rfl⟩ := remember_eq_ok (fresh _ List.mem_cons_self) h
  exact found absent childNodup fresh.tail run

/-- Two operands, typed left to right, and an operator on them. -/
theorem found_typeBinary {node : Node} {left right : Expr} {symbol operator : String}
    {operand? : Ty → Ty → Option Ty} {result : Ty → Ty} {type : Ty}
    (leftFound : TypesFound env left) (rightFound : TypesFound env right)
    (absent : node.id ∉ left.ids ++ right.ids) (nodup : (left.ids ++ right.ids).Nodup)
    (fresh : Fresh (left.ids ++ right.ids) before)
    (h : (do
      let leftType ← typeOf env left scope
      let rightType ← typeOf env right scope
      typeBinary env node symbol operator leftType rightType (operand? leftType rightType)
        result) before = .ok type after) :
    Found (node.id :: (left.ids ++ right.ids)) (left.ids ++ right.ids)
      (fun final => ∃ leftType rightType resolution, Typed env final scope left leftType ∧
        Typed env final scope right rightType ∧
        BinaryRule env operator leftType rightType (operand? leftType rightType) result
          resolution type ∧
        final.resolutions[node.id]? = some resolution ∧ final.types[node.id]? = some type)
      before { after with types := after.types.insert node.id type } := by
  obtain ⟨leftType, leftTyped, leftRun, rest⟩ := bind_eq_ok h
  obtain ⟨rightType, rightTyped, rightRun, ruleRun⟩ := bind_eq_ok rest
  obtain ⟨resolution, rule, rfl⟩ := typeBinary_eq_ok ruleRun
  have children := leftFound.pair rightFound nodup fresh leftRun rightRun
  refine (children.resolve absent).mono fun final => ?_
  rintro ⟨⟨leftJudged, rightJudged⟩, resolved, known⟩
  exact ⟨leftType, rightType, resolution, leftJudged, rightJudged, rule, resolved, known⟩

/-- Typing a tree of which nothing is known gives what the judgement asks for. -/
theorem typesFound (expr : Expr) : TypesFound env expr := by
  induction expr using Expr.inductionOn with
  | literal node value =>
    refine .ofRule rfl (fun _ => by rw [typeOf]) fun absent _ _ run => ?_
    cases run
    exact ((Found.nil _).know absent).mono fun final facts => .literal facts.2
  | ident node name =>
    refine .ofRule rfl (fun _ => by rw [typeOf]) fun absent _ _ run => ?_
    obtain ⟨found, rfl⟩ := typeName_eq_ok run
    exact ((Found.nil _).know absent).mono fun final facts => .ident found facts.2
  | unary node op operand operandFound =>
    refine .ofRule rfl (fun _ => by rw [typeOf]) fun absent nodup fresh run => ?_
    obtain ⟨operandType, middle, operandRun, ruleRun⟩ := bind_eq_ok run
    obtain ⟨resolution, rule, rfl⟩ := typeUnary_eq_ok ruleRun
    have children := operandFound.child nodup fresh operandRun
    exact (children.resolve absent).mono fun final facts =>
      .unary facts.1 rule facts.2.1 facts.2.2
  | arithmetic node op left right leftFound rightFound =>
    refine .ofRule rfl (fun _ => by rw [typeOf]) fun absent nodup fresh run => ?_
    refine (found_typeBinary leftFound rightFound absent nodup fresh run).mono fun final => ?_
    rintro ⟨_, _, resolution, leftTyped, rightTyped, rule, resolved, known⟩
    exact .arithmetic leftTyped rightTyped rule resolved known
  | comparison node relation left right leftFound rightFound =>
    refine .ofRule rfl (fun _ => by rw [typeOf]) fun absent nodup fresh run => ?_
    refine (found_typeBinary leftFound rightFound absent nodup fresh run).mono fun final => ?_
    rintro ⟨_, _, resolution, leftTyped, rightTyped, rule, resolved, known⟩
    exact .comparison leftTyped rightTyped rule resolved known
  | logical node connective left right leftFound rightFound =>
    refine .ofRule rfl (fun _ => by rw [typeOf]) fun absent nodup fresh run => ?_
    obtain ⟨leftType, leftTyped, leftRun, rest⟩ := bind_eq_ok run
    obtain ⟨rightType, rightTyped, rightRun, ruleRun⟩ := bind_eq_ok rest
    have children := leftFound.pair rightFound nodup fresh leftRun rightRun
    -- two truth values are joined, and no resolution is noted for them
    by_cases both : leftType = .bool ∧ rightType = .bool
    · rw [if_pos both] at ruleRun
      cases ruleRun
      obtain ⟨rfl, rfl⟩ := both
      exact (children.know absent).mono fun final facts => .chain facts.1.1 facts.1.2 facts.2
    · rw [if_neg both] at ruleRun
      obtain ⟨resolution, rule, rfl⟩ := typeBinary_eq_ok ruleRun
      exact (children.resolve absent).mono fun final facts =>
        .bitwise facts.1.1 facts.1.2 both rule facts.2.1 facts.2.2
  | xor node left right leftFound rightFound =>
    refine .ofRule rfl (fun _ => by rw [typeOf]) fun absent nodup fresh run => ?_
    refine (found_typeBinary leftFound rightFound absent nodup fresh run).mono fun final => ?_
    rintro ⟨_, _, resolution, leftTyped, rightTyped, rule, resolved, known⟩
    exact .xor leftTyped rightTyped rule resolved known
  | shift node direction left right leftFound rightFound =>
    refine .ofRule rfl (fun _ => by rw [typeOf]) fun absent nodup fresh run => ?_
    obtain ⟨leftType, leftTyped, leftRun, rest⟩ := bind_eq_ok run
    obtain ⟨rightType, rightTyped, rightRun, ruleRun⟩ := bind_eq_ok rest
    obtain ⟨count, resolution, rule, rfl⟩ := typeShift_eq_ok ruleRun
    have children := leftFound.pair rightFound nodup fresh leftRun rightRun
    exact (children.resolve absent).mono fun final facts =>
      .shift facts.1.1 facts.1.2 count rule facts.2.1 facts.2.2
  | conditional node condition thenBranch elseBranch conditionFound thenFound elseFound =>
    refine .ofRule rfl (fun _ => by rw [typeOf]) fun absent nodup fresh run => ?_
    obtain ⟨conditionType, conditionTyped, conditionRun, rest⟩ := bind_eq_ok run
    by_cases boolean : conditionType = .bool
    · subst boolean
      rw [if_pos rfl] at rest
      obtain ⟨thenType, thenTyped, thenRun, elseRest⟩ := bind_eq_ok rest
      obtain ⟨elseType, elseTyped, elseRun, unifyRest⟩ := bind_eq_ok elseRest
      obtain ⟨common?, _, unifyRun, result⟩ := bind_eq_ok unifyRest
      obtain ⟨unified, rfl⟩ := ofExcept_eq_ok unifyRun
      cases common? with
      | none => cases result
      | some common =>
        cases result
        have first := conditionFound.child (List.nodup_append.1 nodup).1 fresh.left conditionRun
        have children := first.both nodup fresh fun branchesNodup branchesFresh =>
          thenFound.pair elseFound branchesNodup branchesFresh thenRun elseRun
        exact (children.know absent).mono fun final facts =>
          .conditional facts.1.1 facts.1.2.1 facts.1.2.2 unified facts.2
    · rw [if_neg boolean] at rest
      cases rest
  | member node operand items operandFound itemsFound =>
    refine .ofRule rfl (fun _ => by rw [typeOf]) fun absent nodup fresh run => ?_
    obtain ⟨operandType, operandTyped, operandRun, rest⟩ := bind_eq_ok run
    obtain ⟨_, itemsTyped, itemsRun, result⟩ := bind_eq_ok rest
    cases result
    have first := operandFound.child (List.nodup_append.1 nodup).1 fresh.left operandRun
    have children := first.both nodup fresh fun itemsNodup itemsFresh =>
      found_typeItems itemsFound itemsNodup itemsFresh itemsRun
    exact (children.know absent).mono fun final facts => .member facts.1.1 facts.1.2 facts.2
  | index node array position arrayFound positionFound =>
    refine .ofRule rfl (fun _ => by rw [typeOf]) fun absent nodup fresh run => ?_
    obtain ⟨arrayType, arrayTyped, arrayRun, rest⟩ := bind_eq_ok run
    cases arrayType with
    | array element =>
      obtain ⟨positionType, positionTyped, positionRun, result⟩ := bind_eq_ok rest
      have children := arrayFound.pair positionFound nodup fresh arrayRun positionRun
      by_cases count : isCount positionType
      · rw [if_pos count] at result
        cases result
        exact (children.know absent).mono fun final facts =>
          .index facts.1.1 facts.1.2 count facts.2
      · rw [if_neg count] at result
        cases result
    | _ => cases rest
  | array node elements elementsFound =>
    refine .ofRule rfl (fun _ => by rw [typeOf.eq_def]) fun absent nodup fresh run => ?_
    cases elements with
    | nil => cases run
    | cons first rest =>
      obtain ⟨firstType, firstTyped, firstRun, restRun⟩ := bind_eq_ok run
      obtain ⟨element, restTyped, elementsRun, result⟩ := bind_eq_ok restRun
      cases result
      have head := (elementsFound first List.mem_cons_self).child (List.nodup_append.1 nodup).1
        fresh.left firstRun
      have children := head.both nodup fresh fun restNodup restFresh =>
        found_typeElements (fun other inside => elementsFound other (List.mem_cons_of_mem _ inside))
          restNodup restFresh elementsRun
      exact (children.know absent).mono fun final facts => .array facts.1.1 facts.1.2 facts.2
  | call node name arguments argumentsFound =>
    refine .ofRule rfl (fun _ => by rw [typeOf]) fun absent nodup fresh run => ?_
    cases found : env.findFunction? name with
    | none =>
      rw [found] at run
      cases run
    | some signature =>
      rw [found] at run
      by_cases sameLength : signature.params.length = arguments.length
      · simp only [if_pos sameLength] at run
        obtain ⟨_, _, argumentsRun, result⟩ := bind_eq_ok run
        cases result
        have children := found_typeArguments argumentsFound sameLength nodup fresh argumentsRun
        exact (children.know absent).mono fun final facts =>
          .call found sameLength facts.1 facts.2
      · simp only [if_neg sameLength] at run
        cases run
  | cast node operand target operandFound =>
    refine .ofRule rfl (fun _ => by rw [typeOf]) fun absent nodup fresh run => ?_
    obtain ⟨source, operandTyped, operandRun, rest⟩ := bind_eq_ok run
    obtain ⟨possible, _, castRun, result⟩ := bind_eq_ok rest
    obtain ⟨found, rfl⟩ := ofExcept_eq_ok castRun
    cases possible with
    | false => cases result
    | true =>
      cases result
      have children := operandFound.child nodup fresh operandRun
      exact (children.know absent).mono fun final facts => .cast facts.1 found facts.2
  | bindings node body values bodyFound valuesFound =>
    refine .ofRule rfl (fun _ => by rw [typeOf]) fun absent nodup fresh run => ?_
    obtain ⟨inner, valuesTyped, valuesRun, bodyRun⟩ := bind_eq_ok run
    have first := found_typeBindings valuesFound (List.nodup_append.1 nodup).1 fresh.left valuesRun
    have children := first.both nodup fresh fun bodyNodup bodyFresh =>
      bodyFound.child bodyNodup bodyFresh bodyRun
    exact (children.know absent).mono fun final facts => .bindings facts.1.1 facts.1.2 facts.2

/-- Typing a tree from nothing finds out what the judgement asks for. -/
theorem typed_of_run {expr : Expr} {type : Ty} {typing : Typing} (tree : expr.IsTree)
    (h : (typeOf env expr []).run {} = .ok type typing) :
    Typed env typing [] expr type :=
  (typesFound expr [] {} type typing tree (fun _ _ => rfl) h).holds typing
    (fun _ _ => .refl _ _) fun _ _ => rfl

end Tree

end Typing

end ExprCode
