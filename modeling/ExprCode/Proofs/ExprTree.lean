import Mathlib
import ExprCode.Expr

/-! # Expressions as trees

Induction over expressions whose lists of children are taken as a whole, and the expressions in
which no node occurs twice. -/

namespace ExprCode

namespace Expr

/-- Induction over expressions: what holds of all children of a node, those in lists included, holds
of the node. -/
@[elab_as_elim]
theorem inductionOn {motive : Expr → Prop} (expr : Expr)
    (literal : ∀ node value, motive (.literal node value))
    (ident : ∀ node name, motive (.ident node name))
    (unary : ∀ node op operand, motive operand → motive (.unary node op operand))
    (arithmetic : ∀ node op left right, motive left → motive right →
      motive (.arithmetic node op left right))
    (comparison : ∀ node relation left right, motive left → motive right →
      motive (.comparison node relation left right))
    (logical : ∀ node connective left right, motive left → motive right →
      motive (.logical node connective left right))
    (xor : ∀ node left right, motive left → motive right → motive (.xor node left right))
    (shift : ∀ node direction left right, motive left → motive right →
      motive (.shift node direction left right))
    (conditional : ∀ node condition thenBranch elseBranch, motive condition → motive thenBranch →
      motive elseBranch → motive (.conditional node condition thenBranch elseBranch))
    (member : ∀ node operand items, motive operand → (∀ item ∈ items, motive item) →
      motive (.member node operand items))
    (index : ∀ node array position, motive array → motive position →
      motive (.index node array position))
    (array : ∀ node elements, (∀ element ∈ elements, motive element) →
      motive (.array node elements))
    (call : ∀ node name arguments, (∀ argument ∈ arguments, motive argument) →
      motive (.call node name arguments))
    (cast : ∀ node operand target, motive operand → motive (.cast node operand target))
    (bindings : ∀ node body values, motive body → (∀ value ∈ values, motive value.2) →
      motive (.bindings node body values)) :
    motive expr :=
  @Expr.rec motive (fun exprs => ∀ expr ∈ exprs, motive expr)
    (fun values => ∀ value ∈ values, motive value.2) (fun value => motive value.2)
    literal ident unary arithmetic comparison logical xor shift conditional member index array call
    cast bindings
    (fun _ h => absurd h List.not_mem_nil)
    (fun _ _ head tail => List.forall_mem_cons.2 ⟨head, tail⟩)
    (fun _ h => absurd h List.not_mem_nil)
    (fun _ _ head tail => List.forall_mem_cons.2 ⟨head, tail⟩)
    (fun _ _ value => value)
    expr

mutual

/-- Identities of all nodes of an expression, the root first. -/
def ids : Expr → List NodeId
  | .literal node _ | .ident node _ => [node.id]
  | .unary node _ operand | .cast node operand _ => node.id :: operand.ids
  | .arithmetic node _ left right | .comparison node _ left right | .logical node _ left right
  | .xor node left right | .shift node _ left right => node.id :: (left.ids ++ right.ids)
  | .conditional node condition thenBranch elseBranch =>
      node.id :: (condition.ids ++ (thenBranch.ids ++ elseBranch.ids))
  | .member node operand items => node.id :: (operand.ids ++ idsOfList items)
  | .index node source position => node.id :: (source.ids ++ position.ids)
  | .array node elements => node.id :: idsOfList elements
  | .call node _ arguments => node.id :: idsOfList arguments
  | .bindings node body values => node.id :: (idsOfBindings values ++ body.ids)

/-- Identities of all nodes of several expressions. -/
def idsOfList : List Expr → List NodeId
  | [] => []
  | expr :: exprs => expr.ids ++ idsOfList exprs

/-- Identities of all nodes of bound values. -/
def idsOfBindings : List (String × Expr) → List NodeId
  | [] => []
  | value :: values => value.2.ids ++ idsOfBindings values

end

mutual

/-- An expression with all expressions that it contains. -/
def parts : Expr → List Expr
  | .literal node value => [.literal node value]
  | .ident node name => [.ident node name]
  | .unary node op operand => .unary node op operand :: operand.parts
  | .arithmetic node op left right => .arithmetic node op left right :: (left.parts ++ right.parts)
  | .comparison node relation left right =>
      .comparison node relation left right :: (left.parts ++ right.parts)
  | .logical node connective left right =>
      .logical node connective left right :: (left.parts ++ right.parts)
  | .xor node left right => .xor node left right :: (left.parts ++ right.parts)
  | .shift node direction left right =>
      .shift node direction left right :: (left.parts ++ right.parts)
  | .conditional node condition thenBranch elseBranch =>
      .conditional node condition thenBranch elseBranch ::
        (condition.parts ++ (thenBranch.parts ++ elseBranch.parts))
  | .member node operand items => .member node operand items :: (operand.parts ++ partsOfList items)
  | .index node source position => .index node source position :: (source.parts ++ position.parts)
  | .array node elements => .array node elements :: partsOfList elements
  | .call node name arguments => .call node name arguments :: partsOfList arguments
  | .cast node operand target => .cast node operand target :: operand.parts
  | .bindings node body values =>
    .bindings node body values :: (partsOfBindings values ++ body.parts)

/-- Several expressions with all that they contain. -/
def partsOfList : List Expr → List Expr
  | [] => []
  | expr :: exprs => expr.parts ++ partsOfList exprs

/-- Bound values with all that they contain. -/
def partsOfBindings : List (String × Expr) → List Expr
  | [] => []
  | value :: values => value.2.parts ++ partsOfBindings values

end

/-- No node occurs at two places of the expression. -/
def IsTree (expr : Expr) : Prop := expr.ids.Nodup

/-- Whether a tree shares no node can be decided. -/
instance (expr : Expr) : Decidable expr.IsTree := inferInstanceAs (Decidable expr.ids.Nodup)

/-- The nodes of one of several expressions are nodes of all of them. -/
theorem ids_sublist_idsOfList {expr : Expr} {exprs : List Expr} (member : expr ∈ exprs) :
    expr.ids.Sublist (idsOfList exprs) := by
  induction exprs with
  | nil => cases member
  | cons head exprs ih =>
    rw [idsOfList]
    rcases List.mem_cons.1 member with rfl | later
    · exact List.sublist_append_left _ _
    · exact (ih later).trans (List.sublist_append_right _ _)

/-- The nodes of one of several bound values are nodes of all of them. -/
theorem ids_sublist_idsOfBindings {value : String × Expr} {values : List (String × Expr)}
    (member : value ∈ values) : value.2.ids.Sublist (idsOfBindings values) := by
  induction values with
  | nil => cases member
  | cons head values ih =>
    rw [idsOfBindings]
    rcases List.mem_cons.1 member with rfl | later
    · exact List.sublist_append_left _ _
    · exact (ih later).trans (List.sublist_append_right _ _)

/-- The parts of one of several expressions are parts of all of them. -/
theorem parts_subset_partsOfList {expr : Expr} {exprs : List Expr} (member : expr ∈ exprs) :
    expr.parts ⊆ partsOfList exprs := by
  induction exprs with
  | nil => cases member
  | cons head exprs ih =>
    rw [partsOfList]
    rcases List.mem_cons.1 member with rfl | later
    · exact List.subset_append_left _ _
    · exact List.Subset.trans (ih later) (List.subset_append_right _ _)

/-- The parts of one of several bound values are parts of all of them. -/
theorem parts_subset_partsOfBindings {value : String × Expr} {values : List (String × Expr)}
    (member : value ∈ values) : value.2.parts ⊆ partsOfBindings values := by
  induction values with
  | nil => cases member
  | cons head values ih =>
    rw [partsOfBindings]
    rcases List.mem_cons.1 member with rfl | later
    · exact List.subset_append_left _ _
    · exact List.Subset.trans (ih later) (List.subset_append_right _ _)

/-- An expression is one of its parts. -/
theorem mem_parts (expr : Expr) : expr ∈ expr.parts := by
  cases expr <;> simp [parts]

/-- The expressions directly below an expression. -/
def children : Expr → List Expr
  | .literal _ _ | .ident _ _ => []
  | .unary _ _ operand | .cast _ operand _ => [operand]
  | .arithmetic _ _ left right | .comparison _ _ left right | .logical _ _ left right
  | .xor _ left right | .shift _ _ left right => [left, right]
  | .conditional _ condition thenBranch elseBranch => [condition, thenBranch, elseBranch]
  | .member _ operand items => operand :: items
  | .index _ source position => [source, position]
  | .array _ elements => elements
  | .call _ _ arguments => arguments
  | .bindings _ body values => body :: values.map (·.2)

/-- The nodes of a child are nodes of the expression. -/
theorem ids_sublist_of_child {child expr : Expr} (member : child ∈ expr.children) :
    child.ids.Sublist expr.ids := by
  cases expr with
  | literal | ident => cases member
  | unary | cast =>
    cases List.mem_singleton.1 member
    exact (List.Sublist.refl _).cons _
  | arithmetic | comparison | logical | xor | shift | index =>
    simp only [children, List.mem_cons, List.not_mem_nil, or_false] at member
    rcases member with rfl | rfl
    · exact (List.sublist_append_left _ _).cons _
    · exact (List.sublist_append_right _ _).cons _
  | conditional =>
    simp only [children, List.mem_cons, List.not_mem_nil, or_false] at member
    rcases member with rfl | rfl | rfl
    · exact (List.sublist_append_left _ _).cons _
    · exact ((List.sublist_append_left _ _).trans (List.sublist_append_right _ _)).cons _
    · exact ((List.sublist_append_right _ _).trans (List.sublist_append_right _ _)).cons _
  | member =>
    rcases List.mem_cons.1 member with rfl | inItems
    · exact (List.sublist_append_left _ _).cons _
    · exact ((ids_sublist_idsOfList inItems).trans (List.sublist_append_right _ _)).cons _
  | array | call => exact (ids_sublist_idsOfList member).cons _
  | bindings =>
    rcases List.mem_cons.1 member with rfl | inValues
    · exact (List.sublist_append_right _ _).cons _
    · obtain ⟨value, listed, rfl⟩ := List.mem_map.1 inValues
      exact ((ids_sublist_idsOfBindings listed).trans (List.sublist_append_left _ _)).cons _

/-- A child of a tree is a tree. -/
theorem IsTree.child {expr child : Expr} (tree : expr.IsTree) (member : child ∈ expr.children) :
    child.IsTree :=
  (ids_sublist_of_child member).nodup tree

/-- The parts of a child are parts of the expression. -/
theorem parts_subset_of_child {child expr : Expr} (member : child ∈ expr.children) :
    child.parts ⊆ expr.parts := by
  cases expr with
  | literal | ident => cases member
  | unary | cast =>
    cases List.mem_singleton.1 member
    exact List.subset_cons_self _ _
  | arithmetic | comparison | logical | xor | shift | index =>
    simp only [children, List.mem_cons, List.not_mem_nil, or_false] at member
    rcases member with rfl | rfl
    · exact List.subset_cons_of_subset _ (List.subset_append_left _ _)
    · exact List.subset_cons_of_subset _ (List.subset_append_right _ _)
  | conditional =>
    simp only [children, List.mem_cons, List.not_mem_nil, or_false] at member
    rcases member with rfl | rfl | rfl
    · exact List.subset_cons_of_subset _ (List.subset_append_left _ _)
    · exact List.subset_cons_of_subset _
        (List.Subset.trans (List.subset_append_left _ _) (List.subset_append_right _ _))
    · exact List.subset_cons_of_subset _
        (List.Subset.trans (List.subset_append_right _ _) (List.subset_append_right _ _))
  | member =>
    rcases List.mem_cons.1 member with rfl | inItems
    · exact List.subset_cons_of_subset _ (List.subset_append_left _ _)
    · exact List.subset_cons_of_subset _
        (List.Subset.trans (parts_subset_partsOfList inItems) (List.subset_append_right _ _))
  | array | call => exact List.subset_cons_of_subset _ (parts_subset_partsOfList member)
  | bindings =>
    rcases List.mem_cons.1 member with rfl | inValues
    · exact List.subset_cons_of_subset _ (List.subset_append_right _ _)
    · obtain ⟨value, listed, rfl⟩ := List.mem_map.1 inValues
      exact List.subset_cons_of_subset _
        (List.Subset.trans (parts_subset_partsOfBindings listed) (List.subset_append_left _ _))

/-- What holds of an expression and of all parts of its children holds of all its parts. -/
theorem forall_parts {motive : Expr → Prop} {expr : Expr} (root : motive expr)
    (below : ∀ child ∈ expr.children, ∀ part ∈ child.parts, motive part) :
    ∀ part ∈ expr.parts, motive part := by
  have inList (exprs : List Expr) (each : ∀ child ∈ exprs, ∀ part ∈ child.parts, motive part) :
      ∀ part ∈ partsOfList exprs, motive part := by
    induction exprs with
    | nil => exact fun _ listed => absurd listed List.not_mem_nil
    | cons head exprs ih =>
      rw [List.forall_mem_cons] at each
      exact List.forall_mem_append.2 ⟨each.1, ih each.2⟩
  cases expr with
  | literal | ident => exact List.forall_mem_singleton.2 root
  | unary | cast => exact List.forall_mem_cons.2 ⟨root, below _ (.head _)⟩
  | arithmetic | comparison | logical | xor | shift | index =>
    exact List.forall_mem_cons.2 ⟨root,
      List.forall_mem_append.2 ⟨below _ (.head _), below _ (.tail _ (.head _))⟩⟩
  | conditional =>
    exact List.forall_mem_cons.2 ⟨root, List.forall_mem_append.2 ⟨below _ (.head _),
      List.forall_mem_append.2
      ⟨below _ (.tail _ (.head _)), below _ (.tail _ (.tail _ (.head _)))⟩⟩⟩
  | member =>
    have ⟨operand, items⟩ := List.forall_mem_cons.1 below
    exact List.forall_mem_cons.2 ⟨root, List.forall_mem_append.2 ⟨operand, inList _ items⟩⟩
  | array | call => exact List.forall_mem_cons.2 ⟨root, inList _ below⟩
  | bindings _ _ values =>
    have ⟨body, bound⟩ := List.forall_mem_cons.1 below
    have listed : ∀ part ∈ partsOfBindings values, motive part := by
      clear root below
      induction values with
      | nil => exact fun _ listed => absurd listed List.not_mem_nil
      | cons head values ih =>
        rw [List.map_cons, List.forall_mem_cons] at bound
        exact List.forall_mem_append.2 ⟨bound.1, ih bound.2⟩
    exact List.forall_mem_cons.2 ⟨root, List.forall_mem_append.2 ⟨listed, body⟩⟩

/-- A child is smaller than the expression. -/
theorem sizeOf_lt_of_child {child expr : Expr} (member : child ∈ expr.children) :
    sizeOf child < sizeOf expr := by
  cases expr with
  | literal | ident => cases member
  | unary | cast | arithmetic | comparison | logical | xor | shift | index | conditional =>
    simp only [children, List.mem_cons, List.not_mem_nil, or_false] at member
    rcases member with rfl | rfl | rfl <;> simp <;> omega
  | member _ operand items =>
    rcases List.mem_cons.1 member with rfl | inItems
    · simp
      omega
    · have := List.sizeOf_lt_of_mem inItems
      simp
      omega
  | array _ exprs | call _ _ exprs =>
    have := List.sizeOf_lt_of_mem (show child ∈ exprs from member)
    simp
    omega
  | bindings _ body values =>
    rcases List.mem_cons.1 member with rfl | inValues
    · simp
      omega
    · obtain ⟨⟨name, value⟩, listed, rfl⟩ := List.mem_map.1 inValues
      have := List.sizeOf_lt_of_mem listed
      simp at this ⊢
      omega

/-- The parts of a part are parts of the expression. -/
theorem parts_subset_of_mem {part expr : Expr} (member : part ∈ expr.parts) :
    part.parts ⊆ expr.parts := by
  -- by induction on the size, as children may be in lists
  induction size : sizeOf expr using Nat.strong_induction_on generalizing part expr with
  | _ bound ih =>
    have below : ∀ child ∈ expr.children, ∀ other ∈ child.parts, other.parts ⊆ expr.parts := by
      intro child isChild other inChild
      have smaller : sizeOf child < bound := size ▸ sizeOf_lt_of_child isChild
      exact List.Subset.trans (ih _ smaller inChild rfl) (parts_subset_of_child isChild)
    exact forall_parts (motive := fun other => other.parts ⊆ expr.parts) (List.Subset.refl _) below
      part member

/-- A child of a part is a part. -/
theorem child_inside {root expr child : Expr} (inside : expr ∈ root.parts)
    (isChild : child ∈ expr.children) : child ∈ root.parts :=
  parts_subset_of_mem inside (parts_subset_of_child isChild child.mem_parts)

end Expr

end ExprCode
