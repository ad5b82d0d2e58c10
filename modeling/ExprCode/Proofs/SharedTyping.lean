import ExprCode.Proofs.TypingTables

/-! # Typing shared nodes

Main statement: `Typing.typed_of_shared`. In an expression whose nodes may occur at several places,
a node is typed where it occurs first and looked up everywhere else. If no names are bound, it has
the same type at all its places, so that what the tables know in the end is what the judgement asks
for at every place.

Tables only grow (`Typing.Grows`). What they know of a node gives the judgement in all tables that
grow from them (`Typing.Valid`), which is preserved because a node is none of its own parts, and is
an item of one membership test only. -/

namespace ExprCode

/-- A node may occur at several places, as the same expression everywhere. None is an item of two
membership tests, and no names are bound. -/
structure Expr.Shares (root : Expr) : Prop where
  /-- An identity belongs to one expression. -/
  same : ∀ first ∈ root.parts, ∀ second ∈ root.parts, first.id = second.id → first = second
  /-- No names are bound. -/
  unbound : ∀ node body values, Expr.bindings node body values ∉ root.parts
  /-- An item belongs to one membership test. -/
  oneTest : ∀ node operand items, Expr.member node operand items ∈ root.parts →
    ∀ otherNode otherOperand otherItems, Expr.member otherNode otherOperand otherItems ∈
      root.parts →
    ∀ item ∈ items, ∀ other ∈ otherItems, item.id = other.id → node.id = otherNode.id

namespace Typing

/-! ## Growing tables -/

/-- What the first tables know, the second know as well. -/
structure Grows (before after : Typing) : Prop where
  /-- Types stay. -/
  types : ∀ {id : NodeId} {type : Ty}, before.types[id]? = some type → after.types[id]? = some type
  /-- Operators of nodes whose type is known are carried out as before. -/
  resolutions : ∀ {id : NodeId} {type : Ty} {resolution : Resolution},
    before.types[id]? = some type →
    before.resolutions[id]? = some resolution → after.resolutions[id]? = some resolution
  /-- Membership tests stay. -/
  memberships : ∀ {id : NodeId} {test : Resolution}, before.memberships[id]? = some test →
    after.memberships[id]? = some test

namespace Grows

variable {first second third : Typing}

/-- A table grows out of itself. -/
theorem refl (typing : Typing) : Grows typing typing := ⟨id, fun _ => id, id⟩

/-- What grows out of a grown table has grown. -/
theorem trans (h : Grows first second) (h' : Grows second third) : Grows first third where
  types known := h'.types (h.types known)
  resolutions known resolved := h'.resolutions (h.types known) (h.resolutions known resolved)
  memberships tested := h'.memberships (h.memberships tested)

end Grows

variable (env : Environment) (root : Expr)

/-- What the tables know of the parts of an expression is right, and stays so when they grow. -/
structure Valid (typing : Typing) : Prop where
  /-- A part whose type is known has it. -/
  typed : ∀ part ∈ root.parts, ∀ type, typing.types[part.id]? = some type →
    ∀ final, Grows typing final → Typed env final [] part type
  /-- An item that has a test is compared as the known types of operand and item ask for. -/
  tested : ∀ node operand items, Expr.member node operand items ∈ root.parts → ∀ item ∈ items,
    ∀ test, typing.memberships[item.id]? = some test → ∃ operandType itemType,
      typing.types[operand.id]? = some operandType ∧ typing.types[item.id]? = some itemType ∧
        ItemRule env operandType itemType test

/-- From valid tables to valid ones: the second know what the first know, they know nothing new of
parts that are not below a size, and all tables that grow from them have the property. -/
structure Learned (bound : Nat) (property : Typing → Prop) (before after : Typing) : Prop where
  /-- What is known is right. -/
  valid : Valid env root after
  /-- What was known is still known. -/
  grows : Grows before after
  /-- Of large parts nothing has been found out. -/
  unseen : ∀ part ∈ root.parts, bound ≤ sizeOf part → before.types[part.id]? = none →
    after.types[part.id]? = none
  /-- What is known gives the property. -/
  holds : ∀ final, Grows after final → property final

namespace Learned

variable {env root} {bound : Nat} {property otherProperty : Typing → Prop}
  {before middle after : Typing}

/-- Nothing is done. -/
theorem refl (valid : Valid env root before) :
    Learned env root bound (fun _ => True) before before :=
  ⟨valid, .refl _, fun _ _ _ unknown => unknown, fun _ _ => trivial⟩

/-- What follows from the property holds as well. -/
theorem mono (learned : Learned env root bound property before after)
    (weaker : ∀ final, property final → otherProperty final) :
    Learned env root bound otherProperty before after :=
  { learned with holds := fun final grows => weaker final (learned.holds final grows) }

/-- Fewer parts are said to be unseen. -/
theorem widen {larger : Nat} (learned : Learned env root bound property before after)
    (le : bound ≤ larger) : Learned env root larger property before after :=
  { learned with unseen := fun part inRoot large => learned.unseen part inRoot (le.trans large) }

/-- Two stretches of typing, one after the other. -/
theorem both (first : Learned env root bound property before middle)
    (second : Learned env root bound otherProperty middle after) :
    Learned env root bound (fun final => property final ∧ otherProperty final) before after where
  valid := second.valid
  grows := first.grows.trans second.grows
  unseen part inRoot large unknown :=
    second.unseen part inRoot large (first.unseen part inRoot large unknown)
  holds final grows := ⟨first.holds final (second.grows.trans grows), second.holds final grows⟩

end Learned

section Stretches

variable {env root} {property : Typing → Prop} {before middle after : Typing} {expr : Expr}
  {type : Ty} (shares : root.Shares)
include shares

/-- The type of an expression is noted behind its children. It was not known there, since the
expression is none of its own parts. -/
theorem Learned.note (noted : Typing) (inRoot : expr ∈ root.parts)
    (unknown : before.types[expr.id]? = none)
    (children : Learned env root (sizeOf expr) property before middle)
    (sameTypes : noted.types = middle.types) (sameTests : noted.memberships = middle.memberships)
    (otherResolutions : ∀ id, id ≠ expr.id → noted.resolutions[id]? = middle.resolutions[id]?)
    (rule : ∀ final, property final →
      (∀ resolution, noted.resolutions[expr.id]? = some resolution →
        final.resolutions[expr.id]? = some resolution) →
      final.types[expr.id]? = some type → Typed env final [] expr type) :
    Learned env root (sizeOf expr + 1) (fun final => Typed env final [] expr type) before
      { noted with types := noted.types.insert expr.id type } := by
  have stillUnknown : middle.types[expr.id]? = none := children.unseen expr inRoot le_rfl unknown
  have known : (noted.types.insert expr.id type)[expr.id]? = some type :=
    Std.TreeMap.getElem?_insert_self
  have others {id : NodeId} (differ : id ≠ expr.id) :
      (noted.types.insert expr.id type)[id]? = middle.types[id]? := by
    rw [Std.TreeMap.getElem?_insert, if_neg (by simpa using differ.symm), sameTypes]
  -- whatever was known is not about this node, so noting it changes none of that
  have isOther {id : NodeId} {found : Ty} (known : middle.types[id]? = some found) : id ≠
      expr.id := by
    rintro rfl
    rw [stillUnknown] at known
    cases known
  have grows : Grows middle { noted with types := noted.types.insert expr.id type } :=
    ⟨fun known => (others (isOther known)).trans known,
      fun known resolved => (otherResolutions _ (isOther known)).trans resolved,
      fun tested => by rwa [sameTests]⟩
  have holds (final : Typing)
      (grown : Grows { noted with types := noted.types.insert expr.id type } final) :
      Typed env final [] expr type :=
    rule final (children.holds final (grows.trans grown)) (fun _ => grown.resolutions known)
      (grown.types known)
  refine ⟨⟨fun part partInRoot partType partKnown final grown => ?_, ?_⟩,
    children.grows.trans grows, fun part partInRoot large partUnknown => ?_, holds⟩
  · by_cases same : part.id = expr.id
    · obtain rfl := shares.same part partInRoot expr inRoot same
      cases known.symm.trans partKnown
      exact holds final grown
    · exact children.valid.typed part partInRoot partType ((others same).symm.trans partKnown) final
        (grows.trans grown)
  · intro node operand items isTest item listed test tested
    obtain ⟨operandType, itemType, operandKnown, itemKnown, itemRule⟩ :=
      children.valid.tested node operand items isTest item listed test (sameTests ▸ tested)
    exact ⟨operandType, itemType, grows.types operandKnown, grows.types itemKnown, itemRule⟩
  · have differ : part.id ≠ expr.id := by
      intro same
      obtain rfl := shares.same part partInRoot expr inRoot same
      omega
    rw [others differ]
    exact children.unseen part partInRoot (by omega) partUnknown

/-- A node without a resolution. -/
theorem Learned.know (inRoot : expr ∈ root.parts) (unknown : before.types[expr.id]? = none)
    (children : Learned env root (sizeOf expr) property before middle)
    (rule : ∀ final, property final → final.types[expr.id]? = some type →
      Typed env final [] expr type) :
    Learned env root (sizeOf expr + 1) (fun final => Typed env final [] expr type) before
      { middle with types := middle.types.insert expr.id type } :=
  children.note shares middle inRoot unknown rfl rfl (fun _ _ => rfl) fun final holds _ =>
    rule final holds

/-- A node with a resolution. -/
theorem Learned.resolve {resolution : Resolution} (inRoot : expr ∈ root.parts)
    (unknown : before.types[expr.id]? = none)
    (children : Learned env root (sizeOf expr) property before middle)
    (rule : ∀ final, property final → final.resolutions[expr.id]? = some resolution →
      final.types[expr.id]? = some type → Typed env final [] expr type) :
    Learned env root (sizeOf expr + 1) (fun final => Typed env final [] expr type) before
      { middle with
        resolutions := middle.resolutions.insert expr.id resolution
        types := middle.types.insert expr.id type } := by
  have others (id : NodeId) (differ : id ≠ expr.id) :
      (middle.resolutions.insert expr.id resolution)[id]? = middle.resolutions[id]? := by
    rw [Std.TreeMap.getElem?_insert, if_neg (by simpa using differ.symm)]
  refine children.note shares
    { middle with resolutions := middle.resolutions.insert expr.id resolution }
    inRoot unknown rfl rfl others fun final holds resolved => ?_
  exact rule final holds (resolved resolution Std.TreeMap.getElem?_insert_self)

/-- The test of an item is noted. If there is one it is the same, since the types of operand and
item are. -/
theorem Learned.test {bound : Nat} {node : Node} {operand item : Expr} {items : List Expr}
    {operandType itemType : Ty} {test : Resolution}
    (isTest : Expr.member node operand items ∈ root.parts)
    (listed : item ∈ items) (learned : Learned env root bound property before middle)
    (operandKnown : middle.types[operand.id]? = some operandType)
    (itemKnown : middle.types[item.id]? = some itemType)
    (rule : ItemRule env operandType itemType test) :
    Learned env root bound
      (fun final => property final ∧ final.memberships[item.id]? = some test) before
      { middle with memberships := middle.memberships.insert item.id test } := by
  have noted : (middle.memberships.insert item.id test)[item.id]? = some test :=
    Std.TreeMap.getElem?_insert_self
  have others {id : NodeId} (differ : id ≠ item.id) :
      (middle.memberships.insert item.id test)[id]? = middle.memberships[id]? := by
    rw [Std.TreeMap.getElem?_insert, if_neg (by simpa using differ.symm)]
  have grows : Grows middle
      { middle with memberships := middle.memberships.insert item.id test } := by
    refine ⟨id, fun _ => id, fun {id old} tested => ?_⟩
    by_cases same : id = item.id
    · subst same
      -- a test that is there was found for the same two types
      obtain ⟨_, _, oldOperand, oldItem, oldRule⟩ :=
        learned.valid.tested node operand items isTest item listed old tested
      cases operandKnown.symm.trans oldOperand
      cases itemKnown.symm.trans oldItem
      exact oldRule.unique rule ▸ noted
    · exact (others same).trans tested
  refine ⟨⟨fun part inRoot type known final grown => ?_, ?_⟩, learned.grows.trans grows,
    learned.unseen, fun final grown =>
    ⟨learned.holds final (grows.trans grown), grown.memberships noted⟩⟩
  · exact learned.valid.typed part inRoot type known final (grows.trans grown)
  · intro otherNode otherOperand otherItems isOther other otherListed otherTest otherTested
    by_cases same : other.id = item.id
    · -- the item belongs to this test only
      have sameNode :=
        shares.oneTest otherNode otherOperand otherItems isOther node operand items isTest
        other otherListed item listed same
      cases shares.same _ isOther _ isTest sameNode
      rw [same] at otherTested ⊢
      cases noted.symm.trans otherTested
      exact ⟨operandType, itemType, operandKnown, itemKnown, rule⟩
    · exact learned.valid.tested otherNode otherOperand otherItems isOther other otherListed
        otherTest
        ((others same).symm.trans otherTested)

end Stretches

/-! ## Typing a shared expression -/

/-- Typing a part of an expression from valid tables gives what the judgement asks for. -/
def Learns (expr : Expr) : Prop :=
  expr ∈ root.parts → ∀ before type after, Valid env root before →
    typeOf env expr [] before = .ok type after →
      Learned env root (sizeOf expr + 1) (fun final => Typed env final [] expr type) before
        after

section Run

variable {env root} {before middle after : Typing} {expr : Expr} {type : Ty}

/-- A node of known type is not typed again. -/
theorem remember_of_known {node : Node} {infer : Infer Ty}
    (known : before.types[node.id]? = some type) :
    remember node infer before = .ok type before := by
  have read : (get : Infer Typing) before = .ok before before := rfl
  unfold remember
  rw [bind_of_ok read, known]
  rfl

/-- A node is looked up, or typed now. -/
theorem Learns.of_remember (shape : ∃ infer, typeOf env expr [] = remember expr.node infer ∧
      ∀ before middle type, expr ∈ root.parts → Valid env root before →
        before.types[expr.id]? = none → infer before = .ok type middle →
          Learned env root (sizeOf expr + 1) (fun final => Typed env final [] expr type)
            before { middle with types := middle.types.insert expr.id type }) :
    Learns env root expr := by
  obtain ⟨infer, isRemember, learned⟩ := shape
  intro inRoot before type after valid h
  rw [isRemember] at h
  cases known : before.types[expr.id]? with
  | some found =>
    cases (remember_of_known known).symm.trans h
    exact { Learned.refl valid with holds := valid.typed expr inRoot type known }
  | none =>
    obtain ⟨middle, run, rfl⟩ := remember_eq_ok known h
    exact learned before middle type inRoot valid known run

/-- A child is typed for its parent. -/
theorem Learns.child {child : Expr} (learns : Learns env root child) (inRoot : expr ∈ root.parts)
    (isChild : child ∈ expr.children) (valid : Valid env root before)
    (run : typeOf env child [] before = .ok type after) :
    Learned env root (sizeOf expr) (fun final => Typed env final [] child type) before
      after :=
  (learns (Expr.child_inside inRoot isChild) before type after valid run).widen
    (Expr.sizeOf_lt_of_child isChild)

/-- Two operands are typed for their parent, left to right. -/
theorem Learns.pair {left right : Expr} {leftType rightType : Ty}
    (leftLearns : Learns env root left)
    (rightLearns : Learns env root right) (inRoot : expr ∈ root.parts)
    (operands : expr.children = [left, right]) (valid : Valid env root before)
    (leftRun : typeOf env left [] before = .ok leftType middle)
    (rightRun : typeOf env right [] middle = .ok rightType after) :
    Learned env root (sizeOf expr)
      (fun final => Typed env final [] left leftType ∧ Typed env final [] right rightType)
      before after :=
  have first := leftLearns.child inRoot (by simp [operands]) valid leftRun
  first.both (rightLearns.child inRoot (by simp [operands]) first.valid rightRun)

/-- Elements are typed for their array, one after the other. -/
theorem learned_typeElements {element result : Ty} {elements : List Expr}
    (inRoot : expr ∈ root.parts)
    (areChildren : ∀ other ∈ elements, other ∈ expr.children)
    (learns : ∀ other ∈ elements, Learns env root other) (valid : Valid env root before)
    (h : typeElements env element elements [] before = .ok result after) :
    Learned env root (sizeOf expr)
      (fun final => TypedElements env final [] element elements result) before after := by
  induction elements generalizing before element with
  | nil =>
    rw [typeElements] at h
    cases h
    exact (Learned.refl valid).mono fun _ _ => .nil
  | cons other elements ih =>
    rw [List.forall_mem_cons] at areChildren learns
    rw [typeElements] at h
    obtain ⟨type, typed, typeRun, rest⟩ := bind_eq_ok h
    obtain ⟨common?, _, unifyRun, elementsRun⟩ := bind_eq_ok rest
    obtain ⟨unified, rfl⟩ := ofExcept_eq_ok unifyRun
    cases common? with
    | none => cases elementsRun
    | some common =>
      have first := learns.1.child inRoot areChildren.1 valid typeRun
      exact (first.both (ih areChildren.2 learns.2 first.valid elementsRun)).mono
        fun _ both => .cons both.1 unified both.2

/-- Arguments are typed for their call, one after the other. -/
theorem learned_typeArguments {params : List Ty} {arguments : List Expr}
    (inRoot : expr ∈ root.parts)
    (areChildren : ∀ argument ∈ arguments, argument ∈ expr.children)
    (learns : ∀ argument ∈ arguments, Learns env root argument)
    (sameLength : params.length = arguments.length) (valid : Valid env root before)
    (h : typeArguments env params arguments [] before = .ok () after) :
    Learned env root (sizeOf expr)
      (fun final => TypedArguments env final [] params arguments) before after := by
  induction arguments generalizing before params with
  | nil =>
    obtain rfl := List.length_eq_zero_iff.1 sameLength
    rw [typeArguments] at h
    · cases h
      exact (Learned.refl valid).mono fun _ _ => .nil
    · intros
      contradiction
  | cons argument arguments ih =>
    rw [List.forall_mem_cons] at areChildren learns
    cases params with
    | nil => cases sameLength
    | cons param params =>
      rw [typeArguments] at h
      obtain ⟨type, typed, typeRun, rest⟩ := bind_eq_ok h
      obtain ⟨_, _, convertRun, argumentsRun⟩ := bind_eq_ok rest
      obtain ⟨converts, rfl⟩ := typeArgument_eq_ok convertRun
      have first := learns.1.child inRoot areChildren.1 valid typeRun
      have others := ih areChildren.2 learns.2 (Nat.succ.inj sameLength) first.valid
        argumentsRun
      exact (first.both others).mono fun _ both => .cons both.1 converts both.2

variable (shares : root.Shares)
include shares

/-- Items are typed for their membership test, one after the other. -/
theorem learned_typeItems {node : Node} {operand : Expr} {items rest : List Expr} {operandType : Ty}
    (isTest : Expr.member node operand items ∈ root.parts) (subset : rest ⊆ items)
    (learns : ∀ item ∈ rest, Learns env root item) (valid : Valid env root before)
    (operandKnown : before.types[operand.id]? = some operandType)
    (h : typeItems env operandType rest [] before = .ok () after) :
    Learned env root (sizeOf (Expr.member node operand items))
      (fun final => TypedItems env final [] operandType rest) before after := by
  induction rest generalizing before with
  | nil =>
    rw [typeItems] at h
    cases h
    exact (Learned.refl valid).mono fun _ _ => .nil
  | cons item rest ih =>
    rw [List.cons_subset] at subset
    rw [List.forall_mem_cons] at learns
    rw [typeItems] at h
    obtain ⟨type, typed, typeRun, h⟩ := bind_eq_ok h
    obtain ⟨_, _, testRun, itemsRun⟩ := bind_eq_ok h
    obtain ⟨test, rule, rfl⟩ := typeItem_eq_ok testRun
    have itemTyped := learns.1.child isTest (.tail _ subset.1) valid typeRun
    -- the type of the operand is known since before the items, so every test can be traced to it
    have tested := itemTyped.test shares isTest subset.1 (itemTyped.grows.types operandKnown)
      (itemTyped.holds typed (.refl typed)).known rule
    have others := ih subset.2 learns.2 tested.valid (tested.grows.types operandKnown) itemsRun
    exact (tested.both others).mono fun _ both => .cons both.1.1 rule both.1.2 both.2

/-- An operator on two operands that is typed by the rule for such operators. -/
theorem Learns.binary {left right : Expr} {symbol operator : String}
    {operand? : Ty → Ty → Option Ty}
    {result : Ty → Ty} (leftLearns : Learns env root left) (rightLearns : Learns env root right)
    (operands : expr.children = [left, right])
    (shape : typeOf env expr [] = remember expr.node do
      let leftType ← typeOf env left []
      let rightType ← typeOf env right []
      typeBinary env expr.node symbol operator leftType rightType (operand? leftType rightType)
        result)
    (typed : ∀ {final leftType rightType type resolution}, Typed env final [] left leftType →
      Typed env final [] right rightType →
      BinaryRule env operator leftType rightType (operand? leftType rightType) result resolution
        type →
      final.resolutions[expr.id]? = some resolution → final.types[expr.id]? = some type →
        Typed env final [] expr type) :
    Learns env root expr := by
  refine .of_remember ⟨_, shape, fun before middle type inRoot valid unknown run => ?_⟩
  obtain ⟨leftType, _, leftRun, rest⟩ := bind_eq_ok run
  obtain ⟨rightType, _, rightRun, ruleRun⟩ := bind_eq_ok rest
  obtain ⟨resolution, rule, rfl⟩ := typeBinary_eq_ok ruleRun
  have both := leftLearns.pair rightLearns inRoot operands valid leftRun rightRun
  exact both.resolve shares inRoot unknown fun _ known => typed known.1 known.2 rule

/-- Typing a part of an expression with shared nodes gives what the judgement asks for. -/
theorem learns (expr : Expr) : Learns env root expr := by
  induction expr using Expr.inductionOn with
  | literal node value =>
    refine .of_remember
      ⟨_, by rw [typeOf]; rfl, fun before middle type inRoot valid unknown run => ?_⟩
    cases run
    exact (Learned.refl valid).know shares inRoot unknown fun _ _ => .literal
  | ident node name =>
    refine .of_remember
      ⟨_, by rw [typeOf]; rfl, fun before middle type inRoot valid unknown run => ?_⟩
    obtain ⟨found, rfl⟩ := typeName_eq_ok run
    exact (Learned.refl valid).know shares inRoot unknown fun _ _ => .ident found
  | unary node op operand operandLearns =>
    refine .of_remember
      ⟨_, by rw [typeOf]; rfl, fun before middle type inRoot valid unknown run => ?_⟩
    obtain ⟨operandType, _, operandRun, ruleRun⟩ := bind_eq_ok run
    obtain ⟨resolution, rule, rfl⟩ := typeUnary_eq_ok ruleRun
    have child := operandLearns.child inRoot (.head _) valid operandRun
    exact child.resolve shares inRoot unknown fun _ typed => .unary typed rule
  | arithmetic node op left right leftLearns rightLearns =>
    exact leftLearns.binary shares rightLearns rfl (by rw [typeOf]; rfl) fun leftTyped rightTyped =>
      .arithmetic leftTyped rightTyped
  | comparison node relation left right leftLearns rightLearns =>
    exact leftLearns.binary shares rightLearns rfl (by rw [typeOf]; rfl) fun leftTyped rightTyped =>
      .comparison leftTyped rightTyped
  | logical node connective left right leftLearns rightLearns =>
    refine .of_remember
      ⟨_, by rw [typeOf]; rfl, fun before middle type inRoot valid unknown run => ?_⟩
    obtain ⟨leftType, _, leftRun, rest⟩ := bind_eq_ok run
    obtain ⟨rightType, _, rightRun, ruleRun⟩ := bind_eq_ok rest
    have operands := leftLearns.pair rightLearns inRoot rfl valid leftRun rightRun
    by_cases both : leftType = .bool ∧ rightType = .bool
    · rw [if_pos both] at ruleRun
      cases ruleRun
      obtain ⟨rfl, rfl⟩ := both
      exact operands.know shares inRoot unknown fun _ typed => .chain typed.1 typed.2
    · rw [if_neg both] at ruleRun
      obtain ⟨resolution, rule, rfl⟩ := typeBinary_eq_ok ruleRun
      exact operands.resolve shares inRoot unknown fun _ typed => .bitwise typed.1 typed.2 both rule
  | xor node left right leftLearns rightLearns =>
    exact leftLearns.binary shares rightLearns rfl (by rw [typeOf]; rfl) fun leftTyped rightTyped =>
      .xor leftTyped rightTyped
  | shift node direction left right leftLearns rightLearns =>
    refine .of_remember
      ⟨_, by rw [typeOf]; rfl, fun before middle type inRoot valid unknown run => ?_⟩
    obtain ⟨leftType, _, leftRun, rest⟩ := bind_eq_ok run
    obtain ⟨rightType, _, rightRun, ruleRun⟩ := bind_eq_ok rest
    obtain ⟨count, resolution, rule, rfl⟩ := typeShift_eq_ok ruleRun
    have operands := leftLearns.pair rightLearns inRoot rfl valid leftRun rightRun
    exact operands.resolve shares inRoot unknown fun _ typed => .shift typed.1 typed.2 count rule
  | conditional node condition thenBranch elseBranch conditionLearns thenLearns elseLearns =>
    refine .of_remember
      ⟨_, by rw [typeOf]; rfl, fun before middle type inRoot valid unknown run => ?_⟩
    obtain ⟨conditionType, _, conditionRun, rest⟩ := bind_eq_ok run
    by_cases boolean : conditionType = .bool
    · subst boolean
      rw [if_pos rfl] at rest
      obtain ⟨thenType, _, thenRun, elseRest⟩ := bind_eq_ok rest
      obtain ⟨elseType, _, elseRun, unifyRest⟩ := bind_eq_ok elseRest
      obtain ⟨common?, _, unifyRun, result⟩ := bind_eq_ok unifyRest
      obtain ⟨unified, rfl⟩ := ofExcept_eq_ok unifyRun
      cases common? with
      | none => cases result
      | some common =>
        cases result
        have first := conditionLearns.child inRoot (.head _) valid conditionRun
        have second := thenLearns.child inRoot (.tail _ (.head _)) first.valid thenRun
        have third := elseLearns.child inRoot (.tail _ (.tail _ (.head _))) second.valid elseRun
        exact (first.both (second.both third)).know shares inRoot unknown fun _ typed =>
          .conditional typed.1 typed.2.1 typed.2.2 unified
    · rw [if_neg boolean] at rest
      cases rest
  | member node operand items operandLearns itemsLearn =>
    refine .of_remember
      ⟨_, by rw [typeOf]; rfl, fun before middle type inRoot valid unknown run => ?_⟩
    obtain ⟨operandType, operandTyped, operandRun, rest⟩ := bind_eq_ok run
    obtain ⟨_, _, itemsRun, result⟩ := bind_eq_ok rest
    cases result
    have first := operandLearns.child inRoot (.head _) valid operandRun
    have tests := learned_typeItems shares inRoot (List.Subset.refl _) itemsLearn first.valid
      (first.holds operandTyped (.refl _)).known itemsRun
    exact (first.both tests).know shares inRoot unknown fun _ typed => .member typed.1 typed.2
  | index node array position arrayLearns positionLearns =>
    refine .of_remember
      ⟨_, by rw [typeOf]; rfl, fun before middle type inRoot valid unknown run => ?_⟩
    obtain ⟨arrayType, _, arrayRun, rest⟩ := bind_eq_ok run
    cases arrayType with
    | array element =>
      obtain ⟨positionType, _, positionRun, result⟩ := bind_eq_ok rest
      have operands := arrayLearns.pair positionLearns inRoot rfl valid arrayRun positionRun
      by_cases count : isCount positionType
      · rw [if_pos count] at result
        cases result
        exact operands.know shares inRoot unknown fun _ typed => .index typed.1 typed.2 count
      · rw [if_neg count] at result
        cases result
    | _ => cases rest
  | array node elements elementsLearn =>
    -- no single equation of `typeOf` covers literals with and without elements
    refine .of_remember ⟨_, by rw [typeOf.eq_def]; rfl,
      fun before middle type inRoot valid unknown run => ?_⟩
    cases elements with
    | nil => cases run
    | cons first rest =>
      obtain ⟨firstType, _, firstRun, restRun⟩ := bind_eq_ok run
      obtain ⟨element, _, elementsRun, result⟩ := bind_eq_ok restRun
      cases result
      rw [List.forall_mem_cons] at elementsLearn
      have head := elementsLearn.1.child inRoot (.head _) valid firstRun
      have others :=
        learned_typeElements inRoot (fun _ listed => .tail _ listed) elementsLearn.2 head.valid
        elementsRun
      exact (head.both others).know shares inRoot unknown fun _ typed => .array typed.1 typed.2
  | call node name arguments argumentsLearn =>
    refine .of_remember
      ⟨_, by rw [typeOf]; rfl, fun before middle type inRoot valid unknown run => ?_⟩
    cases found : env.findFunction? name with
    | none =>
      rw [found] at run
      cases run
    | some signature =>
      rw [found] at run
      by_cases sameLength : signature.params.length = arguments.length
      · simp only [if_pos sameLength] at run
        obtain ⟨_, _, argumentsRun, result⟩ := bind_eq_ok run
        cases result
        have typed :=
          learned_typeArguments inRoot (fun _ listed => listed) argumentsLearn sameLength valid
          argumentsRun
        exact typed.know shares inRoot unknown fun _ typed => .call found sameLength typed
      · simp only [if_neg sameLength] at run
        cases run
  | cast node operand target operandLearns =>
    refine .of_remember
      ⟨_, by rw [typeOf]; rfl, fun before middle type inRoot valid unknown run => ?_⟩
    obtain ⟨source, _, operandRun, rest⟩ := bind_eq_ok run
    obtain ⟨possible, _, castRun, result⟩ := bind_eq_ok rest
    obtain ⟨found, rfl⟩ := ofExcept_eq_ok castRun
    cases possible with
    | false => cases result
    | true =>
      cases result
      have child := operandLearns.child inRoot (.head _) valid operandRun
      exact child.know shares inRoot unknown fun _ typed => .cast typed found
  | bindings node body values => exact fun inRoot => absurd inRoot (shares.unbound node body values)

/-- **Shared nodes are typed at all their places.** What is known when an expression has been typed
is what the judgement asks for. -/
theorem typed_of_shared {typing : Typing} (h : (typeOf env root []).run {} = .ok type typing) :
    Typed env typing [] root type := by
  have valid : Valid env root {} :=
    ⟨fun _ _ _ known => by simp at known, fun _ _ _ _ _ _ _ tested => by simp at tested⟩
  exact (learns shares root root.mem_parts {} type typing valid h).holds typing (.refl typing)

end Run

end Typing

end ExprCode
