import ExprCode.Proofs.CodeShape
import ExprCode.Proofs.ExprTree

/-! # The code of parts

Every part of an expression has instructions of its own in the code of the expression. Nested
connectives of truth values are the exception in form: they are links of one chain, which may be
left early. -/

namespace ExprCode

variable (code : Code) (env : Environment) (typing : Typing)

/-- The instructions of a part of an expression. -/
inductive PartAt : Expr → Prop
  /-- The part leaves its value on the stack. -/
  | whole {scope : SlotScope} {part : Expr} {start stop : Cursor}
      (partCode : CodeAt code env typing scope part start stop) : PartAt part
  /-- The part is a connective inside a chain. -/
  | link {scope : SlotScope} {part : Expr} {exit : Bool → Option Nat} {start stop : Cursor}
      (joined : isJoined typing part)
      (linkCode : ChainAt code env typing scope part exit start stop)
      (ahead : ExitsAhead exit stop) : PartAt part

variable {code env typing}

open ExprCode.Expr (forall_parts parts_subset_of_child)

/-- Parts of two expressions. -/
private theorem forall_pair {motive : Expr → Prop} {first second : Expr}
    (ofFirst : ∀ part ∈ first.parts, motive part) (ofSecond : ∀ part ∈ second.parts, motive part) :
    ∀ child ∈ [first, second], ∀ part ∈ child.parts, motive part :=
  List.forall_mem_cons.2 ⟨ofFirst, List.forall_mem_singleton.2 ofSecond⟩

mutual

/-- Every part of an expression with code has code. -/
theorem CodeAt.part {scope : SlotScope} {expr : Expr} {start stop : Cursor} :
    CodeAt code env typing scope expr start stop →
      ∀ part ∈ expr.parts, PartAt code env typing part
  | partCode@(.literal _) | partCode@(.bound _ _) | partCode@(.variable _ _ _) =>
    forall_parts (.whole partCode) fun _ none => absurd none List.not_mem_nil
  | partCode@(.unary _ carriedOut) | partCode@(.arithmetic _ carriedOut)
  | partCode@(.comparison _ carriedOut) | partCode@(.bitwise _ _ carriedOut)
  | partCode@(.xor _ carriedOut) => forall_parts (.whole partCode) carriedOut.part
  -- the chain has the parts of the operands, and itself once more as a link
  | partCode@(.chain _ chained finished _ decided _) =>
    forall_parts (.whole partCode) fun _ child part inChild =>
      chained.part (.of_decided finished decided) part (parts_subset_of_child child inChild)
  | partCode@(.shift _ shifted count _) | partCode@(.shiftMethod _ _ shifted count _) =>
    forall_parts (.whole partCode) (forall_pair shifted.part count.part)
  | partCode@(.conditional _ test _ thenCode _ elseCode) =>
    forall_parts (.whole partCode)
      (List.forall_mem_cons.2 ⟨test.part, forall_pair thenCode.part elseCode.part⟩)
  | partCode@(.member _ operandCode _ itemsCode _ _ _) =>
    forall_parts (.whole partCode) (List.forall_mem_cons.2 ⟨operandCode.part, itemsCode.part⟩)
  | partCode@(.index arrayCode positionCode _) =>
    forall_parts (.whole partCode) (forall_pair arrayCode.part positionCode.part)
  | partCode@(.array _ _ _ _ elementsCode) => forall_parts (.whole partCode) elementsCode.part
  | partCode@(.call _ _ argumentsCode _) => forall_parts (.whole partCode) argumentsCode.part
  | partCode@(.cast _ operandCode _) =>
    forall_parts (.whole partCode) (List.forall_mem_singleton.2 operandCode.part)
  | partCode@(.bindings valuesCode bodyCode) =>
    forall_parts (.whole partCode)
      (List.forall_mem_cons.2 ⟨bodyCode.part, List.forall_mem_map.2 valuesCode.part⟩)

/-- The parts of a converted tree have their code. -/
theorem ConvertedAt.part {scope : SlotScope} {expr : Expr} {target : Ty} {start stop : Cursor} :
    ConvertedAt code env typing scope expr target start stop →
      ∀ part ∈ expr.parts, PartAt code env typing part
  | .intro _ operandCode _ => operandCode.part

/-- The parts of a count have their code. -/
theorem CountAt.part {scope : SlotScope} {expr : Expr} {start stop : Cursor} :
    CountAt code env typing scope expr start stop →
      ∀ part ∈ expr.parts, PartAt code env typing part
  | .intro _ operandCode _ => operandCode.part

/-- The parts of operands have their code. -/
theorem OperandsAt.part {scope : SlotScope} {operands : List Expr} {targets : List Ty}
    {start stop : Cursor} : OperandsAt code env typing scope operands targets start stop →
      ∀ operand ∈ operands, ∀ part ∈ operand.parts, PartAt code env typing part
  | .nil => fun _ none => absurd none List.not_mem_nil
  | .cons operandCode operandsCode =>
    List.forall_mem_cons.2 ⟨operandCode.part, operandsCode.part⟩

/-- The parts of the operands of an operator have their code. -/
theorem OperatorAt.part {scope : SlotScope} {resolution : Resolution} {operands : List Expr}
    {action : Action} {start stop : Cursor} :
    OperatorAt code env typing scope resolution operands action start stop →
      ∀ operand ∈ operands, ∀ part ∈ operand.parts, PartAt code env typing part
  | .primitive operandsCode _ => operandsCode.part
  | .overload operandsCode _ => operandsCode.part

/-- The parts of an item have their code. -/
theorem ItemAt.part {scope : SlotScope} {operandType : Ty} {slot : Nat} {item : Expr}
    {start stop : Cursor} : ItemAt code env typing scope operandType slot item start stop →
      ∀ part ∈ item.parts, PartAt code env typing part
  | .primitive _ _ _ itemCode _ => itemCode.part
  | .overload _ _ _ _ itemCode _ => itemCode.part

/-- The parts of items have their code. -/
theorem ItemsAt.part {scope : SlotScope} {operandType : Ty} {slot equal : Nat}
    {items : List Expr} {start stop : Cursor} :
    ItemsAt code env typing scope operandType slot equal items start stop →
      ∀ item ∈ items, ∀ part ∈ item.parts, PartAt code env typing part
  | .nil => fun _ none => absurd none List.not_mem_nil
  | .cons itemCode _ itemsCode => List.forall_mem_cons.2 ⟨itemCode.part, itemsCode.part⟩

/-- The parts of elements have their code. -/
theorem ElementsAt.part {scope : SlotScope} {element : Ty} {index : Nat} {values : List Expr}
    {start stop : Cursor} : ElementsAt code env typing scope element index values start stop →
      ∀ value ∈ values, ∀ part ∈ value.parts, PartAt code env typing part
  | .nil => fun _ none => absurd none List.not_mem_nil
  | .cons _ _ _ valueCode _ valuesCode => List.forall_mem_cons.2 ⟨valueCode.part, valuesCode.part⟩

/-- The parts of bound values have their code. -/
theorem BindingsAt.part {scope inner : SlotScope} {values : List (String × Expr)}
    {start stop : Cursor} : BindingsAt code env typing scope values inner start stop →
      ∀ value ∈ values, ∀ part ∈ value.2.parts, PartAt code env typing part
  | .nil => fun _ none => absurd none List.not_mem_nil
  | .cons valueCode _ valuesCode => List.forall_mem_cons.2 ⟨valueCode.part, valuesCode.part⟩

/-- The parts of a chain have their code. -/
theorem ChainAt.part {scope : SlotScope} {expr : Expr} {exit : Bool → Option Nat}
    {start stop : Cursor} : ChainAt code env typing scope expr exit start stop →
      ExitsAhead exit stop → ∀ part ∈ expr.parts, PartAt code env typing part
  | .operand _ operandCode, _ => operandCode.part
  | .joined joined leftCode decided undecided chosen leads rightCode, ahead =>
    have leftAhead := ahead.left decided undecided chosen rightCode.precedes
    forall_parts
      (.link joined (.joined joined leftCode decided undecided chosen leads rightCode) ahead)
      (forall_pair (leftCode.part leftAhead) (rightCode.part ahead))

end

/-! ## Array literals -/

/-- What is converted without being asked for may be. -/
theorem ConversionAt.canConvert {source target : Ty} {start stop : Cursor}
    (conversion : ConversionAt code env source target start stop) :
    env.operators.canConvert source target = .ok true := by
  cases conversion with
  | number implicit _ => exact OperatorRegistry.canConvert_of_implicit implicit
  | method notImplicit found _ =>
    unfold OperatorRegistry.canConvert
    rw [if_neg notImplicit, found]
    rfl

/-- The elements of an array literal with code convert to its element type. -/
theorem ElementsAt.canConvert {scope : SlotScope} {element : Ty} {index : Nat} {values : List Expr}
    {start stop : Cursor}
    (elementsCode : ElementsAt code env typing scope element index values start stop) :
    ∀ value ∈ values, ∃ source, typing.types[value.id]? = some source ∧
      env.operators.canConvert source element = .ok true := by
  induction values generalizing index start with
  | nil => exact fun _ listed => absurd listed List.not_mem_nil
  | cons value values ih =>
    cases elementsCode with
    | cons short copy position valueCode storing valuesCode =>
      cases valueCode with
      | intro known operandCode conversion =>
        exact List.forall_mem_cons.2
          ⟨⟨_, known, conversion.canConvert⟩, ih valuesCode⟩

variable (env typing) in
/-- The elements of an array literal convert to its element type; other expressions have none. -/
def ElementsConverted : Expr → Prop
  | .array node elements => ∀ element, typing.types[node.id]? = some (.array element) →
      ∀ value ∈ elements, ∃ source, typing.types[value.id]? = some source ∧
        env.operators.canConvert source element = .ok true
  | _ => True

/-- The elements of every array literal with code convert. -/
theorem PartAt.elementsConverted {part : Expr} (partCode : PartAt code env typing part) :
    ElementsConverted env typing part := by
  cases partCode with
  | link joined _ _ =>
    cases part with
    | array => cases joined
    | _ => trivial
  | whole partCode =>
    cases partCode with
    | array found short length allocated elementsCode =>
      intro element known
      rw [known, Option.some.injEq, Ty.array.injEq] at found
      subst found
      exact elementsCode.canConvert
    | _ => trivial

end ExprCode
