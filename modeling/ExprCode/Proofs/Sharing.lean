import ExprCode.Proofs.SharedChains
import ExprCode.Proofs.Unfolding

/-! # Sharing

Main statement: `compile_of_unfolds`. If an expression in which nodes occur at several places
compiles, its unfolding into a tree compiles, to the same code. Types, ways to carry out operators,
membership tests and labels of operands are all kept under the identity of a node, so a node that
occurs twice has one entry where its two copies have one each; the entries say the same, or nothing
is compiled.

Typing is compared in `SharedTyping` and `Unfolding`, chains are compared in `SharedChains`; here
both are put together along the expression. -/

namespace ExprCode

namespace Refines

variable {ε σ α β : Type}

/-- An operation refines itself. -/
theorem refl (operation : EStateM ε σ α) : Refines operation operation := fun _ _ _ h => h

/-- One operation after another is refined in both. -/
theorem bind {first second : EStateM ε σ α} {firstNext secondNext : α → EStateM ε σ β}
    (refines : Refines first second)
    (rest : ∀ value, Refines (firstNext value) (secondNext value)) :
    Refines (first >>= firstNext) (second >>= secondNext) := by
  intro before result after h
  obtain ⟨value, middle, run, next⟩ := bind_eq_ok h
  rw [bind_of_ok (refines _ _ _ run)]
  exact rest value _ _ _ next

/-- Both start with the same operation. -/
theorem next {operation : EStateM ε σ α} {firstNext secondNext : α → EStateM ε σ β}
    (rest : ∀ value, Refines (firstNext value) (secondNext value)) :
    Refines (operation >>= firstNext) (operation >>= secondNext) :=
  (refl operation).bind rest

end Refines

namespace Codegen

variable {env : Environment} {typing final : Typing}

/-! ## Code of nodes from code of their children -/

/-- Code generation with an emitter as its state refines another. -/
abbrev Refines {α : Type} (first second : Codegen Emitter α) : Prop := ExprCode.Refines first second

/-- An expression with its code, and a copy with code that does the same. Both are known to have one
type. -/
structure Mirrored (typing final : Typing) (expr tree : Expr) (type : Ty)
    (code other : Codegen Emitter Unit) :
    Prop where
  /-- The type of the expression. -/
  known : typing.types[expr.id]? = some type
  /-- The type of the copy. -/
  copyKnown : final.types[tree.id]? = some type
  /-- Both stand at one place of the source text. -/
  span : expr.span = tree.span
  /-- The code of the copy does what the code of the expression does. -/
  refines : Refines code other

/-- What is known is found. -/
theorem known_some {α : Type} (node : Node) (value : α) :
    (known node (some value) : Codegen Emitter α) = pure value := rfl

variable {node copy : Node} {code other : Codegen Emitter Unit} {resolution : Resolution}
  {left right : Expr} {leftType rightType : Ty}

/-- What is known of a node and of its copy is the same. -/
theorem refines_known {α : Type} {first second : Option α} {value : α} (found : first = some value)
    (copyFound : second = some value) : Refines (known node first) (known copy second) := by
  subst found copyFound
  exact .refl _

/-- A tree has the type of its copy. -/
theorem Mirrored.typeOf {expr tree : Expr} {type : Ty}
    (mirrored : Mirrored typing final expr tree type code other) :
    Refines (typeOf typing expr) (typeOf final tree) :=
  refines_known mirrored.known mirrored.copyKnown

/-- A tree is converted like its copy. -/
theorem Mirrored.converted {expr tree : Expr} {type : Ty}
    (mirrored : Mirrored typing final expr tree type code other) (target : Ty) :
    Refines (emitConverted env typing expr code target)
      (emitConverted env final tree other target) := by
  refine mirrored.typeOf.bind fun source => mirrored.refines.bind fun _ => ?_
  rw [mirrored.span]
  exact .refl _

/-- Operands with their code, and copies of them. -/
abbrev MirroredOperands (typing final : Typing) :
    List (Expr × Codegen Emitter Unit) → List (Expr × Codegen Emitter Unit) → Prop :=
  List.Forall₂ fun operand copy =>
    ∃ type, Mirrored typing final operand.1 copy.1 type operand.2 copy.2

/-- Operands are converted like their copies. -/
theorem refines_emitArguments {operands copies : List (Expr × Codegen Emitter Unit)}
    (mirrored : MirroredOperands typing final operands copies) (params : List Ty) :
    Refines (emitArguments env typing operands params)
      (emitArguments env final copies params) := by
  induction mirrored generalizing params with
  | nil => exact .refl _
  | cons first _ ih =>
    obtain ⟨type, first⟩ := first
    cases params with
    | nil => exact .refl _
    | cons param params => exact (first.converted param).bind fun _ => ih params

/-- An operator and its copy, which are carried out in the same way. -/
theorem refines_emitOperator (op : Opcode) {operands copies : List (Expr × Codegen Emitter Unit)}
    (resolved : typing.resolutions[node.id]? = some resolution)
    (copyResolved : final.resolutions[copy.id]? = some resolution)
    (mirrored : MirroredOperands typing final operands copies) :
    Refines (emitOperator env typing node op operands)
      (emitOperator env final copy op copies) := by
  refine (refines_known resolved copyResolved).bind fun resolution => ?_
  cases resolution with
  | primitive type =>
    have sameTargets : (operands.map fun _ => type) = copies.map fun _ => type := by
      simp [List.map_const', mirrored.length_eq]
    simp only [sameTargets]
    exact (refines_emitArguments mirrored _).bind fun _ => .refl _
  | overload method => exact (refines_emitArguments mirrored _).bind fun _ => .refl _

/-- A shift refines that of the copies. -/
theorem refines_emitShift (direction : ShiftDirection) {leftTree rightTree : Expr}
    {leftCode rightCode leftOther rightOther : Codegen Emitter Unit}
    (resolved : typing.resolutions[node.id]? = some resolution)
    (copyResolved : final.resolutions[copy.id]? = some resolution)
    (lefts : Mirrored typing final left leftTree leftType leftCode leftOther)
    (rights : Mirrored typing final right rightTree rightType rightCode rightOther) :
    Refines (emitShift env typing node direction left right leftCode rightCode)
      (emitShift env final copy direction leftTree rightTree leftOther rightOther) := by
  refine (refines_known resolved copyResolved).bind fun resolution => ?_
  exact (lefts.converted _).bind fun _ => rights.refines.bind fun _ => rights.typeOf.bind fun _ =>
    .refl _

/-- The test of an item refines that of its copy. -/
theorem refines_emitItemTest {operandType type : Ty} {span : Span} {slot : Nat} {item tree : Expr}
    {test : Resolution} (tested : typing.memberships[item.id]? = some test)
    (copyTested : final.memberships[tree.id]? = some test)
    (mirrored : Mirrored typing final item tree type code other) :
    Refines (emitItemTest env typing operandType span slot item code)
      (emitItemTest env final operandType span slot tree other) := by
  refine (refines_known tested copyTested).bind fun test => ?_
  cases test with
  | primitive target =>
    exact .next fun _ => .next fun _ => (mirrored.converted _).bind fun _ => .refl _
  | overload method =>
    exact .next fun _ => .next fun _ => mirrored.typeOf.bind fun _ =>
      (mirrored.converted _).bind fun _ => .refl _

/-- An arm of a conditional, and a copy of it. -/
theorem refines_emitArm {arm : Codegen Emitter Unit} (refines : Refines arm other) :
    Refines (emitArm arm) (emitArm other) := by
  intro before _ after h
  rw [emitArm_eq] at h ⊢
  cases run : arm before.fork with
  | ok value child =>
    rw [run] at h
    rw [refines _ _ _ run]
    exact h
  | error error child =>
    rw [run] at h
    cases h

/-! ## Code of an expression and of a copy -/

variable (env typing final)

/-- Whatever types an expression and a copy of it have, they have the same, and code as well. The
copy is a tree. -/
def CodeCopied (scope : SlotScope) (expr : Expr) : Prop :=
  ∀ tree type otherType, Expr.Alike expr tree → tree.IsTree → Typed env typing [] expr type →
    Typed env final [] tree otherType → type = otherType ∧
      ∃ pairs, Alongside (plan env typing expr scope) (plan env final tree scope) pairs

variable {env typing final} {scope : SlotScope} {expr tree : Expr} {type otherType : Ty}

/-- The code of an expression by itself. -/
theorem CodeCopied.mirrored (copied : CodeCopied env typing final scope expr)
    (alike : Expr.Alike expr tree) (isTree : tree.IsTree) (typed : Typed env typing [] expr type)
    (otherTyped : Typed env final [] tree otherType) :
    type = otherType ∧ Mirrored typing final expr tree type (emitCode (plan env typing expr scope))
      (emitCode (plan env final tree scope)) := by
  obtain ⟨rfl, pairs, alongside⟩ := copied tree type otherType alike isTree typed otherTyped
  refine ⟨rfl, typed.known, otherTyped.known, alike.span, ?_⟩
  exact alongside.refines_emitCode (forward_operands env typing expr scope)
    ((nodes_plan_sublist tree scope).nodup isTree)

section Lists

variable {exprs trees : List Expr} (each : ∀ expr ∈ exprs, CodeCopied env typing final scope expr)
  (alike : List.Forall₂ Expr.Alike exprs trees) (nodup : (Expr.idsOfList trees).Nodup)
include each alike nodup

/-- Items refine those of the copy. -/
theorem refines_emitItems {operandType : Ty} {span : Span} {slot : Nat} {found : Label}
    (typed : TypedItems env typing [] operandType exprs)
    (otherTyped : TypedItems env final [] operandType trees) :
    Refines (emitItems env typing operandType span slot found exprs scope)
      (emitItems env final operandType span slot found trees scope) := by
  induction alike with
  | nil => exact .refl _
  | cons first _ ih =>
    rw [List.forall_mem_cons] at each
    obtain ⟨isTree, othersNodup, -⟩ := List.nodup_append.1 nodup
    cases typed with
    | cons itemTyped rule tested itemsTyped =>
      cases otherTyped with
      | cons otherTyped otherRule otherTested othersTyped =>
        obtain ⟨rfl, mirrored⟩ := each.1.mirrored first isTree itemTyped otherTyped
        obtain rfl := rule.unique otherRule
        rw [emitItems, emitItems]
        exact (refines_emitItemTest tested otherTested mirrored).bind fun _ => .next fun _ =>
          ih each.2 othersNodup itemsTyped othersTyped

/-- Elements refine those of the copy. -/
theorem refines_emitElements (element : Ty) (index : Nat)
    (typed : ∀ expr ∈ exprs, ∃ type, Typed env typing [] expr type)
    (otherTyped : ∀ tree ∈ trees, ∃ type, Typed env final [] tree type) :
    Refines (emitElements env typing element index exprs scope)
      (emitElements env final element index trees scope) := by
  induction alike generalizing index with
  | nil => exact .refl _
  | cons first _ ih =>
    rw [List.forall_mem_cons] at each typed otherTyped
    obtain ⟨isTree, othersNodup, -⟩ := List.nodup_append.1 nodup
    obtain ⟨⟨type, firstTyped⟩, othersTyped⟩ := typed
    obtain ⟨⟨_, copyTyped⟩, copiesTyped⟩ := otherTyped
    obtain ⟨rfl, mirrored⟩ := each.1.mirrored first isTree firstTyped copyTyped
    rw [emitElements, emitElements]
    exact .next fun _ => .next fun _ => (mirrored.converted element).bind fun _ => .next fun _ =>
      ih each.2 othersNodup (index + 1) othersTyped copiesTyped

/-- Arguments refine those of the copy. -/
theorem refines_emitCallArguments (params : List Ty)
    (typed : ∀ expr ∈ exprs, ∃ type, Typed env typing [] expr type)
    (otherTyped : ∀ tree ∈ trees, ∃ type, Typed env final [] tree type) :
    Refines (emitCallArguments env typing exprs params scope)
      (emitCallArguments env final trees params scope) := by
  induction alike generalizing params with
  | nil => exact .refl _
  | cons first _ ih =>
    rw [List.forall_mem_cons] at each typed otherTyped
    obtain ⟨isTree, othersNodup, -⟩ := List.nodup_append.1 nodup
    obtain ⟨⟨type, firstTyped⟩, othersTyped⟩ := typed
    obtain ⟨⟨_, copyTyped⟩, copiesTyped⟩ := otherTyped
    obtain ⟨rfl, mirrored⟩ := each.1.mirrored first isTree firstTyped copyTyped
    cases params with
    | nil => exact .refl _
    | cons param params =>
      rw [emitCallArguments, emitCallArguments]
      exact (mirrored.converted param).bind fun _ =>
        ih each.2 othersNodup params othersTyped copiesTyped

/-- The elements of an array and their copies have one common type. -/
theorem common_unique {element common otherCommon : Ty}
    (typed : TypedElements env typing [] element exprs common)
    (otherTyped : TypedElements env final [] element trees otherCommon) : common = otherCommon := by
  induction alike generalizing element with
  | nil =>
    cases typed
    cases otherTyped
    rfl
  | cons first _ ih =>
    rw [List.forall_mem_cons] at each
    obtain ⟨isTree, othersNodup, -⟩ := List.nodup_append.1 nodup
    cases typed with
    | cons firstTyped unified restTyped =>
      cases otherTyped with
      | cons copyTyped otherUnified copiesTyped =>
        obtain ⟨rfl, -⟩ := each.1.mirrored first isTree firstTyped copyTyped
        cases unified.symm.trans otherUnified
        exact ih each.2 othersNodup restTyped copiesTyped

end Lists

/-- Operands that are truth values are known to be, and others are known not to be. -/
theorem isBool_and_isBool (leftTyped : Typed env typing [] left leftType)
    (rightTyped : Typed env typing [] right rightType) :
    (isBool typing left && isBool typing right) = decide
    (leftType = .bool ∧ rightType = .bool) := by
  rw [Bool.eq_iff_iff]
  simp [isBool, leftTyped.known, rightTyped.known]

/-- An operator on two operands and a copy of it, which follow one rule. -/
theorem alongside_binary {leftTree rightTree : Expr} {otherLeft otherRight : Ty}
    {leftCode rightCode leftOther rightOther : Codegen Emitter Unit} {op : Opcode}
    {operator : String} {operand? : Ty → Ty → Option Ty} {result : Ty → Ty}
    {otherResolution : Resolution}
    (lefts : leftType = otherLeft ∧ Mirrored typing final left leftTree leftType leftCode leftOther)
    (rights : rightType = otherRight ∧
      Mirrored typing final right rightTree rightType rightCode rightOther)
    (rule : BinaryRule env operator leftType rightType (operand? leftType rightType) result
      resolution type)
    (otherRule : BinaryRule env operator otherLeft otherRight (operand? otherLeft otherRight) result
      otherResolution otherType) (resolved : typing.resolutions[node.id]? = some resolution)
    (otherResolved : final.resolutions[copy.id]? = some otherResolution) :
    type = otherType ∧ ∃ pairs, Alongside
      (.operand ⟨node.id, emitOperator env typing node op [(left, leftCode), (right, rightCode)]⟩)
      (.operand ⟨copy.id, emitOperator env final copy op
        [(leftTree, leftOther), (rightTree, rightOther)]⟩) pairs := by
  obtain ⟨rfl, lefts⟩ := lefts
  obtain ⟨rfl, rights⟩ := rights
  obtain ⟨rfl, rfl⟩ := rule.unique otherRule
  exact ⟨rfl, _, .operand (refines_emitOperator op resolved otherResolved
    (.cons ⟨_, lefts⟩ (.cons ⟨_, rights⟩ .nil)))⟩

/-- A connective: copies of a chain are chains, since the types of their operands are the same. -/
theorem CodeCopied.logical {connective : Connective}
    (leftCopied : CodeCopied env typing final scope left)
    (rightCopied : CodeCopied env typing final scope right) :
    CodeCopied env typing final scope (.logical node connective left right) := by
  intro _ _ _ alike isTree typed otherTyped
  cases alike with
  | @logical _ _ _ _ _ leftTree rightTree span lefts rights =>
    have leftIsTree : leftTree.IsTree := isTree.child (.head _)
    have rightIsTree : rightTree.IsTree := isTree.child (.tail _ (.head _))
    cases typed with
    | chain leftTyped rightTyped known =>
      cases otherTyped with
      | chain otherLeft otherRight otherKnown =>
        obtain ⟨-, leftPairs, leftAlongside⟩ :=
          leftCopied _ _ _ lefts leftIsTree leftTyped otherLeft
        obtain ⟨-, rightPairs, rightAlongside⟩ :=
          rightCopied _ _ _ rights rightIsTree rightTyped otherRight
        rw [plan, plan, isBool_and_isBool leftTyped rightTyped,
          isBool_and_isBool otherLeft otherRight]
        exact ⟨rfl, _, .joined leftAlongside rightAlongside⟩
      | bitwise otherLeft otherRight notBoth =>
        -- a chain is no copy of an operator on integers, since copies have the same types
        obtain ⟨rfl, -⟩ := leftCopied _ _ _ lefts leftIsTree leftTyped otherLeft
        obtain ⟨rfl, -⟩ := rightCopied _ _ _ rights rightIsTree rightTyped otherRight
        exact absurd ⟨rfl, rfl⟩ notBoth
    | bitwise leftTyped rightTyped notBoth rule resolved known =>
      cases otherTyped with
      | chain otherLeft otherRight =>
        obtain ⟨rfl, -⟩ := leftCopied _ _ _ lefts leftIsTree leftTyped otherLeft
        obtain ⟨rfl, -⟩ := rightCopied _ _ _ rights rightIsTree rightTyped otherRight
        exact absurd ⟨rfl, rfl⟩ notBoth
      | bitwise otherLeft otherRight otherNotBoth otherRule otherResolved otherKnown =>
        have left := leftCopied.mirrored lefts leftIsTree leftTyped otherLeft
        have right := rightCopied.mirrored rights rightIsTree rightTyped otherRight
        rw [plan, plan, isBool_and_isBool leftTyped rightTyped,
          isBool_and_isBool otherLeft otherRight, decide_eq_false notBoth,
          decide_eq_false otherNotBoth]
        exact alongside_binary left right rule otherRule resolved otherResolved

/-- A conditional: both arms are converted to the type that copies of them agree on. -/
theorem CodeCopied.conditional {condition thenBranch elseBranch : Expr}
    (conditionCopied : CodeCopied env typing final scope condition)
    (thenCopied : CodeCopied env typing final scope thenBranch)
    (elseCopied : CodeCopied env typing final scope elseBranch) :
    CodeCopied env typing final scope (.conditional node condition thenBranch elseBranch) := by
  intro _ _ _ alike isTree typed otherTyped
  cases alike with
  | conditional span conditions thens elses =>
    cases typed with
    | conditional conditionTyped thenTyped elseTyped unified known =>
      cases otherTyped with
      | conditional otherCondition otherThen otherElse otherUnified otherKnown =>
        obtain ⟨-, test⟩ :=
          conditionCopied.mirrored conditions (isTree.child (.head _)) conditionTyped otherCondition
        obtain ⟨rfl, thenArm⟩ :=
          thenCopied.mirrored thens (isTree.child (.tail _ (.head _))) thenTyped otherThen
        obtain ⟨rfl, elseArm⟩ :=
          elseCopied.mirrored elses (isTree.child (.tail _ (.tail _ (.head _)))) elseTyped otherElse
        cases unified.symm.trans otherUnified
        rw [plan, plan]
        refine ⟨rfl, _, .operand ?_⟩
        refine (refines_known known otherKnown).bind fun type => test.refines.bind fun _ => ?_
        refine .next fun _ => .next fun _ => .next fun _ => ?_
        refine (refines_emitArm (thenArm.converted type)).bind fun _ => .next fun _ =>
          .next fun _ => ?_
        exact (refines_emitArm (elseArm.converted type)).bind fun _ => .refl _

/-- A membership test: operand and items are compared in the same ways. -/
theorem CodeCopied.member {operand : Expr} {items : List Expr}
    (operandCopied : CodeCopied env typing final scope operand)
    (itemsCopied : ∀ item ∈ items, CodeCopied env typing final scope item) :
    CodeCopied env typing final scope (.member node operand items) := by
  intro _ _ _ alike isTree typed otherTyped
  cases alike with
  | member span operands tests =>
    cases typed with
    | member operandTyped itemsTyped known =>
      cases otherTyped with
      | member otherOperand otherItems otherKnown =>
        obtain ⟨rfl, mirrored⟩ :=
          operandCopied.mirrored operands (isTree.child (.head _)) operandTyped otherOperand
        have itemsNodup := (List.nodup_append.1 (List.nodup_cons.1 isTree).2).2.1
        -- the place of the operand goes into the tests, for messages, and is that of its copy
        rw [plan, plan, mirrored.span]
        refine ⟨rfl, ?_⟩
        simp only [typeOf, mirrored.known, mirrored.copyKnown, known_some, pure_bind]
        refine ⟨_, .operand (mirrored.refines.bind fun _ => ?_)⟩
        refine .next fun _ => .next fun _ => .next fun _ => .next fun _ => ?_
        exact (refines_emitItems itemsCopied tests itemsNodup itemsTyped otherItems).bind fun _ =>
          .refl _

/-- An array literal: the elements and their copies have one common type. -/
theorem CodeCopied.array {elements : List Expr}
    (elementsCopied : ∀ element ∈ elements, CodeCopied env typing final scope element) :
    CodeCopied env typing final scope (.array node elements) := by
  intro _ _ _ alike isTree typed otherTyped
  cases alike with
  | array span copies =>
    have nodup := (List.nodup_cons.1 isTree).2
    -- taken before the literal is split into its first element and the rest
    have elements (element : Ty) := refines_emitElements elementsCopied copies nodup element 0
      typed.elements otherTyped.elements
    have sameLength := copies.length_eq
    cases typed with
    | array firstTyped restTyped found =>
      cases otherTyped with
      | array otherFirst otherRest otherFound =>
        cases copies with
        | cons first rest =>
          rw [List.forall_mem_cons] at elementsCopied
          obtain ⟨isTree, restNodup, -⟩ := List.nodup_append.1 nodup
          obtain ⟨rfl, -⟩ := elementsCopied.1.mirrored first isTree firstTyped otherFirst
          obtain rfl := common_unique elementsCopied.2 rest restNodup restTyped otherRest
          rw [plan, plan, sameLength]
          refine ⟨rfl, ?_⟩
          simp only [found, otherFound, known_some, pure_bind, Ty.element?]
          exact ⟨_, .operand (.next fun _ => .next fun _ => elements _)⟩

/-- Code is the same for an expression and a copy that is a tree. -/
theorem codeCopied (scope : SlotScope) (expr : Expr) : CodeCopied env typing final scope expr := by
  -- a rule leaves one resolution, so the same operations are planned for both
  induction expr using Expr.inductionOn with
  | literal node value =>
    intro _ _ _ alike isTree typed otherTyped
    cases alike
    cases typed
    cases otherTyped
    rw [plan, plan]
    exact ⟨rfl, _, .operand (.refl _)⟩
  | ident node name =>
    intro _ _ _ alike isTree typed otherTyped
    cases alike with
    | ident span =>
      cases typed with
      | ident found known =>
        cases otherTyped with
        | ident otherFound otherKnown =>
          cases found.symm.trans otherFound
          rw [plan, plan]
          refine ⟨rfl, _, .operand ?_⟩
          unfold emitName
          rw [span]
          exact .refl _
  | unary node op operand operandCopied =>
    intro _ _ _ alike isTree typed otherTyped
    cases alike with
    | unary span operands =>
      cases typed with
      | unary operandTyped rule resolved known =>
        cases otherTyped with
        | unary otherTyped otherRule otherResolved otherKnown =>
          obtain ⟨rfl, mirrored⟩ :=
            operandCopied.mirrored operands (isTree.child (.head _)) operandTyped otherTyped
          obtain ⟨rfl, rfl⟩ := rule.unique otherRule
          rw [plan, plan]
          exact ⟨rfl, _, .operand (refines_emitOperator _ resolved otherResolved
            (.cons ⟨_, mirrored⟩ .nil))⟩
  | arithmetic node op left right leftCopied rightCopied =>
    intro _ _ _ alike isTree typed otherTyped
    cases alike with
    | arithmetic span lefts rights =>
      cases typed with
      | arithmetic leftTyped rightTyped rule resolved known =>
        cases otherTyped with
        | arithmetic otherLeft otherRight otherRule otherResolved otherKnown =>
          have left := leftCopied.mirrored lefts (isTree.child (.head _)) leftTyped otherLeft
          have right :=
            rightCopied.mirrored rights (isTree.child (.tail _ (.head _))) rightTyped otherRight
          rw [plan, plan]
          exact alongside_binary left right rule otherRule resolved otherResolved
  | comparison node relation left right leftCopied rightCopied =>
    intro _ _ _ alike isTree typed otherTyped
    cases alike with
    | comparison span lefts rights =>
      cases typed with
      | comparison leftTyped rightTyped rule resolved known =>
        cases otherTyped with
        | comparison otherLeft otherRight otherRule otherResolved otherKnown =>
          have left := leftCopied.mirrored lefts (isTree.child (.head _)) leftTyped otherLeft
          have right :=
            rightCopied.mirrored rights (isTree.child (.tail _ (.head _))) rightTyped otherRight
          rw [plan, plan]
          exact alongside_binary left right rule otherRule resolved otherResolved
  | logical node connective left right leftCopied rightCopied =>
    exact .logical leftCopied rightCopied
  | xor node left right leftCopied rightCopied =>
    intro _ _ _ alike isTree typed otherTyped
    cases alike with
    | xor span lefts rights =>
      cases typed with
      | xor leftTyped rightTyped rule resolved known =>
        cases otherTyped with
        | xor otherLeft otherRight otherRule otherResolved otherKnown =>
          have left := leftCopied.mirrored lefts (isTree.child (.head _)) leftTyped otherLeft
          have right :=
            rightCopied.mirrored rights (isTree.child (.tail _ (.head _))) rightTyped otherRight
          rw [plan, plan]
          exact alongside_binary left right rule otherRule resolved otherResolved
  | shift node direction left right leftCopied rightCopied =>
    intro _ _ _ alike isTree typed otherTyped
    cases alike with
    | shift span lefts rights =>
      cases typed with
      | shift leftTyped rightTyped count rule resolved known =>
        cases otherTyped with
        | shift otherLeft otherRight _ otherRule otherResolved otherKnown =>
          obtain ⟨rfl, left⟩ :=
            leftCopied.mirrored lefts (isTree.child (.head _)) leftTyped otherLeft
          obtain ⟨rfl, right⟩ :=
            rightCopied.mirrored rights (isTree.child (.tail _ (.head _))) rightTyped otherRight
          obtain ⟨rfl, rfl⟩ := rule.unique otherRule
          rw [plan, plan]
          exact ⟨rfl, _, .operand (refines_emitShift direction resolved otherResolved left right)⟩
  | conditional node condition thenBranch elseBranch conditionCopied thenCopied elseCopied =>
    exact .conditional conditionCopied thenCopied elseCopied
  | member node operand items operandCopied itemsCopied => exact .member operandCopied itemsCopied
  | index node source position sourceCopied positionCopied =>
    intro _ _ _ alike isTree typed otherTyped
    cases alike with
    | index span sources positions =>
      cases typed with
      | index sourceTyped positionTyped count known =>
        cases otherTyped with
        | index otherSource otherPosition _ otherKnown =>
          obtain ⟨same, source⟩ :=
            sourceCopied.mirrored sources (isTree.child (.head _)) sourceTyped otherSource
          obtain ⟨-, position⟩ :=
            positionCopied.mirrored positions (isTree.child (.tail _ (.head _))) positionTyped
              otherPosition
          cases same
          rw [plan, plan]
          refine ⟨rfl, _, .operand ?_⟩
          exact (refines_known known otherKnown).bind fun _ => source.refines.bind fun _ =>
            position.refines.bind fun _ => .refl _
  | array node elements elementsCopied => exact .array elementsCopied
  | call node name arguments argumentsCopied =>
    intro _ _ _ alike isTree typed otherTyped
    cases alike with
    | call span copies =>
      cases typed with
      | call found sameLength argumentsTyped known =>
        cases otherTyped with
        | call otherFound otherLength otherArguments otherKnown =>
          cases found.symm.trans otherFound
          have arguments (params : List Ty) := refines_emitCallArguments argumentsCopied copies
            (List.nodup_cons.1 isTree).2 params argumentsTyped.each otherArguments.each
          rw [plan, plan, found, copies.length_eq]
          exact ⟨rfl, _, .operand ((arguments _).bind fun _ => .refl _)⟩
  | cast node operand target operandCopied =>
    intro _ _ _ alike isTree typed otherTyped
    cases alike with
    | cast span operands =>
      cases typed with
      | cast operandTyped possible known =>
        cases otherTyped with
        | cast otherOperand otherPossible otherKnown =>
          obtain ⟨rfl, mirrored⟩ :=
            operandCopied.mirrored operands (isTree.child (.head _)) operandTyped otherOperand
          rw [plan, plan, span]
          exact ⟨rfl, _,
            .operand (mirrored.typeOf.bind fun _ => mirrored.refines.bind fun _ => .refl _)⟩
  | bindings node body values =>
    intro _ _ _ alike
    cases alike

/-- The program of an unfolding does what the program of the expression does. -/
theorem refines_program (unfolds : expr.Unfolds tree) (typed : Typed env typing [] expr type)
    (treeTyped : Typed env final [] tree type) :
    Refines (program env typing expr) (program env final tree) :=
  ((codeCopied [] expr).mirrored unfolds.alike unfolds.tree typed treeTyped).2.refines.bind fun _ =>
    .refl _

end Codegen

/-- **Sharing is sound.** If an expression whose nodes may occur at several places compiles, so does
every unfolding of it into a tree, to the same code; and it has an unfolding. -/
theorem compile_of_unfolds {env : Environment} {expr : Expr} {maxLocals : Nat} {code : Code}
    (shares : expr.Shares) (compiled : compile env expr maxLocals = .ok code) :
    (∃ tree, expr.Unfolds tree) ∧
      ∀ tree, expr.Unfolds tree → compile env tree maxLocals = .ok code := by
  refine ⟨Expr.exists_unfolding shares.unbound, fun tree unfolds => ?_⟩
  obtain ⟨type, typing, emitter, run, emitted, finished⟩ := compile_eq_ok compiled
  have typed := Typing.typed_of_shared shares run
  obtain ⟨final, treeRun, treeTyped⟩ := Typing.typed_of_unfolds unfolds typed
  have treeEmitted := Codegen.refines_program unfolds typed treeTyped _ _ _ emitted
  rw [compile_of_typed treeRun, treeEmitted]
  simp only [finished]
  rfl

/-- Two truth values. -/
def flags : Environment where
  variableTypes := #[("p", .bool), ("q", .bool)]

/-- The negation of the first. -/
def negated (id : NodeId) : Expr := .unary ⟨id, 0, 0⟩ .not (.ident ⟨id + 1, 0, 0⟩ "p")

/-- `(not p or q) and not p`. If the first negation is true, it branches to the second. -/
def negatedTwice (first second : NodeId) : Expr :=
  .logical ⟨0, 0, 0⟩ .and (.logical ⟨1, 0, 0⟩ .or (negated first) (.ident ⟨2, 0, 0⟩ "q"))
    (negated second)

/-- The negation, a branch to where it is made again, the other truth value and a branch to the
end. -/
def negatedTwiceCode : Code where
  version := formatVersion
  bytes := #[46, 0, 0, 58, 81, 5, 46, 1, 0, 82, 6, 46, 0, 0, 58, 80, 1, 17, 2]
  locals := #[]
  strings := #[]
  types := #[]
  functions := #[]
  branches := [⟨2, 0, .short⟩, ⟨4, 1, .short⟩, ⟨7, 2, .short⟩]

/-- One node for both negations has one label, and the code is that of two nodes. -/
theorem compile_negatedTwice : (negatedTwice 3 3).Shares ∧ ¬ (negatedTwice 3 3).IsTree ∧
    compile flags (negatedTwice 3 3) 8 = .ok negatedTwiceCode ∧
    (negatedTwice 3 3).Unfolds (negatedTwice 3 5) ∧
    compile flags (negatedTwice 3 5) 8 = .ok negatedTwiceCode := by
  have shares : (negatedTwice 3 3).Shares := by
    constructor <;> simp [negatedTwice, negated, Expr.parts, Expr.id, Expr.node]
  have compiled : compile flags (negatedTwice 3 3) 8 = .ok negatedTwiceCode := by cbv
  have unfolds : (negatedTwice 3 3).Unfolds (negatedTwice 3 5) :=
    ⟨.logical rfl (.logical rfl (.unary rfl (.ident rfl)) (.ident rfl))
      (.unary rfl (.ident rfl)), by decide⟩
  exact ⟨shares, by decide, compiled, unfolds, (compile_of_unfolds shares compiled).2 _ unfolds⟩

end ExprCode
