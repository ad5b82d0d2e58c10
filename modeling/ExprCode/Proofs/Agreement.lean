import ExprCode.Proofs.CleanGeneration
import ExprCode.Proofs.CodeParts

/-! # Agreement of typing and emission

Main statement: `rejected_iff_stranded`. A tree that typing accepts is rejected by compilation only
if an array literal in it has an element that does not convert to the element type. Typing brings
the elements together two at a time, so an element may convert to the common type of those before it
and not to that of all. -/

namespace ExprCode

/-- An array literal in the expression has an element that does not convert to the element type. -/
def Stranded (env : Environment) (expr : Expr) : Prop :=
  ∃ node elements element value source, .array node elements ∈ expr.parts ∧ value ∈ elements ∧
    (typingOf env expr).types[node.id]? = some (.array element) ∧
    (typingOf env expr).types[value.id]? = some source ∧
    env.operators.canConvert source element = .ok false

variable {env : Environment} {expr : Expr} {type : Ty} {maxLocals : Nat}

/-- Without such an element, a typed tree can be emitted. -/
theorem emittable_of_not_stranded (tree : expr.IsTree)
    (short : ∀ node elements, .array node elements ∈ expr.parts → elements.length < 2 ^ 31)
    (notStranded : ¬ Stranded env expr) :
    Codegen.Emittable env True (typingOf env expr) expr where
  nodup := tree
  convert _ part inExpr := by
    cases part with
    | array node elements =>
      refine ⟨short node elements inExpr, fun element known value listed source found refused => ?_⟩
      exact notStranded ⟨node, elements, element, value, source, inExpr, listed, known, found,
        refused⟩
    | _ => trivial

/-- A typed tree that can be emitted is not rejected. -/
theorem ne_rejected_of_emittable (tree : expr.IsTree) (checked : check env expr = .ok type)
    (emittable : Codegen.Emittable env True (typingOf env expr) expr)
    (rejection : Rejection) : compile env expr maxLocals ≠ .error (.rejected rejection) := by
  intro rejected
  have generates : Codegen.Generates env True _ _ :=
    Codegen.generates_program emittable (typed_of_check tree checked)
  rw [compile_of_typed (run_of_check checked)] at rejected
  cases run : Codegen.program env (typingOf env expr) expr
      (Emitter.withMaxLocals maxLocals) with
  | error cause emitter =>
    rw [run] at rejected
    cases rejected
    obtain ⟨defect, same⟩ := generates.fails run trivial
    cases same
  | ok _ emitter =>
    simp only [run] at rejected
    cases finished : emitter.finalize with
    | error stopped =>
      rw [finished] at rejected
      cases stopped <;> cases rejected
    | ok code =>
      rw [finished] at rejected
      cases rejected

/-- A tree with such an element has no code. -/
theorem not_stranded_of_compile {code : Code} (tree : expr.IsTree)
    (compiled : compile env expr maxLocals = .ok code) : ¬ Stranded env expr := by
  rintro ⟨node, elements, element, value, source, inExpr, listed, known, found, refused⟩
  obtain ⟨-, isCompiled⟩ := compiled_of_compile tree compiled
  obtain ⟨stop, finish, bodyCode, -⟩ := isCompiled.body
  obtain ⟨converted, isKnown, converts⟩ :=
    (bodyCode.part _ inExpr).elementsConverted element known value listed
  rw [found, Option.some.injEq] at isKnown
  rw [isKnown, converts] at refused
  cases refused

/-- A tree that typing accepts is rejected by compilation exactly if an array literal in it has an
element that does not convert to the element type, unless a defect comes first. -/
theorem rejected_iff_stranded (tree : expr.IsTree)
    (short : ∀ node elements, .array node elements ∈ expr.parts → elements.length < 2 ^ 31)
    (checked : check env expr = .ok type) (maxLocals : Nat) :
    (∃ rejection, compile env expr maxLocals = .error (.rejected rejection)) ↔
      Stranded env expr ∧
        ∀ defect, compile env expr maxLocals ≠ .error (.defect defect) := by
  constructor
  · rintro ⟨rejection, rejected⟩
    refine ⟨Classical.byContradiction fun notStranded => ?_, fun defect h => ?_⟩
    · exact ne_rejected_of_emittable tree checked
        (emittable_of_not_stranded tree short notStranded) rejection rejected
    · rw [rejected] at h
      cases h
  · rintro ⟨stranded, noDefect⟩
    cases result : compile env expr maxLocals with
    | ok code => exact absurd stranded (not_stranded_of_compile tree result)
    | error error =>
      cases error with
      | rejected rejection => exact ⟨rejection, rfl⟩
      | defect defect => exact absurd result (noDefect defect)
      | outOfRange fault => exact absurd result (compile_ne_outOfRange tree fault)

/-- Whole numbers of eight bytes become money without being asked. -/
def savings : Environment where
  variableTypes := #[("coins", .int .i32), ("notes", .int .i64), ("total", .named "Money")]
  operators := ⟨[(.named "Money", ⟨"operator_Implicit", [.int .i64], .named "Money", ⟨0⟩⟩)]⟩

/-- Two numbers and an amount of money. -/
def purse : Expr :=
  .array ⟨0, 0, 0⟩ [.ident ⟨1, 0, 0⟩ "coins", .ident ⟨2, 0, 0⟩ "notes", .ident ⟨3, 0, 0⟩ "total"]

/-- Coins and notes come together as numbers and then become money, but coins by themselves do not:
typing accepts the purse and compilation rejects it. -/
theorem stranded_purse : purse.IsTree ∧ check savings purse = .ok (.array (.named "Money")) ∧
    compile savings purse 64 =
      .error (.rejected ⟨.cannotConvertType, ["Int32", "Money"], some ⟨0, 0⟩⟩) ∧
    Stranded savings purse := by
  have tree : purse.IsTree := by decide
  have checked : check savings purse = .ok (.array (.named "Money")) := by cbv
  have rejected : compile savings purse 64 =
      .error (.rejected ⟨.cannotConvertType, ["Int32", "Money"], some ⟨0, 0⟩⟩) := by cbv
  have short : ∀ node elements, .array node elements ∈ purse.parts → elements.length < 2 ^ 31 := by
    intro node elements inPurse
    simp only [purse, Expr.parts, Expr.partsOfList, List.append_nil, List.cons_append,
      List.nil_append, List.mem_cons, List.not_mem_nil, or_false, Expr.array.injEq,
      reduceCtorEq] at inPurse
    rw [inPurse.2]
    decide
  exact ⟨tree, checked, rejected,
    ((rejected_iff_stranded tree short checked 64).1 ⟨_, rejected⟩).1⟩

end ExprCode
