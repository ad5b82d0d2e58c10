import ExprCode.Proofs.Decoding
import ExprCode.Proofs.Emission
import ExprCode.Proofs.FramePool
import ExprCode.Proofs.TypingTables

/-! # Compiled code

Main statement: `compiled_of_compile`. The code of a tree that compiles is the code of the typed
expression, from the first byte on, followed by a return; so what is known of such code is known of
every compiled expression. -/

namespace ExprCode

/-- What typing finds out about an expression. -/
def typingOf (env : Environment) (expr : Expr) : Typing :=
  match (Typing.typeOf env expr []).run {} with
  | .ok _ typing | .error _ typing => typing

/-- Code is that of a typed expression, followed by a return. -/
structure Compiled (env : Environment) (expr : Expr) (code : Code) : Prop where
  /-- The code is meant for this machine. -/
  version : code.version = formatVersion
  /-- The code of the expression and the return. -/
  body : ∃ stop finish, CodeAt code env (typingOf env expr) [] expr ⟨0, 0⟩ stop ∧
    ActionAt code stop .ret finish

/-- Finished code is meant for the version that made it. -/
theorem Emitter.version_of_finalize {emitter : Emitter} {code : Code}
    (h : emitter.finalize = .ok code) : code.version = formatVersion := by
  obtain ⟨_, _, finished⟩ := finished_of_finalize h
  exact finished.version

/-- An emitter without instructions is sound. -/
theorem Emitter.sound_withMaxLocals (env : Environment) (maxLocals : Nat) :
    (Emitter.withMaxLocals maxLocals).Sound env where
  fitting _ listed := absurd listed (Array.not_mem_empty _)
  callable _ listed := absurd listed (Array.not_mem_empty _)
  fewStrings := Nat.zero_le _
  fewTypes := Nat.zero_le _
  fewFunctions := Nat.zero_le _

section

variable {env : Environment} {strict : Prop} {expr : Expr} {maxLocals : Nat} {type : Ty}
  {typing : Typing}

/-- What is emitted for a typed expression. -/
theorem Codegen.generates_program
    (emittable : Emittable env strict typing expr)
    (typed : Typed env typing [] expr type) :
    Generates env strict (program env typing expr)
      (fun _ image start finish => ∃ stop,
        CodeAt image.code env typing [] expr start stop ∧
          ActionAt image.code stop .ret finish) := by
  have code : GeneratesCode env strict typing [] expr (emitExpr env typing expr) :=
    (planned emittable typed rfl).code
  refine (code.bind fun _ => generates_emitOp .ret).mono fun _ _ _ _ => ?_
  rintro ⟨_, stop, bodyCode, returned⟩
  exact ⟨stop, bodyCode, returned⟩

/-- The run of typing behind `check`. -/
theorem run_of_check (checked : check env expr = .ok type) :
    (Typing.typeOf env expr []).run {} = .ok type (typingOf env expr) := by
  unfold check at checked
  cases typed : (Typing.typeOf env expr []).run {} with
  | error error typing =>
    rw [typed] at checked
    cases checked
  | ok found typing =>
    rw [typed] at checked
    cases checked
    rw [typingOf, typed]

/-- A tree that typing accepts is typed. -/
theorem typed_of_check (tree : expr.IsTree) (checked : check env expr = .ok type) :
    Typed env (typingOf env expr) [] expr type :=
  Typing.typed_of_run tree (run_of_check checked)

/-- A tree that compiles is typed, and its code is compiled code. -/
theorem compiled_of_compile {code : Code}
    (tree : expr.IsTree) (h : compile env expr maxLocals = .ok code) :
    (∃ type, Typed env (typingOf env expr) [] expr type) ∧
      Compiled env expr code := by
  obtain ⟨type, typing, emitter, typed, run, finished⟩ := compile_eq_ok h
  have typingEq : typingOf env expr = typing := by rw [typingOf, typed]
  have judgement := Typing.typed_of_run tree typed
  -- no strictness is asked for: the code was accepted
  have generates : Codegen.Generates env False _ _ :=
    Codegen.generates_program ⟨tree, False.elim⟩ judgement
  have emits := generates.emits run
  have sound := emits.grows.sound (Emitter.sound_withMaxLocals env maxLocals)
  obtain ⟨image, rfl, origin, placed⟩ := Emitter.placed_of_finalize sound finished
  obtain ⟨stop, bodyCode, returned⟩ := emits.holds image 0 placed
  have start : image.cursor 0 (Emitter.withMaxLocals maxLocals) = ⟨0, 0⟩ :=
    congrArg (Cursor.mk · 0) origin
  rw [start] at bodyCode
  rw [typingEq]
  refine ⟨⟨type, judgement⟩, Emitter.version_of_finalize finished, stop, _, ?_, returned⟩
  rw [typingEq]
  exact bodyCode

end

end ExprCode
