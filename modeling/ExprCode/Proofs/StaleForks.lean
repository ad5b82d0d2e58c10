import ExprCode.Proofs.Splices

/-! # Forks that are spliced too late

Main statement: `splice_of_leads`. A fork is compared with its parent by five sizes. As long as an
emitter is only given back its own forks, it builds on all its earlier states, so equal sizes mean
equal instructions, locals and tables. Labels are not compared: those that both have defined since
are taken for the same ones, and a splice fails with another defect if both have marked one of
them. -/

namespace ExprCode

/-- An array that starts with another and is no longer is the other. -/
theorem Extends.eq_of_size {α : Type} {first second : Array α} (h : Extends first second)
    (size : second.size = first.size) : second = first := by
  refine Array.ext size fun index inSecond inFirst => ?_
  have found := h index first[index] (Array.getElem?_eq_getElem inFirst)
  rwa [Array.getElem?_eq_getElem inSecond, Option.some.injEq] at found

/-- Interning changes no entry. -/
theorem Table.extends_intern {α κ : Type} [Ord κ] [Std.TransOrd κ] [Std.LawfulEqOrd κ] {key : α → κ}
    (table : Table key) (entry : α) : Extends table.entries (table.intern entry).2.entries := by
  unfold Table.intern
  split
  · exact .refl _
  · dsimp only
    split
    · exact .push _ _
    · exact .refl _

namespace Emitter

variable {before after start parent child later : Emitter}

/-! ## Emitters that build on others -/

/-- Instructions, locals and tables of the second emitter start with those of the first. -/
structure BuildsOn (before after : Emitter) : Prop where
  /-- Instructions stay where they are. -/
  instructions : Extends before.instructions after.instructions
  /-- Locals keep their numbers. -/
  locals : Extends before.locals after.locals
  /-- Strings keep their numbers. -/
  strings : Extends before.strings.entries after.strings.entries
  /-- Types keep their numbers. -/
  types : Extends before.types.entries after.types.entries
  /-- Functions keep their numbers. -/
  functions : Extends before.functions.entries after.functions.entries

/-- Two emitters have the same instructions, locals and tables. -/
structure SameCode (before after : Emitter) : Prop where
  /-- The instructions are the same. -/
  instructions : after.instructions = before.instructions
  /-- The locals are the same. -/
  locals : after.locals = before.locals
  /-- The strings are the same. -/
  strings : after.strings.entries = before.strings.entries
  /-- The types are the same. -/
  types : after.types.entries = before.types.entries
  /-- The functions are the same. -/
  functions : after.functions.entries = before.functions.entries

namespace BuildsOn

/-- An emitter builds on itself. -/
theorem refl (emitter : Emitter) : BuildsOn emitter emitter :=
  ⟨.refl _, .refl _, .refl _, .refl _, .refl _⟩

/-- What builds on an emitter that builds on another builds on that one. -/
theorem trans (first : BuildsOn before later) (second : BuildsOn later after) :
    BuildsOn before after where
  instructions := first.instructions.trans second.instructions
  locals := first.locals.trans second.locals
  strings := first.strings.trans second.strings
  types := first.types.trans second.types
  functions := first.functions.trans second.functions

/-- An update changes nothing that is there. -/
theorem update (step : Update before after) : BuildsOn before after := by
  cases step with
  | append accepted => exact { refl before with instructions := .push _ _ }
  | define count => exact { refl before with }
  | mark unmarked => exact { refl before with }
  | declare type room => exact { refl before with locals := .push _ _ }
  | strings value => exact { refl before with strings := before.strings.extends_intern value }
  | types type => exact { refl before with types := before.types.extends_intern type }
  | functions entry => exact { refl before with functions := before.functions.extends_intern entry }

/-- An emitter that builds on another and is as large has the same instructions, locals and
tables. -/
theorem forkPoint_eq_iff (builds : BuildsOn before after) :
    after.forkPoint = before.forkPoint ↔ SameCode before after := by
  simp only [forkPoint, ForkPoint.mk.injEq, Table.size]
  constructor
  · rintro ⟨instructions, locals, strings, types, functions⟩
    exact ⟨builds.instructions.eq_of_size instructions, builds.locals.eq_of_size locals,
      builds.strings.eq_of_size strings, builds.types.eq_of_size types,
      builds.functions.eq_of_size functions⟩
  · intro same
    rw [same.instructions, same.locals, same.strings, same.types, same.functions]
    exact ⟨rfl, rfl, rfl, rfl, rfl⟩

/-- An emitter builds on itself after a splice, if the child builds on a fork of the emitter as it
was when it was as large. -/
theorem splice {base : Emitter} (builds : BuildsOn base before)
    (buildsChild : BuildsOn base.fork child)
    (forkedFrom : child.forkedFrom = some base.forkPoint) :
    BuildsOn before (afterwards (splice child) before) := by
  unfold afterwards
  cases run : Emitter.splice child before with
  | error defect after =>
    -- a splice that breaks off has changed labels only
    rw [eq_of_splice_error run]
    exact { refl before with }
  | ok value after =>
    obtain ⟨fresh, -, rfl⟩ := splice_eq_ok_iff.1 run
    have size : before.forkPoint = base.forkPoint := by
      rw [forkedFrom, Option.some.injEq] at fresh
      exact fresh.symm
    have same := builds.forkPoint_eq_iff.1 size
    exact
      { instructions := .append _ _
        locals := same.locals ▸ buildsChild.locals
        strings := same.strings ▸ buildsChild.strings
        types := same.types ▸ buildsChild.types
        functions := same.functions ▸ buildsChild.functions }

end BuildsOn

/-! ## Operations after one another -/

/-- Operations lead from one emitter to another, also operations that fail. `own` tells that all
emitters that were spliced on the way are forks of what the emitter had been before, on which
operations were performed. -/
inductive Leads : (own : Bool) → (start now : Emitter) → Prop
  /-- No operation. -/
  | refl (start : Emitter) : Leads true start start
  /-- A command, with any outcome. -/
  | perform {own : Bool} {start now : Emitter} (leads : Leads own start now) (command : Command) :
      Leads own start (afterwards command.perform now)
  /-- A splice of a fork of the emitter, with any outcome. -/
  | splice {own : Bool} {start now base child : Emitter} (leads : Leads own start now)
      (forked : Leads true base now) (leadsChild : Leads true base.fork child) :
      Leads own start (afterwards (Emitter.splice child) now)
  /-- A splice of any emitter, with any outcome. -/
  | foreign {own : Bool} {start now : Emitter} (leads : Leads own start now) (child : Emitter) :
      Leads false start (afterwards (Emitter.splice child) now)

namespace Leads

variable {own ownChild : Bool}

/-- What commands and splices lead to keeps the labels, the marks and the origin. -/
theorem keeps (leads : Leads own before after) : Keeps before after := by
  induction leads with
  | refl => exact .refl _
  | perform _ command ih => exact ih.trans (command.updates.keeps _)
  | splice _ _ _ ih _ _ => exact ih.trans (keeps_splice _ _)
  | foreign _ child ih => exact ih.trans (keeps_splice child _)

/-- An emitter that is only given back its own forks builds on all its earlier states. -/
theorem buildsOn (leads : Leads own before after) : own = true → BuildsOn before after := by
  induction leads with
  | refl => exact fun _ => .refl _
  | perform _ command ih =>
    intro isOwn
    -- a command is a sequence of updates, whatever its outcome
    exact (command.updates _).rec (ih isOwn)
      fun _ step built => built.trans (.update step)
  | splice _ _ leadsChild ih ihForked ihChild =>
    intro isOwn
    exact (ih isOwn).trans
      (.splice (ihForked rfl) (ihChild rfl) leadsChild.keeps.forkedFrom)
  | foreign => exact fun isOwn => nomatch isOwn

end Leads

/-! ## Splices after operations on the parent -/

variable {own ownChild : Bool}

/-- **Stale forks.** Whatever was done since to an emitter and to a fork of it, splicing the fork
fails as stale exactly if instructions, locals or tables of the emitter have become more; if the
emitter was only given back its own forks, exactly if they have changed. Otherwise it fails exactly
if both have marked one label, and labels with the same number become one. -/
theorem splice_of_leads (leads : Leads own parent later)
    (leadsChild : Leads ownChild parent.fork child) :
    (later.forkPoint ≠ parent.forkPoint ↔ splice child later = .error .staleFork later) ∧
      (own = true → (later.forkPoint = parent.forkPoint ↔ SameCode parent later)) ∧
      (later.forkPoint = parent.forkPoint →
        (Apart later child → splice child later = .ok () (graft later child)) ∧
        (¬ Apart later child → ∃ (label : Label) (after : Emitter),
          splice child later = .error (.labelAlreadyMarked label) after ∧
            (∃ position, later.labelPosition? label = some position) ∧
            ∃ position, child.labelPosition? label = some position)) := by
  -- whatever was done to the fork, it remembers the sizes of the parent
  have forkedFrom : child.forkedFrom = some parent.forkPoint := leadsChild.keeps.forkedFrom
  have fresh (size : later.forkPoint = parent.forkPoint) : child.forkedFrom =
      some later.forkPoint := by
    rw [forkedFrom, size]
  have clashes (size : later.forkPoint = parent.forkPoint) (clash : ¬ Apart later child) :
      ∃ (label : Label) (after : Emitter),
        splice child later = .error (.labelAlreadyMarked label) after ∧
          (∃ position, later.labelPosition? label = some position) ∧
          ∃ position, child.labelPosition? label = some position := by
    obtain ⟨label, after, failed, -, marked⟩ := splice_of_clash (fresh size) clash
    exact ⟨label, after, failed, marked⟩
  refine ⟨⟨fun stale => splice_of_stale ?_, fun failed size => ?_⟩,
    fun isOwn => (leads.buildsOn isOwn).forkPoint_eq_iff,
    fun size => ⟨fun apart => splice_eq_ok_iff.2 ⟨fresh size, apart, rfl⟩, clashes size⟩⟩
  · rw [forkedFrom, ne_eq, Option.some.injEq]
    exact fun same => stale same.symm
  · -- with the same sizes, the outcome is another one
    by_cases apart : Apart later child
    · rw [splice_eq_ok_iff.2 ⟨fresh size, apart, rfl⟩] at failed
      cases failed
    · obtain ⟨label, after, other, -⟩ := clashes size apart
      rw [other] at failed
      cases failed

/-- A parent that has declared a local since is found to have changed. -/
theorem stale_declaring :
    splice (afterwards (Command.emit ⟨.nop, .none⟩).perform (withMaxLocals 4).fork)
      (afterwards (Command.declareLocal .bool).perform (withMaxLocals 4)) =
        .error .staleFork (afterwards (Command.declareLocal .bool).perform (withMaxLocals 4)) :=
  (splice_of_leads ((Leads.refl (withMaxLocals 4)).perform (.declareLocal .bool))
    ((Leads.refl (withMaxLocals 4).fork).perform (.emit ⟨.nop, .none⟩))).1.1 (by decide)

/-- A parent that has defined a label since is not found to have changed: its label becomes that of
the fork with the same number, and is marked with it. -/
theorem unnoticed_labels :
    ∃ later child after, Leads true (withMaxLocals 4) later ∧
      Leads true (withMaxLocals 4).fork child ∧
      later.labels.size ≠ (withMaxLocals 4).labels.size ∧ later.labelPosition? 0 = none ∧
      splice child later = .ok () after ∧ after.labelPosition? 0 = some 1 := by
  refine ⟨afterwards Command.defineLabel.perform (withMaxLocals 4),
    afterwards (Command.markLabel 0).perform
      (afterwards (Command.emit ⟨.nop, .none⟩).perform
        (afterwards Command.defineLabel.perform (withMaxLocals 4).fork)), _,
    (Leads.refl _).perform _, (((Leads.refl _).perform _).perform _).perform _, ?_, ?_, rfl, ?_⟩
  · decide
  · rfl
  · rfl

end Emitter

end ExprCode
