import ExprCode.Proofs.ParallelPaths
import ExprCode.Proofs.EmitterInvariant

/-! # What calls refer to

Main statement: `emitCall_denotes`. The token of a call that was appended stands for an entry with
the name and the function that were asked for, and goes on standing for it in all that the emitter
becomes, as long as the emitter is only given back its own forks. The number of arguments is another
matter: entries are told apart by name and function alone, so a call with another number of
arguments is given the entry of the call that came first (`call_of_other_arity`). -/

namespace ExprCode

namespace Table

variable {α κ : Type} [Ord κ] [Std.TransOrd κ] [Std.LawfulEqOrd κ] {key : α → κ}
  {table interned : Table key} {entry : α} {number : Nat}

/-- Entries with the same key are one entry. -/
theorem eq_of_key {first second : α} (inFirst : first ∈ table.entries)
    (inSecond : second ∈ table.entries) (same : key first = key second) : first = second := by
  obtain ⟨i, atFirst⟩ := Array.mem_iff_getElem?.1 inFirst
  obtain ⟨j, atSecond⟩ := Array.mem_iff_getElem?.1 inSecond
  have numberFirst : table.index[key first]? = some i :=
    (table.index_eq _ _).2 (by rw [atFirst]; rfl)
  have numberSecond : table.index[key first]? = some j :=
    (table.index_eq _ _).2 (by rw [atSecond, same]; rfl)
  -- the index has one number for their key
  obtain rfl : i = j := Option.some.inj (numberFirst.symm.trans numberSecond)
  exact Option.some.inj (atFirst.symm.trans atSecond)

/-- A key that the index does not know is the key of no entry. -/
theorem key_ne_of_find?_eq_none {wanted : κ} (absent : table.find? wanted = none) :
    ∀ known ∈ table.entries, key known ≠ wanted := by
  intro known listed same
  obtain ⟨there, atNumber⟩ := Array.mem_iff_getElem?.1 listed
  have indexed : table.find? wanted = some there :=
    (table.index_eq _ _).2 (by rw [atNumber, ← same]; rfl)
  rw [absent] at indexed
  cases indexed

/-- What is interned gets the number of the entry with its key, if there is one, and otherwise its
own. -/
theorem entry_of_intern (h : table.intern entry = (some number, interned)) :
    ∃ found, interned.entries[number]? = some found ∧ key found = key entry ∧
      (found ∈ table.entries ∨
        found = entry ∧ ∀ known ∈ table.entries, key known ≠ key entry) := by
  unfold intern at h
  split at h
  · next there known =>
    cases h
    obtain ⟨found, atNumber, same⟩ := Option.map_eq_some_iff.1 ((table.index_eq _ _).1 known)
    exact ⟨found, atNumber, same, .inl (Array.mem_of_getElem? atNumber)⟩
  · next absent =>
    dsimp only at h
    split at h
    · cases h
      exact ⟨entry, Array.getElem?_push_size, rfl, .inr ⟨rfl, key_ne_of_find?_eq_none absent⟩⟩
    · cases h

/-- A table never has more entries than there are tokens. -/
theorem size_intern_le (few : table.entries.size ≤ maxEntries) (entry : α) :
    (table.intern entry).2.entries.size ≤ maxEntries := by
  unfold intern
  split
  · exact few
  · dsimp only
    split
    · next room =>
      simp only [push, Array.size_push]
      exact room
    · exact few

end Table

namespace Emitter

variable {before after child emitter : Emitter}

/-! ## Tokens number all entries -/

/-- No table has more entries than there are tokens. -/
structure FewEntries (emitter : Emitter) : Prop where
  /-- Two bytes number the strings. -/
  strings : emitter.strings.entries.size ≤ maxEntries
  /-- Two bytes number the types. -/
  types : emitter.types.entries.size ≤ maxEntries
  /-- Two bytes number the functions. -/
  functions : emitter.functions.entries.size ≤ maxEntries

/-- An update leaves no more entries than two bytes can number. -/
theorem FewEntries.update (few : before.FewEntries) (step : Update before after) :
    after.FewEntries := by
  cases step with
  | append accepted => exact ⟨few.strings, few.types, few.functions⟩
  | define count => exact ⟨few.strings, few.types, few.functions⟩
  | mark unmarked => exact ⟨few.strings, few.types, few.functions⟩
  | declare type room => exact ⟨few.strings, few.types, few.functions⟩
  | strings value => exact ⟨Table.size_intern_le few.strings value, few.types, few.functions⟩
  | types type => exact ⟨few.strings, Table.size_intern_le few.types type, few.functions⟩
  | functions entry => exact ⟨few.strings, few.types, Table.size_intern_le few.functions entry⟩

/-- Tokens number all entries of every emitter that operations lead to. -/
theorem Reachable.fewEntries {intact : Bool} (reachable : Reachable intact emitter) :
    emitter.FewEntries := by
  induction reachable with
  | new maxLocals => exact ⟨Nat.zero_le _, Nat.zero_le _, Nat.zero_le _⟩
  | perform _ command ih =>
    exact (command.updates _).rec ih fun _ step few => few.update step
  | fork _ few => exact ⟨few.strings, few.types, few.functions⟩
  | splice _ _ spliced _ few =>
    -- the tables become those of the child
    obtain ⟨-, -, rfl⟩ := splice_eq_ok_iff.1 spliced
    exact ⟨few.strings, few.types, few.functions⟩
  | brokenOff _ _ failed few _ =>
    rw [eq_of_splice_error failed]
    exact ⟨few.strings, few.types, few.functions⟩

/-! ## The entry of a call -/

/-- The entry that a call is given: one that was in the table, or else a new one for this call. -/
structure Serves (before : Emitter) (name : String) (arity : Nat) (function : Handle)
    (entry : FunctionEntry) : Prop where
  /-- It is the entry of the function under that name. -/
  key : entry.key = ⟨name, function⟩
  /-- It is new only if the table had none for the function under that name. -/
  origin : entry ∈ before.functions.entries ∨
    entry = ⟨name, arity, function⟩ ∧
      ∀ known ∈ before.functions.entries, known.key ≠ ⟨name, function⟩

/-- A call has the number of arguments that was asked for, unless the table had the function under
that name with another number. -/
theorem Serves.arity_eq_iff {name : String} {arity : Nat} {function : Handle}
    {entry : FunctionEntry}
    (serves : Serves before name arity function entry) :
    entry.arity = arity ↔
      ∀ known ∈ before.functions.entries, known.key = ⟨name, function⟩ → known.arity = arity := by
  rcases serves.origin with old | ⟨rfl, unknown⟩
  · constructor
    · intro asked known listed same
      rwa [Table.eq_of_key listed old (same.trans serves.key.symm)]
    · exact fun alike => alike entry old serves.key
  · exact ⟨fun _ known listed same => absurd same (unknown known listed), fun _ => rfl⟩

/-- A call is appended behind an entry that serves it. -/
theorem serves_of_emitCall {name : String} {arity : Nat} {function : Handle}
    (few : before.FewEntries)
    (called : emitCall name arity function before = .ok () after) :
    ∃ token entry, Serves before name arity function entry ∧
      after.instructions = before.instructions.push ⟨.call, .token token⟩ ∧
      after.functions.entries[token.toNat]? = some entry := by
  obtain ⟨token, middle, tokenRun, emitRun⟩ := bind_eq_ok called
  obtain ⟨-, rfl⟩ := emit_eq_ok emitRun
  rw [functionToken_eq] at tokenRun
  split at tokenRun
  · cases tokenRun
  · obtain ⟨number, functions, interned, rfl, rfl⟩ := lookedUp_eq_ok tokenRun
    obtain ⟨entry, atNumber, key, origin⟩ := Table.entry_of_intern interned
    have small : number < maxEntries := by
      have size := Table.size_intern_le few.functions ⟨name, arity, function⟩
      rw [interned] at size
      exact Nat.lt_of_lt_of_le (Array.getElem?_eq_some_iff.1 atNumber).1 size
    refine ⟨.ofNat number, entry, ⟨key, origin⟩, rfl, ?_⟩
    rw [UInt16.toNat_ofNat_of_lt_maxEntries small]
    exact atNumber

/-- Finished code lists the functions of the emitter. -/
theorem functions_of_finalize {code : Code} (finished : emitter.finalize = .ok code) :
    code.functions = emitter.functions.entries := by
  obtain ⟨_, _, done⟩ := finished_of_finalize finished
  exact done.functions

/-- **Calls refer to the function that was asked for.** The token of a call stands for an entry with
the name and the function that were asked for, and with the number of arguments that was asked for
exactly if the table did not have the function under that name with another number. Whatever is done
to the emitter then, the instruction and the entry stay where they are, also in finished code. -/
theorem emitCall_denotes {intact : Bool} {name : String} {arity : Nat} {function : Handle}
    (reachable : Reachable intact before)
    (called : emitCall name arity function before = .ok () after) :
    ∃ token entry,
      after.instructions = before.instructions.push ⟨.call, .token token⟩ ∧
      entry.name = name ∧ entry.function = function ∧
      (entry.arity = arity ↔
        ∀ known ∈ before.functions.entries, known.key = ⟨name, function⟩ → known.arity = arity) ∧
      ∀ later, Leads true after later →
        later.instructions[before.instructions.size]? = some ⟨.call, .token token⟩ ∧
        later.functions.entries[token.toNat]? = some entry ∧
        ∀ code, later.finalize = .ok code → code.functions[token.toNat]? = some entry := by
  obtain ⟨token, entry, serves, appended, there⟩ := serves_of_emitCall reachable.fewEntries called
  have name_eq : entry.name = name := congrArg FunctionKey.name serves.key
  have function_eq : entry.function = function := congrArg FunctionKey.function serves.key
  refine ⟨token, entry, appended, name_eq, function_eq, serves.arity_eq_iff, fun later leads => ?_⟩
  have builds := leads.buildsOn rfl
  have listed : later.functions.entries[token.toNat]? = some entry :=
    builds.functions _ _ there
  refine ⟨builds.instructions _ _ ?_, listed, fun code finished => ?_⟩
  · rw [appended]
    exact Array.getElem?_push_size
  · rw [functions_of_finalize finished]
    exact listed

/-- An emitter that has called a function with one argument. -/
def callingShare : Emitter := afterwards (Command.call "share" 1 ⟨0⟩).perform (withMaxLocals 4)

/-- The emitter of the example is reachable. -/
theorem reachable_callingShare : Reachable true callingShare := (Reachable.new 4).perform _

/-- A function under the same name that is another one gets an entry of its own, which a fork that
is spliced afterwards leaves where it is. -/
theorem emitCall_other_function :
    ∃ after token entry, emitCall "share" 2 ⟨1⟩ callingShare = .ok () after ∧
      entry = ⟨"share", 2, ⟨1⟩⟩ ∧
      (afterwards (splice after.fork) after).instructions[1]? = some ⟨.call, .token token⟩ ∧
      (afterwards (splice after.fork) after).functions.entries[token.toNat]? = some entry := by
  obtain ⟨after, called⟩ : ∃ after, emitCall "share" 2 ⟨1⟩ callingShare = .ok () after :=
    ⟨_, rfl⟩
  obtain ⟨token, entry, -, name, function, arity, stays⟩ :=
    emitCall_denotes reachable_callingShare called
  have unknown : ∀ known ∈ callingShare.functions.entries,
      known.key = ⟨"share", ⟨1⟩⟩ → known.arity = 2 := by decide
  have exactly : entry = ⟨"share", 2, ⟨1⟩⟩ := by
    obtain ⟨_, _, _⟩ := entry
    cases name
    cases function
    cases arity.2 unknown
    rfl
  obtain ⟨instruction, listed, -⟩ :=
    stays _ ((Leads.refl after).splice (.refl after) (.refl after.fork))
  exact ⟨after, token, entry, called, exactly, instruction, listed⟩

/-- The same function under the same name with another number of arguments is given the entry that
is there. -/
theorem call_of_other_arity :
    ∃ before after token code, Reachable true before ∧
      emitCall "share" 2 ⟨0⟩ before = .ok () after ∧
      after.instructions = before.instructions.push ⟨.call, .token token⟩ ∧
      after.finalize = .ok code ∧ code.functions[token.toNat]? = some ⟨"share", 1, ⟨0⟩⟩ := by
  -- there are no labels that could be unmarked
  obtain ⟨code, finished⟩ :=
    (reachable_callingShare.perform (.call "share" 2 ⟨0⟩)).exists_finalize nofun
  refine ⟨callingShare, _, 0, code, reachable_callingShare, rfl, rfl, finished, ?_⟩
  rw [functions_of_finalize finished]
  rfl

end Emitter

end ExprCode
