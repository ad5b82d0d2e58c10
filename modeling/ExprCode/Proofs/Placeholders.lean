import Mathlib
import ExprCode.Message

/-! # Placeholders of messages

Main statement: `substitute_fills`. A template has exactly one reading as a row of pieces:
characters that are kept, and placeholders, each of which is an opening brace, an index of an
argument, and the first closing brace behind it. An opening brace is kept only if it does not start
a placeholder. Messages are written piece by piece, so what an argument puts in is not looked at,
whatever it holds. -/

namespace ExprCode

namespace Message

/-! ## Indices -/

/-- A text writes a number: decimal digits, after a plus sign or not. -/
def WritesIndex (text : List Char) (n : Nat) : Prop :=
  ∃ digits, (text = digits ∨ text = '+' :: digits) ∧ digits ≠ [] ∧ (∀ c ∈ digits, c.isDigit) ∧
    Nat.ofDigitChars 10 digits 0 = n

/-- Digits are read as the number that they write in base ten. -/
theorem digits?_eq_some_iff {digits : List Char} {n : Nat} :
    digits? digits = some n ↔
      digits ≠ [] ∧ (∀ c ∈ digits, c.isDigit) ∧ Nat.ofDigitChars 10 digits 0 = n := by
  cases digits with
  | nil => simp [digits?]
  | cons c digits =>
    rw [Nat.ofDigitChars_eq_foldl]
    simp only [digits?, List.all_eq_true]
    split <;> simp_all

/-- An index is read exactly if it is written. -/
theorem index?_eq_some_iff {text : List Char} {n : Nat} :
    index? text = some n ↔ WritesIndex text n := by
  unfold index?
  split
  · next digits =>
    rw [digits?_eq_some_iff]
    constructor
    · exact fun written => ⟨digits, .inr rfl, written⟩
    · rintro ⟨others, rfl | same, written⟩
      · -- a plus sign is no digit
        exact absurd (written.2.1 '+' List.mem_cons_self) (by decide)
      · cases same
        exact written
  · next unsigned =>
    rw [digits?_eq_some_iff]
    constructor
    · exact fun written => ⟨text, .inl rfl, written⟩
    · rintro ⟨digits, rfl | same, written⟩
      · exact written
      · exact absurd same (unsigned digits)

/-! ## Readings of a template -/

/-- A part of a template. -/
inductive Piece where
  /-- A character that is kept. -/
  | kept (c : Char)
  /-- A placeholder: the text between its braces, and the argument that is put in for it. -/
  | filled (index : List Char) (argument : String)

namespace Piece

/-- The piece as the template writes it. -/
def source : Piece → List Char
  | kept c => [c]
  | filled index _ => '\x7b' :: (index ++ ['\x7d'])

/-- The piece as the message writes it. -/
def text : Piece → List Char
  | kept c => [c]
  | filled _ argument => argument.toList

end Piece

/-- A text between braces names an argument: it ends at the first closing brace and writes the index
of the argument. -/
def Names (arguments : List String) (index : List Char) (argument : String) : Prop :=
  '\x7d' ∉ index ∧ ∃ n, WritesIndex index n ∧ arguments[n]? = some argument

/-- Pieces are a reading of a template. -/
structure Reading (arguments : List String) (template : List Char) (pieces : List Piece) :
    Prop where
  /-- The pieces make up the template. -/
  whole : pieces.flatMap Piece.source = template
  /-- Placeholders name the arguments that are put in for them. -/
  filled : ∀ index argument, .filled index argument ∈ pieces → Names arguments index argument
  /-- Behind an opening brace that is kept, no argument is named. -/
  kept : ∀ before after, pieces = before ++ .kept '\x7b' :: after → ∀ index rest,
    after.flatMap Piece.source = index ++ '\x7d' :: rest →
      ∀ argument, ¬ Names arguments index argument

variable {arguments : List String} {template : List Char} {pieces : List Piece}

/-- A text that names an argument names no other. -/
theorem Names.unique {index : List Char} {argument other : String}
    (names : Names arguments index argument)
    (otherNames : Names arguments index other) : argument = other := by
  obtain ⟨-, n, written, found⟩ := names
  obtain ⟨-, m, otherWritten, otherFound⟩ := otherNames
  rw [← index?_eq_some_iff] at written otherWritten
  cases written.symm.trans otherWritten
  exact Option.some.inj (found.symm.trans otherFound)

/-- Up to the first closing brace. -/
theorem takeWhile_append_brace {index : List Char} (plain : '\x7d' ∉ index) (rest : List Char) :
    (index ++ '\x7d' :: rest).takeWhile (· ≠ '\x7d') = index := by
  rw [List.takeWhile_append_of_pos fun c member => by simpa using ne_of_mem_of_not_mem member plain,
    List.takeWhile_cons_of_neg (by decide), List.append_nil]

/-- From the first closing brace on. -/
theorem dropWhile_append_brace {index : List Char} (plain : '\x7d' ∉ index) (rest : List Char) :
    (index ++ '\x7d' :: rest).dropWhile (· ≠ '\x7d') = '\x7d' :: rest := by
  rw [List.dropWhile_append_of_pos fun c member => by simpa using ne_of_mem_of_not_mem member plain,
    List.dropWhile_cons_of_neg (by decide)]

/-- A text is cut at its first closing brace in one way only. -/
theorem eq_of_append_brace {first second rest others : List Char} (plain : '\x7d' ∉ first)
    (otherPlain : '\x7d' ∉ second)
    (same : first ++ '\x7d' :: rest = second ++ '\x7d' :: others) :
    first = second ∧ rest = others := by
  obtain rfl : first = second := by
    rw [← takeWhile_append_brace plain rest, same, takeWhile_append_brace otherPlain]
  exact ⟨rfl, (List.cons.inj (List.append_cancel_left same)).2⟩

/-- A placeholder is found behind an opening brace exactly if an argument is named there. -/
theorem placeholder?_eq_some_iff {text after : List Char} {argument : String} :
    placeholder? arguments text = some (argument, after) ↔
      ∃ index, text = index ++ '\x7d' :: after ∧ Names arguments index argument := by
  have named {index : List Char} : argument? arguments index = some argument ↔
      ∃ n, WritesIndex index n ∧ arguments[n]? = some argument := by
    simp only [argument?, Option.bind_eq_some_iff, index?_eq_some_iff]
  constructor
  · intro found
    unfold placeholder? at found
    split at found
    · cases found
    · next closing rest behind =>
      obtain ⟨_, isNamed, same⟩ := Option.map_eq_some_iff.1 found
      cases same
      have brace : closing = '\x7d' := by
        have stops := List.head?_dropWhile_not (· ≠ '\x7d') text
        rw [behind] at stops
        simpa using stops
      have parts := List.takeWhile_append_dropWhile (p := (· ≠ '\x7d')) (l := text)
      rw [behind, brace] at parts
      refine ⟨_, parts.symm, fun member => ?_, named.1 isNamed⟩
      simpa using List.mem_takeWhile_imp member
  · rintro ⟨index, rfl, plain, isNamed⟩
    rw [placeholder?, dropWhile_append_brace plain, takeWhile_append_brace plain]
    simp [named.2 isNamed]

/-! ## One reading for every template -/

namespace Reading

/-- Nothing is read from an empty text. -/
theorem nil : Reading arguments [] [] :=
  ⟨rfl, fun _ _ none => absurd none List.not_mem_nil, fun _ _ none => absurd none (by simp)⟩

/-- A character in front that is kept. -/
theorem cons_kept {c : Char} (reading : Reading arguments template pieces)
    (noPlaceholder : c = '\x7b' → placeholder? arguments template = none) :
    Reading arguments (c :: template) (.kept c :: pieces) where
  whole := by rw [List.flatMap_cons, reading.whole]; rfl
  filled index argument member := by
    rcases List.mem_cons.1 member with same | inRest
    · cases same
    · exact reading.filled index argument inRest
  kept before after split index rest behind argument names := by
    cases before with
    | nil =>
      cases split
      have found := placeholder?_eq_some_iff.2 ⟨index, reading.whole.symm.trans behind, names⟩
      rw [noPlaceholder rfl] at found
      cases found
    | cons piece before =>
      cases split
      exact reading.kept before after rfl index rest behind argument names

/-- A placeholder in front. -/
theorem cons_filled {index : List Char} {argument : String}
    (reading : Reading arguments template pieces)
    (names : Names arguments index argument) :
    Reading arguments ('\x7b' :: (index ++ '\x7d' :: template))
      (.filled index argument :: pieces) where
  whole := by rw [List.flatMap_cons, reading.whole]; simp [Piece.source]
  filled other argument member := by
    rcases List.mem_cons.1 member with same | inRest
    · cases same
      exact names
    · exact reading.filled other argument inRest
  kept before after split := by
    cases before with
    | nil => cases split
    | cons piece before =>
      cases split
      exact reading.kept before after rfl

/-- Behind the first piece, the others are a reading of what is left. -/
theorem tail {piece : Piece} (reading : Reading arguments template (piece :: pieces)) :
    Reading arguments (pieces.flatMap Piece.source) pieces where
  whole := rfl
  filled index argument member := reading.filled index argument (List.mem_cons_of_mem _ member)
  kept before after split := reading.kept (piece :: before) after (by rw [split, List.cons_append])

/-- An opening brace that starts a placeholder is not kept. -/
theorem not_kept_of_filled {index : List Char} {argument : String} {others : List Piece} {c : Char}
    (reading : Reading arguments template (.kept c :: pieces))
    (other : Reading arguments template (.filled index argument :: others)) : False := by
  have same := reading.whole.trans other.whole.symm
  simp only [List.flatMap_cons, Piece.source, List.cons_append, List.append_assoc] at same
  obtain ⟨rfl, behind⟩ := List.cons.inj same
  exact reading.kept [] pieces rfl index _ behind argument
    (other.filled index argument List.mem_cons_self)

/-- A template has one reading only. -/
theorem unique {others : List Piece} (reading : Reading arguments template pieces)
    (other : Reading arguments template others) : pieces = others := by
  induction pieces generalizing template others with
  | nil =>
    -- the template is empty, and no piece is
    have empty := other.whole.trans reading.whole.symm
    cases others with
    | nil => rfl
    | cons piece others => cases piece <;> simp [Piece.source] at empty
  | cons piece pieces ih =>
    have same := reading.whole.trans other.whole.symm
    cases others with
    | nil => cases piece <;> simp [Piece.source] at same
    | cons otherPiece others =>
      cases piece with
      | kept c =>
        cases otherPiece with
        | filled index argument => exact (reading.not_kept_of_filled other).elim
        | kept d =>
          obtain ⟨rfl, rest⟩ := List.cons.inj same
          have left : pieces.flatMap Piece.source = others.flatMap Piece.source := rest
          rw [ih reading.tail (left ▸ other.tail)]
      | filled index argument =>
        cases otherPiece with
        | kept c => exact (other.not_kept_of_filled reading).elim
        | filled otherIndex otherArgument =>
          have names := reading.filled index argument List.mem_cons_self
          have otherNames := other.filled otherIndex otherArgument List.mem_cons_self
          simp only [List.flatMap_cons, Piece.source, List.cons_append, List.append_assoc,
            List.cons.injEq, true_and, List.nil_append] at same
          obtain ⟨rfl, rest⟩ := eq_of_append_brace names.1 otherNames.1 same
          rw [names.unique otherNames, ih reading.tail (rest ▸ other.tail)]

end Reading

/-- Substitution writes the message of a reading of the template. -/
theorem exists_reading (arguments : List String) (template : List Char) :
    ∃ pieces, Reading arguments template pieces ∧
      substitute arguments template = pieces.flatMap Piece.text := by
  induction template using substitute.induct arguments with
  | case1 => exact ⟨[], .nil, by rw [substitute]; rfl⟩
  | case2 rest argument after found _ ih =>
    obtain ⟨pieces, reading, written⟩ := ih
    obtain ⟨index, rfl, names⟩ := placeholder?_eq_some_iff.1 found
    refine ⟨_, reading.cons_filled names, ?_⟩
    rw [substitute, if_pos rfl]
    split
    · next other rest again =>
      cases again.symm.trans found
      rw [written]
      rfl
    · next notFound => cases notFound.symm.trans found
  | case3 rest notFound ih =>
    obtain ⟨pieces, reading, written⟩ := ih
    refine ⟨_, reading.cons_kept fun _ => notFound, ?_⟩
    rw [substitute, if_pos rfl]
    split
    · next found => cases notFound.symm.trans found
    · rw [written]
      rfl
  | case4 c rest plain ih =>
    obtain ⟨pieces, reading, written⟩ := ih
    refine ⟨_, reading.cons_kept fun brace => absurd brace plain, ?_⟩
    rw [substitute, if_neg plain, written]
    rfl

/-- **Arguments are put in once, as they are.** Every template has exactly one reading, and
substitution writes it piece by piece: kept characters as they are and arguments in place of
placeholders. The messages of all keys are written so. -/
theorem substitute_fills :
    (∀ (arguments : List String) (template : List Char), ∃ pieces,
      (∀ others, Reading arguments template others ↔ others = pieces) ∧
      substitute arguments template = pieces.flatMap Piece.text) ∧
    ∀ (key : MessageKey) (arguments : List String), ∃ pieces,
      (∀ others, Reading arguments key.template.toList others ↔ others = pieces) ∧
      (key.format arguments).toList = pieces.flatMap Piece.text := by
  have one (arguments : List String) (template : List Char) : ∃ pieces,
      (∀ others, Reading arguments template others ↔ others = pieces) ∧
      substitute arguments template = pieces.flatMap Piece.text := by
    obtain ⟨pieces, reading, written⟩ := exists_reading arguments template
    exact ⟨pieces, fun others => ⟨fun other => other.unique reading, fun same => same ▸ reading⟩,
      written⟩
  refine ⟨one, fun key arguments => ?_⟩
  obtain ⟨pieces, only, written⟩ := one arguments key.template.toList
  exact ⟨pieces, only, by rw [MessageKey.format, String.toList_ofList, written]⟩

/-- Braces and digits that an argument puts in are not looked at, and a brace in front of a
placeholder is kept. -/
example : substitute ["\x7b1\x7d", "net"] "\x7b\x7b0\x7d\x7b+1\x7d\x7b2\x7d".toList =
    "\x7b\x7b1\x7dnet\x7b2\x7d".toList := by cbv

end Message

end ExprCode
