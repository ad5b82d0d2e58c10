import Mathlib
import ExprCode.Code.Listing

/-! # Listings

Main statement: `listing_tiles`. Decoding any bytes from the start meets instructions that stand
directly behind each other, up to the end of the code or to the first place where nothing is
decoded. The listing has one entry for each of them, in order and labelled with its offset, and one
more for that place if it is not the end.

In the text of the listing every entry is ended by a line feed. An entry is a single line of the
text unless it shows the name of a function or of a type that holds a line feed itself: such names
are written as they are. -/

namespace ExprCode

/-! ## Digits -/

/-- Written numbers consist of digits. -/
theorem exists_digitChar_of_mem_toDigits {base n : Nat} (large : 1 < base) {c : Char}
    (written : c ∈ Nat.toDigits base n) : ∃ digit < base, c = Nat.digitChar digit := by
  induction n using Nat.strongRecOn with
  | ind n ih =>
    by_cases small : n < base
    · rw [Nat.toDigits_of_lt_base small, List.mem_singleton] at written
      exact ⟨n, small, written⟩
    · rw [Nat.toDigits_of_base_le large (Nat.le_of_not_lt small), List.mem_append,
        List.mem_singleton] at written
      rcases written with before | last
      · exact ih (n / base) (Nat.div_lt_self (by omega) large) before
      · exact ⟨n % base, Nat.mod_lt n (by omega), last⟩

/-- Hexadecimal digits are neither colons nor line feeds. -/
theorem ne_of_mem_toDigits {base n : Nat} (large : 1 < base) (small : base ≤ 16) {c : Char}
    (written : c ∈ Nat.toDigits base n) : c ≠ ':' ∧ c ≠ '\n' := by
  obtain ⟨digit, below, rfl⟩ := exists_digitChar_of_mem_toDigits large written
  have all : ∀ digit < 16, Nat.digitChar digit ≠ ':' ∧ Nat.digitChar digit ≠ '\n' := by decide
  exact all digit (below.trans_le small)

namespace Text

/-- The value of a digit of a number that was written. -/
theorem hexDigit?_digitChar {digit : Nat} (small : digit < 16) :
    hexDigit? (Nat.digitChar digit) = some digit := by
  revert digit
  decide

/-- Written numbers are read back. -/
theorem hexNumber?_toDigits (n : Nat) : hexNumber? (Nat.toDigits 16 n) = some n := by
  induction n using Nat.strongRecOn with
  | ind n ih =>
    by_cases small : n < 16
    · rw [Nat.toDigits_of_lt_base small]
      simp [hexNumber?, hexDigit?_digitChar small]
    · have before := ih (n / 16) (by omega)
      rw [hexNumber?] at before
      rw [Nat.toDigits_of_base_le (by decide) (Nat.le_of_not_lt small), hexNumber?,
        List.foldlM_append, before]
      simp [hexDigit?_digitChar (Nat.mod_lt n (by decide : 0 < 16)), Nat.div_add_mod]

/-- A number is filled up with zeros in front of its digits. -/
theorem toList_hexPadded (width n : Nat) :
    (hexPadded width n).toList =
      List.replicate (width - (Nat.toDigits 16 n).length) '0' ++ Nat.toDigits 16 n := by
  simp [hexPadded]

/-- Zeros in front do not count. -/
theorem hexNumber?_replicate_append (count : Nat) (digits : List Char) :
    hexNumber? (List.replicate count '0' ++ digits) = hexNumber? digits := by
  induction count with
  | zero => rfl
  | succ count ih =>
    rw [List.replicate_succ, List.cons_append, ← ih]
    rfl

/-- Padded numbers are read back. -/
theorem hexNumber?_hexPadded (width n : Nat) : hexNumber? (hexPadded width n).toList = some n := by
  rw [toList_hexPadded, hexNumber?_replicate_append, hexNumber?_toDigits]

/-- A padded number holds neither a colon nor a line feed. -/
theorem ne_of_mem_hexPadded {width n : Nat} {c : Char} (written : c ∈ (hexPadded width n).toList) :
    c ≠ ':' ∧ c ≠ '\n' := by
  rw [toList_hexPadded, List.mem_append] at written
  rcases written with zero | digit
  · rw [List.eq_of_mem_replicate zero]
    decide
  · exact ne_of_mem_toDigits (by decide) (by decide) digit

/-! ## Lines -/

/-- A character in front of a text is in front of its first line. -/
theorem consFirst_append (c : Char) {first : List (List Char)} (nonempty : first ≠ [])
    (rest : List (List Char)) :
    consFirst c (first ++ rest) = consFirst c first ++ rest := by
  cases first with
  | nil => exact absurd rfl nonempty
  | cons line lines => rfl

/-- A character in front of a text adds no line. -/
theorem length_consFirst (c : Char) {lines : List (List Char)} (nonempty : lines ≠ []) :
    (consFirst c lines).length = lines.length := by
  cases lines with
  | nil => exact absurd rfl nonempty
  | cons line lines => rfl

/-- A text that is ended by a line feed has as many lines as line feeds. -/
theorem length_lines (text : List Char) :
    (lines (text ++ ['\n'])).length = text.count '\n' + 1 := by
  induction text with
  | nil => rfl
  | cons c text ih =>
    have nonempty : lines (text ++ ['\n']) ≠ [] := by
      intro empty
      rw [empty] at ih
      cases ih
    rw [List.cons_append, lines]
    split
    · next isFeed => simp [isFeed, ih]
    · next noFeed => rw [length_consFirst c nonempty, ih, List.count_cons_of_ne noFeed]

/-- A text with a line feed has a line. -/
theorem lines_ne_nil (text : List Char) : lines (text ++ ['\n']) ≠ [] := by
  rw [← List.length_pos_iff, length_lines]
  exact Nat.succ_pos _

/-- The lines of a text are those up to a line feed and those behind it. -/
theorem lines_append (text rest : List Char) :
    lines (text ++ '\n' :: rest) = lines (text ++ ['\n']) ++ lines rest := by
  induction text with
  | nil => rfl
  | cons c text ih =>
    rw [List.cons_append, List.cons_append, lines, lines]
    split
    · rw [ih, List.cons_append]
    · rw [ih, consFirst_append c (lines_ne_nil text)]

/-- A text without line feeds is one line. -/
theorem lines_of_notMem {text : List Char} (plain : '\n' ∉ text) :
    lines (text ++ ['\n']) = [text] := by
  induction text with
  | nil => rfl
  | cons c text ih =>
    rw [List.mem_cons, not_or] at plain
    rw [List.cons_append, lines, if_neg (Ne.symm plain.1), ih plain.2]
    rfl

/-- The lines of entries that are ended by line feeds. -/
theorem lines_flatMap (entries : List (List Char)) :
    lines (entries.flatMap (· ++ ['\n'])) = entries.flatMap fun entry =>
      lines (entry ++ ['\n']) := by
  induction entries with
  | nil => rfl
  | cons entry entries ih =>
    rw [List.flatMap_cons, List.append_assoc, List.singleton_append, lines_append, ih,
      List.flatMap_cons]

/-- Entries without line feeds are the lines of their text. -/
theorem lines_of_plain {entries : List (List Char)} (plain : ∀ entry ∈ entries, '\n' ∉ entry) :
    lines (entries.flatMap (· ++ ['\n'])) = entries := by
  rw [lines_flatMap]
  induction entries with
  | nil => rfl
  | cons entry entries ih =>
    rw [List.forall_mem_cons] at plain
    rw [List.flatMap_cons, lines_of_notMem plain.1, ih plain.2]
    rfl

/-- There are no fewer lines than entries, and more if an entry has a line feed. -/
theorem length_lines_flatMap (entries : List (List Char)) :
    (lines (entries.flatMap (· ++ ['\n']))).length =
      entries.length + (entries.map (·.count '\n')).sum := by
  rw [lines_flatMap]
  induction entries with
  | nil => rfl
  | cons entry entries ih =>
    rw [List.flatMap_cons, List.length_append, length_lines, ih, List.length_cons,
      List.map_cons, List.sum_cons]
    omega

/-- Only entries without line feeds have as many lines as there are entries. -/
theorem plain_of_length_lines {entries : List (List Char)}
    (same : (lines (entries.flatMap (· ++ ['\n']))).length = entries.length) :
    ∀ entry ∈ entries, '\n' ∉ entry := by
  rw [length_lines_flatMap] at same
  have noFeeds : (entries.map (·.count '\n')).sum = 0 := by omega
  intro entry listed
  exact List.count_eq_zero.1 (List.sum_eq_zero_iff.1 noFeeds _ (List.mem_map_of_mem listed))

/-! ## Texts on one line -/

/-- Quoted strings are on one line. -/
theorem lineFeed_notMem_quoted (s : String) : '\n' ∉ (quoted s).toList := by
  have plain : ∀ c : Char, '\n' ∉ (quotedChar c).toList := by
    intro c
    unfold quotedChar
    split_ifs with quote backslash feed _ _ _ hidden
    · decide
    · decide
    · decide
    · decide
    · decide
    · decide
    · have digits : '\n' ∉ Nat.toDigits 16 c.toNat := fun written =>
        (ne_of_mem_toDigits (by decide) (by decide) written).2 rfl
      simpa [hexDigits] using digits
    · simpa using Ne.symm feed
  simp [quoted, plain]

/-- A padded number has no line feed. -/
theorem lineFeed_notMem_hexPadded (width n : Nat) : '\n' ∉ (hexPadded width n).toList :=
  fun written =>
  (ne_of_mem_hexPadded written).2 rfl

end Text

/-- Digits have no line feed. -/
theorem lineFeed_notMem_toDigits (n : Nat) : '\n' ∉ Nat.toDigits 10 n := fun written =>
  (ne_of_mem_toDigits (by decide) (by decide) written).2 rfl

/-- An integer is written without a line feed. -/
theorem lineFeed_notMem_int (n : Int) : '\n' ∉ (toString n).toList := by
  rw [Int.toString_eq_repr, Int.repr_eq_if]
  split <;> simp [lineFeed_notMem_toDigits]

/-- Written decimals are on one line. -/
theorem Decimal.lineFeed_notMem_positional (decimal : Decimal) :
    '\n' ∉ decimal.positional.toList := by
  have significant : '\n' ∉ decimal.normalize.1 := by
    intro written
    simp only [normalize, List.mem_reverse] at written
    have digit := (List.dropWhile_sublist _).subset written
    exact lineFeed_notMem_toDigits _ (List.mem_reverse.1 digit)
  have all : '\n' ∉ decimal.places.1 ∧ '\n' ∉ decimal.places.2 := by
    unfold places
    dsimp only
    split
    · simp [significant]
    · have taken (count : Nat) : '\n' ∉ decimal.normalize.1.take count := fun written =>
        significant (List.mem_of_mem_take written)
      have dropped (count : Nat) : '\n' ∉ decimal.normalize.1.drop count := fun written =>
        significant (List.mem_of_mem_drop written)
      simp [taken, dropped]
  unfold positional
  split <;> simp_all

/-- A plain floating-point number is written without a line feed. -/
theorem FloatStyle.lineFeed_notMem_plain (format : FloatFormat) (datum : FloatDatum) :
    '\n' ∉ (plain.render format datum).toList := by
  cases datum with
  | nan => simp [render]
  | infinite negative => cases negative <;> simp [render]
  | finite negative significand exponent =>
    have magnitude : '\n' ∉ (if significand = 0 then plain.zero
        else plain.decimal (Decimal.ofBinary format significand exponent)).toList := by
      split
      · decide
      · exact Decimal.lineFeed_notMem_positional _
    cases negative <;> simpa [render] using magnitude

/-- The text of a type code has no line feed. -/
theorem TypeCode.lineFeed_notMem_text (code : TypeCode) : '\n' ∉ code.text.toList := by
  cases code with
  | int type => cases type <;> decide
  | _ => decide

/-- Mnemonics are on one line and start with a letter. -/
theorem Opcode.mnemonic_eq (op : Opcode) :
    ∃ c rest, op.mnemonic.toList = c :: rest ∧ c ≠ '<' ∧ '\n' ∉ op.mnemonic.toList := by
  cases op with
  | ldlocAt slot | stlocAt slot => simp [mnemonic, lineFeed_notMem_toDigits]
  | binary function => cases function <;> simp [mnemonic]
  | shift direction => cases direction <;> simp [mnemonic]
  | compare relation => cases relation <;> simp [mnemonic]
  | branch condition form => cases condition <;> cases form <;> simp [mnemonic]
  | ldelem kind | stelemAt kind => cases kind <;> simp [mnemonic]
  | _ => simp [mnemonic]

/-! ## Decoding from the start -/

namespace Code

variable {code : Code}

/-- The next instruction is behind the opcode and the operand. -/
theorem next_eq_of_decodeAt? {offset : Nat} {decoded : Decoded}
    (decodes : code.decodeAt? offset = some decoded) :
    decoded.next = offset + decoded.op.encodedLength := by
  unfold decodeAt? at decodes
  split at decodes
  · cases decodes
  · dsimp only at decodes
    split at decodes <;> cases decodes
    rfl

/-- From an offset on, instructions stand directly behind each other at the given offsets, up to a
place where nothing is decoded. -/
inductive Tiles (code : Code) : (start : Nat) → (offsets : List Nat) → (stop : Nat) → Prop
  /-- Nothing is decoded there. -/
  | done {stop : Nat} (undecodable : code.decodeAt? stop = none) : Tiles code stop [] stop
  /-- An instruction, and those behind it. -/
  | instruction {offset stop : Nat} {offsets : List Nat} {decoded : Decoded}
      (decodes : code.decodeAt? offset = some decoded)
      (rest : Tiles code decoded.next offsets stop) :
      Tiles code offset (offset :: offsets) stop

/-- Instructions are met at offsets that tile the code. -/
theorem exists_tiles (code : Code) (start : Nat) :
    ∃ stop, Tiles code start (code.offsetsFrom start) stop := by
  induction start using offsetsFrom.induct code with
  | case1 start undecodable =>
    refine ⟨start, ?_⟩
    rw [offsetsFrom]
    split
    · exact .done undecodable
    · next decodes => cases undecodable.symm.trans decodes
  | case2 start decoded decodes _ ih =>
    obtain ⟨stop, rest⟩ := ih
    refine ⟨stop, ?_⟩
    rw [offsetsFrom]
    split
    · next undecodable => cases undecodable.symm.trans decodes
    · next found =>
      cases found.symm.trans decodes
      exact .instruction decodes rest

/-- Instructions stand at the given offsets: the first at the start of the code and each directly
behind the one before. Behind the last one nothing is decoded. -/
structure Tiled (code : Code) (offsets : List Nat) (stop : Nat) : Prop where
  /-- The first offset is zero; if there is none, nothing is decoded at the start. -/
  start : (offsets ++ [stop])[0]? = some 0
  /-- An instruction is decoded at every offset, and the next offset is behind it. -/
  next : ∀ index offset, offsets[index]? = some offset →
    ∃ decoded, code.decodeAt? offset = some decoded ∧
    (offsets ++ [stop])[index + 1]? = some (offset + decoded.op.encodedLength)
  /-- The last instruction is complete. -/
  inside : stop ≤ code.bytes.size
  /-- Nothing is decoded behind the last instruction. -/
  undecodable : code.decodeAt? stop = none

section Tiles

variable {start stop : Nat} {offsets : List Nat}

/-- A tiling begins at its start. -/
theorem Tiles.head (tiles : Tiles code start offsets stop) :
    (offsets ++ [stop])[0]? = some start := by
  cases tiles <;> rfl

/-- Behind every offset of a tiling is the next one, at the end of its instruction. -/
theorem Tiles.next (tiles : Tiles code start offsets stop) {index offset : Nat}
    (listed : offsets[index]? = some offset) : ∃ decoded, code.decodeAt? offset = some decoded ∧
      (offsets ++ [stop])[index + 1]? = some (offset + decoded.op.encodedLength) := by
  induction tiles generalizing index with
  | done => cases listed
  | @instruction first stop offsets decoded decodes rest ih =>
    cases index with
    | zero =>
      cases listed
      refine ⟨decoded, decodes, ?_⟩
      rw [← next_eq_of_decodeAt? decodes, List.cons_append, List.getElem?_cons_succ, rest.head]
    | succ index => exact ih listed

/-- A tiling that starts within the bytes ends within them. -/
theorem Tiles.inside (tiles : Tiles code start offsets stop) (within : start ≤ code.bytes.size) :
    stop ≤ code.bytes.size := by
  induction tiles with
  | done => exact within
  | instruction decodes _ ih =>
    exact ih (lt_next_of_decodeAt? decodes).2

/-- Nothing can be decoded where a tiling stops. -/
theorem Tiles.undecodable (tiles : Tiles code start offsets stop) : code.decodeAt? stop = none := by
  induction tiles with
  | done undecodable => exact undecodable
  | instruction _ _ ih => exact ih

/-- A tiling from the first byte on tiles the code. -/
theorem Tiles.tiled (tiles : Tiles code 0 offsets stop) : code.Tiled offsets stop :=
  ⟨tiles.head, fun _ _ => tiles.next, tiles.inside (Nat.zero_le _), tiles.undecodable⟩

end Tiles

/-! ## Entries of the listing -/

/-- The offset that a line is labelled with: the number before the first colon. -/
def lineOffset? (line : List Char) : Option Nat := Text.hexNumber? (line.takeWhile (· ≠ ':'))

/-- Whether a line is about a byte that does not start an instruction. -/
def isInvalidLine (line : List Char) : Bool :=
  ": <invalid ".toList.isPrefixOf (line.dropWhile (· ≠ ':'))

/-- A line with a label has the label in front of the first colon. -/
theorem lineOffset?_labelled (offset : Nat) (text : List Char) :
    lineOffset? ((Text.hexPadded 4 offset).toList ++ ':' :: text) = some offset := by
  have digits : ∀ c ∈ (Text.hexPadded 4 offset).toList, (c ≠ ':' : Bool) := fun c written =>
    decide_eq_true (Text.ne_of_mem_hexPadded written).1
  rw [lineOffset?, List.takeWhile_append_of_pos digits, List.takeWhile_cons_of_neg (by decide),
    List.append_nil, Text.hexNumber?_hexPadded]

/-- A labelled line is about an invalid byte if its text says so. -/
theorem isInvalidLine_labelled (offset : Nat) (text : List Char) :
    isInvalidLine ((Text.hexPadded 4 offset).toList ++ ':' :: text) =
      " <invalid ".toList.isPrefixOf text := by
  have digits : ∀ c ∈ (Text.hexPadded 4 offset).toList, (c ≠ ':' : Bool) := fun c written =>
    decide_eq_true (Text.ne_of_mem_hexPadded written).1
  rw [isInvalidLine, List.dropWhile_append_of_pos digits, List.dropWhile_cons_of_neg (by decide)]
  rfl

/-- What a line says by its form: the offset that it is about, and whether that is of a byte that
does not start an instruction. -/
def said (line : List Char) : Option Nat × Bool := (lineOffset? line, isInvalidLine line)

/-- The line of an instruction tells its offset. -/
theorem said_instructionLine (code : Code) (offset : Nat) (decoded : Decoded) :
    said (code.instructionLine offset decoded).toList = (some offset, false) := by
  obtain ⟨c, rest, mnemonic, letter, -⟩ := decoded.op.mnemonic_eq
  have split : (code.instructionLine offset decoded).toList = (Text.hexPadded 4 offset).toList ++
      ':' :: ' ' :: c :: (rest ++ (code.immediateText decoded).toList) := by
    simp [instructionLine, mnemonic]
  rw [said, split, lineOffset?_labelled, isInvalidLine_labelled]
  simp [List.isPrefixOf, Ne.symm letter]

/-- The line of an invalid byte tells its offset, and that it is invalid. -/
theorem said_invalidLine (offset : Nat) (byte : UInt8) :
    said (invalidLine offset byte).toList = (some offset, true) := by
  have split : (invalidLine offset byte).toList = (Text.hexPadded 4 offset).toList ++
      ':' :: (" <invalid ".toList ++ ((Text.hexByte byte).toList ++ ['>'])) := by
    simp [invalidLine]
  rw [said, split, lineOffset?_labelled, isInvalidLine_labelled]
  simp [List.isPrefixOf]

/-- Lines are a listing of the code: one for each instruction, in order and labelled with its
offset, and then one for the first place where nothing is decoded, if that is not the end of the
code. -/
def IsListing (code : Code) (stop : Nat) (lines : List (List Char)) : Prop :=
  lines.map said =
    code.instructionOffsets.map (fun offset => (some offset, false)) ++
      if stop = code.bytes.size then [] else [(some stop, true)]

/-- The lines tell the offsets of a tiling, and where it stops if that is not the end of the
bytes. -/
theorem Tiles.said_linesFrom {start stop : Nat} {offsets : List Nat}
    (tiles : Tiles code start offsets stop)
    (within : start ≤ code.bytes.size) :
    (code.linesFrom start).map (said ·.toList) = offsets.map (fun offset => (some offset, false)) ++
      if stop = code.bytes.size then [] else [(some stop, true)] := by
  -- listing and tiling go from one instruction to the next in the same way
  induction tiles with
  | @done stop undecodable =>
    rw [linesFrom]
    split
    · next decodes => cases undecodable.symm.trans decodes
    · split
      · next byte found =>
        have before := (Array.getElem?_eq_some_iff.1 found).1
        simp [said_invalidLine, Nat.ne_of_lt before]
      · next outside =>
        have atEnd : stop = code.bytes.size :=
          within.antisymm (Array.getElem?_eq_none_iff.1 outside)
        simp [atEnd]
  | @instruction offset stop offsets decoded decodes rest ih =>
    rw [linesFrom]
    split
    · next found =>
      cases found.symm.trans decodes
      rw [List.map_cons, ih (lt_next_of_decodeAt? decodes).2, said_instructionLine]
      rfl
    · next undecodable => cases undecodable.symm.trans decodes

/-! ## The text of the listing -/

/-- The name of a function or of a type that the line of an instruction shows. -/
def nameIn? (code : Code) (decoded : Decoded) : Option String :=
  let token := Bytes.ofBytes decoded.immediate
  match decoded.op.operandKind, decoded.op with
  | .token, .ldstr => none
  | .token, .call => code.functions[token]?.map FunctionEntry.name
  | .token, _ => code.types[token]?.map Ty.text
  | _, _ => none

/-- The text of a table entry has a line feed only if what it shows has one. -/
theorem lineFeed_mem_entryText {α : Type} {table : Array α} {text : α → String} {token : Nat} :
    '\n' ∈ (entryText table text token).toList ↔ ∃ shown, table[token]?.map text = some shown ∧
      '\n' ∈ shown.toList := by
  unfold entryText
  cases table[token]? <;> simp [lineFeed_notMem_toDigits]

/-- The text of a token has a line feed if the name that it stands for has one. -/
theorem lineFeed_mem_tokenText {decoded : Decoded} (kind : decoded.op.operandKind = .token) :
    '\n' ∈ (code.tokenText decoded.op (Bytes.ofBytes decoded.immediate)).toList ↔
      ∃ name, code.nameIn? decoded = some name ∧ '\n' ∈ name.toList := by
  unfold tokenText nameIn?
  dsimp only
  rw [kind]
  cases decoded.op with
  | ldstr => simp [lineFeed_mem_entryText, Text.lineFeed_notMem_quoted]
  | call => simp [lineFeed_mem_entryText, lineFeed_notMem_toDigits]
  | _ => simp [lineFeed_mem_entryText]

/-- The text of an operand has a line feed only if it shows a name that has one. -/
theorem lineFeed_mem_immediateText {decoded : Decoded} :
    '\n' ∈ (code.immediateText decoded).toList ↔
      ∃ name, code.nameIn? decoded = some name ∧ '\n' ∈ name.toList := by
  have unnamed (other : decoded.op.operandKind ≠ .token) : code.nameIn? decoded = none := by
    unfold nameIn?
    cases kind : decoded.op.operandKind with
    | token => exact absurd kind other
    | _ => rfl
  unfold immediateText
  cases kind : decoded.op.operandKind with
  | token =>
    rw [← lineFeed_mem_tokenText kind]
    simp
  | none => simp [unnamed, kind]
  | i8 | i32 | i64 => simp [unnamed, kind, -Int.toString_eq_repr, lineFeed_notMem_int]
  | u8 | u16 => simp [unnamed, kind, lineFeed_notMem_toDigits]
  | f32 => simp [unnamed, kind, Single.render, FloatStyle.lineFeed_notMem_plain]
  | f64 => simp [unnamed, kind, Double.render, FloatStyle.lineFeed_notMem_plain]
  | typeCode =>
    cases found : TypeCode.ofByte? (.ofNat (Bytes.ofBytes decoded.immediate)) with
    | some code => simp [unnamed, kind, found, TypeCode.lineFeed_notMem_text]
    | none => simp [unnamed, kind, found, Text.hexByte, Text.lineFeed_notMem_hexPadded]
  | target8 | target32 =>
    simp [unnamed, kind, targetText, Text.hexSigned, Text.lineFeed_notMem_hexPadded]

/-- The line of an instruction has a line feed only from a name. -/
theorem lineFeed_mem_instructionLine {offset : Nat} {decoded : Decoded} :
    '\n' ∈ (code.instructionLine offset decoded).toList ↔
      ∃ name, code.nameIn? decoded = some name ∧ '\n' ∈ name.toList := by
  obtain ⟨_, _, -, -, plain⟩ := decoded.op.mnemonic_eq
  rw [← lineFeed_mem_immediateText]
  simp [instructionLine, Text.lineFeed_notMem_hexPadded, plain]

/-- The line of an invalid byte has no line feed. -/
theorem lineFeed_notMem_invalidLine (offset : Nat) (byte : UInt8) :
    '\n' ∉ (invalidLine offset byte).toList := by
  simp [invalidLine, Text.hexByte, Text.lineFeed_notMem_hexPadded]

/-- Entries have no line feeds exactly if no name that they show has one. -/
theorem Tiles.plain_iff {start stop : Nat} {offsets : List Nat}
    (tiles : Tiles code start offsets stop) :
    (∀ entry ∈ code.linesFrom start, '\n' ∉ entry.toList) ↔
      ∀ offset ∈ offsets, ∀ decoded, code.decodeAt? offset = some decoded →
        ∀ name, code.nameIn? decoded = some name → '\n' ∉ name.toList := by
  induction tiles with
  | @done stop undecodable =>
    rw [linesFrom]
    split
    · next decodes => cases undecodable.symm.trans decodes
    · split <;> simp [lineFeed_notMem_invalidLine]
  | @instruction offset stop offsets decoded decodes rest ih =>
    rw [linesFrom]
    split
    · next found =>
      cases found.symm.trans decodes
      rw [List.forall_mem_cons, List.forall_mem_cons, ih, lineFeed_mem_instructionLine]
      simp [decodes]
    · next undecodable => cases undecodable.symm.trans decodes

/-- The listing is its lines, with a line feed behind each. -/
theorem toList_listingText (code : Code) :
    code.listingText.toList = (code.listing.map String.toList).flatMap (· ++ ['\n']) := by
  simp [listingText, String.toList_join, List.flatMap_map]

/-- The lines found entry by entry are the lines of the text. -/
theorem listingLines_eq (code : Code) :
    code.listingLines = (Text.lines code.listingText.toList).map String.ofList := by
  rw [toList_listingText, Text.lines_flatMap, List.flatMap_map, List.map_flatMap, listingLines]

/-- The lines of the text are a listing exactly if no entry has a line feed. -/
theorem isListing_lines_iff {stop : Nat}
    (listed : code.IsListing stop (code.listing.map String.toList)) :
    code.IsListing stop (Text.lines code.listingText.toList) ↔ ∀ entry ∈ code.listing,
      '\n' ∉ entry.toList := by
  rw [toList_listingText]
  constructor
  · intro linesListed
    -- as many lines as entries
    have same := congrArg List.length (linesListed.trans listed.symm)
    rw [List.length_map, List.length_map] at same
    exact fun entry member => Text.plain_of_length_lines same _ (List.mem_map_of_mem member)
  · intro plain
    rw [Text.lines_of_plain (List.forall_mem_map.2 plain)]
    exact listed

/-- **Listings tile the code.** Whatever the bytes are, the instructions met from the start stand
directly behind each other, and the listing has one entry for each of them and one for the first
place where nothing is decoded, unless that is the end of the code. The lines of its text are such a
listing too, exactly if no instruction shows a name with a line feed. -/
theorem listing_tiles (code : Code) : ∃ stop, code.Tiled code.instructionOffsets stop ∧
    code.IsListing stop (code.listing.map String.toList) ∧
    (code.IsListing stop (Text.lines code.listingText.toList) ↔
      ∀ offset ∈ code.instructionOffsets, ∀ decoded, code.decodeAt? offset = some decoded →
        ∀ name, code.nameIn? decoded = some name → '\n' ∉ name.toList) := by
  obtain ⟨stop, tiles⟩ := code.exists_tiles 0
  have listed : code.IsListing stop (code.listing.map String.toList) := by
    have said := tiles.said_linesFrom (Nat.zero_le _)
    rw [IsListing, List.map_map]
    exact said
  exact ⟨stop, tiles.tiled, listed, (isListing_lines_iff listed).trans tiles.plain_iff⟩

/-- One instruction that shows the name of a type with a line feed, behind which the name reads like
a line of its own. -/
def forging : Code where
  version := formatVersion
  bytes := #[0x60, 0, 0]
  locals := #[]
  strings := #[]
  types := #[.named "Coin\n0003: <invalid 0xff>"]
  functions := #[]
  branches := []

/-- The code is one complete instruction, but its text has two lines, of which the second tells of a
byte behind the end that does not start an instruction. -/
theorem forging_lines :
    forging.instructionOffsets = [0] ∧ forging.Tiled [0] 3 ∧ forging.bytes.size = 3 ∧
    Text.lines forging.listingText.toList =
      ["0000: newarr Coin".toList, "0003: <invalid 0xff>".toList] ∧
    ¬ forging.IsListing 3 (Text.lines forging.listingText.toList) := by
  have offsets : forging.instructionOffsets = [0] := by cbv
  have lines : Text.lines forging.listingText.toList =
      ["0000: newarr Coin".toList, "0003: <invalid 0xff>".toList] := by cbv
  have tiles : Tiles forging 0 [0] 3 := .instruction rfl (.done rfl)
  refine ⟨offsets, tiles.tiled, rfl, lines, ?_⟩
  rw [IsListing, offsets, lines]
  decide

end Code

end ExprCode
