import Mathlib.Data.List.Induction
import ExprCode.Proofs.ChainLowering

/-! # Branch targets and the tree of a chain

Main statement: `emitChain_rounds`. The code of a chain is emitted in rounds, each of which takes an
operand and a connective from two stacks that know nothing of the tree. At each round the stacks
hold what comes later in the chain, read from left to right, and the round belongs to one place in
the tree: to the connective that comes next. The branch of the round leads to the right of the
nearest connective around that has this one in its left operand and is of the other kind.

Places in the tree are paths from the root. The connectives around a place that matter are the ones
that have it to their left, `enclosing`; those that have it to their right have left the stacks.
Each round starts at an operand (`AtOperand`), climbs to the connective that decides
(`AtOperand.climb`) and goes down to the next operand (`exists_atOperand`). -/

namespace ExprCode

/-- A side of a connective. -/
inductive Side where
  | left | right

/-- What is met in a chain that is read from left to right. -/
inductive Item (α : Type) where
  /-- An operand. -/
  | operand (operand : α)
  /-- A connective, with the chain to its right. -/
  | connective (pending : Pending α)

namespace Item

variable {α : Type}

/-- The operand that an item is. -/
def operand? : Item α → Option α
  | operand a => some a
  | connective _ => none

/-- The connective that an item is. -/
def pending? : Item α → Option (Pending α)
  | operand _ => none
  | connective pending => some pending

end Item

namespace Chain

variable {α : Type}

/-! ## Places in a chain -/

/-- The part of a chain at the end of a path from its root. -/
def part? : Chain α → List Side → Option (Chain α)
  | chain, [] => some chain
  | operand _, _ :: _ => none
  | joined _ left _, .left :: path => left.part? path
  | joined _ _ right, .right :: path => right.part? path

/-- A chain read from left to right. -/
def inorder : Chain α → List (Item α)
  | operand a => [.operand a]
  | joined connective left right => left.inorder ++ .connective ⟨connective, right⟩ :: right.inorder

/-- What is met before the part at the end of a path. -/
def before : Chain α → List Side → List (Item α)
  | joined _ left _, .left :: path => left.before path
  | joined connective left right, .right :: path =>
      left.inorder ++ .connective ⟨connective, right⟩ :: right.before path
  | _, _ => []

/-- The connectives that have the part at the end of a path to their left, innermost first. -/
def enclosing : Chain α → List Side → List (Pending α)
  | joined connective left right, .left :: path => left.enclosing path ++ [⟨connective, right⟩]
  | joined _ _ right, .right :: path => right.enclosing path
  | _, _ => []

/-- What is met from the innermost of some connectives onwards. -/
def following (outer : List (Pending α)) : List (Item α) :=
  outer.flatMap fun pending => .connective pending :: pending.right.inorder

/-- The empty path leads to the whole chain. -/
@[simp] theorem part?_nil (chain : Chain α) : chain.part? [] = some chain := by
  cases chain <;> rfl

/-- Nothing comes before the whole chain. -/
@[simp] theorem before_nil (chain : Chain α) : chain.before [] = [] := by
  cases chain <;> rfl

/-- Nothing encloses the whole chain. -/
@[simp] theorem enclosing_nil (chain : Chain α) : chain.enclosing [] = [] := by
  cases chain <;> rfl

variable {part : Chain α} {emitted : List (Item α)} {next : α} {stack : Stacks α}

/-- A path through a part is a path in that part. -/
theorem part?_append {chain : Chain α} {path : List Side} (found : chain.part? path = some part)
    (further : List Side) : chain.part? (path ++ further) = part.part? further := by
  induction path generalizing chain with
  | nil =>
    cases (part?_nil chain).symm.trans found
    rfl
  | cons side path ih =>
    cases chain with
    | operand a => cases found
    | joined connective left right => cases side <;> exact ih found

/-- What is met before a part of a part. -/
theorem before_append {chain : Chain α} {path : List Side} (found : chain.part? path = some part)
    (further : List Side) :
    chain.before (path ++ further) = chain.before path ++ part.before further := by
  induction path generalizing chain with
  | nil =>
    cases (part?_nil chain).symm.trans found
    simp
  | cons side path ih =>
    cases chain with
    | operand a => cases found
    | joined connective left right =>
      cases side with
      | left => exact ih found
      | right => simp [before, ih found]

/-- The connectives around a part of a part: those in the part come first. -/
theorem enclosing_append {chain : Chain α} {path : List Side} (found : chain.part? path = some part)
    (further : List Side) :
    chain.enclosing (path ++ further) = part.enclosing further ++ chain.enclosing path := by
  induction path generalizing chain with
  | nil =>
    cases (part?_nil chain).symm.trans found
    simp
  | cons side path ih =>
    cases chain with
    | operand a => cases found
    | joined connective left right =>
      cases side with
      | left => simp [enclosing, ih found]
      | right => exact ih found

/-- A path that can be gone to its end leads through a connective before its last step. -/
theorem exists_joined_of_part?_concat {chain : Chain α} {path : List Side} {side : Side}
    (found : chain.part? (path ++ [side]) = some part) :
    ∃ connective left right, chain.part? path = some (joined connective left right) ∧
      (side = .left ∧ part = left ∨ side = .right ∧ part = right) := by
  induction path generalizing chain with
  | nil =>
    cases chain with
    | operand a => cases found
    | joined connective left right =>
      refine ⟨connective, left, right, rfl, ?_⟩
      cases side with
      | left => exact .inl ⟨rfl, Option.some.inj (found.symm.trans (part?_nil left))⟩
      | right => exact .inr ⟨rfl, Option.some.inj (found.symm.trans (part?_nil right))⟩
  | cons step path ih =>
    cases chain with
    | operand a => cases found
    | joined connective left right => cases step <;> exact ih found

section Sides

variable {chain left right : Chain α} {path : List Side} {connective : Connective}

/-- The left operand of a connective. -/
theorem part?_left (found : chain.part? path = some (joined connective left right)) :
    chain.part? (path ++ [.left]) = some left :=
  (part?_append found _).trans (part?_nil left)

/-- The right operand of a connective. -/
theorem part?_right (found : chain.part? path = some (joined connective left right)) :
    chain.part? (path ++ [.right]) = some right :=
  (part?_append found _).trans (part?_nil right)

/-- What comes before a left part comes before the whole. -/
theorem before_left (found : chain.part? path = some (joined connective left right)) :
    chain.before (path ++ [.left]) = chain.before path := by
  simp [before_append found, before]

/-- The left part and the connective come before a right part. -/
theorem before_right (found : chain.part? path = some (joined connective left right)) :
    chain.before (path ++ [.right]) =
      chain.before path ++ left.inorder ++ [.connective ⟨connective, right⟩] := by
  simp [before_append found, before]

/-- A left part is enclosed by its connective as well. -/
theorem enclosing_left (found : chain.part? path = some (joined connective left right)) :
    chain.enclosing (path ++ [.left]) = ⟨connective, right⟩ :: chain.enclosing path := by
  simp [enclosing_append found, enclosing]

/-- A right part is enclosed by what encloses the whole. -/
theorem enclosing_right (found : chain.part? path = some (joined connective left right)) :
    chain.enclosing (path ++ [.right]) = chain.enclosing path := by
  simp [enclosing_append found, enclosing]

end Sides

/-- A chain is read up to a part, through it, and on from the connectives around it. -/
theorem inorder_eq_of_part? {chain : Chain α} {path : List Side}
    (found : chain.part? path = some part) :
    chain.inorder = chain.before path ++ (part.inorder ++ following (chain.enclosing path)) := by
  induction path generalizing chain with
  | nil =>
    cases (part?_nil chain).symm.trans found
    simp [following]
  | cons side path ih =>
    cases chain with
    | operand a => cases found
    | joined connective left right =>
      cases side with
      | left =>
        have inLeft : left.inorder = _ := ih found
        simp [inorder, before, enclosing, following, inLeft]
      | right =>
        have inRight : right.inorder = _ := ih found
        simp [inorder, before, enclosing, inRight]

/-! ## What the stacks hold -/

/-- The connectives of a chain are met in the order in which they wait. -/
theorem filterMap_pending?_inorder (chain : Chain α) :
    chain.inorder.filterMap Item.pending? = chain.connectives := by
  induction chain with
  | operand a => rfl
  | joined connective left right ihLeft ihRight =>
    simp [inorder, connectives, ihLeft, ihRight, Item.pending?]

/-- The operands of a chain are met from left to right. -/
theorem filterMap_operand?_inorder (chain : Chain α) :
    chain.inorder.filterMap Item.operand? = chain.operands := by
  induction chain with
  | operand a => rfl
  | joined connective left right ihLeft ihRight =>
    simp [inorder, operands, ihLeft, ihRight, Item.operand?, List.filterMap_cons]

/-- What waits behind a part is what is met later. -/
theorem waiting_eq (outer : List (Pending α)) :
    waiting outer =
      ⟨(following outer).filterMap Item.pending?, (following outer).filterMap Item.operand?⟩ := by
  induction outer with
  | nil => rfl
  | cons pending outer ih =>
    rw [waiting, ih, ← filterMap_pending?_inorder, ← filterMap_operand?_inorder]
    simp [following, Item.pending?, Item.operand?, List.filterMap_cons]

/-- A chain has one operand more than it has connectives. -/
theorem length_operands (chain : Chain α) :
    chain.operands.length = chain.connectives.length + 1 := by
  induction chain with
  | operand a => rfl
  | joined connective left right ihLeft ihRight =>
    simp only [operands, connectives, List.length_append, List.length_cons]
    omega

/-- As many operands wait behind a part as connectives. -/
theorem length_waiting (outer : List (Pending α)) :
    (waiting outer).operands.length = (waiting outer).operators.length := by
  induction outer with
  | nil => rfl
  | cons pending outer ih =>
    have right := pending.right.length_operands
    simp only [waiting, List.length_append, List.length_cons]
    omega

/-! ## Rounds -/

/-- What has been emitted and what the stacks hold when a round begins, at some round of the
emission of a chain. -/
inductive Visits (chain : Chain α) : List (Item α) → Stacks α → Prop
  /-- At first the stacks are as the chain populates them. -/
  | start : Visits chain [] (chain.populate {})
  /-- A round takes an operand and a connective. -/
  | round {emitted : List (Item α)} {pending : Pending α} {operators : List (Pending α)}
      {operand : α}
      {operands : List α}
      (visits : Visits chain emitted ⟨pending :: operators, operand :: operands⟩) :
      Visits chain (emitted ++ [.operand operand, .connective pending]) ⟨operators, operands⟩

/-- A round begins at the operand at the end of a path: what is met before has been emitted, and
what is met later waits. -/
structure AtOperand (chain : Chain α) (emitted : List (Item α)) (stack : Stacks α)
    (path : List Side)
    (next : α) : Prop where
  /-- The operand is at the end of the path. -/
  found : chain.part? path = some (operand next)
  /-- What has been emitted is what is met before. -/
  emitted_eq : emitted = chain.before path
  /-- The operand is on top, and what waits behind it is below. -/
  stack_eq : stack =
    ⟨(waiting (chain.enclosing path)).operators, next :: (waiting (chain.enclosing path)).operands⟩

/-- If all of a part is on the stacks, its first operand is next. -/
theorem exists_atOperand {chain : Chain α} {path : List Side}
    (found : chain.part? path = some part) :
    ∃ further next, chain.AtOperand (chain.before path)
      ⟨part.connectives ++ (waiting (chain.enclosing path)).operators,
        part.operands ++ (waiting (chain.enclosing path)).operands⟩ further next := by
  induction part generalizing path with
  | operand a => exact ⟨path, a, found, rfl, rfl⟩
  | joined connective left right ihLeft _ =>
    -- the connective and its right operand wait behind the left operand
    obtain ⟨further, next, atOperand⟩ := ihLeft (part?_left found)
    rw [before_left found, enclosing_left found] at atOperand
    refine ⟨further, next, ?_⟩
    simpa [connectives, operands, waiting] using atOperand

/-- The innermost connective that has a part to its left comes right behind that part. -/
theorem exists_part?_of_enclosing {chain : Chain α} {path : List Side} {pending : Pending α}
    {outer : List (Pending α)} (found : chain.part? path = some part)
    (innermost : chain.enclosing path = pending :: outer) :
    ∃ above left, chain.part? above = some (joined pending.connective left pending.right) ∧
      chain.enclosing above = outer ∧
      chain.before above ++ left.inorder = chain.before path ++ part.inorder := by
  induction path using List.reverseRecOn generalizing part with
  | nil => simp at innermost
  | append_singleton path side ih =>
    obtain ⟨connective, left, right, joinedFound, ⟨rfl, rfl⟩ | ⟨rfl, rfl⟩⟩ :=
      exists_joined_of_part?_concat found
    · rw [enclosing_left joinedFound] at innermost
      cases innermost
      exact ⟨path, part, joinedFound, rfl, by rw [before_left joinedFound]⟩
    · -- a connective ends with its right operand, so the search goes on behind it
      rw [enclosing_right joinedFound] at innermost
      obtain ⟨above, outerLeft, outerFound, outerEnclosing, same⟩ := ih joinedFound innermost
      refine ⟨above, outerLeft, outerFound, outerEnclosing, ?_⟩
      rw [same, before_right joinedFound]
      simp [inorder]

/-- A round that takes a connective: its place in the tree, and the stacks without it. -/
structure AtConnective (chain : Chain α) (emitted : List (Item α)) (pending : Pending α)
    (rest : Stacks α) (path : List Side) (left : Chain α) : Prop where
  /-- The connective is at the end of the path. -/
  found : chain.part? path = some (joined pending.connective left pending.right)
  /-- What has been emitted ends with the left operand. -/
  emitted_eq : emitted = chain.before path ++ left.inorder
  /-- The right operand is on top, and what waits behind the connective is below. -/
  rest_eq : rest = ⟨pending.right.connectives ++ (waiting (chain.enclosing path)).operators,
    pending.right.operands ++ (waiting (chain.enclosing path)).operands⟩

/-- The connective that is taken with an operand is the innermost that has the operand to its
left. -/
theorem AtOperand.climb {chain : Chain α} {pending : Pending α} {operators : List (Pending α)}
    {operand : α} {operands : List α} {path : List Side}
    (atOperand : chain.AtOperand emitted ⟨pending :: operators, operand :: operands⟩ path next) :
    ∃ above left,
      chain.AtConnective (emitted ++ [.operand operand]) pending ⟨operators, operands⟩ above
        left := by
  obtain ⟨found, rfl, same⟩ := atOperand
  cases outer : chain.enclosing path with
  | nil =>
    rw [outer] at same
    cases same
  | cons innermost outer =>
    rw [outer, waiting] at same
    cases same
    obtain ⟨above, left, aboveFound, rfl, read⟩ := exists_part?_of_enclosing found outer
    exact ⟨above, left, aboveFound, read.symm, rfl⟩

/-- After a round the next operand is the first one on the right. -/
theorem AtConnective.descend {chain : Chain α} {pending : Pending α} {rest : Stacks α}
    {path : List Side} {left : Chain α}
    (atConnective : chain.AtConnective emitted pending rest path left) :
    ∃ further next, chain.AtOperand (emitted ++ [.connective pending]) rest further next := by
  obtain ⟨found, rfl, rfl⟩ := atConnective
  have down := exists_atOperand (part?_right found)
  rwa [before_right found, enclosing_right found] at down

/-- Every round begins at an operand of the tree. -/
theorem Visits.exists_atOperand {chain : Chain α} (visits : chain.Visits emitted stack) :
    ∃ path next, chain.AtOperand emitted stack path next := by
  induction visits with
  | start =>
    rw [populate_eq]
    simpa [waiting] using Chain.exists_atOperand (part?_nil chain)
  | round _ ih =>
    obtain ⟨path, next, atOperand⟩ := ih
    obtain ⟨above, left, atConnective⟩ := atOperand.climb
    simpa using atConnective.descend

/-- What has been emitted and what is on the stacks make up the chain. -/
theorem AtOperand.exists_rest {chain : Chain α} {path : List Side}
    (atOperand : chain.AtOperand emitted stack path next) :
    ∃ rest, emitted ++ rest = chain.inorder ∧ stack.operators = rest.filterMap Item.pending? ∧
      stack.operands = rest.filterMap Item.operand? := by
  obtain ⟨found, rfl, rfl⟩ := atOperand
  refine ⟨_, (inorder_eq_of_part? found).symm, ?_, ?_⟩ <;>
    simp [waiting_eq, inorder, Item.pending?, Item.operand?, List.filterMap_cons]

/-- One operand more than connectives is on the stacks. -/
theorem AtOperand.length {chain : Chain α} {path : List Side}
    (atOperand : chain.AtOperand emitted stack path next) :
    stack.operands.length = stack.operators.length + 1 := by
  rw [atOperand.stack_eq, List.length_cons, length_waiting]

/-- Rounds go through a part of which all is on the stacks. -/
theorem Visits.through {chain : Chain α} (part : Chain α) {pending : Pending α}
    {operators : List (Pending α)} {operands : List α}
    (visits : chain.Visits emitted
      ⟨part.connectives ++ pending :: operators, part.operands ++ operands⟩) :
    ∃ sofar last, chain.Visits sofar ⟨pending :: operators, last :: operands⟩ ∧
      sofar ++ [.operand last] = emitted ++ part.inorder := by
  induction part generalizing emitted pending operators operands with
  | operand a => exact ⟨emitted, a, visits, rfl⟩
  | joined connective left right ihLeft ihRight =>
    simp only [connectives, Chain.operands, List.append_assoc, List.cons_append] at visits
    obtain ⟨sofar, last, visits, read⟩ := ihLeft visits
    obtain ⟨further, final, visits, readOn⟩ := ihRight visits.round
    refine ⟨further, final, visits, ?_⟩
    rw [readOn, List.append_cons, read]
    simp [inorder]

/-- At some round all of a part is on the stacks. -/
theorem visits_part {chain : Chain α} {path : List Side} (found : chain.part? path = some part) :
    chain.Visits (chain.before path)
      ⟨part.connectives ++ (waiting (chain.enclosing path)).operators,
        part.operands ++ (waiting (chain.enclosing path)).operands⟩ := by
  induction path using List.reverseRecOn generalizing part with
  | nil =>
    cases (part?_nil chain).symm.trans found
    have first : chain.Visits [] _ := .start
    rw [populate_eq] at first
    simpa [waiting] using first
  | append_singleton path side ih =>
    obtain ⟨connective, left, right, joinedFound, sides⟩ := exists_joined_of_part?_concat found
    have visits := ih joinedFound
    simp only [connectives, operands, List.append_assoc, List.cons_append] at visits
    rcases sides with ⟨rfl, rfl⟩ | ⟨rfl, rfl⟩
    · rw [before_left joinedFound, enclosing_left joinedFound]
      exact visits
    · obtain ⟨sofar, last, visits, read⟩ := visits.through
      rw [before_right joinedFound, enclosing_right joinedFound, ← read]
      simpa using visits.round

/-- Every connective of a chain is taken in some round. -/
theorem exists_visits_connective {chain left right : Chain α} {path : List Side}
    {connective : Connective} (found : chain.part? path = some (joined connective left right)) :
    ∃ emitted operators operand operands,
      chain.Visits emitted ⟨⟨connective, right⟩ :: operators, operand :: operands⟩ ∧
      emitted ++ [.operand operand] = chain.before path ++ left.inorder := by
  have visits := visits_part (part?_left found)
  rw [enclosing_left found, before_left found] at visits
  obtain ⟨emitted, operand, visits, read⟩ := visits.through
  exact ⟨emitted, _, operand, _, visits, read⟩

/-! ## Popping -/

/-- The chains that are popped, and the stacks they are popped from, in the search for the place to
go to when a connective is decided: its right operand, and then the right operands of the
connectives of its kind that follow. -/
inductive Pops (pending : Pending α) (stack : Stacks α) : Chain α → Stacks α → Prop
  /-- The right operand of the connective. -/
  | right : Pops pending stack pending.right stack
  /-- The right operand of the next connective, if it is of the same kind. -/
  | outwards {popped : Chain α} {held : Stacks α} {outer : Pending α} {operators : List (Pending α)}
      {operands : List α} (pops : Pops pending stack popped held)
      (left : popped.pop held = .ok ⟨outer :: operators, operands⟩)
      (same : outer.connective = pending.connective) :
      Pops pending stack outer.right ⟨operators, operands⟩

/-- All of a popped chain is on top of the stacks. -/
theorem Pops.exists_waiting {pending : Pending α} {outer : List (Pending α)} {popped : Chain α}
    (pops : Pops pending ⟨pending.right.connectives ++ (waiting outer).operators,
      pending.right.operands ++ (waiting outer).operands⟩ popped stack) :
    ∃ further, stack = ⟨popped.connectives ++ (waiting further).operators,
      popped.operands ++ (waiting further).operands⟩ := by
  induction pops with
  | right => exact ⟨outer, rfl⟩
  | outwards _ left _ ih =>
    obtain ⟨further, rfl⟩ := ih
    rw [pop_waiting] at left
    cases further with
    | nil => cases left
    | cons next further =>
      cases left
      exact ⟨further, rfl⟩

/-! ## Where a decided connective leads -/

/-- The connective at the end of a path has a place to its left. -/
structure HasOnLeft (chain : Chain α) (path above : List Side) (pending : Pending α) : Prop where
  /-- The place is reached through the left operand. -/
  through : above ++ [.left] <+: path
  /-- The connective is at the end of the path. -/
  found : ∃ left, chain.part? above = some (joined pending.connective left pending.right)

/-- Where a connective of a kind leads, at the end of a path, when it is decided. -/
inductive LeadsTo (place : α → BranchKey) (chain : Chain α) (path : List Side)
    (connective : Connective) : BranchKey → Prop
  /-- To the first operand on the right of the nearest connective of the other kind that has the
  place to its left. -/
  | onwards {above : List Side} {pending : Pending α} (holds : chain.HasOnLeft path above pending)
      (opposite : pending.connective ≠ connective)
      (nearest : ∀ between other, chain.HasOnLeft path between other →
        above.length < between.length → other.connective = connective) :
      LeadsTo place chain path connective (place pending.right.first)
  /-- To the place where the result is made, if there is no such connective. -/
  | decided (same : ∀ above other, chain.HasOnLeft path above other →
      other.connective = connective) :
      LeadsTo place chain path connective
        (if connective = .and then .falseTerminal else .trueTerminal)

section HasOnLeft

variable {chain left right : Chain α} {path above : List Side} {connective : Connective}
  {pending : Pending α}

/-- Nothing has the whole chain to its left. -/
theorem not_hasOnLeft_nil : ¬ chain.HasOnLeft [] above pending := by
  rintro ⟨through, -⟩
  simp at through

/-- What has the left operand of a connective to its left: that connective, and what has it to its
left. -/
theorem hasOnLeft_left_iff (found : chain.part? path = some (joined connective left right)) :
    chain.HasOnLeft (path ++ [.left]) above pending ↔
      above = path ∧ pending = ⟨connective, right⟩ ∨ chain.HasOnLeft path above pending := by
  constructor
  · rintro ⟨through, aboveLeft, aboveFound⟩
    rcases List.prefix_concat_iff.1 through with same | through
    · cases List.append_cancel_right same
      cases found.symm.trans aboveFound
      exact .inl ⟨rfl, rfl⟩
    · exact .inr ⟨through, aboveLeft, aboveFound⟩
  · rintro (⟨rfl, rfl⟩ | ⟨through, aboveFound⟩)
    · exact ⟨List.prefix_rfl, left, found⟩
    · exact ⟨through.trans (List.prefix_append ..), aboveFound⟩

/-- What has the right operand of a connective to its left has the connective to its left. -/
theorem hasOnLeft_right_iff :
    chain.HasOnLeft (path ++ [.right]) above pending ↔ chain.HasOnLeft path above pending := by
  constructor
  · rintro ⟨through, aboveFound⟩
    rcases List.prefix_concat_iff.1 through with same | through
    · cases (List.append_inj' same rfl).2
    · exact ⟨through, aboveFound⟩
  · rintro ⟨through, aboveFound⟩
    exact ⟨through.trans (List.prefix_append ..), aboveFound⟩

/-- A connective that has a place to its left is above that place. -/
theorem HasOnLeft.length_lt (holds : chain.HasOnLeft path above pending) :
    above.length < path.length := by
  have length := holds.through.length_le
  rw [List.length_append] at length
  exact length

/-- No two connectives that have a place to their left are at the same height. -/
theorem HasOnLeft.unique {other : List Side} {otherPending : Pending α}
    (holds : chain.HasOnLeft path above pending)
    (holdsOther : chain.HasOnLeft path other otherPending)
    (same : above.length = other.length) : pending = otherPending := by
  obtain ⟨through, left, found⟩ := holds
  obtain ⟨otherThrough, otherLeft, otherFound⟩ := holdsOther
  have paths : above ++ [.left] = other ++ [.left] :=
    (List.prefix_of_prefix_length_le through otherThrough (by simp [same])).eq_of_length
      (by simp [same])
  cases List.append_cancel_right paths
  cases pending
  cases otherPending
  cases found.symm.trans otherFound
  rfl

end HasOnLeft

/-- A decided connective leads to one place only. -/
theorem LeadsTo.unique {place : α → BranchKey} {chain : Chain α} {path : List Side}
    {connective : Connective} {key other : BranchKey}
    (leads : chain.LeadsTo place path connective key)
    (leadsOther : chain.LeadsTo place path connective other) : key = other := by
  cases leads with
  | onwards holds opposite nearest =>
    cases leadsOther with
    | onwards holdsOther oppositeOther nearestOther =>
      rcases lt_trichotomy (List.length _) (List.length _) with shorter | same | longer
      · exact absurd (nearest _ _ holdsOther shorter) oppositeOther
      · rw [holds.unique holdsOther same]
      · exact absurd (nearestOther _ _ holds longer) opposite
    | decided same => exact absurd (same _ _ holds) opposite
  | decided same =>
    cases leadsOther with
    | onwards holds opposite nearest => exact absurd (same _ _ holds) opposite
    | decided => rfl

/-- Only connectives of the same kind may come in between. -/
theorem LeadsTo.mono {place : α → BranchKey} {chain : Chain α} {path further : List Side}
    {connective : Connective} {key : BranchKey} (leads : chain.LeadsTo place path connective key)
    (keeps : ∀ above pending, chain.HasOnLeft path above pending →
      chain.HasOnLeft further above pending)
    (adds : ∀ above pending, chain.HasOnLeft further above pending →
      chain.HasOnLeft path above pending ∨ pending.connective = connective) :
    chain.LeadsTo place further connective key := by
  cases leads with
  | onwards holds opposite nearest =>
    refine .onwards (keeps _ _ holds) opposite fun between other holdsOther longer => ?_
    exact (adds between other holdsOther).elim (nearest between other · longer) id
  | decided same =>
    exact .decided fun above other holds => (adds above other holds).elim (same above other) id

/-- The place found around a part is where a connective in its place leads. -/
theorem leadsTo_destination (place : α → BranchKey) (connective : Connective) {chain : Chain α}
    {path : List Side} (found : chain.part? path = some part) :
    chain.LeadsTo place path connective (destination place connective (chain.enclosing path)) := by
  induction path using List.reverseRecOn generalizing part with
  | nil =>
    rw [enclosing_nil]
    cases connective <;> exact .decided fun _ _ holds => absurd holds not_hasOnLeft_nil
  | append_singleton path side ih =>
    obtain ⟨kind, left, right, joinedFound, sides⟩ := exists_joined_of_part?_concat found
    have outer := ih joinedFound
    rcases sides with ⟨rfl, -⟩ | ⟨rfl, -⟩
    · rw [enclosing_left joinedFound, destination]
      split
      · next same =>
        -- the connective is decided as well
        refine outer.mono (fun _ _ holds => (hasOnLeft_left_iff joinedFound).2 (.inr holds)) ?_
        intro above pending holds
        obtain ⟨-, rfl⟩ | holds := (hasOnLeft_left_iff joinedFound).1 holds
        · exact .inr same
        · exact .inl holds
      · next opposite =>
        -- the connective goes on with its right operand, and there is none nearer
        refine .onwards ((hasOnLeft_left_iff joinedFound).2 (.inl ⟨rfl, rfl⟩)) opposite ?_
        intro between other holds longer
        obtain ⟨rfl, -⟩ | holds := (hasOnLeft_left_iff joinedFound).1 holds
        · exact absurd longer (lt_irrefl _)
        · exact absurd longer (lt_asymm holds.length_lt)
    · rw [enclosing_right joinedFound]
      exact outer.mono (fun _ _ => hasOnLeft_right_iff.2) fun _ _ holds =>
        .inl (hasOnLeft_right_iff.1 holds)

end Chain

namespace Frame

variable {σ : Type} [HasEmitter σ]

/-- **Rounds follow the tree.** Each connective is taken in some round. When a round begins, the
stacks hold what comes later than what has been emitted, and one operand more than connectives; so
it is after the round. A round takes the connective whose left operand ends with the operand that is
emitted. The search for its target pops whole chains that are on top of the stacks, and the target
is where the connective leads in the tree. -/
theorem emitChain_rounds (chain : Chain (ChainOperand σ)) :
    (∀ path connective left right, chain.part? path = some (.joined connective left right) →
      ∃ emitted operators operand operands,
        chain.Visits emitted ⟨⟨connective, right⟩ :: operators, operand :: operands⟩ ∧
        emitted ++ [.operand operand] = chain.before path ++ left.inorder) ∧
    ∀ emitted stack, chain.Visits emitted stack →
      (∃ rest, emitted ++ rest = chain.inorder ∧ stack.operators = rest.filterMap Item.pending? ∧
        stack.operands = rest.filterMap Item.operand?) ∧
      stack.operands.length = stack.operators.length + 1 ∧
      ∀ pending operators, stack.operators = pending :: operators →
        ∃ operand operands, stack.operands = operand :: operands ∧
          operands.length = operators.length + 1 ∧
          (∀ popped held, Chain.Pops pending ⟨operators, operands⟩ popped held →
            ∃ rest, popped.pop held = .ok rest ∧
              held.operators = popped.connectives ++ rest.operators ∧
              held.operands = popped.operands ++ rest.operands) ∧
          ∃ path left key,
            chain.part? path = some (.joined pending.connective left pending.right) ∧
            emitted ++ [.operand operand] = chain.before path ++ left.inorder ∧
            (∀ other, chain.LeadsTo ChainOperand.place path pending.connective other ↔
              other = key) ∧
            Chain.target ChainOperand.place pending ⟨operators, operands⟩ = .ok key ∧
            emitChain (pending :: operators) (operand :: operands) = (do
              emitOperand operand
              let _ ← branching (Branches.addBranch (Chain.decidingBranch pending.connective) key)
              emitChain operators operands) := by
  refine ⟨fun _ _ _ _ => Chain.exists_visits_connective, fun emitted stack visits => ?_⟩
  obtain ⟨_, _, atOperand⟩ := visits.exists_atOperand
  have length := atOperand.length
  refine ⟨atOperand.exists_rest, length, fun pending operators top => ?_⟩
  obtain ⟨_, operands⟩ := stack
  cases top
  cases operands with
  | nil => cases length
  | cons operand operands =>
    obtain ⟨path, left, found, read, rest⟩ := atOperand.climb
    cases rest
    -- the stacks hold what waits for the chains that enclose the path
    have target := Chain.target_waiting ChainOperand.place pending (chain.enclosing path)
    refine ⟨operand, _, rfl, Nat.succ.inj length, fun popped held pops => ?_, path, left, _, found,
      read, fun other => ?_, target, ?_⟩
    · obtain ⟨further, rfl⟩ := pops.exists_waiting
      exact ⟨_, popped.pop_waiting further, rfl, rfl⟩
    · have leads := Chain.leadsTo_destination ChainOperand.place pending.connective found
      exact ⟨fun leadsOther => leadsOther.unique leads, fun same => same ▸ leads⟩
    · rw [emitChain, target]
      rfl

/-- A conjunction on the left of a disjunction. -/
def conjunctionFirst : Chain (ChainOperand Emitter) :=
  .joined .or (.joined .and (.operand ⟨0, pure ()⟩) (.operand ⟨1, pure ()⟩)) (.operand ⟨2, pure ()⟩)

/-- The first round of `conjunctionFirst` decides the conjunction, pops its right operand, and leads
to the right operand of the disjunction. -/
theorem emitChain_rounds_conjunctionFirst :
    (∃ emitted operators operand operands, conjunctionFirst.Visits emitted
      ⟨⟨.and, .operand ⟨1, pure ()⟩⟩ :: operators, operand :: operands⟩) ∧
    ∃ operand operands, (conjunctionFirst.populate {}).operands = operand :: operands ∧
      (∃ rest, (Chain.operand ⟨1, pure ()⟩).pop ⟨[⟨.or, .operand ⟨2, pure ()⟩⟩], operands⟩ =
        .ok rest) ∧
      ∃ path key, conjunctionFirst.LeadsTo ChainOperand.place path .and key ∧
        Chain.target ChainOperand.place ⟨.and, .operand ⟨1, pure ()⟩⟩
          ⟨[⟨.or, .operand ⟨2, pure ()⟩⟩], operands⟩ = .ok key ∧ key = .operand 2 := by
  have rounds := emitChain_rounds conjunctionFirst
  obtain ⟨emitted, operators, operand, operands, visits, -⟩ := rounds.1 [.left] .and _ _ rfl
  obtain ⟨-, -, first⟩ := rounds.2 [] _ .start
  obtain ⟨next, others, top, -, pops, path, left, key, -, -, leads, target, -⟩ := first _ _ rfl
  obtain ⟨rest, popped, -⟩ := pops _ _ .right
  refine ⟨⟨emitted, operators, operand, operands, visits⟩, next, others, top, ⟨rest, popped⟩, path,
    key, (leads key).2 rfl, target, ?_⟩
  cases top
  exact Except.ok.inj (target.symm.trans (Chain.target_waiting ChainOperand.place
    ⟨.and, .operand ⟨1, pure ()⟩⟩ [⟨.or, .operand ⟨2, pure ()⟩⟩]))

end Frame

end ExprCode
