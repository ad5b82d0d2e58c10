import ExprCode.Proofs.CodeShape

/-! # Lowering a chain along its tree

The code of a chain is emitted from two stacks, and a branch finds its place by popping from copies
of them. `emitChain_populate` says that this is the same as going along the tree: the left operand
is emitted with two exits, one for each truth value, of which the one that does not decide the
connective is its right operand; then comes the branch, then the right operand. -/

namespace ExprCode

namespace Chain

variable {α : Type}

/-- The operand that is evaluated first. -/
def first : Chain α → α
  | operand a => a
  | joined _ left _ => left.first

/-- The connectives of a chain in the order in which they wait, each with its right operand. -/
def connectives : Chain α → List (Pending α)
  | operand _ => []
  | joined connective left right => left.connectives ++ ⟨connective, right⟩ :: right.connectives

/-- The first operand is the first of all operands. -/
theorem operands_eq_cons (chain : Chain α) : ∃ others, chain.operands = chain.first :: others := by
  induction chain with
  | operand a => exact ⟨[], rfl⟩
  | joined connective left right ihLeft _ =>
    obtain ⟨others, split⟩ := ihLeft
    exact ⟨others ++ right.operands, by rw [operands, split, first, List.cons_append]⟩

/-- Pushing a chain puts its connectives and operands in front. -/
theorem populate_eq (chain : Chain α) (stack : Stacks α) :
    chain.populate stack =
      ⟨chain.connectives ++ stack.operators, chain.operands ++ stack.operands⟩ := by
  induction chain generalizing stack with
  | operand a => rfl
  | joined connective left right ihLeft ihRight =>
    rw [populate, ihRight, ihLeft]
    simp [connectives, operands]

/-- Popping a chain drops as much as the chain has. -/
theorem pop_eq (chain : Chain α) {operators : List (Pending α)} {operands : List α}
    (manyOperators : chain.connectives.length ≤ operators.length)
    (manyOperands : chain.operands.length ≤ operands.length) :
    chain.pop ⟨operators, operands⟩ =
      .ok ⟨operators.drop chain.connectives.length, operands.drop chain.operands.length⟩ := by
  induction chain generalizing operators operands with
  | operand a =>
    cases operands with
    | nil => cases manyOperands
    | cons head operands => rfl
  | joined connective left right ihLeft ihRight =>
    cases operators with
    | nil => simp [connectives] at manyOperators
    | cons head operators =>
      simp only [connectives, List.length_append, List.length_cons] at manyOperators
      simp only [Chain.operands, List.length_append] at manyOperands
      simp only [pop]
      rw [ihLeft (by omega) (by omega)]
      show right.pop _ = _
      rw [ihRight (by simp; omega) (by simp; omega)]
      simp only [connectives, Chain.operands, List.length_append, List.length_cons, List.drop_drop]
      rw [show left.connectives.length + (right.connectives.length + 1) =
        (left.connectives.length + right.connectives.length) + 1 by omega, List.drop_succ_cons]

/-- What waits on the stacks behind a part of a chain, from the innermost connective around it
outwards. -/
def waiting : List (Pending α) → Stacks α
  | [] => {}
  | pending :: outer =>
      ⟨pending :: (pending.right.connectives ++ (waiting outer).operators),
        pending.right.operands ++ (waiting outer).operands⟩

/-- Popping the right operand of a waiting connective leaves what waits around it. -/
theorem pop_waiting (chain : Chain α) (outer : List (Pending α)) :
    chain.pop ⟨chain.connectives ++ (waiting outer).operators,
      chain.operands ++ (waiting outer).operands⟩ = .ok (waiting outer) := by
  rw [pop_eq chain (by simp) (by simp), List.drop_left, List.drop_left]

/-- The place to go to from a part of a chain that decides a connective of a kind. -/
def destination (place : α → BranchKey) (connective : Connective) : List (Pending α) → BranchKey
  | [] => terminal connective
  | pending :: outer =>
      if pending.connective = connective then destination place connective outer
      else place pending.right.first

/-- The place found on the stacks is the one found around the part. -/
theorem outwards_waiting (place : α → BranchKey) (connective : Connective)
    (outer : List (Pending α)) :
    outwards place connective (waiting outer).operators (waiting outer).operands =
      .ok (destination place connective outer) := by
  induction outer with
  | nil =>
    unfold outwards
    rfl
  | cons pending outer ih =>
    unfold outwards waiting destination
    dsimp only
    by_cases same : pending.connective = connective
    · rw [if_pos same, if_pos same]
      split
      · next popped =>
        rw [pop_waiting] at popped
        cases popped
      · next rest popped =>
        rw [pop_waiting] at popped
        cases popped
        exact ih
    · rw [if_neg same, if_neg same]
      obtain ⟨others, split⟩ := pending.right.operands_eq_cons
      rw [split]
      rfl

/-- The place to which a deciding operand branches. -/
theorem target_waiting (place : α → BranchKey) (pending : Pending α) (outer : List (Pending α)) :
    target place pending ⟨pending.right.connectives ++ (waiting outer).operators,
      pending.right.operands ++ (waiting outer).operands⟩ =
      .ok (destination place pending.connective outer) := by
  unfold target
  rw [pop_waiting]
  exact outwards_waiting place pending.connective outer

/-- The connective that a truth value decides. -/
def decidedConnective : Bool → Connective
  | false => .and
  | true => .or

/-- The places to go to from a part of a chain whose value is known, for each truth value. -/
def exits (place : α → BranchKey) (outer : List (Pending α)) (value : Bool) : BranchKey :=
  destination place (decidedConnective value) outer

/-- The exits for the left operand of a connective. -/
theorem exits_cons (place : α → BranchKey) (pending : Pending α) (outer : List (Pending α)) :
    exits place (pending :: outer) = fun value =>
      if value = pending.connective.decidedBy then exits place outer value
      else place pending.right.first := by
  funext value
  obtain ⟨connective, right⟩ := pending
  cases connective <;> cases value <;> rfl

/-- The exit for the deciding value is the destination. -/
theorem exits_decidedBy (place : α → BranchKey) (connective : Connective)
    (outer : List (Pending α)) :
    exits place outer connective.decidedBy = destination place connective outer := by
  cases connective <;> rfl

/-- The exits of a whole chain: where its result is made. -/
def terminals (value : Bool) : BranchKey := terminal (decidedConnective value)

/-- The branch of a connective is taken on the value that decides it. -/
theorem decidingBranch_eq (connective : Connective) :
    decidingBranch connective = .branch (.on connective.decidedBy) .long := by
  cases connective <;> rfl

section Nodes

variable {σ : Type}

/-- The nodes of the operands of a chain. -/
def nodes (chain : Chain (ChainOperand σ)) : List NodeId :=
  chain.operands.map ChainOperand.node

/-- The nodes of a joined chain. -/
theorem nodes_joined (connective : Connective) (left right : Chain (ChainOperand σ)) :
    (Chain.joined connective left right).nodes = left.nodes ++ right.nodes :=
  List.map_append

/-- The node of the first operand is the first node. -/
theorem nodes_eq_cons (chain : Chain (ChainOperand σ)) :
    ∃ others, chain.nodes = chain.first.node :: others := by
  obtain ⟨others, split⟩ := chain.operands_eq_cons
  exact ⟨others.map ChainOperand.node, by rw [nodes, split, List.map_cons]⟩

/-- The exits of the left operand of a connective. -/
def leftExits (connective : Connective) (right : Chain (ChainOperand σ))
    (exits : Bool → BranchKey) (value : Bool) : BranchKey :=
  if value = connective.decidedBy then exits value else right.first.place

/-- If no node occurs twice and exits are no operands of a chain, the exits of its left part are no
operands of that part. -/
theorem leftExits_ne {connective : Connective} {left right : Chain (ChainOperand σ)}
    {exits : Bool → BranchKey} (nodup : (left.nodes ++ right.nodes).Nodup)
    (fresh : ∀ value, ∀ node ∈ left.nodes ++ right.nodes, exits value ≠ .operand node) :
    ∀ value, ∀ node ∈ left.nodes, leftExits connective right exits value ≠ .operand node := by
  intro value other member
  unfold leftExits
  split
  · exact fresh value other (List.mem_append_left _ member)
  · intro same
    obtain ⟨others, split⟩ := right.nodes_eq_cons
    exact (List.nodup_append.1 nodup).2.2 other member right.first.node
      (split ▸ List.mem_cons_self) (BranchKey.operand.inj same).symm

end Nodes

end Chain

namespace Frame

variable {σ : Type} [HasEmitter σ]

/-- Emit a part of a chain along its tree, with the places to go to when its value is known. -/
def emitTree : Chain (ChainOperand σ) → (Bool → BranchKey) → Lowering σ Unit
  | .operand operand, _ => emitOperand operand
  | .joined connective left right, exits => do
      emitTree left fun value =>
        if value = connective.decidedBy then exits value else right.first.place
      let _ ← branching (Branches.addBranch (Chain.decidingBranch connective)
        (exits connective.decidedBy))
      emitTree right exits

/-- What is emitted behind a part of a chain. -/
def emitOuter : List (Pending (ChainOperand σ)) → Lowering σ Unit
  | [] => do
      let _ ← branching (Branches.addBranch (.branch .always .long) .finish)
  | pending :: outer => do
      let _ ← branching (Branches.addBranch (Chain.decidingBranch pending.connective)
        (Chain.exits ChainOperand.place outer pending.connective.decidedBy))
      emitChain (pending.right.connectives ++ (Chain.waiting outer).operators)
        (pending.right.operands ++ (Chain.waiting outer).operands)

/-- Emitting from the stacks is emitting along the tree. -/
theorem emitChain_waiting (chain : Chain (ChainOperand σ))
    (outer : List (Pending (ChainOperand σ))) :
    emitChain (chain.connectives ++ (Chain.waiting outer).operators)
        (chain.operands ++ (Chain.waiting outer).operands) =
      (do
        emitTree chain (Chain.exits ChainOperand.place outer)
        emitOuter outer) := by
  induction chain generalizing outer with
  | operand a =>
    cases outer with
    | nil => rfl
    | cons pending outer =>
      show emitChain (pending :: (pending.right.connectives ++ (Chain.waiting outer).operators))
        (a :: (pending.right.operands ++ (Chain.waiting outer).operands)) = _
      rw [emitChain, Chain.target_waiting, emitOuter, Chain.exits_decidedBy]
      rfl
  | joined connective left right ihLeft ihRight =>
    -- The right operand waits around the left one.
    have around := ihLeft (⟨connective, right⟩ :: outer)
    rw [Chain.connectives, Chain.operands, List.append_assoc, List.append_assoc]
    refine around.trans ?_
    rw [Chain.exits_cons, emitOuter, ihRight outer, emitTree]
    simp only [bind_assoc]

/-- The code of a whole chain, emitted along its tree. -/
theorem emitChain_populate (chain : Chain (ChainOperand σ)) :
    emitChain (chain.populate {}).operators (chain.populate {}).operands =
      (do
        emitTree chain Chain.terminals
        let _ ← branching (Branches.addBranch (.branch .always .long) .finish)) := by
  rw [Chain.populate_eq]
  exact emitChain_waiting chain []

/-- Mark the end of a chain. -/
def emitFinish : Branching Unit := do
  let finish ← Branches.label .finish
  Branches.emitting (Emitter.markLabel finish)

/-- Emit the place where the result is made true, if there is one, and mark the end. -/
def emitTrue : Branching Unit := do
  if (← Branches.mark .trueTerminal).isSome then
    Branches.emitting (Emitter.emitLoadBool true)
  emitFinish

/-- The steps of the lowering of a chain in a new frame. -/
theorem lower_eq {connective : Connective} {left right : Chain (ChainOperand σ)} {state : σ} :
    lower (.joined connective left right) (({} : Frame), state) =
      ((do
        emitTree (.joined connective left right) Chain.terminals
        let _ ← branching (Branches.addBranch (.branch .always .long) .finish)
        branching emitTerminals
        enter .resolved : Lowering σ Unit)
          (({ state := .branching } : Frame), state)) := by
  have along := emitChain_populate (Chain.joined connective left right)
  show (emitChain _ _ >>= fun _ => branching emitTerminals >>= fun _ => enter .resolved) _ = _
  rw [along]
  simp only [bind_assoc, pure_bind]

end Frame

end ExprCode
