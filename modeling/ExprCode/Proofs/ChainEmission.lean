import ExprCode.Proofs.ChainLowering
import ExprCode.Proofs.Generation

/-! # The code of chains

What is emitted for a chain, along its tree: the code of every part is left at its end or at one of
its exits. A place gets its label when the first branch to it is emitted, and marks it when it is
reached itself. All branches lead forward, so a place that has no label when it is reached is never
branched to; this is where it matters that no operand occurs twice. -/

namespace ExprCode

/-! ## Labels of places -/

namespace Branches

/-- Places keep their labels, and only certain places get new ones. -/
structure Adds (keys : BranchKey → Prop) (before after : Branches) : Prop where
  /-- A label stays. -/
  kept : ∀ key label, before.find? key = some label → after.find? key = some label
  /-- Other places stay as they are. -/
  others : ∀ key, ¬ keys key → after.find? key = before.find? key

namespace Adds

variable {keys otherKeys : BranchKey → Prop} {first second third : Branches}

/-- Nothing is added where nothing happens. -/
theorem refl (branches : Branches) : Adds keys branches branches :=
  ⟨fun _ _ found => found, fun _ _ => rfl⟩

/-- What two operations add is added by both. -/
theorem trans (h : Adds keys first second) (h' : Adds keys second third) : Adds keys first third :=
  ⟨fun key label found => h'.kept key label (h.kept key label found),
    fun key outside => (h'.others key outside).trans (h.others key outside)⟩

/-- More keys may be allowed than were added. -/
theorem mono (h : Adds keys first second) (more : ∀ key, keys key → otherKeys key) :
    Adds otherKeys first second :=
  ⟨h.kept, fun key outside => h.others key fun inside => outside (more key inside)⟩

end Adds

variable {env : Environment} {before after : Branches × Emitter} {key : BranchKey}

/-- An operation on the emitter alone. -/
theorem emitting_eq_ok {α : Type} {operation : Emit α} {value : α}
    (h : emitting operation before = .ok value after) :
    operation before.2 = .ok value after.2 ∧ after.1 = before.1 := by
  unfold emitting at h
  cases run : operation before.2 with
  | ok result emitter =>
    simp only [run] at h
    cases h
    exact ⟨rfl, rfl⟩
  | error defect emitter =>
    simp only [run] at h
    cases h

/-- A place has its label from now on. -/
theorem label_eq_ok {target : Label} (h : label key before = .ok target after) :
    Emits env (fun _ start stop => start = stop) before.2 after.2 ∧
      after.1.find? key = some target ∧ Adds (· = key) before.1 after.1 := by
  unfold label at h
  obtain ⟨_, _, run, rest⟩ := bind_eq_ok h
  cases run
  cases found : before.1.find? key with
  | some old =>
    simp only [found] at rest
    cases rest
    exact ⟨.refl _, found, .refl _⟩
  | none =>
    simp only [found] at rest
    obtain ⟨fresh, defined, defineRun, rest⟩ := bind_eq_ok rest
    obtain ⟨_, _, run, last⟩ := bind_eq_ok rest
    cases run
    cases last
    obtain ⟨defineOk, same⟩ := emitting_eq_ok defineRun
    -- the new place is listed last and hides no other
    have look : ∀ other, (Branches.find? ⟨defined.1.labels ++ [(key, target)], defined.1.origins⟩
        other) = (before.1.find? other).or ([(key, target)].lookup other) := by
      intro other
      rw [same]
      exact List.lookup_append
    refine ⟨Emitter.emits_defineLabel defineOk, ?_, ?_, ?_⟩
    · rw [look, found]
      simp [List.lookup]
    · intro other old known
      rw [look, known]
      rfl
    · intro other differ
      rw [look]
      have : (other == key) = false := by simpa using differ
      simp [List.lookup, this]

/-- A branch to a place leads to what the label of the place marks. -/
theorem addBranch_eq_ok {condition : BranchCondition} {form : BranchForm} {target : Label}
    (h : addBranch (.branch condition form) key before = .ok target after) :
    Emits env (fun image start stop =>
        BranchAt image.code start condition (image.offset (image.position target)) stop)
      before.2 after.2 ∧ after.1.find? key = some target ∧ Adds (· = key) before.1 after.1 := by
  unfold addBranch at h
  obtain ⟨found, labelled, labelRun, rest⟩ := bind_eq_ok h
  obtain ⟨source, branched, branchRun, rest⟩ := bind_eq_ok rest
  obtain ⟨_, _, run, last⟩ := bind_eq_ok rest
  cases run
  cases last
  obtain ⟨labelEmits, known, adds⟩ : Emits env _ _ _ ∧ _ := label_eq_ok labelRun
  obtain ⟨branchOk, same⟩ := emitting_eq_ok branchRun
  refine ⟨(labelEmits.trans (Emitter.emits_emitBranch branchOk)).mono fun image start stop => ?_,
    ?_, ?_⟩
  · rintro ⟨_, rfl, branch⟩
    exact branch
  · rw [← known, ← same]
    rfl
  · rw [← same] at adds
    exact ⟨adds.kept, adds.others⟩

/-- A place that has a label is where the label marks. -/
theorem mark_eq_ok {marked : Option Label} (h : mark key before = .ok marked after) :
    Emits env (fun image start stop => start = stop ∧
        ∀ label, before.1.find? key = some label →
          image.offset (image.position label) = start.offset) before.2 after.2 ∧
      marked = before.1.find? key ∧ after.1 = before.1 := by
  unfold mark at h
  obtain ⟨_, _, run, rest⟩ := bind_eq_ok h
  cases run
  cases found : before.1.find? key with
  | none =>
    simp only [found] at rest
    cases rest
    exact ⟨(Emits.refl _).mono fun _ _ _ same => ⟨same, fun _ h => by cases h⟩, rfl, rfl⟩
  | some label =>
    simp only [found] at rest
    obtain ⟨_, _, markRun, last⟩ := bind_eq_ok rest
    cases last
    obtain ⟨markOk, same⟩ := emitting_eq_ok markRun
    refine ⟨(Emitter.emits_markLabel markOk).mono fun _ _ _ => ?_, rfl, same⟩
    rintro ⟨rfl, here⟩
    refine ⟨rfl, fun other h => ?_⟩
    cases h
    exact here

end Branches

/-! ## Parts of a chain -/

namespace Frame

variable {before after : Frame × Emitter}

/-- An operation on branch targets and the emitter changes nothing else. -/
theorem branching_eq_ok {α : Type} {operation : Branching α} {value : α}
    (h : branching operation before = .ok value after) :
    operation (before.1.branches, before.2) = .ok value (after.1.branches, after.2) := by
  unfold branching at h
  cases run : operation (before.1.branches, before.2) with
  | ok result pair =>
    simp only [HasEmitter.emitter, run] at h
    cases h
    rfl
  | error defect pair =>
    simp only [HasEmitter.emitter, run] at h
    cases h

/-- An operation on branch targets and the emitter fails by a defect. -/
theorem branching_eq_error {α : Type} {operation : Branching α} {error : CompileError}
    (h : branching operation before = .error error after) : ∃ defect, error = .defect defect := by
  unfold branching at h
  cases run : operation (before.1.branches, before.2) with
  | ok result pair =>
    simp only [HasEmitter.emitter, run] at h
    cases h
  | error defect pair =>
    simp only [HasEmitter.emitter, run] at h
    cases h
    exact ⟨defect, rfl⟩

/-- The code of an operand does not concern the frame. -/
theorem outside_eq_ok {operation : Codegen Emitter Unit}
    (h : outside operation before = .ok () after) :
    operation before.2 = .ok () after.2 ∧ after.1 = before.1 := by
  unfold outside at h
  cases run : operation before.2 with
  | ok result emitter =>
    simp only [run] at h
    cases h
    exact ⟨rfl, rfl⟩
  | error error emitter =>
    simp only [run] at h
    cases h

/-- The code of an operand fails as it does by itself. -/
theorem outside_eq_error {operation : Codegen Emitter Unit} {error : CompileError}
    (h : outside operation before = .error error after) :
    ∃ emitter, operation before.2 = .error error emitter := by
  unfold outside at h
  cases run : operation before.2 with
  | ok result emitter =>
    simp only [run] at h
    cases h
  | error error emitter =>
    simp only [run] at h
    cases h
    exact ⟨_, rfl⟩

end Frame

/-- The offsets of exits, as far as they have labels. -/
def exitOffset (image : Image) (branches : Branches) (exits : Bool → BranchKey) (value : Bool) :
    Option Nat :=
  (branches.find? (exits value)).map fun label => image.offset (image.position label)

/-- The places that may get labels while a part of a chain is emitted: its exits and its operands
but the first. -/
def mayLabel (nodes : List NodeId) (exits : Bool → BranchKey) (key : BranchKey) : Prop :=
  (∃ value, key = exits value) ∨ ∃ node ∈ nodes.tail, key = .operand node

/-- What has been emitted for a part of a chain, given the labels that places have in the end. -/
structure EmitsPart (env : Environment) (typing : Typing) (scope : SlotScope) (expr : Expr)
    (nodes : List NodeId) (exits : Bool → BranchKey) (before after : Frame × Emitter) : Prop where
  /-- The emitter has grown. -/
  grows : Grows env before.2 after.2
  /-- No other places have got labels. -/
  adds : Branches.Adds (mayLabel nodes exits) before.1.branches after.1.branches
  /-- The code is that of the part, and the label of its first operand marks its start. -/
  holds : ∀ image base final, Placed env image base after.2 →
    (∀ key label, after.1.branches.find? key = some label → final.find? key = some label) →
    (∀ node ∈ nodes, final.find? (.operand node) = after.1.branches.find? (.operand node)) →
    ChainAt image.code env typing scope expr (exitOffset image final exits)
        (image.cursor base before.2) (image.cursor base after.2) ∧
      ∀ node label, nodes.head? = some node → final.find? (.operand node) = some label →
        image.offset (image.position label) = (image.cursor base before.2).offset

/-- Emitting a chain along its tree gives the code of an expression, whatever exits it is given that
are none of its operands. -/
structure GeneratesPart (env : Environment) (strict : Prop) (typing : Typing)
    (scope : SlotScope) (expr : Expr) (chain : Chain (ChainOperand Emitter)) : Prop where
  /-- What is emitted. -/
  emits : ∀ {exits : Bool → BranchKey} {before after : Frame × Emitter},
    (∀ value, ∀ node ∈ chain.nodes, exits value ≠ .operand node) →
    Frame.emitTree chain exits before = .ok () after →
    EmitsPart env typing scope expr chain.nodes exits before after
  /-- How it fails. -/
  fails : ∀ {exits : Bool → BranchKey} {before after : Frame × Emitter} {error : CompileError},
    Frame.emitTree chain exits before = .error error after → strict →
    ∃ defect, error = .defect defect

section Parts

variable {env : Environment} {strict : Prop} {typing : Typing} {scope : SlotScope}

/-- A part that is an operand. -/
theorem generatesPart_operand {expr : Expr} {operand : ChainOperand Emitter}
    (notJoined : ¬ isJoined typing expr)
    (generates : Codegen.GeneratesCode env strict typing scope expr operand.code) :
    GeneratesPart env strict typing scope expr (.operand operand) where
  emits {exits before after} _ h := by
    rw [Frame.emitTree, Frame.emitOperand] at h
    obtain ⟨_, marked, markRun, codeRun⟩ := bind_eq_ok h
    obtain ⟨codeOk, sameFrame⟩ := Frame.outside_eq_ok codeRun
    obtain ⟨markEmits, -, sameBranches⟩ : Emits env _ _ _ ∧ _ :=
      Branches.mark_eq_ok (Frame.branching_eq_ok markRun)
    have unchanged : after.1.branches = before.1.branches := by
      rw [sameFrame]
      exact sameBranches
    have emits := markEmits.trans (generates.emits codeOk)
    refine ⟨emits.grows, unchanged ▸ .refl _, fun image base final placed _ same => ?_⟩
    obtain ⟨_, ⟨rfl, here⟩, code⟩ := emits.holds image base placed
    refine ⟨.operand notJoined code, fun node label first found => ?_⟩
    cases first
    rw [same operand.node List.mem_cons_self, unchanged] at found
    exact here label found
  fails {exits before after error} h := by
    rw [Frame.emitTree, Frame.emitOperand] at h
    rcases bind_eq_error h with failed | ⟨_, marked, _, failed⟩
    · exact fun _ => Frame.branching_eq_error failed
    · obtain ⟨emitter, coding⟩ := Frame.outside_eq_error failed
      exact generates.fails coding

variable {connective : Connective} {leftChain rightChain : Chain (ChainOperand Emitter)}
  {node : Node} {left right : Expr}

/-- While two parts are emitted, only exits, the first operand of the second part and operands
behind the first of either part get labels. -/
theorem Branches.Adds.join {exits : Bool → BranchKey} {before tested next after : Branches}
    (left : Adds (mayLabel leftChain.nodes (Chain.leftExits connective rightChain exits)) before
      tested) (branch : Adds (· = exits connective.decidedBy) tested next)
    (right : Adds (mayLabel rightChain.nodes exits) next after) :
    Adds (mayLabel (leftChain.nodes ++ rightChain.nodes) exits) before after := by
  obtain ⟨leftOthers, leftNodes⟩ := leftChain.nodes_eq_cons
  obtain ⟨rightOthers, rightNodes⟩ := rightChain.nodes_eq_cons
  refine (left.mono fun key may => ?_).trans
    ((branch.mono fun key same => .inl ⟨_, same⟩).trans (right.mono fun key may => ?_))
  · rcases may with ⟨value, rfl⟩ | ⟨other, member, rfl⟩
    · unfold Chain.leftExits
      split
      · exact .inl ⟨value, rfl⟩
      · refine .inr ⟨rightChain.first.node, ?_, rfl⟩
        rw [leftNodes, rightNodes]
        simp
    · refine .inr ⟨other, ?_, rfl⟩
      rw [leftNodes] at member ⊢
      exact List.mem_append_left _ member
  · rcases may with exit | ⟨other, member, rfl⟩
    · exact .inl exit
    · refine .inr ⟨other, ?_, rfl⟩
      rw [leftNodes]
      exact List.mem_append_right _ (List.mem_of_mem_tail member)

/-- Two parts, joined by a connective and its branch. -/
theorem EmitsPart.join {exits : Bool → BranchKey} {target : Label}
    {before tested next after : Frame × Emitter}
    (joined : isJoined typing (.logical node connective left right))
    (nodup : (leftChain.nodes ++ rightChain.nodes).Nodup)
    (fresh : ∀ value, ∀ node ∈ leftChain.nodes ++ rightChain.nodes, exits value ≠ .operand node)
    (leftPart : EmitsPart env typing scope left leftChain.nodes
      (Chain.leftExits connective rightChain exits) before tested)
    (branch : Emits env (fun image start stop => BranchAt image.code start
      (.on connective.decidedBy) (image.offset (image.position target)) stop) tested.2 next.2)
    (labelled : next.1.branches.find? (exits connective.decidedBy) = some target)
    (branchAdds : Branches.Adds (· = exits connective.decidedBy) tested.1.branches next.1.branches)
    (rightPart : EmitsPart env typing scope right rightChain.nodes exits next after) :
    EmitsPart env typing scope (.logical node connective left right)
      (leftChain.nodes ++ rightChain.nodes) exits before after := by
  obtain ⟨leftOthers, leftNodes⟩ := leftChain.nodes_eq_cons
  obtain ⟨rightOthers, rightNodes⟩ := rightChain.nodes_eq_cons
  have disjoint := (List.nodup_append.1 nodup).2.2
  refine ⟨leftPart.grows.trans (branch.grows.trans rightPart.grows),
    leftPart.adds.join branchAdds rightPart.adds, fun image base final placed kept same => ?_⟩
  have nextPlaced := placed.of_grows rightPart.grows
  have leftPlaced := nextPlaced.of_grows branch.grows
  have keptNext : ∀ key label, next.1.branches.find? key = some label →
      final.find? key = some label := fun key label found =>
    kept key label (rightPart.adds.kept key label found)
  have keptTested : ∀ key label, tested.1.branches.find? key = some label →
      final.find? key = some label := fun key label found =>
    keptNext key label (branchAdds.kept key label found)
  -- the left operands get no labels after they have been emitted
  have leftSame : ∀ node ∈ leftChain.nodes,
      final.find? (.operand node) = tested.1.branches.find? (.operand node) := by
    intro other member
    rw [same other (List.mem_append_left _ member), rightPart.adds.others, branchAdds.others]
    · exact fun equal => fresh _ other (List.mem_append_left _ member) equal.symm
    · rintro (⟨value, equal⟩ | ⟨later, inRight, equal⟩)
      · exact fresh value other (List.mem_append_left _ member) equal.symm
      · cases equal
        exact disjoint other member other (List.mem_of_mem_tail inRight) rfl
  obtain ⟨leftCode, leftStart⟩ := leftPart.holds image base final leftPlaced keptTested leftSame
  obtain ⟨rightCode, rightStart⟩ := rightPart.holds image base final placed kept
    fun other member => same other (List.mem_append_right _ member)
  have branchCode := branch.holds image base nextPlaced
  refine ⟨.joined joined leftCode ?_ ?_ branchCode ?_ rightCode, ?_⟩
  · intro place found
    unfold exitOffset Chain.leftExits at found
    rw [if_pos rfl] at found
    exact found
  · intro place found
    unfold exitOffset Chain.leftExits at found
    rw [if_neg (by cases connective <;> decide)] at found
    obtain ⟨label, known, rfl⟩ := Option.map_eq_some_iff.1 found
    exact rightStart rightChain.first.node label (by rw [rightNodes]; rfl) known
  · unfold exitOffset
    rw [keptNext _ _ labelled]
    rfl
  · intro other label first found
    refine leftStart other label ?_ found
    rw [leftNodes] at first ⊢
    exact first

/-- Emitting a connective of truth values along the tree. -/
theorem generatesPart_joined (joined : isJoined typing (.logical node connective left right))
    (nodup : (leftChain.nodes ++ rightChain.nodes).Nodup)
    (leftGenerates : GeneratesPart env strict typing scope left leftChain)
    (rightGenerates : GeneratesPart env strict typing scope right rightChain) :
    GeneratesPart env strict typing scope (.logical node connective left right)
      (.joined connective leftChain rightChain) where
  emits {exits before after} fresh h := by
    rw [Chain.nodes_joined] at fresh ⊢
    rw [Frame.emitTree, Chain.decidingBranch_eq] at h
    obtain ⟨_, tested, leftRun, rest⟩ := bind_eq_ok h
    obtain ⟨target, next, branchRun, rightRun⟩ := bind_eq_ok rest
    obtain ⟨branch, labelled, adds⟩ : Emits env _ _ _ ∧ _ :=
      Branches.addBranch_eq_ok (Frame.branching_eq_ok branchRun)
    exact .join joined nodup fresh
      (leftGenerates.emits (Chain.leftExits_ne nodup fresh) leftRun) branch labelled adds
      (rightGenerates.emits
        (fun value other member => fresh value other (List.mem_append_right _ member)) rightRun)
  fails {exits before after error} h := by
    rw [Frame.emitTree] at h
    rcases bind_eq_error h with failed | ⟨_, tested, _, rest⟩
    · exact leftGenerates.fails failed
    · rcases bind_eq_error rest with failed | ⟨_, next, _, failed⟩
      · exact fun _ => Frame.branching_eq_error failed
      · exact rightGenerates.fails failed

/-! ## The end of a chain -/

variable {branches : Branches} {finish : Label} {before after : Branches × Emitter}

/-- The label of the end marks the end. -/
theorem emits_emitFinish (known : before.1.find? .finish = some finish)
    (h : Frame.emitFinish before = .ok () after) :
    Emits env (fun image start stop =>
      start = stop ∧ image.offset (image.position finish) = stop.offset) before.2 after.2 := by
  obtain ⟨found, labelled, labelRun, markRun⟩ := bind_eq_ok h
  obtain ⟨labelEmits, again, adds⟩ : Emits env _ _ _ ∧ _ := Branches.label_eq_ok labelRun
  rw [adds.kept _ _ known, Option.some.injEq] at again
  subst again
  obtain ⟨markOk, -⟩ := Branches.emitting_eq_ok markRun
  refine (labelEmits.trans (Emitter.emits_markLabel markOk)).mono fun image start stop => ?_
  rintro ⟨_, rfl, rfl, here⟩
  exact ⟨rfl, here⟩

/-- The result is made true just before the end. -/
theorem emits_emitTrue (known : before.1.find? .finish = some finish)
    (h : Frame.emitTrue before = .ok () after) :
    Emits env (fun image start stop =>
      image.offset (image.position finish) = stop.offset ∧ start.offset ≤ stop.offset ∧
      start.slots = stop.slots ∧ (before.1.find? .trueTerminal = none → start = stop) ∧
      ∀ label, before.1.find? .trueTerminal = some label →
        image.offset (image.position label) = start.offset ∧
          TerminalAt image.code true stop.offset start.offset)
      before.2 after.2 := by
  obtain ⟨marked, middle, markRun, rest⟩ := bind_eq_ok h
  obtain ⟨markEmits, rfl, same⟩ : Emits env _ _ _ ∧ _ := Branches.mark_eq_ok markRun
  rw [← same] at known
  -- nothing is pushed if no branch leads here
  cases found : before.1.find? .trueTerminal with
  | none =>
    rw [found] at rest
    have finishEmits : Emits env _ _ _ := emits_emitFinish known rest
    refine (markEmits.trans finishEmits).mono fun image start stop => ?_
    rintro ⟨_, ⟨rfl, -⟩, rfl, here⟩
    exact ⟨here, Nat.le_refl _, rfl, fun _ => rfl, fun _ h => by cases h⟩
  | some label =>
    rw [found] at rest markEmits
    obtain ⟨_, pushed, pushRun, finishRun⟩ := bind_eq_ok rest
    obtain ⟨pushOk, samePushed⟩ := Branches.emitting_eq_ok pushRun
    rw [← samePushed] at known
    have finishEmits : Emits env _ _ _ := emits_emitFinish known finishRun
    refine (markEmits.trans ((Emitter.emits_emitLoadBool pushOk).trans finishEmits)).mono
      fun image start stop => ?_
    rintro ⟨_, ⟨rfl, here⟩, _, push, rfl, atEnd⟩
    refine ⟨atEnd, push.precedes.offset, push.slots_eq.symm, (fun h => by cases h), fun other h =>
      ?_⟩
    cases h
    exact ⟨here label rfl, .last push rfl⟩

/-- The results of a chain are made behind it, before its end. -/
theorem emits_emitTerminals (known : before.1.find? .finish = some finish)
    (h : Frame.emitTerminals before = .ok () after) :
    Emits env (fun image start stop =>
      image.offset (image.position finish) = stop.offset ∧ start.offset ≤ stop.offset ∧
      start.slots = stop.slots ∧
      ∀ value label, before.1.find? (Chain.terminals value) = some label →
        start.offset ≤ image.offset (image.position label) ∧
          TerminalAt image.code value stop.offset (image.offset (image.position label)))
      before.2 after.2 := by
  obtain ⟨_, _, run, rest⟩ := bind_eq_ok h
  cases run
  obtain ⟨marked, middle, markRun, rest⟩ := bind_eq_ok rest
  obtain ⟨markEmits, rfl, same⟩ : Emits env _ _ _ ∧ _ := Branches.mark_eq_ok markRun
  have knownMiddle : middle.1.find? .finish = some finish := same ▸ known
  cases found : before.1.find? .falseTerminal with
  | none =>
    -- nothing branches to where false is pushed, so nothing is pushed but true
    rw [found] at rest
    have trueEmits : Emits env _ _ _ := emits_emitTrue knownMiddle rest
    refine (markEmits.trans trueEmits).mono fun image start stop => ?_
    rintro ⟨_, ⟨rfl, -⟩, atEnd, ahead, slots, -, trueTerminal⟩
    refine ⟨atEnd, ahead, slots, fun value label labelled => ?_⟩
    cases value with
    | true =>
      obtain ⟨here, terminal⟩ := trueTerminal label (same ▸ labelled)
      rw [here]
      exact ⟨Nat.le_refl _, terminal⟩
    | false =>
      have labelled : before.1.find? .falseTerminal = some label := labelled
      rw [found] at labelled
      cases labelled
  | some falseLabel =>
    rw [found] at rest markEmits
    obtain ⟨_, pushed, pushRun, rest⟩ := bind_eq_ok rest
    obtain ⟨pushOk, samePushed⟩ := Branches.emitting_eq_ok pushRun
    have knownPushed : pushed.1.find? .finish = some finish := samePushed ▸ knownMiddle
    have pushEmits : Emits env _ _ _ := Emitter.emits_emitLoadBool pushOk
    have samePushed : pushed.1 = before.1 := samePushed.trans same
    cases hasTrue : before.1.find? .trueTerminal with
    | none =>
      -- false is pushed last, and the run goes on behind it
      rw [hasTrue] at rest
      have trueEmits : Emits env _ _ _ := emits_emitTrue knownPushed rest
      refine (markEmits.trans (pushEmits.trans trueEmits)).mono fun image start stop => ?_
      rintro ⟨_, ⟨rfl, here⟩, between, push, atEnd, -, slots, noTrue, -⟩
      obtain rfl := noTrue (samePushed ▸ hasTrue)
      refine ⟨atEnd, push.precedes.offset, push.slots_eq.symm, fun value label labelled => ?_⟩
      cases value with
      | true =>
        have labelled : before.1.find? .trueTerminal = some label := labelled
        rw [hasTrue] at labelled
        cases labelled
      | false =>
        have labelled : before.1.find? .falseTerminal = some label := labelled
        rw [found, Option.some.injEq] at labelled
        subst labelled
        rw [here falseLabel rfl]
        exact ⟨Nat.le_refl _, .last push rfl⟩
    | some trueLabel =>
      -- both are pushed, false first, with a branch over the other one
      rw [hasTrue] at rest
      obtain ⟨target, left, branchRun, trueRun⟩ := bind_eq_ok rest
      obtain ⟨branchEmits, finishLabel, adds⟩ : Emits env _ _ _ ∧ _ :=
        Branches.addBranch_eq_ok branchRun
      have knownLeft := adds.kept _ _ knownPushed
      rw [knownLeft, Option.some.injEq] at finishLabel
      subst finishLabel
      have sameTrue : left.1.find? .trueTerminal = before.1.find? .trueTerminal := by
        rw [adds.others _ (by decide), samePushed]
      have trueEmits : Emits env _ _ _ := emits_emitTrue knownLeft trueRun
      refine (markEmits.trans (pushEmits.trans (branchEmits.trans trueEmits))).mono
        fun image start stop => ?_
      rintro ⟨_, ⟨rfl, here⟩, between, push, behind, branch, atEnd, ahead, slots, -, trueTerminal⟩
      have falseFirst := (push.precedes.trans branch.precedes).offset
      refine ⟨atEnd, Nat.le_trans falseFirst ahead, ?_, fun value label labelled => ?_⟩
      · rw [← slots, branch.slots_eq, push.slots_eq]
      · cases value with
        | true =>
          obtain ⟨there, terminal⟩ := trueTerminal label (sameTrue.trans labelled)
          rw [there]
          exact ⟨falseFirst, terminal⟩
        | false =>
          have labelled : before.1.find? .falseTerminal = some label := labelled
          rw [found, Option.some.injEq] at labelled
          subst labelled
          rw [here falseLabel rfl]
          rw [atEnd] at branch
          exact ⟨Nat.le_refl _, .leave push branch ahead⟩

/-! ## Whole chains -/

/-- The code of a conjunction or disjunction of truth values. -/
theorem generatesCode_joined (joined : isJoined typing (.logical node connective left right))
    (part : GeneratesPart env strict typing scope (.logical node connective left right)
      (.joined connective leftChain rightChain)) :
    Codegen.GeneratesCode env strict typing scope (.logical node connective left right)
      (Codegen.emitJoined (.joined connective leftChain rightChain)) where
  emits {before after _} h := by
    rw [Codegen.emitJoined_eq, Frame.lower_eq] at h
    split at h
    next _ frame emitter run =>
      cases h
      obtain ⟨_, last, treeRun, rest⟩ := bind_eq_ok run
      obtain ⟨finish, behind, finishRun, rest⟩ := bind_eq_ok rest
      obtain ⟨_, stop, terminalsRun, rest⟩ := bind_eq_ok rest
      cases rest
      -- the places where results are pushed are none of the operands
      have emitsPart := part.emits
        (fun value _ _ same => by cases value <;> cases same) treeRun
      obtain ⟨branch, labelled, adds⟩ : Emits env _ _ _ ∧ _ :=
        Branches.addBranch_eq_ok (Frame.branching_eq_ok finishRun)
      have terminals : Emits env _ _ _ :=
        emits_emitTerminals labelled (Frame.branching_eq_ok terminalsRun)
      refine ⟨emitsPart.grows.trans (branch.grows.trans terminals.grows),
        fun image base placed => ?_⟩
      have behindPlaced := placed.of_grows terminals.grows
      obtain ⟨chained, -⟩ := emitsPart.holds image base behind.1.branches
        (behindPlaced.of_grows branch.grows) adds.kept
        fun other _ => adds.others _ fun same => by cases same
      obtain ⟨atEnd, ahead, slots, made⟩ := terminals.holds image base placed
      have finished := branch.holds image base behindPlaced
      rw [atEnd] at finished
      refine .chain joined chained finished ahead (fun value target found => ?_)
        (slots.symm.trans finished.slots_eq)
      obtain ⟨label, known, rfl⟩ := Option.map_eq_some_iff.1 found
      exact made value label known
    next => cases h
  fails {before after error} h holds := by
    rw [Codegen.emitJoined_eq, Frame.lower_eq] at h
    split at h
    next => cases h
    next cause frame emitter run =>
      cases h
      rcases bind_eq_error run with failed | ⟨_, last, _, rest⟩
      · exact part.fails failed holds
      · rcases bind_eq_error rest with failed | ⟨_, behind, _, rest⟩
        · exact Frame.branching_eq_error failed
        · rcases bind_eq_error rest with failed | ⟨_, stop, _, rest⟩
          · exact Frame.branching_eq_error failed
          · cases rest

end Parts

end ExprCode
