import ExprCode.Proofs.RegistrationOrder

/-! # The priority of operator methods

Main statement: `binaryOverload_eq_first`. A method for an operator on two operands is sought in
`places`: with the operand types as they are, then with the right operand converted to the type of
the left one, then the other way round, each time on the left type before the right one. The first
method that is there is taken, provided that it is clear whether either type converts to the other.
That is settled before any method is sought, so methods for a conversion that the operator would not
need can be in its way (`ambiguous_before_exact`). -/

namespace ExprCode.OperatorRegistry

variable (registry : OperatorRegistry)

/-! ## Conversions between two types -/

/-- The methods that convert the source to the target without being asked: those on the source type
or, if it has none, those on the target type. Between types that are no named ones no method is
sought. -/
def implicitMethods (source target : Ty) : List OperatorMethod :=
  if source.isNamed || target.isNamed then
    match registry.conversionsOn source implicitConversion source target with
    | [] => registry.conversionsOn target implicitConversion source target
    | onSource => onSource
  else []

/-- The source may stand where the target is expected: by promotion, or by the only method there
is. -/
def Converts (source target : Ty) : Prop :=
  source.isImplicitlyConvertible target ∨ (registry.implicitMethods source target).length = 1

/-- No promotion leads from the source to the target, and several methods do. -/
def Ambiguous (source target : Ty) : Prop :=
  ¬ source.isImplicitlyConvertible target ∧ 1 < (registry.implicitMethods source target).length

/-- Whether two types can be converted can be decided. -/
instance (source target : Ty) : Decidable (registry.Converts source target) :=
  inferInstanceAs (Decidable (_ ∨ _))

/-- Whether a conversion is ambiguous can be decided. -/
instance (source target : Ty) : Decidable (registry.Ambiguous source target) :=
  inferInstanceAs (Decidable (_ ∧ _))

/-- The defect of a conversion for which there are several methods. -/
def tooManyMethods (source target : Ty) : Defect :=
  .ambiguousOperator (OperatorMethod.fullName implicitConversion) source target
    (registry.implicitMethods source target).length

/-- A conversion that nobody asked for is made by the only one of its methods. -/
theorem conversionMethod_implicit (source target : Ty) :
    registry.conversionMethod implicitConversion source target =
      chosen implicitConversion source target (registry.implicitMethods source target) := by
  unfold conversionMethod implicitMethods
  split
  · rw [findConversion_eq]
    by_cases same : target = source
    · subst same
      cases registry.conversionsOn target implicitConversion target target <;> simp
    · cases registry.conversionsOn source implicitConversion source target <;> simp [same]
  · rfl

/-- Whether a type converts to another is clear, unless there are several methods for it. -/
theorem canConvert_eq (source target : Ty) :
    registry.canConvert source target =
      if registry.Ambiguous source target then .error (registry.tooManyMethods source target)
      else .ok (decide (registry.Converts source target)) := by
  unfold canConvert
  by_cases implicit : source.isImplicitlyConvertible target
  · have clear : ¬ registry.Ambiguous source target := fun ambiguous => ambiguous.1 implicit
    have converts : registry.Converts source target := .inl implicit
    rw [if_pos implicit, if_neg clear, decide_eq_true converts]
    rfl
  · have ambiguous_iff : registry.Ambiguous source target ↔
        1 < (registry.implicitMethods source target).length := and_iff_right implicit
    have converts_iff : registry.Converts source target ↔
        (registry.implicitMethods source target).length = 1 := or_iff_right implicit
    rw [if_neg implicit, conversionMethod_implicit]
    simp only [ambiguous_iff, converts_iff, tooManyMethods]
    match registry.implicitMethods source target with
    | [] => rfl
    | [method] => rfl
    | first :: second :: others => simp [chosen, bind, Except.bind]

/-- A type converts to itself, whatever methods there are. -/
theorem not_ambiguous_self (type : Ty) : ¬ registry.Ambiguous type type :=
  fun ambiguous => ambiguous.1 (by simp [Ty.isImplicitlyConvertible])

/-! ## Methods in the order of their priority -/

/-- Where a method for an operator on two operands is sought: types on which it may be declared with
the parameters that it must have, the preferred ones first. -/
def places (left right : Ty) : List (Ty × List Ty) :=
  [(left, [left, right]), (right, [left, right])] ++
    ((if registry.Converts right left then [(left, [left, left]), (right, [left, left])] else []) ++
      (if registry.Converts left right then [(left, [right, right]), (right, [right, right])] else
        []))

/-- The first method in the given places. -/
def firstIn (operator : String) (sought : List (Ty × List Ty)) : Option OperatorMethod :=
  sought.findSome? fun (type, params) => registry.find? operator type params

/-- A signature is tried on the left type, then on the right one. -/
theorem findSome?_signatures (operator : String) (left right : Ty) (signatures : List (List Ty)) :
    signatures.findSome? (fun signature =>
        [left, right].findSome? fun type => registry.find? operator type signature) =
      registry.firstIn operator
        (signatures.flatMap fun signature => [(left, signature), (right, signature)]) := by
  unfold firstIn
  induction signatures with
  | nil => rfl
  | cons signature signatures ih =>
    rw [List.flatMap_cons, List.findSome?_append, ← ih, List.findSome?_cons]
    simp only [List.findSome?_cons, List.findSome?_nil]
    -- without a method on either type, the next signatures are tried
    cases registry.find? operator left signature with
    | some method => rfl
    | none => cases registry.find? operator right signature <;> rfl

/-- Operands of one type are sought with that type only. -/
theorem firstIn_places_self (operator : String) (type : Ty) :
    registry.firstIn operator (registry.places type type) =
      registry.firstIn operator [(type, [type, type]), (type, [type, type])] := by
  have converts : registry.Converts type type := .inl (by simp [Ty.isImplicitlyConvertible])
  simp only [places, if_pos converts, firstIn, List.cons_append, List.nil_append,
    List.findSome?_cons, List.findSome?_nil]
  cases registry.find? operator type [type, type] <;> rfl

/-- **The priority of operator methods.** If several methods convert the right type to the left one,
or the left type to the right one, the operator is ambiguous, whatever methods it has. Otherwise the
first method in the order of priority is taken, if there is one. -/
theorem binaryOverload_eq_first (operator : String) (left right : Ty) :
    registry.binaryOverload operator left right =
      if registry.Ambiguous right left then .error (registry.tooManyMethods right left)
      else if registry.Ambiguous left right then .error (registry.tooManyMethods left right)
      else .ok (registry.firstIn operator (registry.places left right)) := by
  unfold binaryOverload binarySignatures
  by_cases same : left = right
  · subst same
    rw [if_pos rfl, if_neg (registry.not_ambiguous_self left),
      if_neg (registry.not_ambiguous_self left), firstIn_places_self]
    exact congrArg Except.ok (registry.findSome?_signatures operator left left [[left, left]])
  · rw [if_neg same, canConvert_eq, canConvert_eq]
    by_cases toLeft : registry.Ambiguous right left
    · simp [toLeft, bind, Except.bind]
    by_cases toRight : registry.Ambiguous left right
    · simp [toLeft, toRight, bind, Except.bind]
    simp only [toLeft, toRight, if_false, bind, Except.bind, pure, Except.pure,
      findSome?_signatures, decide_eq_true_eq]
    -- each signature that is tried gives the places on both types
    have listed : (([left, right] ::
        ((if registry.Converts right left then [[left, left]] else []) ++
          (if registry.Converts left right then [[right, right]] else []))).flatMap
            fun signature => [(left, signature), (right, signature)]) =
          registry.places left right := by
      unfold places
      split <;> split <;> rfl
    rw [listed]

/-! ## An operator that is not ambiguous by itself -/

/-- Numbers can be added to amounts of money as they are; two methods make such an amount of a
number. -/
def cashing : OperatorRegistry := ⟨[
  (.named "Money", ⟨"operator_Addition", [.named "Money", .int .i32], .named "Money", ⟨0⟩⟩),
  (.named "Money", ⟨"operator_Implicit", [.int .i32], .named "Money", ⟨1⟩⟩),
  (.named "Money", ⟨"operator_Implicit", [.int .i32, .bool], .named "Money", ⟨2⟩⟩)]⟩

/-- A method for exactly the types of the operands is not taken, since there are two methods for a
conversion that it does without. -/
theorem ambiguous_before_exact :
    cashing.declared.foldlM (fun registry (type, method) => registry.register? type method)
      {} = some cashing ∧
    (∃ method, (.named "Money", method) ∈ cashing.declared ∧ method.isNamed "Addition" ∧
      method.params = [.named "Money", .int .i32]) ∧
    cashing.binaryOverload "Addition" (.named "Money") (.int .i32) =
      .error (.ambiguousOperator "operator_Implicit" (.int .i32) (.named "Money") 2) :=
  ⟨by cbv, ⟨_, List.mem_cons_self, by cbv, rfl⟩, by cbv⟩

end ExprCode.OperatorRegistry
