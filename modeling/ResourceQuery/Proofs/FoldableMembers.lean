import ResourceQuery.Proofs.Meaning

/-! # Members of constants

The allow-list and folding know the members of texts, dates and sequences each in a table of its own.
On constants, every member of the allow-list folds, unless a position or a number is out of bounds, with
two exceptions: the method that counts a sequence, and the rounding of whole numbers.
-/
namespace ResourceQuery

/-- The failures of a member that is there: a number or a position is out of bounds. -/
def EvalError.isOutOfBounds : EvalError → Bool
  | .overflow _ | .indexOutOfRange .. => true
  | _ => false

/-- The failures of a member that is not there for such values. -/
def EvalError.isUnknown : EvalError → Bool
  | .missingMember .. | .typeMismatch .. | .notEvaluable _ => true
  | _ => false

/-- Something is out of bounds: a number, a position, or the values that have a literal. -/
def Cause.isOutOfBounds : Cause → Bool
  | .evaluation error => error.isOutOfBounds
  | .literal _ => true
  | _ => false

/-- There is a result, unless something is out of bounds. -/
def Bounded {α : Type} : Except EvalError α → Prop
  | .ok _ => True
  | .error error => error.isOutOfBounds = true

namespace Bounded
variable {α β : Type}

theorem ok (a : α) : Bounded (.ok a) := trivial

theorem bind {r : Except EvalError α} {f : α → Except EvalError β} (h : Bounded r)
    (hf : ∀ a, Bounded (f a)) : Bounded (r >>= f) := by
  cases r with
  | ok a => exact hf a
  | error error => exact h

end Bounded

/-! ## The arguments and receivers of members -/

def ArgKind.Takes (kind : ArgKind) (v : Value) : Prop := kind.accepts v.ty = true

theorem Signature.forall₂_of_accepts {s : Signature} {args : List Value}
    (h : s.accepts (args.map Value.ty) = true) : List.Forall₂ ArgKind.Takes s.params args := by
  obtain ⟨hlength, hall⟩ := Bool.and_eq_true_iff.mp h
  rw [List.forall₂_iff_zip]
  refine ⟨by simpa using hlength, ?_⟩
  intro kind v hmem
  refine List.all_eq_true.mp hall (kind, v.ty) ?_
  rw [List.zip_map_right]
  exact List.mem_map.mpr ⟨(kind, v), hmem, rfl⟩

namespace Value

variable {v : Value}

theorem ty_dateTime (t : DateTime) :
    (Value.dateTime t).ty = .dateTime ∨ (Value.dateTime t).ty = .dateTimeOffset := by
  cases hz : t.zone with
  | offset => exact .inr (by simp only [ty, hz])
  | _ => exact .inl (by simp only [ty, hz])

theorem exists_text (h : ArgKind.text.Takes v) : ∃ t, v.text? = some t := by
  cases v with
  | string s => exact ⟨s, rfl⟩
  | char c => exact ⟨_, rfl⟩
  | dateTime t => rcases ty_dateTime t with ht | ht <;> rw [ArgKind.Takes, ht] at h <;> cases h
  | _ => cases h

theorem exists_concatenand (h : ArgKind.text.Takes v) : ∃ t, v.concatenand? = some t := by
  obtain ⟨t, ht⟩ := exists_text h
  cases v with
  | null => cases ht
  | _ => exact ⟨t, ht⟩

theorem cases_of_receiver {receiver : Receiver} (h : Receiver.of? v.ty = some receiver) :
    receiver = .string ∧ (∃ s, v = .string s) ∨ receiver = .dateTime ∧ (∃ t, v = .dateTime t) ∨
      receiver = .sequence ∧ (∃ items, v = .list items) ∨ receiver = .math := by
  cases v with
  | string s =>
    cases h
    exact .inl ⟨rfl, s, rfl⟩
  | dateTime t =>
    have hty : Receiver.of? (Value.dateTime t).ty = some .dateTime := by
      rcases ty_dateTime t with ht | ht <;> rw [ht] <;> rfl
    cases hty.symm.trans h
    exact .inr (.inl ⟨rfl, t, rfl⟩)
  | list items =>
    cases h
    exact .inr (.inr (.inl ⟨rfl, items, rfl⟩))
  | object typeName fields =>
    unfold Receiver.of? at h
    split at h <;> cases h
    case h_6 => exact .inr (.inr (.inr rfl))
    all_goals contradiction
  | _ => cases h

/-- Rounding takes every real number and no whole one. -/
theorem rounded_cases (h : ArgKind.numeric.Takes v) (method : String) (rule : Number.Whole) :
    if v.ty.isInteger then rounded method rule v = .error (.typeMismatch method [v.ty])
    else ∃ w, rounded method rule v = .ok w := by
  cases v with
  | byte | int16 | int32 | int64 => rfl
  | single | double | decimal => exact ⟨_, rfl⟩
  | dateTime t => rcases ty_dateTime t with ht | ht <;> rw [ArgKind.Takes, ht] at h <;> cases h
  | _ => cases h

end Value

/-! ## What the allow-list has -/

namespace Signature
variable {s : Signature}

theorem property_cases (hs : s ∈ allowList) (ha : s.access = .property) :
    s.receiver = .string ∧ s.member = "Length" ∨ s.receiver = .sequence ∧ s.member = "Count" ∨
      s.receiver = .dateTime ∧ s.member ∈ ["Year", "Month", "Day", "Hour", "Minute", "Second"] := by
  revert s
  decide

theorem method_cases (hs : s ∈ allowList) (ha : s.access = .method) :
    s.receiver = .sequence ∧ s.member = "Count" ∧ s.params = [] ∨
      s.receiver = .string ∧ (s.member, s.params) ∈ [("Contains", [.text]), ("StartsWith", [.text]),
        ("EndsWith", [.text]), ("IndexOf", [.text]), ("IndexOf", [.text, .integer]),
        ("Substring", [.integer]), ("Substring", [.integer, .integer]), ("Replace", [.text, .text]),
        ("ToLower", []), ("ToUpper", []), ("Trim", [])] := by
  revert s
  decide

theorem staticMethod_cases (hs : s ∈ allowList) (ha : s.access = .staticMethod) :
    s.receiver = .string ∧ s.member = "Concat" ∧ s.params = [.text, .text] ∨
      s.receiver = .math ∧ s.member ∈ ["Round", "Floor", "Ceiling"] ∧ s.params = [.numeric] := by
  revert s
  decide

end Signature

/-! ## What folding has -/

namespace Value

theorem bounded_stored (operation : String) (ty : Ty) (n : Int) : Bounded (stored operation ty n) := by
  unfold stored
  split
  · exact .ok _
  · exact rfl

theorem bounded_charIndex (length limit : Nat) (index : Value) : Bounded (charIndex length limit index) := by
  unfold charIndex
  dsimp only
  split
  · exact .ok _
  · exact rfl

theorem bounded_member {s : Signature} {v : Value} (hs : s ∈ allowList) (ha : s.access = .property)
    (hv : Receiver.of? v.ty = some s.receiver) (declaring : Ty) : Bounded (v.member declaring s.member) := by
  obtain ⟨-, hvalue, hhas⟩ := host_of_property hs ha
  rw [member_declaring hvalue hhas declaring .object]
  rcases Signature.property_cases hs ha with ⟨hr, hm⟩ | ⟨hr, hm⟩ | ⟨hr, hm⟩
  all_goals
    rw [hr] at hv
    rcases cases_of_receiver hv with ⟨hk, w, rfl⟩ | ⟨hk, w, rfl⟩ | ⟨hk, w, rfl⟩ | hk <;> cases hk
  · rw [hm]
    exact bounded_stored _ _ _
  · rw [hm]
    exact bounded_stored _ _ _
  · simp only [List.mem_cons, List.not_mem_nil, or_false] at hm
    rcases hm with hm | hm | hm | hm | hm | hm <;> rw [hm] <;> exact .ok _

theorem bounded_stringMethod {s : Signature} {args : List Value} (hs : s ∈ allowList)
    (ha : s.access = .method) (hr : s.receiver = .string)
    (hargs : List.Forall₂ ArgKind.Takes s.params args) (text : String) :
    ∃ r, stringMethod text s.member args = some r ∧ Bounded r := by
  rcases Signature.method_cases hs ha with ⟨hseq, -⟩ | ⟨-, hmem⟩
  · cases hr.symm.trans hseq
  simp only [List.mem_cons, List.not_mem_nil, or_false, Prod.mk.injEq] at hmem
  rcases hmem with ⟨hm, hp⟩ | ⟨hm, hp⟩ | ⟨hm, hp⟩ | ⟨hm, hp⟩ | ⟨hm, hp⟩ | ⟨hm, hp⟩ | ⟨hm, hp⟩ | ⟨hm, hp⟩ |
    ⟨hm, hp⟩ | ⟨hm, hp⟩ | ⟨hm, hp⟩
  all_goals
    rw [hm]
    rw [hp] at hargs
  -- A method that takes a text has one, and what it takes as a position is in the text or not.
  case inl | inr.inl | inr.inr.inl =>
    obtain _ | ⟨ht, _ | _⟩ := hargs
    obtain ⟨t, ht⟩ := exists_text ht
    exact ⟨_, congrArg (Option.map _) ht, .ok _⟩
  · obtain _ | ⟨ht, _ | _⟩ := hargs
    obtain ⟨t, ht⟩ := exists_text ht
    exact ⟨_, congrArg (Option.map _) ht, bounded_stored _ _ _⟩
  · obtain _ | ⟨ht, _ | ⟨-, _ | _⟩⟩ := hargs
    obtain ⟨t, ht⟩ := exists_text ht
    exact ⟨_, congrArg (Option.map _) ht, (bounded_charIndex _ _ _).bind fun start => bounded_stored _ _ _⟩
  · obtain _ | ⟨-, _ | _⟩ := hargs
    exact ⟨_, rfl, (bounded_charIndex _ _ _).bind fun start => .ok _⟩
  · obtain _ | ⟨-, _ | ⟨-, _ | _⟩⟩ := hargs
    exact ⟨_, rfl, (bounded_charIndex _ _ _).bind fun start =>
      (bounded_charIndex _ _ _).bind fun count => .ok _⟩
  · obtain _ | ⟨ht, _ | ⟨hu, _ | _⟩⟩ := hargs
    obtain ⟨t, ht⟩ := exists_text ht
    obtain ⟨u, hu⟩ := exists_text hu
    refine ⟨.ok (.string (String.ofList (Text.replace t.toList u.toList text.toList))), ?_, .ok _⟩
    exact Option.bind_eq_some_iff.mpr ⟨t, ht, Option.bind_eq_some_iff.mpr ⟨u, hu, rfl⟩⟩
  all_goals
    cases hargs
    exact ⟨_, rfl, .ok _⟩

theorem staticMethod_concat {declaring : Ty} {args : List Value} (hd : declaring.underlying = .string)
    (hargs : List.Forall₂ ArgKind.Takes [.text, .text] args) :
    ∃ w, staticMethod declaring "Concat" args = some (.ok w) := by
  obtain _ | ⟨ht, _ | ⟨hu, _ | _⟩⟩ := hargs
  obtain ⟨t, ht⟩ := exists_concatenand ht
  obtain ⟨u, hu⟩ := exists_concatenand hu
  simp [staticMethod, hd, List.mapM_cons, ht, hu]

theorem staticMethod_round {declaring : Ty} {method : String} {v : Value}
    (hd : declaring.underlying = .named "Math") (hm : method ∈ ["Round", "Floor", "Ceiling"])
    (hv : ArgKind.numeric.Takes v) :
    if v.ty.isInteger then staticMethod declaring method [v] = some (.error (.typeMismatch method [v.ty]))
    else ∃ w, staticMethod declaring method [v] = some (.ok w) := by
  obtain ⟨rule, hrule⟩ : ∃ rule, roundingRule? method = some rule := by
    simp only [List.mem_cons, List.not_mem_nil, or_false] at hm
    rcases hm with rfl | rfl | rfl <;> exact ⟨_, rfl⟩
  have hrun : staticMethod declaring method [v] = some (rounded method rule v) := by
    simp only [staticMethod, hd, hrule, Option.map_some]
  simpa only [hrun, Option.some.injEq] using rounded_cases hv method rule

end Value

/-! ## Members of constants -/

namespace Scope
variable {e : Expr} {levels : Nat}

theorem lower_folded_ok (s : Scope) {v : Value} (hrole : s.role e = .folded)
    (h : e.evaluateWithin (levels + 1) = .ok v) : s.lower (levels + 3) e = literal e v := by
  have hfold : s.fold (levels + 2) e = .ok v := by
    have hsub : levels + 2 - 1 = levels + 1 := rfl
    rw [fold, hsub, h]
  simp only [lower, hrole, hfold]

theorem lower_folded_error (s : Scope) {error : EvalError} (hrole : s.role e = .folded)
    (h : e.evaluateWithin (levels + 1) = .error error) (herror : error ≠ .tooDeep) :
    s.lower (levels + 3) e = .refused e (some (.evaluation error)) := by
  have hfold : s.fold (levels + 2) e = .error (.evaluation error) := by
    have hsub : levels + 2 - 1 = levels + 1 := rfl
    rw [fold, hsub, h]
    cases error with
    | tooDeep => exact absurd rfl herror
    | _ => rfl
  simp only [lower, hrole, hfold]

end Scope

theorem Receiver.underlying_eq_holder {receiver : Receiver} {declaring : Ty}
    (hr : receiver = .string ∨ receiver = .math) (h : Receiver.of? declaring = some receiver) :
    declaring.underlying = receiver.holder := by
  unfold Receiver.of? at h
  rcases hr with rfl | rfl <;> split at h <;> cases h <;> assumption

namespace Signature
variable {s : Signature} {declaring : Ty} {receiver : Value} {args : List Value}

def run (s : Signature) (declaring : Ty) (receiver : Value) (args : List Value) : Evaluated :=
  match s.access with
  | .property => receiver.member declaring s.member
  | .method => Expr.invoke ⟨declaring, s.member, none⟩ (some receiver) args
  | .staticMethod => Expr.invoke ⟨declaring, s.member, none⟩ none args

/-- Whether folding knows the member, with arguments of these types. -/
def isFoldable (s : Signature) (args : List Ty) : Bool :=
  match s.receiver, s.access with
  | .sequence, .method => false
  | .math, _ => !args.any Ty.isInteger
  | _, _ => true

def failure (s : Signature) (declaring : Ty) (args : List Ty) : EvalError :=
  if s.receiver = .math then .typeMismatch s.member args
  else .notEvaluable (declaring.name ++ "." ++ s.member)

/-- A member that folding knows has a result within bounds, and any other one fails as such. -/
def RunsAsFoldable (s : Signature) (declaring : Ty) (receiver : Value) (args : List Value) : Prop :=
  if s.isFoldable (args.map Value.ty) then Bounded (s.run declaring receiver args)
  else s.run declaring receiver args = .error (s.failure declaring (args.map Value.ty))

theorem runsAsFoldable_property (hs : s ∈ allowList) (ha : s.access = .property)
    (hv : Receiver.of? receiver.ty = some s.receiver) : s.RunsAsFoldable declaring receiver args := by
  have hfold : s.isFoldable (args.map Value.ty) = true := by
    rcases property_cases hs ha with ⟨hr, -⟩ | ⟨hr, -⟩ | ⟨hr, -⟩ <;> simp [isFoldable, hr, ha]
  rw [RunsAsFoldable, if_pos hfold, run, ha]
  exact Value.bounded_member hs ha hv declaring

theorem runsAsFoldable_method (hs : s ∈ allowList) (ha : s.access = .method)
    (hv : Receiver.of? receiver.ty = some s.receiver) (hargs : List.Forall₂ ArgKind.Takes s.params args) :
    s.RunsAsFoldable declaring receiver args := by
  rw [RunsAsFoldable, run, ha]
  rcases method_cases hs ha with ⟨hr, -⟩ | ⟨hr, -⟩
  all_goals
    rw [hr] at hv
    rcases Value.cases_of_receiver hv with ⟨hk, w, rfl⟩ | ⟨hk, w, rfl⟩ | ⟨hk, w, rfl⟩ | hk <;> cases hk
  · have hfold : s.isFoldable (args.map Value.ty) = false := by simp [isFoldable, hr, ha]
    simp only [hfold, failure, hr]
    rfl
  · have hfold : s.isFoldable (args.map Value.ty) = true := by simp [isFoldable, hr]
    obtain ⟨r, hrun, hbounded⟩ := Value.bounded_stringMethod hs ha hr hargs w
    rw [if_pos hfold]
    change Bounded ((Value.stringMethod w s.member args).getD _)
    rw [hrun]
    exact hbounded

theorem runsAsFoldable_staticMethod (hs : s ∈ allowList) (ha : s.access = .staticMethod)
    (hd : Receiver.of? declaring = some s.receiver) (hargs : List.Forall₂ ArgKind.Takes s.params args) :
    s.RunsAsFoldable declaring receiver args := by
  have hrun : s.run declaring receiver args =
      (Value.staticMethod declaring s.member args).getD
        (.error (.notEvaluable (declaring.name ++ "." ++ s.member))) := by
    rw [run, ha]
    rfl
  rw [RunsAsFoldable, hrun]
  rcases staticMethod_cases hs ha with ⟨hr, hm, hp⟩ | ⟨hr, hm, hp⟩
  · have hfold : s.isFoldable (args.map Value.ty) = true := by simp [isFoldable, hr]
    rw [hr] at hd
    rw [hp] at hargs
    obtain ⟨w, hw⟩ := Value.staticMethod_concat (Receiver.underlying_eq_holder (.inl rfl) hd) hargs
    rw [if_pos hfold, hm, hw]
    exact .ok w
  · rw [hr] at hd
    rw [hp] at hargs
    obtain _ | @⟨_, v, _, _, hv, _ | _⟩ := hargs
    have hround := Value.staticMethod_round (Receiver.underlying_eq_holder (.inr rfl) hd) hm hv
    have hfold : s.isFoldable [v.ty] = !v.ty.isInteger := by simp [isFoldable, hr]
    cases hw : v.ty.isInteger with
    | true =>
      rw [if_pos hw] at hround
      simp [hfold, hw, hround, failure, hr]
    | false =>
      rw [if_neg (by simp [hw])] at hround
      obtain ⟨w, hround⟩ := hround
      simp [hfold, hw, hround, Bounded]

theorem runsAsFoldable (hs : s ∈ allowList) (hd : Receiver.of? declaring = some s.receiver)
    (hv : s.access ≠ .staticMethod → Receiver.of? receiver.ty = some s.receiver)
    (hargs : s.accepts (args.map Value.ty) = true) : s.RunsAsFoldable declaring receiver args := by
  have htakes := forall₂_of_accepts hargs
  cases ha : s.access with
  | property => exact runsAsFoldable_property hs ha (hv (by simp [ha]))
  | method => exact runsAsFoldable_method hs ha (hv (by simp [ha])) htakes
  | staticMethod => exact runsAsFoldable_staticMethod hs ha hd htakes

section
variable {ty receiverTy : Ty} {constants : List (Value × Ty)}

/-- The member of a constant, or the static one, with constants as arguments, whatever types they are
declared with. -/
def ofConstants (s : Signature) (declaring ty : Ty) (receiver : Value × Ty) (args : List (Value × Ty)) :
    Expr :=
  let target := Expr.constant receiver.1 receiver.2
  let args := args.map fun arg => Expr.constant arg.1 arg.2
  match s.access with
  | .property => .member target declaring s.member ty
  | .method => .call target ⟨declaring, s.member, none⟩ args ty
  | .staticMethod => .staticCall ⟨declaring, s.member, none⟩ args ty

theorem mapM_eval_constants (depth : Nat) :
    (constants.map fun arg => Expr.constant arg.1 arg.2).mapM (Expr.eval (depth + 1)) =
      .ok (constants.map Prod.fst) := by
  rw [mapM_eq_ok, List.forall₂_map_left_iff, List.forall₂_map_right_iff]
  exact List.forall₂_same.mpr fun arg _ => rfl

theorem evaluateWithin_ofConstants (depth : Nat) :
    (s.ofConstants declaring ty (receiver, receiverTy) constants).evaluateWithin (depth + 1) =
      s.run declaring receiver (constants.map Prod.fst) := by
  unfold Expr.evaluateWithin ofConstants run
  cases s.access with
  | property => rfl
  | method =>
    dsimp only
    rw [Expr.eval, mapM_eval_constants]
    rfl
  | staticMethod =>
    dsimp only
    rw [Expr.eval, mapM_eval_constants]
    rfl

theorem ty_ofConstants : (s.ofConstants declaring ty (receiver, receiverTy) constants).ty = ty := by
  unfold ofConstants
  cases s.access <;> rfl

theorem role_ofConstants (scope : Scope) :
    scope.role (s.ofConstants declaring ty (receiver, receiverTy) constants) = .folded := by
  have hargs : Expr.anyOpen (constants.map fun arg => Expr.constant arg.1 arg.2) = false := by
    simp [Expr.anyOpen_eq_any, Expr.isOpen]
  unfold ofConstants
  cases s.access <;> simp [Scope.role, Scope.ifOpen, Expr.isOpen, hargs]

end

end Signature
end ResourceQuery
