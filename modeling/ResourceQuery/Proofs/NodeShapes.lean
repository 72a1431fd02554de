import ResourceQuery.Lowering.ByKind

/-! # Roles fit the shapes of their nodes

The parts that a role carries are those of its node, in the shape that its kind calls for. So lowering by
kind never gives up, and comes to the same tree; and a function has a receiver exactly if its signature has a
place for one.
-/
namespace ResourceQuery

/-! ## The place of the receiver -/

theorem mem_allowList_of_lookup {receiver : Receiver} {name : String} {access : Access}
    {args : List Ty} {s : Signature} (h : lookup receiver name access args = .found s) :
    s ∈ allowList ∧ s.receiver = receiver ∧ s.member = name ∧ s.access = access := by
  unfold lookup at h
  cases ho : overloads receiver name access with
  | nil => simp [ho] at h
  | cons first rest =>
    rw [ho] at h
    dsimp only at h
    split at h
    · cases h
      rename_i hs
      have hm : s ∈ overloads receiver name access := ho ▸ List.mem_of_find?_eq_some hs
      simpa [overloads, and_assoc] using hm
    · cases h

/-- Exactly the static members of the allow-list are printed without a receiver. -/
theorem position_eq_absent_iff {signature : Signature} (h : signature ∈ allowList) :
    signature.position = .absent ↔ signature.access = .staticMethod := by
  revert signature
  decide

theorem position_of_lookup {receiver : Receiver} {name : String} {access : Access} {args : List Ty}
    {signature : Signature} (h : lookup receiver name access args = .found signature) :
    signature.position = .absent ↔ access = .staticMethod := by
  obtain ⟨hmem, -, -, haccess⟩ := mem_allowList_of_lookup h
  rw [position_eq_absent_iff hmem, haccess]

namespace Signature
variable {α : Type} {s : Signature}

/-- The printed arguments of a signature that has a place for a receiver exactly if there is one. -/
def arrange (s : Signature) (receiver : Option α) (args : List α) : List α :=
  match receiver with
  | none => args
  | some r => if s.position = .last then args ++ [r] else r :: args

theorem arrange?_eq {receiver : Option α} (h : s.position = .absent ↔ receiver = none) (args : List α) :
    s.arrange? receiver args = some (s.arrange receiver args) := by
  cases receiver with
  | none =>
    unfold arrange?
    rw [h.mpr rfl]
    rfl
  | some r =>
    cases hposition : s.position with
    | absent => cases h.mp hposition
    | first | last => simp [arrange?, arrange, hposition]

theorem mem_arrange {a r : α} {args : List α} : a ∈ s.arrange (some r) args ↔ a = r ∨ a ∈ args := by
  unfold arrange
  dsimp only
  split <;> simp [or_comm]

theorem mem_arrange_iff {a : α} {receiver : Option α} {args : List α} :
    a ∈ s.arrange receiver args ↔ a ∈ receiver.toList ++ args := by
  cases receiver with
  | none => rfl
  | some r => simp [mem_arrange]

end Signature

theorem Scope.called_eq {e : Expr} {signature : Signature} {receiver : Option Query}
    (h : signature.position = .absent ↔ receiver = none) (args : List Query) :
    called e signature receiver args =
      .call signature.function (signature.arrange receiver args) e.ty := by
  rw [called, Signature.arrange?_eq h]

/-! ## The shapes of the nodes of a role -/

/-- A role whose parts are those of the node, in the shape that its kind calls for. -/
inductive Role.Fits : Role → Expr → Prop
  | constant (value : Value) (ty : Ty) : Fits (.constant value) (.constant value ty)
  | folded (e : Expr) : Fits .folded e
  | source (elementTy : Ty) : Fits (.source elementTy) (.source elementTy)
  | parameter (e : Expr) : Fits .parameter e
  | path (target : Expr) (declaring : Ty) (name : String) (ty : Ty) :
    Fits (.path target declaring name) (.member target declaring name ty)
  | entry (target key : Expr) (ty : Ty) : Fits (.entry target key) (.index target [key] ty)
  | comparison (op : ComparisonOp) (operator : BinaryOp) (left right : Expr) (ty : Ty) :
    Fits (.comparison op left right) (.binary operator left right ty)
  | logical (op : LogicalOp) (operator : BinaryOp) (left right : Expr) (ty : Ty) :
    Fits (.logical op left right) (.binary operator left right ty)
  | arithmetic (op : ArithmeticOp) (operator : BinaryOp) (left right : Expr) (ty : Ty) :
    Fits (.arithmetic op left right) (.binary operator left right ty)
  | concat (operator : BinaryOp) (left right : Expr) (ty : Ty) :
    Fits (.concat left right) (.binary operator left right ty)
  | not (operator : UnaryOp) (operand : Expr) (ty : Ty) : Fits (.not operand) (.unary operator operand ty)
  | negate (operator : UnaryOp) (operand : Expr) (ty : Ty) :
    Fits (.negate operand) (.unary operator operand ty)
  | convert (operator : UnaryOp) (operand : Expr) (ty : Ty) :
    Fits (.conversion operand) (.unary operator operand ty)
  | unwrap (target : Expr) (declaring : Ty) (name : String) (ty : Ty) :
    Fits (.conversion target) (.member target declaring name ty)
  | hasValue (target : Expr) (declaring : Ty) (name : String) (ty : Ty) :
    Fits (.hasValue target declaring) (.member target declaring name ty)
  | function {signature : Signature} {receiver : Option Expr} {args : List Expr} {e : Expr}
    (hparts : e.receiverAndArgs? = some (receiver, args))
    (hplace : signature.position = .absent ↔ receiver = none) : Fits (.function signature receiver args) e
  | record (ty : Ty) (args : List Expr) (members : Option (List String)) :
    Fits .record (.construct ty args members)
  | list (ty : Ty) (elements : List Expr) : Fits (.list elements) (.list ty elements)
  | unsupported (cause : Option Cause) (e : Expr) : Fits (.unsupported cause) e

namespace Scope
open Role
variable {e : Expr}

theorem fits_ifOpen {r : Role} (h : r.Fits e) : (ifOpen e r).Fits e := by
  unfold ifOpen
  split
  · exact h
  · exact .folded e

theorem fits_binaryRole (s : Scope) (op : BinaryOp) (left right : Expr) (ty : Ty) :
    (s.binaryRole op left right ty).Fits (.binary op left right ty) := by
  unfold binaryRole
  split
  · exact .logical ..
  · split
    · exact .unsupported ..
    · exact .comparison ..
  · split
    · exact .unsupported ..
    · split
      · exact .concat ..
      · exact .arithmetic ..

theorem fits_memberRole (s : Scope) (target : Expr) (declaring : Ty) (name : String) (ty : Ty) :
    (s.memberRole target declaring name).Fits (.member target declaring name ty) := by
  unfold memberRole
  split
  · exact .unwrap ..
  · exact .hasValue ..
  · split
    · split
      · rename_i hlookup
        exact .function rfl ((position_of_lookup hlookup).trans (by simp))
      · exact .unsupported ..
    · split
      · exact .unsupported ..
      · split
        · exact .path ..
        · exact .unsupported ..

theorem fits_callRole {access : Access} {receiver : Option Expr} {args : List Expr} (method : Method)
    (hparts : e.receiverAndArgs? = some (receiver, args))
    (haccess : access = .staticMethod ↔ receiver = none) : (callRole access method receiver args).Fits e := by
  unfold callRole
  dsimp only
  split
  · exact .unsupported ..
  · split
    · rename_i hlookup
      exact .function hparts ((position_of_lookup hlookup).trans haccess)
    · exact .unsupported ..
    · exact .unsupported ..

theorem fits_indexRole (target : Expr) (args : List Expr) (ty : Ty) :
    (indexRole target args).Fits (.index target args ty) := by
  unfold indexRole
  dsimp only
  split
  · split
    · split
      · exact .unsupported ..
      · exact .entry ..
    · exact .unsupported ..
  · exact .unsupported ..

/-- The role of a node is read off its shape, constructor by constructor. -/
theorem fits_role (s : Scope) (e : Expr) : (s.role e).Fits e := by
  cases e with
  | constant value ty => exact .constant value ty
  | source elementTy => exact .source elementTy
  | lambda parameters body => exact .unsupported ..
  | staticMember declaring name ty => exact .folded _
  | parameter p =>
    rw [role]
    split
    · exact .parameter _
    · exact .unsupported ..
  | unary op operand ty =>
    cases op with
    | not => exact fits_ifOpen (.not ..)
    | negate => exact fits_ifOpen (.negate ..)
    | convert => exact fits_ifOpen (.convert ..)
  | binary op left right ty => exact fits_ifOpen (s.fits_binaryRole op left right ty)
  | member target declaring name ty => exact fits_ifOpen (s.fits_memberRole target declaring name ty)
  | call target method args ty => exact fits_ifOpen (fits_callRole method rfl (by simp))
  | staticCall method args ty => exact fits_ifOpen (fits_callRole method rfl (by simp))
  | index target args ty => exact fits_ifOpen (fits_indexRole target args ty)
  | construct ty args members =>
    refine fits_ifOpen ?_
    split
    · exact .record ..
    · exact .unsupported ..
  | list ty elements => exact fits_ifOpen (.list ty elements)
  | conditional test ifTrue ifFalse ty => exact fits_ifOpen (.unsupported ..)

theorem position_of_role {s : Scope} {signature : Signature} {receiver : Option Expr} {args : List Expr}
    (hrole : s.role e = .function signature receiver args) :
    signature.position = .absent ↔ receiver = none := by
  have hfits := s.fits_role e
  rw [hrole] at hfits
  cases hfits with
  | function hparts hplace => exact hplace

/-- A function has a receiver exactly if it has a place for one, also when all parts are exchanged. -/
theorem called_of_role {s : Scope} {signature : Signature} {receiver : Option Expr} {args : List Expr}
    (hrole : s.role e = .function signature receiver args) (node : Expr) (f : Expr → Query) (parts : List Query) :
    called node signature (receiver.map f) parts =
      .call signature.function (signature.arrange (receiver.map f) parts) node.ty :=
  called_eq ((position_of_role hrole).trans Option.map_eq_none_iff.symm) parts

end Scope

/-! ## No misfits -/

namespace Scope
variable {n : Nat} {e : Expr}

/-- The parts are lowered without a misfit, so all that is left is the place of the receiver. -/
theorem lowerFunction_eq {signature : Signature} {receiver : Option Expr} {args : List Expr} (f : Expr → Query)
    (hparts : e.receiverAndArgs? = some (receiver, args))
    (hplace : signature.position = .absent ↔ receiver = none) :
    lowerFunction (fun part => pure (f part)) e signature =
      pure (joined e ((receiver.map f).toList ++ args.map f)
        (called e signature (receiver.map f) (args.map f))) := by
  have hreceiver : receiver.mapM (fun part => (pure (f part) : Except Misfit Query)) = pure (receiver.map f) := by
    cases receiver <;> rfl
  have harranged := Signature.arrange?_eq (hplace.trans (Option.map_eq_none_iff (f := f)).symm) (args.map f)
  simp only [lowerFunction, hparts, hreceiver, List.mapM_pure, pure_bind, harranged, called, joined]
  split <;> rfl

/-- One step: a node is lowered by its kind to what it is lowered to by its role. -/
theorem lowerOfKind_eq (s : Scope) (n : Nat) (e : Expr) :
    s.lowerOfKind n (fun part => pure (s.lower n part)) e (s.role e).kind = pure (s.lower (n + 1) e) := by
  have hfits := s.fits_role e
  rw [lower]
  -- what the kind finds in the node is what the role carries
  generalize s.role e = r at hfits ⊢
  cases hfits with
  | folded =>
    simp only [Role.kind, lowerOfKind]
    cases s.fold n e <;> rfl
  | entry target key ty =>
    simp only [Role.kind, lowerOfKind]
    cases s.entryKey n key <;> rfl
  | function hparts hplace => exact lowerFunction_eq (s.lower n) hparts hplace
  | list ty elements => simp only [Role.kind, lowerOfKind, List.mapM_pure, pure_bind]
  | _ => rfl

/-- By induction on the levels: no node that is come to is a misfit. -/
theorem lowerByKind_eq_lower (s : Scope) (levels : Nat) (e : Expr) :
    s.lowerByKind levels e = .ok (s.lower levels e) := by
  induction levels generalizing e with
  | zero => rfl
  | succ n ih =>
    have hnext : s.lowerByKind n = fun part => pure (s.lower n part) := funext ih
    rw [lowerByKind, hnext]
    exact s.lowerOfKind_eq n e

end Scope
end ResourceQuery
