import ResourceQuery.Proofs.Lowered
import ResourceQuery.Proofs.Meaning

/-! # Lowering preserves meaning

A tree without markers means, at each value of the parameter, what folding finds for the body with
that value in the place of the parameter. The names are those that the host declares.
-/
namespace ResourceQuery

namespace Expr

/-- A node that converts nothing, has the type that the constructors of host expressions give it,
and hands no value that depends on the parameter to code of the host. -/
def isRegular : Expr → Bool
  | .unary .convert _ _ => false
  | .unary .not _ ty => ty = .boolean
  | .unary .negate operand ty => ty = operand.ty
  | .binary op left _ ty => ty = op.resultTy left.ty
  | e@(.call _ method _ _) | e@(.staticCall method _ _) => method.host.isNone || !e.isOpen
  | _ => true

theorem isRegular_not {operand : Expr} {ty : Ty} (h : isRegular (.unary .not operand ty) = true) :
    ty = .boolean := of_decide_eq_true h

theorem isRegular_negate {operand : Expr} {ty : Ty}
    (h : isRegular (.unary .negate operand ty) = true) : ty = operand.ty := of_decide_eq_true h

theorem isRegular_binary {op : BinaryOp} {left right : Expr} {ty : Ty}
    (h : isRegular (.binary op left right ty) = true) : ty = op.resultTy left.ty :=
  of_decide_eq_true h

theorem isRegular_call {target : Expr} {method : Method} {args : List Expr} {ty : Ty}
    (ho : (target.isOpen || anyOpen args) = true)
    (h : isRegular (.call target method args ty) = true) : method.host = none := by
  simpa [isRegular, isOpen, ho] using h

theorem isRegular_staticCall {method : Method} {args : List Expr} {ty : Ty} (ho : anyOpen args = true)
    (h : isRegular (.staticCall method args ty) = true) : method.host = none := by
  simpa [isRegular, isOpen, ho] using h

/-- The expression under the `Value` members of nullable types around it. -/
def unwrapped : Expr → Expr
  | .member target declaring name ty =>
    match Scope.nullableMember? declaring name with
    | some .value => target.unwrapped
    | _ => .member target declaring name ty
  | e => e

/-- Unwrapping the operand of a negation does not change the type it is computed in. -/
def negatesUnwrapped : Expr → Bool
  | .unary .negate operand _ =>
    !operand.isOpen || operand.unwrapped.ty.underlying = operand.ty.underlying
  | _ => true

theorem negatesUnwrapped_negate {operand : Expr} {ty : Ty} (ho : operand.isOpen = true)
    (h : negatesUnwrapped (.unary .negate operand ty) = true) :
    operand.unwrapped.ty.underlying = operand.ty.underlying := by
  simpa [negatesUnwrapped, ho] using h

mutual
/-- Every member that is lowered to a name on a path is read from an object, wherever folding gets
with `v` for the parameter. -/
def ReadsFields (parameter : String) (v : Value) : Expr → Prop
  | .member target declaring name _ =>
    target.ReadsFields parameter v ∧
      (target.isOpen = true → Scope.asksMapping declaring name = true →
        ∀ n u, eval n (target.substitute (Expr.fixed parameter v)) = .ok u → u.isObject = true)
  | .unary _ operand _ => operand.ReadsFields parameter v
  | .binary (.logical op) left right _ =>
    left.ReadsFields parameter v ∧
      ((∀ n, eval n (left.substitute (Expr.fixed parameter v)) ≠ .ok (.boolean op.decisive)) →
        right.ReadsFields parameter v)
  | .binary _ left right _ => left.ReadsFields parameter v ∧ right.ReadsFields parameter v
  | .call target _ args _ => target.ReadsFields parameter v ∧ AllReadFields parameter v args
  | .staticCall _ args _ => AllReadFields parameter v args
  | .index target args _ => target.ReadsFields parameter v ∧ AllReadFields parameter v args
  | .list _ elements => AllReadFields parameter v elements
  | .parameter _ | .constant .. | .staticMember .. | .source _ => True
  -- Nothing is lowered inside of these.
  | .lambda .. | .construct .. | .conditional .. => True
def AllReadFields (parameter : String) (v : Value) : List Expr → Prop
  | [] => True
  | e :: rest => e.ReadsFields parameter v ∧ AllReadFields parameter v rest
end

theorem allReadFields_iff {parameter : String} {v : Value} {es : List Expr} :
    AllReadFields parameter v es ↔ ∀ e ∈ es, e.ReadsFields parameter v := by
  induction es with
  | nil => simp [AllReadFields]
  | cons e es ih => simp [AllReadFields, ih]

/-- What lowering asks of a body to keep its meaning at `v`. -/
structure Faithful (parameter : String) (v : Value) (e : Expr) : Prop where
  regular : e.Everywhere (isRegular · = true)
  negates : e.Everywhere (negatesUnwrapped · = true)
  reads : e.ReadsFields parameter v

namespace Faithful
variable {parameter : String} {v : Value}

theorem member {target : Expr} {declaring : Ty} {name : String} {ty : Ty}
    (h : Faithful parameter v (.member target declaring name ty)) : Faithful parameter v target :=
  ⟨h.regular.member, h.negates.member, h.reads.1⟩

theorem unary {op : UnaryOp} {operand : Expr} {ty : Ty}
    (h : Faithful parameter v (.unary op operand ty)) : Faithful parameter v operand :=
  ⟨h.regular.unary, h.negates.unary, h.reads⟩

theorem comparison {op : ComparisonOp} {left right : Expr} {ty : Ty}
    (h : Faithful parameter v (.binary (.comparison op) left right ty)) :
    Faithful parameter v left ∧ Faithful parameter v right :=
  ⟨⟨h.regular.binary.1, h.negates.binary.1, h.reads.1⟩,
    ⟨h.regular.binary.2, h.negates.binary.2, h.reads.2⟩⟩

theorem arithmetic {op : ArithmeticOp} {left right : Expr} {ty : Ty}
    (h : Faithful parameter v (.binary (.arithmetic op) left right ty)) :
    Faithful parameter v left ∧ Faithful parameter v right :=
  ⟨⟨h.regular.binary.1, h.negates.binary.1, h.reads.1⟩,
    ⟨h.regular.binary.2, h.negates.binary.2, h.reads.2⟩⟩

theorem logical_left {op : LogicalOp} {left right : Expr} {ty : Ty}
    (h : Faithful parameter v (.binary (.logical op) left right ty)) : Faithful parameter v left :=
  ⟨h.regular.binary.1, h.negates.binary.1, h.reads.1⟩

theorem logical_right {op : LogicalOp} {left right : Expr} {ty : Ty}
    (h : Faithful parameter v (.binary (.logical op) left right ty))
    (hl : ∀ n, eval n (left.substitute (Expr.fixed parameter v)) ≠ .ok (.boolean op.decisive)) :
    Faithful parameter v right :=
  ⟨h.regular.binary.2, h.negates.binary.2, h.reads.2 hl⟩

theorem call {target : Expr} {method : Method} {args : List Expr} {ty : Ty}
    (h : Faithful parameter v (.call target method args ty)) :
    Faithful parameter v target ∧ ∀ arg ∈ args, Faithful parameter v arg :=
  ⟨⟨h.regular.call.1, h.negates.call.1, h.reads.1⟩, fun arg ha =>
    ⟨h.regular.call.2 arg ha, h.negates.call.2 arg ha, allReadFields_iff.mp h.reads.2 arg ha⟩⟩

theorem staticCall {method : Method} {args : List Expr} {ty : Ty}
    (h : Faithful parameter v (.staticCall method args ty)) :
    ∀ arg ∈ args, Faithful parameter v arg := fun arg ha =>
  ⟨h.regular.staticCall arg ha, h.negates.staticCall arg ha, allReadFields_iff.mp h.reads arg ha⟩

theorem index {target : Expr} {args : List Expr} {ty : Ty}
    (h : Faithful parameter v (.index target args ty)) : Faithful parameter v target :=
  ⟨h.regular.index.1, h.negates.index.1, h.reads.1⟩

theorem list {ty : Ty} {elements : List Expr} (h : Faithful parameter v (.list ty elements)) :
    ∀ e ∈ elements, Faithful parameter v e := fun e he =>
  ⟨h.regular.list e he, h.negates.list e he, allReadFields_iff.mp h.reads e he⟩

end Faithful
end Expr

/-! ## The two readings of a body -/

namespace Scope
variable {s : Scope} {v : Value} {levels : Nat}

theorem meaning_extended {path : List String} {pathTy ty : Ty} {name : String} {u w : Value}
    (hu : (Query.member path pathTy).meaning v = .ok u) (hw : u.part? name = some w) :
    (Query.member (path ++ [name]) ty).meaning v = .ok w := by
  simp only [Query.meaning] at hu ⊢
  rw [Value.follow?_append_singleton]
  cases hf : v.follow? path with
  | none => simp [hf] at hu
  | some u' =>
    simp only [hf] at hu
    cases hu
    simp [hw]

theorem meanings_of_zip {es : List Expr} {qs : List Query} {n : Nat} {ws : List Value}
    (hlen : es.length = qs.length) (hf : ∀ e ∈ es, e.Faithful s.parameter.name v)
    (ih : ∀ {e q}, (e, q) ∈ es.zip qs → ∀ {n w}, e.Faithful s.parameter.name v →
      (e.substitute (Expr.fixed s.parameter.name v)).eval n = .ok w → q.meaning v = .ok w)
    (he : (Expr.substituteAll (Expr.fixed s.parameter.name v) es).mapM (Expr.eval n) = .ok ws) :
    Query.meanings v qs = .ok ws := by
  rw [Expr.substituteAll_eq_map, mapM_eq_ok, List.forall₂_map_left_iff] at he
  rw [Query.meanings_eq_ok]
  induction he generalizing qs with
  | nil =>
    obtain rfl := List.length_eq_zero_iff.mp hlen.symm
    exact .nil
  | cons h _ rest =>
    cases qs with
    | nil => cases hlen
    | cons q qs =>
      refine .cons (ih (by simp) (hf _ List.mem_cons_self) h) (rest (by simpa using hlen) ?_ ?_)
      · exact fun e he => hf e (List.mem_cons_of_mem _ he)
      · exact fun hm => ih (by simp [hm])

/-- The type of a lowered node is that of the unwrapped expression, up to nullability. Only a test
for null forgets the declared type, and its value is no number. -/
theorem Lowers.ty_underlying {e : Expr} {q : Query} (h : Lowers s levels e q) {n : Nat} {w : Value}
    (ho : e.isOpen = true) (hr : e.Everywhere (Expr.isRegular · = true))
    (hn : e.Everywhere (Expr.negatesUnwrapped · = true))
    (he : (e.substitute (Expr.fixed s.parameter.name v)).eval n = .ok w) :
    q.ty.underlying = e.unwrapped.ty.underlying ∨ ∃ b, w = .boolean b := by
  induction h generalizing n w with
  | constant _ => cases ho
  | source => cases ho
  | folded hc => rw [hc] at ho; cases ho
  | parameter _ => exact .inl rfl
  | path _ ha _ _ _ =>
    have hnm := nullableMember?_of_asksMapping ha
    exact .inl (by simp [Expr.unwrapped, hnm, Query.ty, Expr.ty])
  | unwrap hto hnm _ ih =>
    rw [Expr.substitute] at he
    obtain ⟨m, u, hu, hw⟩ := Expr.eval_member he
    simp only [Expr.unwrapped, hnm]
    rw [Value.member_unwrap hnm hw]
    exact ih hto hr.member hn.member hu
  | hasValue _ hnm _ _ =>
    rw [Expr.substitute] at he
    obtain ⟨m, u, _, hw⟩ := Expr.eval_member he
    rw [Value.member_hasValue hnm] at hw
    cases hw
    exact .inr ⟨_, rfl⟩
  | property _ hnm _ _ _ _ => exact .inl (by simp [Expr.unwrapped, hnm, Query.ty, Expr.ty])
  | convert _ _ _ => exact absurd hr.self (by simp [Expr.isRegular])
  | not _ _ _ =>
    have hty := Expr.isRegular_not hr.self
    exact .inl (by simp [Expr.unwrapped, Query.ty, Expr.ty, hty])
  | negate hoo _ ih =>
    have hty := Expr.isRegular_negate hr.self
    have hun := Expr.negatesUnwrapped_negate hoo hn.self
    rw [Expr.substitute] at he
    obtain ⟨m, u, hu, hw⟩ := Expr.eval_unary he
    rcases ih hoo hr.unary hn.unary hu with hq | ⟨b, rfl⟩
    · exact .inl (by simp only [Expr.unwrapped, Query.ty, Expr.ty, hty, hq, hun])
    · cases hw
  | comparison _ _ _ _ _ _ =>
    have hty := Expr.isRegular_binary hr.self
    exact .inl (by simp [Expr.unwrapped, Query.ty, Expr.ty, hty, BinaryOp.resultTy])
  | logical _ _ _ _ _ =>
    have hty := Expr.isRegular_binary hr.self
    exact .inl (by simp [Expr.unwrapped, Query.ty, Expr.ty, hty, BinaryOp.resultTy])
  | arithmetic _ _ _ _ _ _ _ => exact .inl rfl
  | concat _ _ _ _ _ _ _ => exact .inl rfl
  | method _ _ _ _ _ _ _ _ => exact .inl rfl
  | staticMethod _ _ _ _ _ _ => exact .inl rfl
  | entry _ _ _ _ _ _ _ _ => exact .inl rfl
  | list _ _ _ _ => exact .inl rfl

theorem Lowers.meaning {e : Expr} {q : Query} (h : Lowers s levels e q)
    (hs : s.mapping = .ofNaming .asDeclared) {n : Nat} {w : Value}
    (hf : e.Faithful s.parameter.name v)
    (he : (e.substitute (Expr.fixed s.parameter.name v)).eval n = .ok w) : q.meaning v = .ok w := by
  induction h generalizing n w with
  | constant _ =>
    cases n <;> cases he
    rfl
  | source => cases n <;> cases he
  | folded hc hfold _ =>
    rw [Expr.substitute_of_closed _ _ hc] at he
    obtain ⟨m, hm⟩ := eval_of_fold hfold
    rw [Expr.eval_unique he hm]
    rfl
  | parameter hp =>
    rw [Expr.substitute, Expr.fixed, if_pos hp] at he
    cases n <;> cases he
    rfl
  | @path _ _ declaring name _ _ _ hto ha _ _ ih =>
    rw [Expr.substitute] at he
    obtain ⟨m, u, hu, hw⟩ := Expr.eval_member he
    have hname : (s.mapping.property declaring name).name = name := by
      rw [hs]
      simp [Mapping.ofNaming, Naming.apply]
    have hpart := Value.part?_of_member (nullableMember?_of_asksMapping ha) (hf.reads.2 hto ha m u hu) hw
    rw [hname]
    exact meaning_extended (ih hf.member hu) hpart
  | unwrap _ hnm _ ih =>
    rw [Expr.substitute] at he
    obtain ⟨m, u, hu, hw⟩ := Expr.eval_member he
    rw [Value.member_unwrap hnm hw]
    exact ih hf.member hu
  | hasValue _ hnm _ ih =>
    rw [Expr.substitute] at he
    obtain ⟨m, u, hu, hw⟩ := Expr.eval_member he
    rw [Value.member_hasValue hnm] at hw
    simp only [Query.meaning, bind_eq_ok]
    exact ⟨u, ih hf.member hu, .null, rfl, by rw [Value.compareBy_notEqual_null, hw]⟩
  | property _ _ _ hl _ ih =>
    rw [Expr.substitute] at he
    obtain ⟨m, u, hu, hw⟩ := Expr.eval_member he
    obtain ⟨hsig, _, rfl, hacc⟩ := mem_allowList_of_lookup hl
    simp only [Query.meaning, bind_eq_ok]
    exact ⟨_, Query.meanings_arrange _ (ih hf.member hu) rfl, Function.apply_property hsig hacc hw⟩
  | convert _ _ _ => exact absurd hf.regular.self (by simp [Expr.isRegular])
  | not _ _ ih =>
    rw [Expr.substitute] at he
    obtain ⟨m, u, hu, hw⟩ := Expr.eval_unary he
    simp only [Query.meaning, bind_eq_ok]
    exact ⟨u, ih hf.unary hu, hw⟩
  | negate hoo ht ih =>
    have hty := Expr.isRegular_negate hf.regular.self
    have hun := Expr.negatesUnwrapped_negate hoo hf.negates.self
    rw [Expr.substitute] at he
    obtain ⟨m, u, hu, hw⟩ := Expr.eval_unary he
    simp only [Query.meaning, bind_eq_ok]
    refine ⟨u, ih hf.unary hu, ?_⟩
    rcases ht.ty_underlying hoo hf.regular.unary hf.negates.unary hu with hq | ⟨b, rfl⟩
    · rw [← hw, hty]
      exact Value.negate_underlying (hq.trans hun) u
    · cases hw
  | comparison _ _ _ _ ihl ihr =>
    rw [Expr.substitute] at he
    obtain ⟨m, l, r, hl, hr, hw⟩ := Expr.eval_comparison he
    simp only [Query.meaning, bind_eq_ok]
    exact ⟨l, ihl hf.comparison.1 hl, r, ihr hf.comparison.2 hr, hw⟩
  | logical _ _ _ ihl ihr =>
    rw [Expr.substitute] at he
    obtain ⟨m, b, hl, hw⟩ := Expr.eval_logical he
    simp only [Query.meaning, bind_eq_ok]
    refine ⟨.boolean b, ihl hf.logical_left hl, b, rfl, ?_⟩
    rcases hw with ⟨hb, rfl⟩ | ⟨hb, c, hr, rfl⟩
    · rw [if_pos hb]
      rfl
    · -- The right operand is folded because the left one does not decide.
      have hright := hf.logical_right fun k hk => hb (by cases Expr.eval_unique hl hk; rfl)
      rw [if_neg hb]
      exact bind_eq_ok.mpr ⟨.boolean c, ihr hright hr, rfl⟩
  | arithmetic _ _ _ _ _ ihl ihr =>
    rw [Expr.substitute] at he
    obtain ⟨m, l, r, hl, hr, hw⟩ := Expr.eval_arithmetic he
    simp only [Query.meaning, bind_eq_ok]
    exact ⟨l, ihl hf.arithmetic.1 hl, r, ihr hf.arithmetic.2 hr, hw⟩
  | @concat _ left right ty _ _ _ _ hc _ _ ihl ihr =>
    have hty : ty = left.ty := Expr.isRegular_binary hf.regular.self
    rw [← hty, Bool.or_self] at hc
    rw [Expr.substitute] at he
    obtain ⟨m, l, r, hl, hr, hw⟩ := Expr.eval_arithmetic he
    rw [Value.arithmetic, if_pos (by simp [Value.joins, hc])] at hw
    simp only [Query.meaning, bind_eq_ok]
    refine ⟨[l, r], ?_, by simp [Function.apply, Function.host, Expr.invoke, Value.concat_eq_staticMethod hw]⟩
    rw [Query.meanings_eq_ok]
    exact .cons (ihl hf.arithmetic.1 hl) (.cons (ihr hf.arithmetic.2 hr) .nil)
  | method ho _ hl _ hlen _ iht iha =>
    have hhost := Expr.isRegular_call ho hf.regular.self
    rw [Expr.substitute] at he
    obtain ⟨m, t, ws, ht, hws, hw⟩ := Expr.eval_call he
    obtain ⟨hsig, _, hmem, hacc⟩ := mem_allowList_of_lookup hl
    simp only [Query.meaning, bind_eq_ok]
    exact ⟨_, Query.meanings_arrange _ (iht hf.call.1 ht) (meanings_of_zip hlen hf.call.2 iha hws),
      Function.apply_method hsig hacc hmem hhost hw⟩
  | staticMethod ho hr hl hlen _ iha =>
    have hhost := Expr.isRegular_staticCall ho hf.regular.self
    rw [Expr.substitute] at he
    obtain ⟨m, ws, hws, hw⟩ := Expr.eval_staticCall he
    obtain ⟨hsig, rfl, hmem, hacc⟩ := mem_allowList_of_lookup hl
    simp only [Query.meaning, bind_eq_ok]
    exact ⟨ws, meanings_of_zip hlen hf.staticCall iha hws,
      Function.apply_staticMethod hsig hacc hmem hr hhost hw⟩
  | entry _ _ hc hk _ _ _ ih =>
    rw [Expr.substitute, Expr.substituteAll_of_closed _ _ (by simp [Expr.anyOpen, hc])] at he
    obtain ⟨m, u, key, hu, hkey, hw⟩ := Expr.eval_index he
    obtain ⟨k, value, hvalue, htext⟩ := eval_of_entryKey hk
    rw [← Expr.eval_unique hkey hvalue] at htext
    exact meaning_extended (ih hf.index hu) (Value.part?_of_entry htext hw)
  | list _ hlen _ ih =>
    rw [Expr.substitute] at he
    obtain ⟨m, ws, hws, rfl⟩ := Expr.eval_list he
    simp only [Query.meaning, bind_eq_ok]
    exact ⟨ws, meanings_of_zip hlen hf.list ih hws, rfl⟩

theorem unconverted_of_isRegular {body : Expr} (h : body.isRegular = true) : body.unconverted = body := by
  cases body with
  | unary op operand ty => cases op <;> first | rfl | cases h
  | _ => rfl

/-- Members are named as the host declares them. -/
def declared (options : Options) (parameter : Parameter) : Scope :=
  ⟨.ofNaming .asDeclared, options, parameter⟩

/-- A body whose tree has no markers means, at `v`, what folding finds with `v` for the parameter. -/
theorem meaning_lowerBody (options : Options) (parameter : Parameter) {body : Expr} {v w : Value}
    {n : Nat} (hr : body.Everywhere (Expr.isRegular · = true))
    (hn : body.Everywhere (Expr.negatesUnwrapped · = true))
    (hf : body.ReadsFields parameter.name v)
    (hq : ((declared options parameter).lowerBody .value body).isRepresentable = true)
    (he : (body.substitute (Expr.fixed parameter.name v)).eval n = .ok w) :
    ((declared options parameter).lowerBody .value body).meaning v = .ok w := by
  have hbody : body.Faithful (declared options parameter).parameter.name v := ⟨hr, hn, hf⟩
  unfold lowerBody at hq ⊢
  rw [unconverted_of_isRegular hr.self] at hq ⊢
  cases body with
  | construct ty args members => cases n <;> cases he
  | list ty elements =>
    simp only [reduceCtorEq, ↓reduceIte] at hq ⊢
    have hjoin := joined_of_isRepresentable hq
    rw [hjoin] at hq ⊢
    simp only [Query.isRepresentable, Query.allRepresentable_iff] at hq
    rw [Expr.substitute] at he
    obtain ⟨m, ws, hws, rfl⟩ := Expr.eval_list he
    simp only [Query.meaning, bind_eq_ok]
    refine ⟨ws, meanings_of_zip (by simp) hbody.list ?_ hws, rfl⟩
    intro e q hm n w hf he
    obtain ⟨hmem, rfl⟩ := mem_zip_map.mp hm
    exact (lowers_of_isRepresentable (hq _ (List.mem_map_of_mem hmem))).meaning rfl hf he
  | _ => exact (lowers_of_isRepresentable hq).meaning rfl hbody he

/-! Two bodies at one value of the parameter. -/

namespace Sample

def x : Parameter := ⟨"x", .named "Person"⟩

def person : Value := .object "Person" [("Age", .int32 5), ("Roles", .dictionary [("main", .string "admin")])]

/-- The age, as a nullable number and as a number of another type. -/
def age (ty : Ty) : Expr :=
  .memberOf (.memberOf (.parameter x) "Age" (.nullable .int32)) "Value" ty

/-- The main role is `admin` and the negated age is less than three. -/
def body : Expr :=
  let roles := Expr.memberOf (.parameter x) "Roles" (.dictionary .string .string)
  .binaryOf (.logical .and)
    (.binaryOf (.comparison .equal) (.index roles [.ofValue (.string "main")] .string) (.ofValue (.string "admin")))
    (.binaryOf (.comparison .less) (.negateOf (age .int32)) (.ofValue (.int32 3)))

theorem readsFields_memberOf (name : String) (ty : Ty) :
    (Expr.memberOf (.parameter x) name ty).ReadsFields "x" person := by
  refine ⟨trivial, fun _ _ n u hu => ?_⟩
  cases n <;> cases hu
  rfl

theorem readsFields_age (ty : Ty) : (age ty).ReadsFields "x" person :=
  -- `Value` of a nullable type is not looked up in the mapping.
  ⟨readsFields_memberOf _ _, fun _ h => by cases h⟩

end Sample

open Sample in
theorem meaning_lowerBody_person :
    ((declared {} x).lowerBody .value body).meaning person = .ok (.boolean true) := by
  refine meaning_lowerBody (n := 10) {} x (by decide) (by decide) ?_ (by rfl) (by rfl)
  exact ⟨⟨⟨readsFields_memberOf _ _, trivial, trivial⟩, trivial⟩, fun _ => ⟨readsFields_age .int32, trivial⟩⟩

open Sample in
/-- A `Value` member that declares another type than its nullable holds is unwrapped to the type
that it holds. So two bodies of different values have one tree, and it means only one of them. -/
theorem negated_value_of_another_type :
    (Expr.negateOf (age .int64)).Everywhere (Expr.isRegular · = true) ∧
    (Expr.negateOf (age .int64)).ReadsFields x.name person ∧
    ((declared {} x).lowerBody .value (.negateOf (age .int64))).isRepresentable = true ∧
    (declared {} x).lowerBody .value (.negateOf (age .int64)) =
      (declared {} x).lowerBody .value (.negateOf (age .int32)) ∧
    ((Expr.negateOf (age .int64)).substitute (Expr.fixed x.name person)).evaluate = .ok (.int64 (-5)) ∧
    ((Expr.negateOf (age .int32)).substitute (Expr.fixed x.name person)).evaluate = .ok (.int32 (-5)) ∧
    ((declared {} x).lowerBody .value (.negateOf (age .int64))).meaning person ≠
      .ok (.int64 (-5)) := by
  refine ⟨by decide, readsFields_age .int64, by rfl, by rfl, by rfl, by rfl, ?_⟩
  intro h
  cases h

end Scope
end ResourceQuery
