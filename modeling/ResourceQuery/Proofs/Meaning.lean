import ResourceQuery.Lowering
import ResourceQuery.Query.Marker
import ResourceQuery.Proofs.Evaluation
import ResourceQuery.Proofs.Markers

/-! # What query trees mean

A query tree is read at a value of the lambda parameter. Operators compute what folding computes,
paths go through fields of objects and entries of dictionaries, and a function of the grammar
computes what the member of the host computes that the allow-list lowers to it.
-/
namespace ResourceQuery

namespace Value

def isObject : Value → Bool
  | .object .. => true
  | _ => false

/-- One step of a path: a field of an object or an entry of a dictionary. -/
def part? (v : Value) (name : String) : Option Value :=
  match v with
  | .object _ fields => fields.lookup name
  | .dictionary entries => entries.lookup name
  | _ => none

def follow? (v : Value) (path : List String) : Option Value := path.foldlM part? v

theorem follow?_append_singleton (v : Value) (path : List String) (name : String) :
    v.follow? (path ++ [name]) = (v.follow? path).bind (part? · name) := by
  rw [follow?, List.foldlM_append]
  cases h : v.follow? path <;> simp [follow?] at h <;> simp [h]

end Value

/-- The member of the host that a function stands for. -/
inductive HostMember
  | property (name : String)
  | method (name : String) (receiverLast : Bool)
  | staticMethod (declaring : Ty) (name : String)
  deriving DecidableEq

def Function.host : Function → HostMember
  | .substringOf => .method "Contains" true
  | .startsWith => .method "StartsWith" false
  | .endsWith => .method "EndsWith" false
  | .indexOf => .method "IndexOf" false
  | .substring => .method "Substring" false
  | .replace => .method "Replace" false
  | .toLower => .method "ToLower" false
  | .toUpper => .method "ToUpper" false
  | .trim => .method "Trim" false
  | .concat => .staticMethod .string "Concat"
  | .length => .property "Length"
  | .count => .property "Count"
  | .year => .property "Year"
  | .month => .property "Month"
  | .day => .property "Day"
  | .hour => .property "Hour"
  | .minute => .property "Minute"
  | .second => .property "Second"
  | .round => .staticMethod (.named "Math") "Round"
  | .floor => .staticMethod (.named "Math") "Floor"
  | .ceiling => .staticMethod (.named "Math") "Ceiling"

def receiverOf {α : Type} (last : Bool) (args : List α) : Option (α × List α) :=
  if last then args.getLast?.map fun r => (r, args.dropLast)
  else args.head?.map fun r => (r, args.tail)

theorem receiverOf_arrange {α : Type} (s : Signature) (r : α) (args : List α) :
    receiverOf (s.position = .last) (s.arrange (some r) args) = some (r, args) := by
  by_cases h : s.position = .last <;> simp [receiverOf, Signature.arrange, h]

def Function.apply (f : Function) (args : List Value) : Evaluated :=
  let unknown : EvalError := .notEvaluable f.name
  match f.host with
  | .property name =>
    match args with
    | [v] => v.member .object name
    | _ => .error unknown
  | .method name last =>
    match receiverOf last args with
    | some (receiver, rest) => Expr.invoke ⟨.string, name, none⟩ (some receiver) rest
    | none => .error unknown
  | .staticMethod declaring name => Expr.invoke ⟨declaring, name, none⟩ none args

namespace Query

mutual
/-- The value of a tree when the lambda parameter is `v`. A projection, a source and what is made
of them have none. -/
def meaning (v : Value) : Query → Evaluated
  | .constant value _ => .ok value
  | .member path _ =>
    match v.follow? path with
    | some w => .ok w
    | none => .error (.notEvaluable (pathText path))
  | .comparison op left right => do
    let l ← left.meaning v
    let r ← right.meaning v
    l.compareBy op r
  | .logical op left right => do
    let l ← Expr.truth op.symbol (← left.meaning v)
    if l = op.decisive then return .boolean l
    return .boolean (← Expr.truth op.symbol (← right.meaning v))
  | .arithmetic op left right ty => do
    let l ← left.meaning v
    let r ← right.meaning v
    l.arithmetic op ty r
  | .not operand => do
    Expr.applyUnary .not .boolean (← operand.meaning v)
  | .negate operand => do
    Expr.applyUnary .negate operand.ty (← operand.meaning v)
  | .call function args _ => do
    function.apply (← meanings v args)
  | .list elements _ => return .list (← meanings v elements)
  | .projection .. | .selector _ | .source _ | .selectMany .. => .error (.notEvaluable "query")
  | .unsupported expression _ _ _ => .error (.notEvaluable expression)
def meanings (v : Value) : List Query → Except EvalError (List Value)
  | [] => .ok []
  | q :: rest => return (← q.meaning v) :: (← meanings v rest)
end

theorem meanings_eq_ok {v : Value} {qs : List Query} {ws : List Value} :
    meanings v qs = .ok ws ↔ List.Forall₂ (fun q w => q.meaning v = .ok w) qs ws := by
  rw [← mapM_eq_ok]
  suffices h : meanings v qs = qs.mapM (meaning v) by rw [h]
  induction qs with
  | nil => rfl
  | cons q qs ih => rw [meanings, List.mapM_cons, ih]

theorem meanings_arrange (s : Signature) {v t : Value} {q : Query} {qs : List Query}
    {ws : List Value} (hq : q.meaning v = .ok t) (hqs : meanings v qs = .ok ws) :
    meanings v (s.arrange (some q) qs) = .ok (s.arrange (some t) ws) := by
  rw [meanings_eq_ok] at hqs ⊢
  by_cases h : s.position = .last
  · simp only [Signature.arrange, h, ↓reduceIte]
    exact List.rel_append hqs (.cons hq .nil)
  · simp only [Signature.arrange, h, ↓reduceIte]
    exact .cons hq hqs

end Query

/-! ## Values read on a path -/

namespace Scope

theorem nullableMember?_eq_none {declaring : Ty} {name : String}
    (h : nullableMember? declaring name = none) :
    (Value.isNullableTy declaring && name == "Value") = false ∧
      (Value.isNullableTy declaring && name == "HasValue") = false := by
  cases declaring with
  | nullable inner =>
    have hv : name ≠ "Value" := by rintro rfl; cases h
    have hh : name ≠ "HasValue" := by rintro rfl; cases h
    simp [hv, hh]
  | _ => exact ⟨rfl, rfl⟩

theorem nullableMember?_eq_value {declaring : Ty} {name : String}
    (h : nullableMember? declaring name = some .value) :
    Value.isNullableTy declaring = true ∧ name = "Value" := by
  unfold nullableMember? at h
  split at h <;> cases h
  exact ⟨rfl, rfl⟩

theorem nullableMember?_eq_hasValue {declaring : Ty} {name : String}
    (h : nullableMember? declaring name = some .hasValue) :
    Value.isNullableTy declaring = true ∧ name = "HasValue" := by
  unfold nullableMember? at h
  split at h <;> cases h
  exact ⟨rfl, rfl⟩

end Scope

namespace Value

/-- Only the wrappers of nullable types depend on the declaring type. -/
theorem member_declaring {name : String} (hv : name ≠ "Value") (hh : name ≠ "HasValue")
    (declaring other : Ty) (v : Value) : v.member declaring name = v.member other name := by
  simp [member, hv, hh]

theorem member_unwrap {declaring : Ty} {name : String} {v w : Value}
    (hn : Scope.nullableMember? declaring name = some .value)
    (h : v.member declaring name = .ok w) : w = v := by
  obtain ⟨hd, rfl⟩ := Scope.nullableMember?_eq_value hn
  cases hnull : v.isNull <;> simp [member, hd, hnull] at h
  exact h.symm

theorem member_hasValue {declaring : Ty} {name : String}
    (hn : Scope.nullableMember? declaring name = some .hasValue) (v : Value) :
    v.member declaring name = .ok (.boolean !v.isNull) := by
  obtain ⟨hd, rfl⟩ := Scope.nullableMember?_eq_hasValue hn
  simp [member, hd]

theorem part?_of_member {v w : Value} {declaring : Ty} {name : String}
    (hd : Scope.nullableMember? declaring name = none) (hv : v.isObject = true)
    (h : v.member declaring name = .ok w) : v.part? name = some w := by
  cases v with
  | object typeName fields =>
    obtain ⟨hv, hh⟩ := Scope.nullableMember?_eq_none hd
    simp only [member, hv, hh, isNull, Bool.false_eq_true, ↓reduceIte] at h
    simp only [part?]
    split at h
    · cases h
      assumption
    · cases h
  | _ => cases hv

theorem part?_of_entry {v key w : Value} {k : String} (hk : key.text? = some k)
    (h : v.entry key = .ok w) : v.part? k = some w := by
  cases v with
  | dictionary entries =>
    cases key with
    | string s =>
      cases hk
      simp only [entry] at h
      simp only [part?]
      split at h
      · cases h
        assumption
      · cases h
    | _ => cases h
  | list items =>
    -- A position is no text.
    cases key <;> cases hk <;> cases h
  | _ => cases key <;> cases h

theorem compareBy_notEqual_null (v : Value) : v.compareBy .notEqual .null = .ok (.boolean !v.isNull) := by
  cases v <;> rfl

theorem ofWhole?_underlying {ty other : Ty} (h : ty.underlying = other.underlying) (n : Int) :
    ofWhole? ty n = ofWhole? other n := by
  unfold ofWhole?
  rw [h]

theorem ofReal_underlying {ty other : Ty} (h : ty.underlying = other.underlying) (x : Float) :
    ofReal ty x = ofReal other x := by
  unfold ofReal
  rw [h]

theorem negate_underlying {ty other : Ty} (h : ty.underlying = other.underlying) (v : Value) :
    v.negate ty = v.negate other := by
  unfold negate
  simp only [stored, ofWhole?_underlying h, ofReal_underlying h]

/-- The texts that `concat` joins are those that addition joins. -/
theorem concat_eq_staticMethod {v w u : Value} (h : v.concat w = .ok u) :
    staticMethod .string "Concat" [v, w] = some (.ok u) := by
  unfold concat at h
  split at h
  · cases h
    rename_i hs ht
    simp [staticMethod, Ty.underlying, List.mapM_cons, hs, ht, String.join]
  · cases h

end Value

/-! ## The allow-list and the functions

Each entry lowers a member to the function that stands for it, the counting method apart, which
folding does not know.
-/

theorem host_of_property {s : Signature} (h : s ∈ allowList) (ha : s.access = .property) :
    s.function.host = .property s.member ∧ s.member ≠ "Value" ∧ s.member ≠ "HasValue" := by
  revert s
  decide

theorem host_of_method {s : Signature} (h : s ∈ allowList) (ha : s.access = .method) :
    s.function.host = .method s.member (s.position = .last) ∨ s.member = "Count" := by
  revert s
  decide

def Receiver.holder : Receiver → Ty
  | .math => .named "Math"
  | _ => .string

theorem host_of_staticMethod {s : Signature} (h : s ∈ allowList) (ha : s.access = .staticMethod) :
    s.function.host = .staticMethod s.receiver.holder s.member ∧
      (s.receiver = .string ∨ s.receiver = .math) := by
  revert s
  decide

namespace Function
variable {s : Signature} {w : Value}

theorem apply_property {declaring : Ty} {v : Value} (hs : s ∈ allowList) (ha : s.access = .property)
    (h : v.member declaring s.member = .ok w) :
    s.function.apply (s.arrange (some v) []) = .ok w := by
  obtain ⟨hf, hv, hh⟩ := host_of_property hs ha
  have harr : s.arrange (some v) [] = [v] := by simp [Signature.arrange]
  rw [Value.member_declaring hv hh declaring .object v] at h
  rw [apply, hf, harr]
  exact h

theorem apply_method {method : Method} {t : Value} {args : List Value} (hs : s ∈ allowList)
    (ha : s.access = .method) (hm : s.member = method.name) (hh : method.host = none)
    (h : Expr.invoke method (some t) args = .ok w) :
    s.function.apply (s.arrange (some t) args) = .ok w := by
  cases t with
  | string text =>
    simp only [Expr.invoke, hh] at h
    rcases host_of_method hs ha with hf | hc
    · rw [apply, hf]
      simp only [receiverOf_arrange, Expr.invoke, hm]
      -- The declaring type is only in the error.
      cases hr : Value.stringMethod text method.name args with
      | none => rw [hr] at h; cases h
      | some result => rw [hr] at h; exact h
    · rw [← hm, hc] at h
      cases h
  | _ => simp only [Expr.invoke, hh] at h; cases h

theorem apply_staticMethod {method : Method} {args : List Value} (hs : s ∈ allowList)
    (ha : s.access = .staticMethod) (hm : s.member = method.name)
    (hr : Receiver.of? method.declaring = some s.receiver) (hh : method.host = none)
    (h : Expr.invoke method none args = .ok w) : s.function.apply args = .ok w := by
  obtain ⟨hf, hrec⟩ := host_of_staticMethod hs ha
  have hu : method.declaring.underlying = s.receiver.holder.underlying := by
    unfold Receiver.of? at hr
    rcases hrec with hrec | hrec <;> rw [hrec] at hr ⊢ <;> split at hr <;> cases hr <;> assumption
  have hst : Value.staticMethod s.receiver.holder method.name args =
      Value.staticMethod method.declaring method.name args := by
    unfold Value.staticMethod
    rw [hu]
  rw [apply, hf]
  simp only [Expr.invoke, hh] at h
  simp only [Expr.invoke, hm, hst]
  cases hres : Value.staticMethod method.declaring method.name args with
  | none => rw [hres] at h; cases h
  | some result => rw [hres] at h; exact h

end Function

end ResourceQuery
