import ResourceQuery.Proofs.Alike
import ResourceQuery.Proofs.Lowered
import ResourceQuery.Proofs.NodeShapes
import ResourceQuery.Proofs.Substitution

/-! # Trees that differ in a key

Two bodies that differ only in the key of an entry are lowered to trees that differ only in one
segment of some paths: the segment after those of the dictionary.
-/
namespace ResourceQuery

def Expr.FoldsTo (e : Expr) (k : String) : Prop := ∃ n v, e.eval n = .ok v ∧ v.text? = some k

theorem Expr.FoldsTo.unique {e : Expr} {k l : String} (hk : e.FoldsTo k) (hl : e.FoldsTo l) :
    k = l := by
  obtain ⟨n, v, hv, hkv⟩ := hk
  obtain ⟨m, w, hw, hlw⟩ := hl
  obtain rfl := Expr.eval_unique hv hw
  exact Option.some.inj (hkv.symm.trans hlw)

/-- An entry of the dictionary in the place of one parameter. -/
def Expr.entryAt (hole : Parameter) (dictionary key : Expr) (p : Parameter) : Expr :=
  if p = hole then .index dictionary [key] hole.ty else .parameter p

namespace Scope

/-- A path of members from the parameter of the lambda, with its segments. -/
inductive Path (s : Scope) : Expr → List String → Prop
  | parameter {p : Parameter} (hp : p.name = s.parameter.name) : Path s (.parameter p) []
  | member {target : Expr} {declaring : Ty} {name : String} {ty : Ty} {names : List String}
    (ha : asksMapping declaring name = true) (ht : Path s target names) :
    Path s (.member target declaring name ty) (names ++ [(s.mapping.property declaring name).name])
  | unwrap {target : Expr} {declaring : Ty} {name : String} {ty : Ty} {names : List String}
    (hn : nullableMember? declaring name = some .value) (ht : Path s target names) :
    Path s (.member target declaring name ty) names
  | convert {operand : Expr} {ty : Ty} {names : List String} (ht : Path s operand names) :
    Path s (.unary .convert operand ty) names
  | entry {target key : Expr} {ty : Ty} {names : List String} {k : String} (hk : key.FoldsTo k)
    (ht : Path s target names) : Path s (.index target [key] ty) (names ++ [k])

variable {s : Scope}

theorem Path.isOpen {e : Expr} {names : List String} (h : s.Path e names) : e.isOpen = true := by
  induction h with
  | parameter => rfl
  | member _ _ ih | unwrap _ _ ih | convert _ ih => exact ih
  | entry _ _ ih => simp [Expr.isOpen, ih]

theorem Path.unique {e : Expr} {names others : List String} (h : s.Path e names)
    (h' : s.Path e others) : names = others := by
  induction h generalizing others with
  | parameter => cases h'; rfl
  | member ha ht ih =>
    cases h' with
    | member _ ht' => rw [ih ht']
    | unwrap hn => rw [nullableMember?_of_asksMapping ha] at hn; cases hn
  | unwrap hn ht ih =>
    cases h' with
    | member ha => rw [nullableMember?_of_asksMapping ha] at hn; cases hn
    | unwrap _ ht' => exact ih ht'
  | convert ht ih =>
    cases h' with
    | convert ht' => exact ih ht'
  | entry hk ht ih =>
    cases h' with
    | entry hk' ht' => rw [ih ht', hk.unique hk']

/-- What is lowered to a path is a path with the same segments. -/
theorem Lowers.path_of {levels : Nat} {e : Expr} {q : Query} {names : List String} {ty : Ty}
    (h : Lowers s levels e q) (hq : q = .member names ty) : s.Path e names := by
  induction h generalizing names ty with
  | parameter hp => cases hq; exact .parameter hp
  | path _ ha _ _ ih => cases hq; exact .member ha (ih rfl)
  | unwrap _ hn _ ih => exact .unwrap hn (ih hq)
  | convert _ _ ih => exact .convert (ih hq)
  | entry _ _ _ hk _ _ _ ih => cases hq; exact .entry (eval_of_entryKey hk) (ih rfl)
  | _ => cases hq

end Scope

namespace Scope
variable {s : Scope} {hole : Parameter} {dictionary key key₁ key₂ : Expr} {names : List String}
  {k k₁ k₂ : String}

/-- An entry of a path is the path with its key for the last segment. -/
theorem lower_entry (hp : s.Path dictionary names) (hk : key.FoldsTo k) {levels : Nat} {ty : Ty}
    (h : (s.lower levels (.index dictionary [key] ty)).isRepresentable = true) :
    names ≠ [] ∧ s.lower levels (.index dictionary [key] ty) = .member (names ++ [k]) ty := by
  have hlowers := lowers_of_isRepresentable h
  generalize s.lower levels (.index dictionary [key] ty) = q at hlowers
  cases hlowers with
  | folded ho => simp [Expr.isOpen, hp.isOpen] at ho
  | entry _ _ _ hkey hne _ ht =>
    rw [hp.unique (ht.path_of rfl), hk.unique (eval_of_entryKey hkey)]
    exact ⟨hne, rfl⟩

theorem keeps_entryAt (hole : Parameter) (hp : s.Path dictionary names) (key : Expr) :
    Parameter.Keeps (Expr.entryAt hole dictionary key) := by
  constructor
  · intro p
    unfold Expr.entryAt
    split
    · rename_i h
      rw [h]
      rfl
    · rfl
  · intro p
    unfold Expr.entryAt
    split
    · simp [Expr.isOpen, hp.isOpen]
    · rfl

theorem mentions_operand {p : Parameter} {e : Expr} {parts : List Expr} (he : ∀ p, e ≠ .parameter p)
    (h : e.Mentions p) (hr : (s.role e).operands? = some parts) : ∃ part ∈ parts, part.Mentions p := by
  have hparts : parts = e.children := by
    rcases operands?_role s he h.isOpen with hrole | hrole | ⟨cause, hrole⟩
    · exact Option.some.inj (hr.symm.trans hrole)
    · rw [hrole] at hr
      cases hr
    · rw [hrole] at hr
      cases hr
  cases h with
  | here => exact absurd rfl (he p)
  | child hpart hm => exact ⟨_, hparts ▸ hpart, hm⟩

theorem lower_closed {levels : Nat} {e : Expr} (ho : e.isOpen = false)
    (h : (s.lower levels e).isRepresentable = true) :
    (∃ value ty, s.lower levels e = .constant value ty) ∨ ∃ ty, s.lower levels e = .source ty := by
  have hlowers := lowers_of_isRepresentable h
  generalize s.lower levels e = q at hlowers
  cases hlowers with
  | constant | folded => exact .inl ⟨_, _, rfl⟩
  | source => exact .inr ⟨_, rfl⟩
  | _ => simp_all [Expr.isOpen, Expr.anyOpen]

theorem role_ne_unsupported {levels : Nat} {e : Expr}
    (h : (s.lower (levels + 1) e).isRepresentable = true) : ∀ cause, s.role e ≠ .unsupported cause := by
  intro cause hcause
  rw [lower, hcause] at h
  cases h

theorem arrange_map {α β : Type} (signature : Signature) (f : α → β) (receiver : Option α)
    (args : List α) :
    signature.arrange (receiver.map f) (args.map f) = (signature.arrange receiver args).map f := by
  cases receiver with
  | none => rfl
  | some r =>
    simp only [Signature.arrange, Option.map_some]
    split <;> simp

/-- Only an index with a closed key has the role of an entry. -/
theorem index_of_role_entry {e target key : Expr} (h : s.role e = .entry target key) :
    (∃ ty, e = .index target [key] ty) ∧ key.isOpen = false := by
  have hfits := s.fits_role e
  rw [h] at hfits
  cases hfits with
  | entry _ _ ty =>
    refine ⟨⟨ty, rfl⟩, ?_⟩
    simp only [role, ifOpen, indexRole] at h
    repeat' split at h
    all_goals cases h
    simp_all

theorem paired_joined (items : List Expr) {f g : Expr → Query} {M : Expr → Prop} {e₁ e₂ : Expr}
    {parts₁ parts₂ : List Query} {node₁ node₂ : Query}
    (ih : ∀ e ∈ items, (f e).isRepresentable = true → (g e).isRepresentable = true →
      Query.Paired names k₁ k₂ (M e) (f e) (g e))
    (hnode : (∀ e ∈ items, Query.Alike names k₁ k₂ (f e) (g e)) → Query.Alike names k₁ k₂ node₁ node₂)
    (hc₁ : node₁.children = items.map f) (hc₂ : node₂.children = items.map g)
    (h₁ : (joined e₁ parts₁ node₁).isRepresentable = true)
    (h₂ : (joined e₂ parts₂ node₂).isRepresentable = true) :
    Query.Paired names k₁ k₂ (∃ e ∈ items, M e) (joined e₁ parts₁ node₁) (joined e₂ parts₂ node₂) := by
  have hjoin₁ := joined_of_isRepresentable h₁
  have hjoin₂ := joined_of_isRepresentable h₂
  rw [hjoin₁] at h₁ ⊢
  rw [hjoin₂] at h₂ ⊢
  have hitems : ∀ e ∈ items, Query.Paired names k₁ k₂ (M e) (f e) (g e) := by
    intro e he
    have hf := Query.isRepresentable_child h₁ (hc₁ ▸ List.mem_map_of_mem he)
    have hg := Query.isRepresentable_child h₂ (hc₂ ▸ List.mem_map_of_mem he)
    exact ih e he hf hg
  exact .of_items hitems (hnode fun e he => (hitems e he).alike) hc₁ hc₂

theorem paired_closed {levels : Nat} {e : Expr} {σ₁ σ₂ : Parameter → Expr} (ho : e.isOpen = false)
    (h : (s.lower levels (e.substitute σ₁)).isRepresentable = true) :
    Query.Paired names k₁ k₂ (e.Mentions hole) (s.lower levels (e.substitute σ₁))
      (s.lower levels (e.substitute σ₂)) := by
  rw [Expr.substitute_of_closed _ _ ho] at h
  rw [Expr.substitute_of_closed _ _ ho, Expr.substitute_of_closed _ _ ho]
  have hmark : ¬e.Mentions hole := by
    intro hm
    rw [hm.isOpen] at ho
    cases ho
  rcases lower_closed ho h with ⟨value, ty, hq⟩ | ⟨ty, hq⟩
  · rw [hq]
    exact ⟨.constant value ty, fun hm => absurd hm hmark⟩
  · rw [hq]
    exact ⟨.source ty, fun hm => absurd hm hmark⟩

/-- The fields of a projection are the fields of its arguments, lowered. -/
theorem project_of_isRepresentable {body : Expr} {ty : Ty} {args : List Expr}
    {members : Option (List String)} (h : (s.project body ty args members).isRepresentable = true) :
    s.project body ty args members =
      .projection ((Entries.ofPairs ((s.fieldNames ty args.length members).zip args)).map
        (Prod.map id (s.lower s.options.maxDepth))) ty := by
  unfold project at h ⊢
  dsimp only at h ⊢
  split at h
  · cases h
  · rw [if_neg ‹_›, List.zip_map_right, Entries.ofPairs_map]

/-! ## Bodies of lambdas -/

/-- The parts of a body that a predicate shows: of a record, those whose field no later one has. -/
def shown (s : Scope) (body : Expr) : List Expr :=
  match body.unconverted with
  | .construct ty args members =>
    Entries.values (Entries.ofPairs ((s.fieldNames ty args.length members).zip args))
  | e => [e]

theorem unconverted_entryAt (hole : Parameter) (dictionary key : Expr) : (e : Expr) →
    (e.substitute (.entryAt hole dictionary key)).unconverted =
      e.unconverted.substitute (.entryAt hole dictionary key)
  | .unary .convert operand _ => unconverted_entryAt hole dictionary key operand
  | .parameter p => by
    simp only [Expr.substitute, Expr.entryAt, Expr.unconverted]
    split <;> rfl
  | .unary .not .. | .unary .negate .. | .constant .. | .lambda .. | .member .. | .staticMember ..
  | .binary .. | .call .. | .staticCall .. | .index .. | .construct .. | .list .. | .conditional ..
  | .source _ => rfl

theorem mentions_of_unconverted {p : Parameter} {e : Expr} (h : e.unconverted.Mentions p) :
    e.Mentions p := by
  fun_induction Expr.unconverted e with
  | case1 operand ty ih => exact .child (.head _) (ih h)
  | case2 => exact h

/-- Where the body is neither a record nor a list, it is none with an entry in it. -/
theorem lowerBody_entryAt (s : Scope) (hole : Parameter) (dictionary body : Expr)
    (hc : ∀ ty args members, body.unconverted ≠ .construct ty args members)
    (hl : ∀ ty elements, body.unconverted ≠ .list ty elements) (key : Expr) :
    s.lowerBody .predicate (body.substitute (.entryAt hole dictionary key)) =
      s.lower (s.options.maxDepth + 1) (body.substitute (.entryAt hole dictionary key)) := by
  have hu := unconverted_entryAt hole dictionary key body
  unfold lowerBody
  split
  · rename_i ty args members h
    rw [hu] at h
    cases hb : body.unconverted with
    | construct => exact absurd hb (hc _ _ _)
    | parameter p =>
      rw [hb, Expr.substitute, Expr.entryAt] at h
      split at h <;> cases h
    | _ => rw [hb, Expr.substitute] at h; cases h
  · rename_i ty elements h
    rw [hu] at h
    cases hb : body.unconverted with
    | list => exact absurd hb (hl _ _)
    | parameter p =>
      rw [hb, Expr.substitute, Expr.entryAt] at h
      split at h <;> cases h
    | _ => rw [hb, Expr.substitute] at h; cases h
  · rfl

theorem mentions_of_shown {p : Parameter} {body part : Expr} (h : part ∈ s.shown body)
    (hm : part.Mentions p) : body.Mentions p := by
  refine mentions_of_unconverted ?_
  unfold shown at h
  split at h
  · rename_i ty args members hu
    obtain ⟨pair, hpair, rfl⟩ := List.mem_map.mp h
    have hzip := Entries.mem_of_mem_ofPairs hpair
    rw [hu]
    exact .child (List.of_mem_zip hzip).2 hm
  · rw [List.mem_singleton.mp h] at hm
    exact hm

/-! ## Bodies that differ in what stands for parameters -/

section
variable {σ₁ σ₂ : Parameter → Expr} (hσ₁ : Parameter.Keeps σ₁) (hσ₂ : Parameter.Keeps σ₂)
  (hparam : ∀ (levels : Nat) (p : Parameter), (s.lower levels (σ₁ p)).isRepresentable = true →
    (s.lower levels (σ₂ p)).isRepresentable = true →
    Query.Paired names k₁ k₂ ((Expr.parameter p).Mentions hole) (s.lower levels (σ₁ p))
      (s.lower levels (σ₂ p)))
include hσ₁ hσ₂ hparam

theorem lower_paired (levels : Nat) {e : Expr}
    (h₁ : (s.lower levels (e.substitute σ₁)).isRepresentable = true)
    (h₂ : (s.lower levels (e.substitute σ₂)).isRepresentable = true) :
    Query.Paired names k₁ k₂ (e.Mentions hole) (s.lower levels (e.substitute σ₁))
      (s.lower levels (e.substitute σ₂)) := by
  induction levels generalizing e with
  | zero => cases h₁
  | succ levels ih =>
    by_cases hp : ∃ p, e = .parameter p
    · obtain ⟨p, rfl⟩ := hp
      exact hparam (levels + 1) p h₁ h₂
    have hne : ∀ p, e ≠ .parameter p := fun p hep => hp ⟨p, hep⟩
    cases ho : e.isOpen with
    | false => exact paired_closed ho h₁
    | true =>
      have hrole₁ := role_substitute s hσ₁ hne (role_ne_unsupported h₁)
      have hrole₂ := role_substitute s hσ₂ hne (role_ne_unsupported h₂)
      have hty₁ := Expr.ty_substitute hσ₁ e
      have hty₂ := Expr.ty_substitute hσ₂ e
      have hm : ∀ parts, (s.role e).operands? = some parts → e.Mentions hole →
          ∃ part ∈ parts, part.Mentions hole := fun parts hr hm => mentions_operand hne hm hr
      have hparts := operands?_role s hne ho
      rw [lower, hrole₁] at h₁ ⊢
      rw [lower, hrole₂] at h₂ ⊢
      cases hrole : s.role e with
      | constant | folded | source | parameter =>
        rw [hrole] at hparts
        rcases hparts with h | h | ⟨cause, h⟩ <;> cases h
      | record | unsupported =>
        rw [hrole] at h₁
        cases h₁
      | path target declaring name =>
        rw [hrole] at h₁ h₂ hm
        simp only [Role.map] at h₁ h₂ ⊢
        obtain ⟨path₁, ty₁, ht₁, hext₁⟩ := extendPath_of_isRepresentable h₁
        obtain ⟨path₂, ty₂, ht₂, hext₂⟩ := extendPath_of_isRepresentable h₂
        have htarget := ih (e := target) (by rw [ht₁]; rfl) (by rw [ht₂]; rfl)
        rw [ht₁, ht₂] at htarget
        rw [hext₁, hext₂, hty₁, hty₂]
        exact (htarget.extended _ _).mono fun h => by simpa using hm _ rfl h
      | entry target key =>
        have hclosed := (index_of_role_entry hrole).2
        rw [hrole] at h₁ h₂ hm
        simp only [Role.map, Expr.substitute_of_closed _ _ hclosed] at h₁ h₂ ⊢
        cases hkey : s.entryKey levels key with
        | error cause =>
          rw [hkey] at h₁
          cases h₁
        | ok k =>
          simp only [hkey] at h₁ h₂ ⊢
          obtain ⟨path₁, ty₁, -, ht₁, hext₁⟩ := extendEntry_of_isRepresentable h₁
          obtain ⟨path₂, ty₂, -, ht₂, hext₂⟩ := extendEntry_of_isRepresentable h₂
          have htarget := ih (e := target) (by rw [ht₁]; rfl) (by rw [ht₂]; rfl)
          rw [ht₁, ht₂] at htarget
          rw [hext₁, hext₂, hty₁, hty₂]
          refine (htarget.extended k e.ty).mono fun h => ?_
          obtain ⟨part, hpart, hmentions⟩ := hm _ rfl h
          rcases List.mem_pair.mp hpart with rfl | rfl
          · exact hmentions
          · rw [hmentions.isOpen] at hclosed
            cases hclosed
      | conversion operand =>
        rw [hrole] at h₁ h₂ hm
        exact (ih h₁ h₂).mono fun h => by simpa using hm _ rfl h
      | hasValue target declaring =>
        rw [hrole] at h₁ h₂ hm
        simp only [Role.map] at h₁ h₂ ⊢
        have hjoin₁ := joined_of_isRepresentable h₁
        have hjoin₂ := joined_of_isRepresentable h₂
        rw [hjoin₁] at h₁ ⊢
        rw [hjoin₂] at h₂ ⊢
        have htarget := ih (e := target) (Query.isRepresentable_child h₁ (.head _))
          (Query.isRepresentable_child h₂ (.head _))
        have hnull : Query.Paired names k₁ k₂ False (.constant .null declaring) (.constant .null declaring) :=
          ⟨.constant _ _, False.elim⟩
        refine (htarget.of_operands hnull (.comparison _ htarget.alike hnull.alike) rfl rfl).mono ?_
        intro h
        simpa using hm _ rfl h
      | comparison op left right =>
        rw [hrole] at h₁ h₂ hm
        refine (paired_joined [left, right] (fun e _ => ih) (fun h => ?_) rfl rfl h₁ h₂).mono (hm _ rfl)
        exact .comparison op (h left (by simp)) (h right (by simp))
      | logical op left right =>
        rw [hrole] at h₁ h₂ hm
        refine (paired_joined [left, right] (fun e _ => ih) (fun h => ?_) rfl rfl h₁ h₂).mono (hm _ rfl)
        exact .logical op (h left (by simp)) (h right (by simp))
      | arithmetic op left right =>
        rw [hrole] at h₁ h₂ hm
        simp only [Role.map, hty₁, hty₂] at h₁ h₂ ⊢
        refine (paired_joined [left, right] (fun e _ => ih) (fun h => ?_) rfl rfl h₁ h₂).mono (hm _ rfl)
        exact .arithmetic op e.ty (h left (by simp)) (h right (by simp))
      | concat left right =>
        rw [hrole] at h₁ h₂ hm
        simp only [Role.map, hty₁, hty₂] at h₁ h₂ ⊢
        refine (paired_joined [left, right] (fun e _ => ih) (fun h => ?_) rfl rfl h₁ h₂).mono (hm _ rfl)
        exact .call [left, right] .concat e.ty h
      | not operand =>
        rw [hrole] at h₁ h₂ hm
        refine (paired_joined [operand] (fun e _ => ih) (fun h => ?_) rfl rfl h₁ h₂).mono (hm _ rfl)
        exact .not (h operand (by simp))
      | negate operand =>
        rw [hrole] at h₁ h₂ hm
        refine (paired_joined [operand] (fun e _ => ih) (fun h => ?_) rfl rfl h₁ h₂).mono (hm _ rfl)
        exact .negate (h operand (by simp))
      | function signature receiver args =>
        rw [hrole] at h₁ h₂ hm
        simp only [Role.map, Option.map_map, List.map_map, called_of_role hrole, hty₁, hty₂, arrange_map]
          at h₁ h₂ ⊢
        refine (paired_joined (signature.arrange receiver args) (fun e _ => ih) (fun h => ?_) rfl rfl h₁ h₂).mono ?_
        · exact .call _ signature.function e.ty h
        · intro h
          obtain ⟨part, hpart, hmentions⟩ := hm _ rfl h
          exact ⟨part, Signature.mem_arrange_iff.mpr hpart, hmentions⟩
      | list elements =>
        rw [hrole] at h₁ h₂ hm
        simp only [Role.map, hty₁, hty₂, List.map_map] at h₁ h₂ ⊢
        refine (paired_joined elements (fun e _ => ih) (fun h => ?_) rfl rfl h₁ h₂).mono (hm _ rfl)
        exact .list e.ty h

/-- A body that is neither a record nor a list is lowered as any other node. -/
theorem paired_value {body : Expr}
    (hb₁ : s.lowerBody .predicate (body.substitute σ₁) =
      s.lower (s.options.maxDepth + 1) (body.substitute σ₁))
    (hb₂ : s.lowerBody .predicate (body.substitute σ₂) =
      s.lower (s.options.maxDepth + 1) (body.substitute σ₂))
    (h₁ : (s.lowerBody .predicate (body.substitute σ₁)).isRepresentable = true)
    (h₂ : (s.lowerBody .predicate (body.substitute σ₂)).isRepresentable = true) :
    Query.Paired names k₁ k₂ (∃ part ∈ s.shown body, part.Mentions hole)
      (s.lowerBody .predicate (body.substitute σ₁)) (s.lowerBody .predicate (body.substitute σ₂)) := by
  rw [hb₁] at h₁ ⊢
  rw [hb₂] at h₂ ⊢
  refine (lower_paired hσ₁ hσ₂ hparam _ h₁ h₂).mono ?_
  rintro ⟨part, hpart, hm⟩
  exact mentions_of_shown hpart hm

theorem paired_project {args : List Expr} {e₁ e₂ : Expr} {ty : Ty} {members : Option (List String)}
    (h₁ : (s.project e₁ ty (args.map (Expr.substitute σ₁)) members).isRepresentable = true)
    (h₂ : (s.project e₂ ty (args.map (Expr.substitute σ₂)) members).isRepresentable = true) :
    Query.Paired names k₁ k₂
      (∃ e ∈ Entries.values (Entries.ofPairs ((s.fieldNames ty args.length members).zip args)),
        e.Mentions hole)
      (s.project e₁ ty (args.map (Expr.substitute σ₁)) members)
      (s.project e₂ ty (args.map (Expr.substitute σ₂)) members) := by
  have heq₁ := project_of_isRepresentable h₁
  have heq₂ := project_of_isRepresentable h₂
  rw [List.length_map, List.zip_map_right, Entries.ofPairs_map, List.map_map, Prod.map_comp_map,
    Function.comp_id] at heq₁ heq₂
  rw [heq₁] at h₁ ⊢
  rw [heq₂] at h₂ ⊢
  generalize Entries.ofPairs ((s.fieldNames ty args.length members).zip args) = fields at h₁ h₂ ⊢
  have hvalues : ∀ f : Expr → Query,
      Entries.values (fields.map (Prod.map id f)) = (Entries.values fields).map f := by
    simp [Entries.values]
  have hitems : ∀ e ∈ Entries.values fields, Query.Paired names k₁ k₂ (e.Mentions hole)
      (s.lower s.options.maxDepth (e.substitute σ₁)) (s.lower s.options.maxDepth (e.substitute σ₂)) := by
    intro e he
    have hf := Query.isRepresentable_child h₁ ((hvalues _).symm ▸ List.mem_map_of_mem he)
    have hg := Query.isRepresentable_child h₂ ((hvalues _).symm ▸ List.mem_map_of_mem he)
    exact lower_paired hσ₁ hσ₂ hparam _ hf hg
  refine .of_items hitems (.projection ty ?_) (hvalues _) (hvalues _)
  intro pair hpair
  exact (hitems pair.2 (List.mem_map_of_mem hpair)).alike

end

theorem paired_parameter (hole : Parameter) (hp : s.Path dictionary names) (hk₁ : key₁.FoldsTo k₁)
    (hk₂ : key₂.FoldsTo k₂) (levels : Nat) (p : Parameter)
    (h₁ : (s.lower levels (Expr.entryAt hole dictionary key₁ p)).isRepresentable = true)
    (h₂ : (s.lower levels (Expr.entryAt hole dictionary key₂ p)).isRepresentable = true) :
    Query.Paired names k₁ k₂ ((Expr.parameter p).Mentions hole)
      (s.lower levels (Expr.entryAt hole dictionary key₁ p))
      (s.lower levels (Expr.entryAt hole dictionary key₂ p)) := by
  by_cases hhole : p = hole
  · have hentry : ∀ key, Expr.entryAt hole dictionary key p = .index dictionary [key] hole.ty :=
      fun key => if_pos hhole
    rw [hentry] at h₁ h₂
    obtain ⟨hne, hlower₁⟩ := lower_entry hp hk₁ h₁
    obtain ⟨-, hlower₂⟩ := lower_entry hp hk₂ h₂
    rw [hentry, hentry, hlower₁, hlower₂]
    exact ⟨.entry hne [] hole.ty, fun _ => .entry hne [] hole.ty⟩
  · have hparam : ∀ key, Expr.entryAt hole dictionary key p = .parameter p := fun key => if_neg hhole
    rw [hparam] at h₁
    rw [hparam, hparam]
    have hlowers := lowers_of_isRepresentable h₁
    generalize s.lower levels (.parameter p) = q at hlowers
    cases hlowers with
    | folded ho => cases ho
    | parameter =>
      refine ⟨.member [] p.ty, fun hm => ?_⟩
      cases hm with
      | here => exact absurd rfl hhole
      | child hpart => cases hpart

/-- Predicates that differ in a key are lowered to trees that differ in a segment. -/
theorem lowerBody_paired (hp : s.Path dictionary names) (hk₁ : key₁.FoldsTo k₁)
    (hk₂ : key₂.FoldsTo k₂) {body : Expr}
    (h₁ : (s.lowerBody .predicate (body.substitute (.entryAt hole dictionary key₁))).isRepresentable = true)
    (h₂ : (s.lowerBody .predicate (body.substitute (.entryAt hole dictionary key₂))).isRepresentable = true) :
    Query.Paired names k₁ k₂ (∃ part ∈ s.shown body, part.Mentions hole)
      (s.lowerBody .predicate (body.substitute (.entryAt hole dictionary key₁)))
      (s.lowerBody .predicate (body.substitute (.entryAt hole dictionary key₂))) := by
  have hσ₁ := keeps_entryAt hole hp key₁
  have hσ₂ := keeps_entryAt hole hp key₂
  have hparam := paired_parameter hole hp hk₁ hk₂
  have hu := fun key => unconverted_entryAt hole dictionary key body
  cases hbody : body.unconverted with
  | construct ty args members =>
    rw [hbody] at hu
    simp only [Expr.substitute, Expr.substituteAll_eq_map] at hu
    have heq : ∀ key, s.lowerBody .predicate (body.substitute (.entryAt hole dictionary key)) =
        if s.isProjection ty then s.project (body.substitute (.entryAt hole dictionary key)) ty
          (args.map (Expr.substitute (.entryAt hole dictionary key))) members
        else s.lower (s.options.maxDepth + 1) (body.substitute (.entryAt hole dictionary key)) := by
      intro key
      simp only [lowerBody, hu, lowerValue]
    by_cases hproj : s.isProjection ty = true
    · simp only [heq, hproj, ↓reduceIte] at h₁ h₂ ⊢
      refine (paired_project hσ₁ hσ₂ hparam h₁ h₂).mono ?_
      simp [shown, hbody]
    · simp only [hproj] at heq
      exact paired_value hσ₁ hσ₂ hparam (heq key₁) (heq key₂) h₁ h₂
  | list ty elements =>
    rw [hbody] at hu
    simp only [Expr.substitute, Expr.substituteAll_eq_map] at hu
    simp only [lowerBody, hu, reduceCtorEq, ↓reduceIte, List.map_map] at h₁ h₂ ⊢
    refine (paired_joined elements (fun e _ => lower_paired hσ₁ hσ₂ hparam _) (fun h => ?_) rfl rfl
      h₁ h₂).mono ?_
    · exact .list ty h
    · rintro ⟨part, hpart, hm⟩
      rw [shown, hbody, List.mem_singleton] at hpart
      subst hpart
      cases hm with
      | child hchild hm => exact ⟨_, hchild, hm⟩
  | _ =>
    have hvalue := lowerBody_entryAt s hole dictionary body (by simp [hbody]) (by simp [hbody])
    exact paired_value hσ₁ hσ₂ hparam (hvalue key₁) (hvalue key₂) h₁ h₂

end Scope
end ResourceQuery
