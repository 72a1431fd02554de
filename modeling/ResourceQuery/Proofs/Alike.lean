import ResourceQuery.Query

/-! # Trees that are equal but for a key

A key stands in a path, after the names of its dictionary. Two trees are alike if they differ in
this segment of some paths only, and marked if they have their keys in one place.
-/
namespace ResourceQuery.Query
variable {names : List String} {k₁ k₂ : String}

/-- The trees are equal but for the segment after these names, which is one key or the other. -/
inductive Alike (names : List String) (k₁ k₂ : String) : Query → Query → Prop
  | constant (value : Value) (ty : Ty) : Alike names k₁ k₂ (.constant value ty) (.constant value ty)
  | source (ty : Ty) : Alike names k₁ k₂ (.source ty) (.source ty)
  | member (path : List String) (ty : Ty) : Alike names k₁ k₂ (.member path ty) (.member path ty)
  | entry (hne : names ≠ []) (rest : List String) (ty : Ty) :
    Alike names k₁ k₂ (.member (names ++ k₁ :: rest) ty) (.member (names ++ k₂ :: rest) ty)
  | comparison {l₁ r₁ l₂ r₂ : Query} (op : ComparisonOp) (hl : Alike names k₁ k₂ l₁ l₂)
    (hr : Alike names k₁ k₂ r₁ r₂) : Alike names k₁ k₂ (.comparison op l₁ r₁) (.comparison op l₂ r₂)
  | logical {l₁ r₁ l₂ r₂ : Query} (op : LogicalOp) (hl : Alike names k₁ k₂ l₁ l₂)
    (hr : Alike names k₁ k₂ r₁ r₂) : Alike names k₁ k₂ (.logical op l₁ r₁) (.logical op l₂ r₂)
  | arithmetic {l₁ r₁ l₂ r₂ : Query} (op : ArithmeticOp) (ty : Ty) (hl : Alike names k₁ k₂ l₁ l₂)
    (hr : Alike names k₁ k₂ r₁ r₂) :
    Alike names k₁ k₂ (.arithmetic op l₁ r₁ ty) (.arithmetic op l₂ r₂ ty)
  | not {q₁ q₂ : Query} (h : Alike names k₁ k₂ q₁ q₂) : Alike names k₁ k₂ (.not q₁) (.not q₂)
  | negate {q₁ q₂ : Query} (h : Alike names k₁ k₂ q₁ q₂) : Alike names k₁ k₂ (.negate q₁) (.negate q₂)
  | call {α : Type} (items : List α) {f g : α → Query} (function : Function) (ty : Ty)
    (h : ∀ a ∈ items, Alike names k₁ k₂ (f a) (g a)) :
    Alike names k₁ k₂ (.call function (items.map f) ty) (.call function (items.map g) ty)
  | list {α : Type} {items : List α} {f g : α → Query} (ty : Ty)
    (h : ∀ a ∈ items, Alike names k₁ k₂ (f a) (g a)) :
    Alike names k₁ k₂ (.list (items.map f) ty) (.list (items.map g) ty)
  | projection {α : Type} {items : List α} {name : α → String} {f g : α → Query} (ty : Ty)
    (h : ∀ a ∈ items, Alike names k₁ k₂ (f a) (g a)) :
    Alike names k₁ k₂ (.projection (items.map fun a => (name a, f a)) ty)
      (.projection (items.map fun a => (name a, g a)) ty)

/-- The trees have the keys in the same place of both. -/
inductive Marked (names : List String) (k₁ k₂ : String) : Query → Query → Prop
  | entry (hne : names ≠ []) (rest : List String) (ty : Ty) :
    Marked names k₁ k₂ (.member (names ++ k₁ :: rest) ty) (.member (names ++ k₂ :: rest) ty)
  | child {q₁ q₂ a b : Query} (h : (a, b) ∈ q₁.children.zip q₂.children)
    (hm : Marked names k₁ k₂ a b) : Marked names k₁ k₂ q₁ q₂

theorem mem_zip_map_map {α β γ : Type} {f : α → β} {g : α → γ} {as : List α} {b : β} {c : γ} :
    (b, c) ∈ (as.map f).zip (as.map g) ↔ ∃ a ∈ as, f a = b ∧ g a = c := by
  rw [List.zip_map']
  simp

section
variable {q₁ q₂ l₁ l₂ r₁ r₂ : Query}

/-- Keys in a node that is no path are keys in a child. -/
theorem Marked.of_children {α : Type} {items : List α} {f g : α → Query}
    (h : Marked names k₁ k₂ q₁ q₂) (h₁ : q₁.children = items.map f) (h₂ : q₂.children = items.map g)
    (hq : ∀ path ty, q₁ ≠ .member path ty) : ∃ a ∈ items, Marked names k₁ k₂ (f a) (g a) := by
  cases h with
  | entry => exact absurd rfl (hq _ _)
  | child hc hm =>
    rw [h₁, h₂] at hc
    obtain ⟨a, ha, rfl, rfl⟩ := mem_zip_map_map.mp hc
    exact ⟨a, ha, hm⟩

theorem Marked.ne_nil (h : Marked names k₁ k₂ q₁ q₂) : names ≠ [] := by
  induction h with
  | entry hne => exact hne
  | child _ _ ih => exact ih

theorem Marked.path_eq {path path' : List String} {ty ty' : Ty}
    (h : Marked names k₁ k₂ (.member path ty) (.member path' ty')) :
    ∃ rest, path = names ++ k₁ :: rest ∧ path' = names ++ k₂ :: rest := by
  cases h with
  | entry _ rest => exact ⟨rest, rfl, rfl⟩
  | child hc => cases hc

theorem Marked.of_operands (h : Marked names k₁ k₂ q₁ q₂) (h₁ : q₁.children = [l₁, r₁])
    (h₂ : q₂.children = [l₂, r₂]) : Marked names k₁ k₂ l₁ l₂ ∨ Marked names k₁ k₂ r₁ r₂ := by
  cases h with
  | entry => cases h₁
  | child hc hm =>
    rw [h₁, h₂] at hc
    simp only [List.zip_cons_cons, List.zip_nil_right, List.mem_cons, List.not_mem_nil, or_false,
      Prod.mk.injEq] at hc
    rcases hc with ⟨rfl, rfl⟩ | ⟨rfl, rfl⟩
    · exact .inl hm
    · exact .inr hm

theorem Marked.of_operand (h : Marked names k₁ k₂ q₁ q₂) (h₁ : q₁.children = [l₁])
    (h₂ : q₂.children = [l₂]) : Marked names k₁ k₂ l₁ l₂ := by
  cases h with
  | entry => cases h₁
  | child hc hm =>
    rw [h₁, h₂] at hc
    simp only [List.zip_cons_cons, List.zip_nil_right, List.mem_singleton, Prod.mk.injEq] at hc
    obtain ⟨rfl, rfl⟩ := hc
    exact hm

end

/-- Alike trees with the keys in them if a condition holds. -/
structure Paired (names : List String) (k₁ k₂ : String) (m : Prop) (q₁ q₂ : Query) : Prop where
  alike : Alike names k₁ k₂ q₁ q₂
  marked : m → Marked names k₁ k₂ q₁ q₂

namespace Paired
variable {m m' : Prop} {q₁ q₂ l₁ l₂ r₁ r₂ : Query}

theorem mono (h : Paired names k₁ k₂ m q₁ q₂) (hm : m' → m) : Paired names k₁ k₂ m' q₁ q₂ :=
  ⟨h.alike, fun hm' => h.marked (hm hm')⟩

theorem of_operands (hl : Paired names k₁ k₂ m l₁ l₂) (hr : Paired names k₁ k₂ m' r₁ r₂)
    (h : Alike names k₁ k₂ q₁ q₂) (h₁ : q₁.children = [l₁, r₁]) (h₂ : q₂.children = [l₂, r₂]) :
    Paired names k₁ k₂ (m ∨ m') q₁ q₂ := by
  refine ⟨h, fun hm => ?_⟩
  rcases hm with hm | hm
  · exact .child (by simp [h₁, h₂]) (hl.marked hm)
  · exact .child (by simp [h₁, h₂]) (hr.marked hm)

theorem of_items {α : Type} {f g : α → Query} {M : α → Prop} {items : List α}
    (h : ∀ a ∈ items, Paired names k₁ k₂ (M a) (f a) (g a)) (hq : Alike names k₁ k₂ q₁ q₂)
    (h₁ : q₁.children = items.map f) (h₂ : q₂.children = items.map g) :
    Paired names k₁ k₂ (∃ a ∈ items, M a) q₁ q₂ := by
  refine ⟨hq, ?_⟩
  rintro ⟨a, ha, hm⟩
  refine .child ?_ ((h a ha).marked hm)
  rw [h₁, h₂]
  exact mem_zip_map_map.mpr ⟨a, ha, rfl, rfl⟩

theorem extended {path path' : List String} {ty ty' : Ty} (name : String) (own : Ty)
    (h : Paired names k₁ k₂ m (.member path ty) (.member path' ty')) :
    Paired names k₁ k₂ m (.member (path ++ [name]) own) (.member (path' ++ [name]) own) := by
  obtain ⟨halike, hmarked⟩ := h
  constructor
  · cases halike with
    | member => exact .member _ own
    | entry hne rest =>
      rw [List.append_assoc, List.append_assoc]
      exact .entry hne (rest ++ [name]) own
  · intro hm
    cases hmarked hm with
    | entry hne rest =>
      rw [List.append_assoc, List.append_assoc]
      exact .entry hne (rest ++ [name]) own
    | child h => simp [children] at h

end Paired
end ResourceQuery.Query
