import ResourceQuery.Mapping.Cache

/-! # Entries of a cache

A question adds at most one entry, behind all others, and that is the mapping's answer. So the mapping
as it is seen through the cache is the same before and after.
-/
namespace ResourceQuery

inductive Question
  | property (declaring : Ty) (name : String)
  | type (ty : Ty)
  deriving DecidableEq

section
variable {κ β : Type} [BEq κ] [LawfulBEq κ] {entries : List (κ × β)} {key : κ}

/-- An answer that is kept under a new key changes none of the answers. -/
theorem getD_lookup_append (f : κ → β) (h : entries.lookup key = none) (other : κ) :
    ((entries ++ [(key, f key)]).lookup other).getD (f other) = (entries.lookup other).getD (f other) := by
  rw [List.lookup_append]
  by_cases hkey : other = key
  · subst hkey
    simp [h]
  · have hmiss : [(key, f key)].lookup other = none := by
      rw [List.lookup_cons, beq_false_of_ne hkey, List.lookup_nil]
    rw [hmiss, Option.or_none]

theorem nodup_keys_append {b : β} (h : entries.lookup key = none)
    (hnodup : (entries.map Prod.fst).Nodup) :
    ((entries ++ [(key, b)]).map Prod.fst).Nodup := by
  have hnew : key ∉ entries.map Prod.fst := by
    intro hmem
    obtain ⟨entry, hentry, rfl⟩ := List.mem_map.mp hmem
    simpa using List.lookup_eq_none_iff.mp h entry hentry
  rw [List.map_append, List.map_singleton, List.nodup_append]
  refine ⟨hnodup, List.pairwise_singleton _ _, ?_⟩
  rintro old hold new hkey rfl
  rw [List.mem_singleton.mp hkey] at hold
  exact hnew hold

end

namespace Cache
variable {c c' : Cache} {m : Mapping} {q : Question}

def reading (c : Cache) : Mapping where
  property declaring name :=
    (c.properties.lookup (declaring, name)).getD (c.mapping.property declaring name)
  typeInfo ty := (c.types.lookup ty).getD (c.mapping.typeInfo ty)

def ask (c : Cache) : Question → Cache
  | .property declaring name =>
    match c.properties.lookup (declaring, name) with
    | some _ => c
    | none => { c with properties := c.properties ++ [((declaring, name), c.mapping.property declaring name)] }
  | .type ty =>
    match c.types.lookup ty with
    | some _ => c
    | none => { c with types := c.types ++ [(ty, c.mapping.typeInfo ty)] }

def askAll (c : Cache) (questions : List Question) : Cache := questions.foldl ask c

def knows (c : Cache) : Question → Bool
  | .property declaring name => (c.properties.lookup (declaring, name)).isSome
  | .type ty => (c.types.lookup ty).isSome

/-! ## One question -/

/-- What a question makes of a cache. -/
inductive Asked (c : Cache) : Question → Cache → Prop
  | known {q : Question} (h : c.knows q = true) : Asked c q c
  | property {declaring : Ty} {name : String} (h : c.properties.lookup (declaring, name) = none) :
    Asked c (.property declaring name)
      { c with properties := c.properties ++ [((declaring, name), c.mapping.property declaring name)] }
  | type {ty : Ty} (h : c.types.lookup ty = none) :
    Asked c (.type ty) { c with types := c.types ++ [(ty, c.mapping.typeInfo ty)] }

theorem asked_ask (c : Cache) (q : Question) : Asked c q (c.ask q) := by
  cases q with
  | property declaring name =>
    cases hp : c.properties.lookup (declaring, name) with
    | some p =>
      simp only [ask, hp]
      exact .known (by simp [knows, hp])
    | none =>
      simp only [ask, hp]
      exact .property hp
  | type ty =>
    cases hinfo : c.types.lookup ty with
    | some info =>
      simp only [ask, hinfo]
      exact .known (by simp [knows, hinfo])
    | none =>
      simp only [ask, hinfo]
      exact .type hinfo

theorem ask_of_knows (h : c.knows q = true) : c.ask q = c := by
  cases q with
  | property declaring name =>
    obtain ⟨p, hp⟩ := Option.isSome_iff_exists.mp h
    simp only [ask, hp]
  | type ty =>
    obtain ⟨info, hinfo⟩ := Option.isSome_iff_exists.mp h
    simp only [ask, hinfo]

theorem Asked.reading_eq (h : Asked c q c') : c'.reading = c.reading := by
  cases h with
  | known => rfl
  | property hp =>
    have hkept := getD_lookup_append (fun key => c.mapping.property key.1 key.2) hp
    simp only [reading, fun owner field => hkept (owner, field)]
  | type hinfo =>
    have hkept := getD_lookup_append c.mapping.typeInfo hinfo
    simp only [reading, hkept]

theorem Asked.knows (h : Asked c q c') : c'.knows q = true := by
  cases h with
  | known hq => exact hq
  | property hp => simp [Cache.knows, List.lookup_append]
  | type hinfo => simp [Cache.knows, List.lookup_append]

/-- The second cache has all entries of the first at their places, and maybe more behind them. -/
structure Extends (c c' : Cache) : Prop where
  mapping : c'.mapping = c.mapping
  properties : c.properties <+: c'.properties
  types : c.types <+: c'.types

theorem Extends.refl (c : Cache) : Extends c c := ⟨rfl, List.prefix_rfl, List.prefix_rfl⟩

theorem Extends.trans {c₁ c₂ c₃ : Cache} (h : Extends c₁ c₂) (h' : Extends c₂ c₃) : Extends c₁ c₃ :=
  ⟨h'.mapping.trans h.mapping, h.properties.trans h'.properties, h.types.trans h'.types⟩

theorem Asked.grows (h : Asked c q c') : Extends c c' := by
  cases h with
  | known => exact .refl c
  | property hp => exact ⟨rfl, List.prefix_append _ _, List.prefix_rfl⟩
  | type hinfo => exact ⟨rfl, List.prefix_rfl, List.prefix_append _ _⟩

theorem Extends.knows (h : Extends c c') (hq : c.knows q = true) : c'.knows q = true := by
  cases q with
  | property declaring name =>
    obtain ⟨later, hlater⟩ := h.properties
    obtain ⟨p, hp⟩ := Option.isSome_iff_exists.mp hq
    rw [Cache.knows, ← hlater, List.lookup_append, hp]
    rfl
  | type ty =>
    obtain ⟨later, hlater⟩ := h.types
    obtain ⟨info, hinfo⟩ := Option.isSome_iff_exists.mp hq
    rw [Cache.knows, ← hlater, List.lookup_append, hinfo]
    rfl

/-- The entries are the answers of the mapping, one for each key. -/
structure Faithful (c : Cache) (m : Mapping) : Prop where
  mapping : c.mapping = m
  properties : ∀ entry ∈ c.properties, entry.2 = m.property entry.1.1 entry.1.2
  types : ∀ entry ∈ c.types, entry.2 = m.typeInfo entry.1
  nodup_properties : (c.properties.map Prod.fst).Nodup
  nodup_types : (c.types.map Prod.fst).Nodup

theorem faithful_empty (m : Mapping) : (empty m).Faithful m := ⟨rfl, nofun, nofun, .nil, .nil⟩

theorem Asked.faithful (h : Asked c q c') (hc : c.Faithful m) : c'.Faithful m := by
  obtain rfl := hc.mapping
  cases h with
  | known => exact hc
  | property hp =>
    refine ⟨rfl, ?_, hc.types, nodup_keys_append hp hc.nodup_properties, hc.nodup_types⟩
    exact List.forall_mem_append.mpr ⟨hc.properties, List.forall_mem_singleton.mpr rfl⟩
  | type hinfo =>
    refine ⟨rfl, hc.properties, ?_, hc.nodup_properties, nodup_keys_append hinfo hc.nodup_types⟩
    exact List.forall_mem_append.mpr ⟨hc.types, List.forall_mem_singleton.mpr rfl⟩

/-! ## Many questions -/

theorem askAll_append (c : Cache) (first rest : List Question) :
    c.askAll (first ++ rest) = (c.askAll first).askAll rest := List.foldl_append

theorem reading_askAll (c : Cache) (questions : List Question) : (c.askAll questions).reading = c.reading := by
  induction questions generalizing c with
  | nil => rfl
  | cons q questions ih => exact (ih _).trans (c.asked_ask q).reading_eq

theorem extends_askAll (c : Cache) (questions : List Question) : Extends c (c.askAll questions) := by
  induction questions generalizing c with
  | nil => exact .refl c
  | cons q questions ih => exact (c.asked_ask q).grows.trans (ih _)

theorem Faithful.askAll (h : c.Faithful m) (questions : List Question) : (c.askAll questions).Faithful m := by
  induction questions generalizing c with
  | nil => exact h
  | cons q questions ih => exact ih ((c.asked_ask q).faithful h)

theorem knows_askAll_of_mem {questions : List Question} (h : q ∈ questions) :
    (c.askAll questions).knows q = true := by
  obtain ⟨before, after, rfl⟩ := List.append_of_mem h
  rw [askAll_append]
  exact (extends_askAll _ after).knows (asked_ask _ q).knows

end Cache
end ResourceQuery
