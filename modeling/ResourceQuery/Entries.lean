/-! # Entries in order of first appearance

An ordered map is a list of pairs. Putting a key again keeps its place and takes the new value.
-/
namespace ResourceQuery

abbrev Entries (α : Type) := List (String × α)

namespace Entries
variable {α : Type}

def put (key : String) (value : α) : Entries α → Entries α
  | [] => [(key, value)]
  | (k, v) :: rest => if k = key then (key, value) :: rest else (k, v) :: put key value rest

def ofPairs (pairs : List (String × α)) : Entries α :=
  pairs.foldl (fun entries pair => put pair.1 pair.2 entries) []

def keys (entries : Entries α) : List String := entries.map Prod.fst
def values (entries : Entries α) : List α := entries.map Prod.snd

theorem lookup_put_self (key : String) (value : α) (entries : Entries α) :
    (put key value entries).lookup key = some value := by
  induction entries with
  | nil => simp [put]
  | cons pair rest ih =>
    obtain ⟨k, v⟩ := pair
    by_cases h : k = key
    · simp [put, h]
    · have hk : (key == k) = false := by simpa using fun e => h e.symm
      simp [put, h, List.lookup_cons, hk, ih]

theorem lookup_put_of_ne {key other : String} (h : other ≠ key) (value : α) (entries : Entries α) :
    (put key value entries).lookup other = entries.lookup other := by
  induction entries with
  | nil =>
    have ho : (other == key) = false := by simpa using h
    simp [put, List.lookup_cons, ho]
  | cons pair rest ih =>
    obtain ⟨k, v⟩ := pair
    by_cases hk : k = key
    · subst hk
      have ho : (other == k) = false := by simpa using h
      simp [put, List.lookup_cons, ho]
    · by_cases ho : other = k
      · simp [put, hk, ho]
      · have hb : (other == k) = false := by simpa using ho
        simp [put, hk, List.lookup_cons, hb, ih]

theorem keys_put (key : String) (value : α) (entries : Entries α) :
    keys (put key value entries) = if key ∈ keys entries then keys entries else keys entries ++ [key] := by
  induction entries with
  | nil => simp [put, keys]
  | cons pair rest ih =>
    obtain ⟨k, v⟩ := pair
    by_cases h : k = key
    · simp [put, keys, h]
    · have hne : ¬key = k := fun e => h e.symm
      by_cases hm : key ∈ keys rest
      · simp_all [put, keys]
      · simp_all [put, keys]

theorem nodup_keys_put (key : String) (value : α) {entries : Entries α} (h : (keys entries).Nodup) :
    (keys (put key value entries)).Nodup := by
  rw [keys_put]
  split
  · exact h
  · rename_i hk
    refine List.nodup_append.mpr ⟨h, by simp, fun a ha b hb e => hk ?_⟩
    rw [List.mem_singleton.mp hb] at e
    exact e ▸ ha

theorem mem_of_mem_put {key : String} {value : α} {entries : Entries α}
    {pair : String × α} (h : pair ∈ put key value entries) : pair = (key, value) ∨ pair ∈ entries := by
  induction entries with
  | nil => simpa [put] using h
  | cons first rest ih =>
    simp only [put] at h
    split at h
    · rcases List.mem_cons.mp h with h | h
      · exact .inl h
      · exact .inr (.tail _ h)
    · rcases List.mem_cons.mp h with h | h
      · exact .inr (h ▸ .head _)
      · exact (ih h).imp_right (.tail _)

theorem mem_of_mem_ofPairs {pairs : List (String × α)} {pair : String × α}
    (h : pair ∈ ofPairs pairs) : pair ∈ pairs := by
  have hfold : ∀ entries : Entries α,
      pair ∈ pairs.foldl (fun es pair => put pair.1 pair.2 es) entries → pair ∈ pairs ∨ pair ∈ entries := by
    clear h
    induction pairs with
    | nil => exact fun entries h => .inr h
    | cons first pairs ih =>
      intro entries h
      rcases ih _ h with h | h
      · exact .inl (.tail _ h)
      · rcases mem_of_mem_put h with rfl | h
        · exact .inl (.head _)
        · exact .inr h
  simpa using hfold [] h

theorem put_map {β : Type} (f : α → β) (key : String) (value : α) (entries : Entries α) :
    put key (f value) (entries.map (Prod.map id f)) = (put key value entries).map (Prod.map id f) := by
  induction entries with
  | nil => rfl
  | cons pair rest ih =>
    simp only [List.map_cons, Prod.map, id, put]
    split
    · rfl
    · rw [List.map_cons, ← ih]
      rfl

theorem ofPairs_map {β : Type} (f : α → β) (pairs : List (String × α)) :
    ofPairs (pairs.map (Prod.map id f)) = (ofPairs pairs).map (Prod.map id f) := by
  have hfold : ∀ entries : Entries α,
      (pairs.map (Prod.map id f)).foldl (fun es pair => put pair.1 pair.2 es)
        (entries.map (Prod.map id f)) =
      (pairs.foldl (fun es pair => put pair.1 pair.2 es) entries).map (Prod.map id f) := by
    induction pairs with
    | nil => exact fun entries => rfl
    | cons pair pairs ih =>
      intro entries
      rw [List.map_cons, List.foldl_cons, List.foldl_cons, ← ih, ← put_map]
      rfl
  exact hfold []

theorem put_of_notMem {key : String} {value : α} {entries : Entries α} (h : key ∉ keys entries) :
    put key value entries = entries ++ [(key, value)] := by
  induction entries with
  | nil => rfl
  | cons pair rest ih =>
    simp only [keys, List.map_cons, List.mem_cons, not_or] at h
    rw [put, if_neg fun heq => h.1 heq.symm, ih h.2]
    rfl

/-- Pairs with different keys are entered as they are. -/
theorem ofPairs_of_nodup {pairs : List (String × α)} (h : (keys pairs).Nodup) :
    ofPairs pairs = pairs := by
  have hfold (entries : Entries α) (hnodup : (keys (entries ++ pairs)).Nodup) :
      pairs.foldl (fun es pair => put pair.1 pair.2 es) entries = entries ++ pairs := by
    clear h
    induction pairs generalizing entries with
    | nil => simp
    | cons pair pairs ih =>
      have hkey : pair.1 ∉ keys entries := by
        rw [keys, List.map_append, List.map_cons] at hnodup
        exact fun hmem => (List.nodup_append.mp hnodup).2.2 _ hmem _ (.head _) rfl
      rw [List.foldl_cons, put_of_notMem hkey, ih _ (by simpa using hnodup), List.append_assoc]
      rfl
  exact hfold [] h

end Entries
end ResourceQuery
