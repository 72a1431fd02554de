import ResourceQuery.Guid
import ResourceQuery.QueryString

/-! # Decoding of query strings

A reader of query strings, and calls that append to one in any number. What is read back are the
pairs of the calls that succeeded, in their order.
-/
namespace ResourceQuery

namespace QueryString

/-- The bytes that an encoded text stands for, if two digits follow each `%`. -/
def decodeBytes? : List Char → Option (List UInt8)
  | [] => some []
  | '%' :: high :: low :: rest => do
    let high ← Guid.hexDigit? high
    let low ← Guid.hexDigit? low
    return UInt8.ofNat (16 * high + low) :: (← decodeBytes? rest)
  | c :: rest =>
    if c = '%' then none
    else (decodeBytes? rest).map ((if c = '+' then [32] else String.utf8EncodeChar c) ++ ·)

def decodeText? (cs : List Char) : Option String := do
  String.fromUTF8? (← decodeBytes? cs).toByteArray

/-- Key and value are divided by the first `=`. -/
def decodePair? (cs : List Char) : Option (String × String) :=
  match cs.dropWhile (· ≠ '=') with
  | [] => none
  | _ :: value => do return (← decodeText? (cs.takeWhile (· ≠ '=')), ← decodeText? value)

def decode? (text : String) : Option (List (String × String)) :=
  if text.isEmpty then some [] else (text.toList.splitOn '&').mapM decodePair?

end QueryString

/-! ## Bytes and texts -/

def IsEncoded (c : Char) : Prop := c.isAlphanum = true ∨ c ∈ "'.~-_()$+%".toList

/-- The characters that divide keys, values and pairs are none of them. -/
theorem IsEncoded.ne_divider {c : Char} (h : IsEncoded c) : c ≠ '=' ∧ c ≠ '&' := by
  constructor <;> rintro rfl <;> exact absurd h (by unfold IsEncoded; decide)

section
variable {b : UInt8} (h : isUnreserved b = true)
include h

theorem lt_of_isUnreserved : b.toNat < 128 := by
  simp only [isUnreserved, Bool.and_eq_true, decide_eq_true_eq] at h
  exact UInt8.lt_iff_toNat_lt.mp h.1

theorem isEncoded_of_isUnreserved : IsEncoded (Char.ofNat b.toNat) := by
  simp only [isUnreserved, Bool.and_eq_true, Bool.or_eq_true, List.contains_iff_mem] at h
  have hsub : "'.~-_()$".toList ⊆ "'.~-_()$+%".toList := by decide
  exact h.2.imp_right fun hc => hsub hc

theorem ne_of_isUnreserved : Char.ofNat b.toNat ≠ '%' ∧ Char.ofNat b.toNat ≠ '+' := by
  simp only [isUnreserved, Bool.and_eq_true] at h
  constructor <;> intro heq <;> rw [heq] at h <;> exact absurd h.2 (by decide)

theorem utf8EncodeChar_of_isUnreserved : String.utf8EncodeChar (Char.ofNat b.toNat) = [b] := by
  have hb := lt_of_isUnreserved h
  have hval : (Char.ofNat b.toNat).val.toNat = b.toNat := by
    have hvalid : b.toNat.isValidChar := .inl (by omega)
    rw [Char.ofNat, dif_pos hvalid]
    rfl
  rw [String.utf8EncodeChar, hval, if_pos (by omega), UInt8.ofNat_toNat]

end

theorem hexDigit?_hexDigit {n : Nat} (h : n < 16) : Guid.hexDigit? (hexDigit n) = some n := by
  have hall : ∀ m : Fin 16, Guid.hexDigit? (hexDigit m) = some m.val := by decide
  exact hall ⟨n, h⟩

theorem isEncoded_hexDigit {n : Nat} (h : n < 16) : IsEncoded (hexDigit n) := by
  have hall : ∀ m : Fin 16, (hexDigit m).isAlphanum = true := by decide
  exact .inl (hall ⟨n, h⟩)

theorem isEncoded_of_mem_encodeByte (b : UInt8) {c : Char} (h : c ∈ encodeByte b) : IsEncoded c := by
  have hb : b.toNat < 256 := b.toNat_lt
  unfold encodeByte at h
  split at h
  · rw [List.mem_singleton.mp h]
    exact .inr (by decide)
  · split at h
    · rename_i hu
      rw [List.mem_singleton.mp h]
      exact isEncoded_of_isUnreserved hu
    · simp only [List.mem_cons, List.not_mem_nil, or_false] at h
      rcases h with rfl | rfl | rfl
      · exact .inr (by decide)
      · exact isEncoded_hexDigit (by omega)
      · exact isEncoded_hexDigit (by omega)

theorem isEncoded_of_mem_encodeText {s : String} {c : Char} (h : c ∈ (encodeText s).toList) :
    IsEncoded c := by
  rw [encodeText, String.toList_ofList] at h
  obtain ⟨b, -, hc⟩ := List.mem_flatMap.mp h
  exact isEncoded_of_mem_encodeByte b hc

namespace QueryString

theorem decodeBytes?_encodeByte (b : UInt8) (rest : List Char) :
    decodeBytes? (encodeByte b ++ rest) = (decodeBytes? rest).map (b :: ·) := by
  unfold encodeByte
  split
  · rename_i hb
    subst hb
    rw [List.singleton_append, decodeBytes?]
    all_goals simp
  · split
    · rename_i hu
      obtain ⟨hp, hs⟩ := ne_of_isUnreserved hu
      rw [List.singleton_append, decodeBytes?]
      · simp [hp, hs, utf8EncodeChar_of_isUnreserved hu]
      · simp [hp]
    · have hb : b.toNat < 256 := b.toNat_lt
      have hhigh : Guid.hexDigit? (hexDigit (b.toNat / 16)) = some (b.toNat / 16) :=
        hexDigit?_hexDigit (by omega)
      have hlow : Guid.hexDigit? (hexDigit (b.toNat % 16)) = some (b.toNat % 16) :=
        hexDigit?_hexDigit (by omega)
      have hbyte : UInt8.ofNat (16 * (b.toNat / 16) + b.toNat % 16) = b := by
        rw [Nat.div_add_mod, UInt8.ofNat_toNat]
      rw [List.cons_append, List.cons_append, List.cons_append, List.nil_append, decodeBytes?, hhigh, hlow]
      simp only [Option.bind_eq_bind, Option.bind_some, hbyte]
      cases decodeBytes? rest <;> rfl

theorem decodeBytes?_flatMap_encodeByte (bs : List UInt8) :
    decodeBytes? (bs.flatMap encodeByte) = some bs := by
  induction bs with
  | nil => rfl
  | cons b bs ih => rw [List.flatMap_cons, decodeBytes?_encodeByte, ih, Option.map_some]

theorem decodeText?_encodeText (s : String) : decodeText? (encodeText s).toList = some s := by
  have hbytes : (s.toList.flatMap String.utf8EncodeChar).toByteArray = s.toByteArray :=
    String.utf8Encode_toList
  rw [decodeText?, encodeText, String.toList_ofList, decodeBytes?_flatMap_encodeByte]
  simp only [Option.bind_eq_bind, Option.bind_some, hbytes]
  exact dif_pos s.isValidUTF8

/-! ## Pairs -/

def encodedPair (pair : String × String) : String := encodeText pair.1 ++ "=" ++ encodeText pair.2

theorem toList_encodedPair (pair : String × String) :
    (encodedPair pair).toList = (encodeText pair.1).toList ++ '=' :: (encodeText pair.2).toList := by
  simp [encodedPair]

theorem decodePair?_encodedPair (pair : String × String) :
    decodePair? (encodedPair pair).toList = some pair := by
  have hkey : ∀ c ∈ (encodeText pair.1).toList, decide (c ≠ '=') = true := by
    intro c hc
    exact decide_eq_true (isEncoded_of_mem_encodeText hc).ne_divider.1
  have htake : (encodedPair pair).toList.takeWhile (· ≠ '=') = (encodeText pair.1).toList := by
    rw [toList_encodedPair, List.takeWhile_append_of_pos hkey]
    simp
  have hdrop : (encodedPair pair).toList.dropWhile (· ≠ '=') = '=' :: (encodeText pair.2).toList := by
    rw [toList_encodedPair, List.dropWhile_append_of_pos hkey]
    simp
  rw [decodePair?, htake, hdrop]
  simp only [decodeText?_encodeText]
  rfl

theorem ampersand_notMem_encodedPair (pair : String × String) : '&' ∉ (encodedPair pair).toList := by
  rw [toList_encodedPair]
  intro h
  rcases List.mem_append.mp h with hc | hc
  · exact (isEncoded_of_mem_encodeText hc).ne_divider.2 rfl
  · rcases List.mem_cons.mp hc with heq | hc
    · exact absurd heq (by decide)
    · exact (isEncoded_of_mem_encodeText hc).ne_divider.2 rfl

theorem mapM_decodePair? (pairs : List (String × String)) :
    ((pairs.map encodedPair).map String.toList).mapM decodePair? = some pairs := by
  have hread : decodePair? ∘ String.toList ∘ encodedPair = fun pair => pure pair := by
    funext pair
    rw [Function.comp_apply, Function.comp_apply, decodePair?_encodedPair]
    rfl
  rw [List.map_map, List.mapM_map, hread, List.mapM_pure, List.map_id']
  rfl

def joined (pairs : List (String × String)) : String := "&".intercalate (pairs.map encodedPair)

theorem isEmpty_joined_iff {pairs : List (String × String)} : (joined pairs).isEmpty = true ↔ pairs = [] := by
  rw [String.isEmpty_iff]
  cases pairs with
  | nil => simp [joined]
  | cons pair pairs =>
    refine iff_of_false ?_ (List.cons_ne_nil _ _)
    -- Even of an empty key and value the `=` is left.
    rw [joined, List.map_cons, encodedPair, String.append_assoc, String.intercalate_cons_append,
      String.intercalate_cons_append]
    simp

theorem decode?_joined (pairs : List (String × String)) : decode? (joined pairs) = some pairs := by
  by_cases hp : pairs = []
  · subst hp
    rfl
  · have hparts : ∀ part ∈ (pairs.map encodedPair).map String.toList, '&' ∉ part := by
      intro part hpart
      obtain ⟨text, htext, rfl⟩ := List.mem_map.mp hpart
      obtain ⟨pair, -, rfl⟩ := List.mem_map.mp htext
      exact ampersand_notMem_encodedPair pair
    have hsplit : (joined pairs).toList.splitOn '&' = (pairs.map encodedPair).map String.toList := by
      rw [joined, String.toList_intercalate]
      exact List.splitOn_intercalate '&' hparts (by simpa using hp)
    rw [decode?, if_neg (mt isEmpty_joined_iff.mp hp), hsplit, mapM_decodePair?]

/-! ## Calls -/

/-- What can be appended: a pair, the pairs of parameters, or a tree as the value of a key. -/
inductive Call where
  | pair (key value : String)
  | parameters (p : Parameters)
  | query (key : String) (tree : Query)

namespace Call

/-- The pairs of the call, of which there are none if it fails. -/
def pairs : Call → List (String × String)
  | pair key value => [(key, value)]
  | parameters p => p.pairs
  | query key tree => match tree.print with
    | .ok text => [(key, text)]
    | .error _ => []

def perform : Call → ExceptT CompileError (StateM QueryString) Unit
  | pair key value => append key value
  | parameters p => appendParameters p
  | query key tree => appendQuery key tree

/-- What has been printed is written, and nothing is written otherwise. -/
theorem perform_query (q : QueryString) (key : String) (tree : Query) :
    (query key tree).perform q = match tree.print with
      | .ok text => (.ok (), (append key text q).2)
      | .error error => (.error error, q) := by
  rw [perform]
  cases hprint : tree.print <;> simp only [appendQuery, hprint] <;> rfl

theorem perform_eq_of_print {q : QueryString} {key : String} {tree : Query} {error : CompileError}
    (h : tree.print = .error error) : (query key tree).perform q = (.error error, q) := by
  rw [perform_query, h]

theorem print_eq_of_perform {q : QueryString} {call : Call} {error : CompileError}
    (h : (call.perform q).1 = .error error) :
    ∃ key tree, call = query key tree ∧ tree.print = .error error := by
  cases call with
  | pair key value => exact absurd h nofun
  | parameters p => exact absurd h nofun
  | query key tree =>
    refine ⟨key, tree, rfl, ?_⟩
    rw [perform_query] at h
    cases hprint : tree.print with
    | ok text =>
      rw [hprint] at h
      cases h
    | error error' =>
      rw [hprint] at h
      rw [Except.error.inj h]

end Call

def run (q : QueryString) (calls : List Call) : QueryString :=
  calls.foldl (fun q call => (call.perform q).2) q

theorem run_append (key value : String) (q : QueryString) : (append key value).run q =
    pure ((), ⟨q.text ++ (if q.isEmpty then "" else "&") ++ encodedPair (key, value)⟩) := by
  unfold append write
  cases hempty : q.isEmpty <;> simp [hempty, encodedPair, String.append_assoc]

/-- The query string has the text of the pairs, in the characters of encoded texts and the two that
divide them. -/
structure Encodes (q : QueryString) (pairs : List (String × String)) : Prop where
  text_eq : q.text = joined pairs
  isEncoded : ∀ c ∈ q.text.toList, IsEncoded c ∨ c = '=' ∨ c = '&'

namespace Encodes
variable {q : QueryString} {pairs : List (String × String)}

theorem empty : Encodes {} [] := ⟨rfl, nofun⟩

theorem append (h : q.Encodes pairs) (key value : String) :
    (QueryString.append key value q).2.Encodes (pairs ++ [(key, value)]) := by
  have htext : (QueryString.append key value q).2.text = q.text ++ (if q.isEmpty then "" else "&") ++
      encodedPair (key, value) :=
    congrArg (·.2.text) (run_append key value q)
  refine ⟨?_, fun c hc => ?_⟩
  · rw [htext, h.text_eq, QueryString.isEmpty, h.text_eq]
    by_cases hp : pairs = []
    · subst hp
      simp [joined]
    · rw [if_neg (mt isEmpty_joined_iff.mp hp), joined, joined, List.map_append,
        String.intercalate_append_of_ne_nil (by simpa using hp) (by simp)]
      simp
  · rw [htext] at hc
    simp only [String.toList_append, List.mem_append, toList_encodedPair, List.mem_cons] at hc
    rcases hc with (hc | hc) | hc | rfl | hc
    · exact h.isEncoded c hc
    · split at hc
      · exact absurd hc (by simp)
      · exact .inr (.inr (by simpa using hc))
    · exact .inl (isEncoded_of_mem_encodeText hc)
    · exact .inr (.inl rfl)
    · exact .inl (isEncoded_of_mem_encodeText hc)

theorem appendAll (h : q.Encodes pairs) (more : List (String × String)) :
    (more.forM (fun pair => QueryString.append pair.1 pair.2) q).2.Encodes (pairs ++ more) := by
  induction more generalizing q pairs with
  | nil => rwa [List.append_nil]
  | cons pair more ih =>
    rw [List.append_cons]
    exact ih (h.append pair.1 pair.2)

theorem perform (h : q.Encodes pairs) (call : Call) :
    (call.perform q).2.Encodes (pairs ++ call.pairs) := by
  cases call with
  | pair key value => exact h.append key value
  | parameters p => exact h.appendAll p.pairs
  | query key tree =>
    rw [Call.perform_query, Call.pairs]
    cases tree.print with
    | ok text => exact h.append key text
    | error error => rwa [List.append_nil]

theorem run (h : q.Encodes pairs) (calls : List Call) :
    (q.run calls).Encodes (pairs ++ calls.flatMap Call.pairs) := by
  induction calls generalizing q pairs with
  | nil => rwa [List.flatMap_nil, List.append_nil]
  | cons call calls ih =>
    rw [List.flatMap_cons, ← List.append_assoc]
    exact ih (h.perform call)

end Encodes

/-- A call fails exactly if its tree cannot be printed, and then the text is as before. The text after
any calls, read back, gives the pairs of those that succeeded, and has no characters but letters,
digits and a few marks. -/
theorem decoded_run (calls : List Call) :
    (∀ (q : QueryString) (call : Call) (error : CompileError),
      ((call.perform q).1 = .error error ↔
        ∃ key tree, call = .query key tree ∧ tree.print = .error error) ∧
      ((call.perform q).1 = .error error → (call.perform q).2 = q)) ∧
    decode? (run {} calls).text = some (calls.flatMap Call.pairs) ∧
    ∀ c ∈ (run {} calls).text.toList, c.isAlphanum = true ∨ c ∈ "'.~-_()$+%=&".toList := by
  have hrun : (run {} calls).Encodes (calls.flatMap Call.pairs) := Encodes.empty.run calls
  refine ⟨fun q call error => ⟨⟨Call.print_eq_of_perform, ?_⟩, fun h => ?_⟩, ?_, fun c hc => ?_⟩
  · rintro ⟨key, tree, rfl, hprint⟩
    rw [Call.perform_eq_of_print hprint]
  · obtain ⟨key, tree, rfl, hprint⟩ := Call.print_eq_of_perform h
    rw [Call.perform_eq_of_print hprint]
  · rw [hrun.text_eq, decode?_joined]
  · have hsub : "'.~-_()$+%".toList ⊆ "'.~-_()$+%=&".toList := by decide
    rcases hrun.isEncoded c hc with (ha | hm) | rfl | rfl
    · exact .inl ha
    · exact .inr (hsub hm)
    · exact .inr (by decide)
    · exact .inr (by decide)

/-- A tree that cannot be printed, as the value of a key. -/
def refusedCall : Call := .query "$filter" (.unsupported "x.Grow()" none [] .boolean)

theorem decoded_run_refusedCall :
    let calls := [.pair "a b" "50% é", refusedCall, .pair "" "&=", .parameters { top := some 3 }]
    (refusedCall.perform (run {} [.pair "a b" "50% é"])).2 = run {} [.pair "a b" "50% é"] ∧
    (run {} calls).text = "a+b=50%25+%C3%A9&=%26%3D&$top=3" ∧
    decode? (run {} calls).text = some [("a b", "50% é"), ("", "&="), ("$top", "3")] := by
  intro calls
  have h := decoded_run calls
  exact ⟨(h.1 _ refusedCall _).2 rfl, by decide +kernel, h.2.1⟩

end QueryString
end ResourceQuery
