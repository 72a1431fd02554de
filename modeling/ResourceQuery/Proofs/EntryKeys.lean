import ResourceQuery.Compiler
import ResourceQuery.Proofs.Critters
import ResourceQuery.Proofs.Layout
import ResourceQuery.Proofs.Rekeyed

/-! # Keys in filter text

A key is written as it is, as one more segment of a path. Two predicates that differ in a key have
texts of one layout, so distinct keys give distinct filters; but only a key that ends no word and no
segment is read back as the segment that it is.
-/
namespace ResourceQuery
open Text

namespace Query

mutual
def names : Query → List String
  | .constant .. | .source _ => []
  | .member path _ => path
  | .comparison _ left right | .logical _ left right | .arithmetic _ left right _
  | .selectMany left right _ => left.names ++ right.names
  | .not operand | .negate operand | .selector operand => operand.names
  | .call _ args _ => namesOf args
  | .projection fields _ => fieldNames fields
  | .list elements _ => namesOf elements
  | .unsupported _ _ nested _ => namesOf nested
def namesOf : List Query → List String
  | [] => []
  | q :: rest => q.names ++ namesOf rest
def fieldNames : List (String × Query) → List String
  | [] => []
  | (name, q) :: rest => name :: q.names ++ fieldNames rest
end

theorem namesOf_eq_flatMap (qs : List Query) : namesOf qs = qs.flatMap names := by
  induction qs with
  | nil => rfl
  | cons q qs ih => rw [namesOf, List.flatMap_cons, ih]

theorem fieldNames_eq_flatMap (fields : List (String × Query)) :
    fieldNames fields = fields.flatMap fun field => field.1 :: field.2.names := by
  induction fields with
  | nil => rfl
  | cons field fields ih => rw [fieldNames, List.flatMap_cons, ih]

end Query

/-- Texts of one layout. A condition gives it a place for the key, another makes it tokens. -/
def Written (names : List String) (k₁ k₂ : String) (m seg : Prop) (cs₁ cs₂ : List Char) : Prop :=
  ∃ l : Layout, l.write names k₁ = cs₁ ∧ l.write names k₂ = cs₂ ∧ (m → 0 < l.places) ∧
    (seg → l.IsTokenized)

namespace Written
variable {names : List String} {k₁ k₂ : String} {m m' seg seg' : Prop}
  {as₁ as₂ bs₁ bs₂ : List Char}

theorem mono (h : Written names k₁ k₂ m seg as₁ as₂) (hm : m' → m) (hs : seg' → seg) :
    Written names k₁ k₂ m' seg' as₁ as₂ := by
  obtain ⟨l, h₁, h₂, hplaces, htokens⟩ := h
  exact ⟨l, h₁, h₂, fun h => hplaces (hm h), fun h => htokens (hs h)⟩

theorem same {cs : List Char} (h : seg → ∃ ts, lex cs = some ts) :
    Written names k₁ k₂ False seg cs cs :=
  ⟨.text cs, rfl, rfl, False.elim, h⟩

theorem empty : Written names k₁ k₂ False seg [] [] := same fun _ => ⟨[], rfl⟩

theorem join {c : Char} (hc : isSeparator c = true) (ha : Written names k₁ k₂ m seg as₁ as₂)
    (hb : Written names k₁ k₂ m' seg bs₁ bs₂) :
    Written names k₁ k₂ (m ∨ m') seg (as₁ ++ c :: bs₁) (as₂ ++ c :: bs₂) := by
  obtain ⟨l, rfl, rfl, hlp, hlt⟩ := ha
  obtain ⟨r, rfl, rfl, hrp, hrt⟩ := hb
  refine ⟨.join l c r, rfl, rfl, fun h => ?_, fun hs => ⟨hlt hs, hc, hrt hs⟩⟩
  simp only [Layout.places]
  rcases h with h | h
  · have hl := hlp h
    omega
  · have hr := hrp h
    omega

theorem after {c : Char} (hc : isSeparator c = true) (h : Written names k₁ k₂ m seg as₁ as₂) :
    Written names k₁ k₂ m seg (c :: as₁) (c :: as₂) :=
  (empty.join hc h).mono .inr id

theorem before {c : Char} (hc : isSeparator c = true) (h : Written names k₁ k₂ m seg as₁ as₂) :
    Written names k₁ k₂ m seg (as₁ ++ [c]) (as₂ ++ [c]) :=
  (h.join hc empty).mono .inl id

theorem enclosed {q₁ q₂ : Query} {t₁ t₂ : String} (least : Nat) (hq : q₁.precedence = q₂.precedence)
    (h : Written names k₁ k₂ m seg t₁.toList t₂.toList) :
    Written names k₁ k₂ m seg (q₁.enclosed least t₁).toList (q₂.enclosed least t₂).toList := by
  unfold Query.enclosed
  rw [hq]
  split
  · simpa using (h.before (c := ')') rfl).after (c := '(') rfl
  · exact h

theorem binary {l₁ l₂ r₁ r₂ : String} (op : BinaryOp)
    (hl : Written names k₁ k₂ m seg l₁.toList l₂.toList)
    (hr : Written names k₁ k₂ m' seg r₁.toList r₂.toList) :
    Written names k₁ k₂ (m ∨ m') seg (l₁ ++ " " ++ op.token ++ " " ++ r₁).toList
      (l₂ ++ " " ++ op.token ++ " " ++ r₂).toList := by
  have hword : Written names k₁ k₂ False seg op.token.toList op.token.toList := by
    refine same fun _ => ⟨[.word op.token.toList], ?_⟩
    rcases op with op | op | op <;> cases op <;> decide
  have hjoin := hl.join (c := ' ') rfl (hword.join (c := ' ') rfl hr)
  simpa using hjoin.mono (Or.imp_right .inr) id

theorem word {w : List Char} (hw : lex w = some [.word w]) (h : Written names k₁ k₂ m seg as₁ as₂)
    {c : Char} (hc : isSeparator c = true) :
    Written names k₁ k₂ m seg (w ++ c :: as₁) (w ++ c :: as₂) :=
  ((same fun _ => ⟨_, hw⟩).join hc h).mono .inr id

theorem items {α : Type} {items : List α} {f g : α → Except CompileError String} {M : α → Prop}
    (h : ∀ a ∈ items, ∀ {t₁ t₂ : String}, f a = .ok t₁ → g a = .ok t₂ →
      Written names k₁ k₂ (M a) seg t₁.toList t₂.toList)
    {ts₁ ts₂ : List String} (h₁ : items.mapM f = .ok ts₁) (h₂ : items.mapM g = .ok ts₂) :
    Written names k₁ k₂ (∃ a ∈ items, M a) seg (",".intercalate ts₁).toList
      (",".intercalate ts₂).toList := by
  rw [mapM_eq_ok] at h₁ h₂
  induction h₁ generalizing ts₂ with
  | nil =>
    cases h₂
    exact empty.mono (by simp) id
  | @cons a t₁ items ts₁ ha has ih =>
    cases h₂ with
    | @cons _ t₂ _ ts₂ hb hbs =>
    have hfirst := h a (by simp) ha hb
    have hrest := ih (fun b hb => h b (.tail _ hb)) hbs
    cases has with
    | nil =>
      cases hbs
      simpa using hfirst
    | cons ha' has =>
      cases hbs with
      | cons hb' hbs =>
      have hjoin := hfirst.join (c := ',') rfl hrest
      simpa [List.intercalate_cons_cons] using hjoin

end Written

namespace Query

/-- Nothing in the names of a tree ends a word or a segment. -/
def Segmented (q : Query) : Prop := ∀ name ∈ q.names, isSegment name = true

theorem Segmented.child {q c : Query} (h : q.Segmented) (hc : c ∈ q.children) : c.Segmented := by
  intro name hname
  refine h name ?_
  cases q with
  | constant | member | source => cases hc
  | not | negate | selector =>
    rw [List.mem_singleton.mp hc] at hname
    exact hname
  | comparison | logical | arithmetic | selectMany =>
    rcases List.mem_pair.mp hc with rfl | rfl
    · exact List.mem_append_left _ hname
    · exact List.mem_append_right _ hname
  | call | list | unsupported =>
    rw [names, namesOf_eq_flatMap]
    exact List.mem_flatMap.mpr ⟨c, hc, hname⟩
  | projection fields =>
    obtain ⟨field, hfield, rfl⟩ := List.mem_map.mp hc
    rw [names, fieldNames_eq_flatMap]
    exact List.mem_flatMap.mpr ⟨field, hfield, .tail _ hname⟩

variable {names : List String} {k₁ k₂ : String} {q₁ q₂ l₁ l₂ r₁ r₂ : Query}

theorem Alike.precedence_eq (h : Alike names k₁ k₂ q₁ q₂) : q₁.precedence = q₂.precedence := by
  cases h with
  | logical op => cases op <;> rfl
  | arithmetic op => cases op <;> rfl
  | _ => rfl

/-- The texts of the trees have one layout, with a place for the keys if the trees have them. -/
def SameLayout (names : List String) (k₁ k₂ : String) (q₁ q₂ : Query) (cs₁ cs₂ : List Char) : Prop :=
  Written names k₁ k₂ (Marked names k₁ k₂ q₁ q₂) q₁.Segmented cs₁ cs₂

namespace SameLayout
variable {a₁ a₂ b₁ b₂ : String}

theorem operands (op : BinaryOp) {m n : Nat} (hl : Alike names k₁ k₂ l₁ l₂)
    (hr : Alike names k₁ k₂ r₁ r₂) (hc₁ : q₁.children = [l₁, r₁]) (hc₂ : q₂.children = [l₂, r₂])
    (ha : SameLayout names k₁ k₂ l₁ l₂ a₁.toList a₂.toList)
    (hb : SameLayout names k₁ k₂ r₁ r₂ b₁.toList b₂.toList) :
    SameLayout names k₁ k₂ q₁ q₂
      (l₁.enclosed m a₁ ++ " " ++ op.token ++ " " ++ r₁.enclosed n b₁).toList
      (l₂.enclosed m a₂ ++ " " ++ op.token ++ " " ++ r₂.enclosed n b₂).toList := by
  have hleft := ha.mono id fun hs : q₁.Segmented => hs.child (by simp [hc₁])
  have hright := hb.mono id fun hs : q₁.Segmented => hs.child (by simp [hc₁])
  have hboth := (hleft.enclosed m hl.precedence_eq).binary op (hright.enclosed n hr.precedence_eq)
  exact hboth.mono (fun hm => hm.of_operands hc₁ hc₂) id

theorem operand (hl : Alike names k₁ k₂ l₁ l₂) (hc₁ : q₁.children = [l₁]) (hc₂ : q₂.children = [l₂])
    (ha : SameLayout names k₁ k₂ l₁ l₂ a₁.toList a₂.toList) :
    SameLayout names k₁ k₂ q₁ q₂ (l₁.enclosed 7 a₁).toList (l₂.enclosed 7 a₂).toList := by
  have hinner := Written.enclosed 7 hl.precedence_eq ha
  exact hinner.mono (fun hm => hm.of_operand hc₁ hc₂) fun hs => hs.child (by simp [hc₁])

/-- A node without parts that is no path is one text. -/
theorem leaf {q : Query} {cs : List Char} {ts : List Token} (hc : q.children = [])
    (hq : ∀ path ty, q ≠ .member path ty) (hlex : lex cs = some ts) :
    SameLayout names k₁ k₂ q q cs cs := by
  refine (Written.same fun _ => ⟨ts, hlex⟩).mono (fun hm => ?_) id
  have hnone : q.children = ([] : List Query).map id := hc
  obtain ⟨part, hpart, -⟩ := hm.of_children hnone hnone hq
  cases hpart

/-- A path without a key is one text. One with the same key in both trees is a place for it. -/
theorem path (path : List String) (ty : Ty) :
    SameLayout names k₁ k₂ (.member path ty) (.member path ty) (pathText path).toList
      (pathText path).toList := by
  by_cases hm : Marked names k₁ k₂ (.member path ty) (.member path ty)
  · obtain ⟨rest, hrest, hrest'⟩ := hm.path_eq
    obtain rfl : k₁ = k₂ := by simpa [hrest] using hrest'
    refine ⟨.entry rest, by rw [hrest]; rfl, by rw [hrest]; rfl, fun _ => Nat.one_pos, ?_⟩
    intro hs name hname
    exact hs name (by simp [Query.names, hrest, hname])
  · refine (Written.same fun hs => ?_).mono (fun h => hm h) id
    by_cases hne : path = []
    · subst hne
      exact ⟨_, lex_word (by decide) (isBreak_of_all (by decide))⟩
    · obtain ⟨hword, hbreak, -⟩ := pathText_segments hne hs
      exact ⟨_, lex_word hword hbreak⟩

theorem items {α : Type} {items : List α} {f g : α → Query} (hc₁ : q₁.children = items.map f)
    (hc₂ : q₂.children = items.map g) (hq : ∀ path ty, q₁ ≠ .member path ty)
    (h : ∀ a ∈ items, ∀ {t₁ t₂ : String}, (f a).bare = .ok t₁ → (g a).bare = .ok t₂ →
      SameLayout names k₁ k₂ (f a) (g a) t₁.toList t₂.toList)
    {ts₁ ts₂ : List String} (h₁ : bareAll (items.map f) = .ok ts₁)
    (h₂ : bareAll (items.map g) = .ok ts₂) :
    SameLayout names k₁ k₂ q₁ q₂ (",".intercalate ts₁).toList (",".intercalate ts₂).toList := by
  rw [bareAll_eq_mapM, List.mapM_map] at h₁ h₂
  refine (Written.items (fun a ha t₁ t₂ ht₁ ht₂ => ?_) h₁ h₂).mono
    (fun hm => hm.of_children hc₁ hc₂ hq) id
  have hchild : f a ∈ q₁.children := hc₁ ▸ List.mem_map_of_mem ha
  exact (h a ha ht₁ ht₂).mono id fun hs => hs.child hchild

theorem field {name : String} (ha : Alike names k₁ k₂ l₁ l₂) (hc : l₁ ∈ q₁.children)
    (hname : name ∈ q₁.names) (h : SameLayout names k₁ k₂ l₁ l₂ a₁.toList a₂.toList) :
    Written names k₁ k₂ (Marked names k₁ k₂ l₁ l₂) q₁.Segmented
      (l₁.enclosed 4 a₁ ++ " as " ++ name).toList (l₂.enclosed 4 a₂ ++ " as " ++ name).toList := by
  have hvalue := (h.mono id fun hs : q₁.Segmented => hs.child hc).enclosed 4 ha.precedence_eq
  have hword : Written names k₁ k₂ False q₁.Segmented name.toList name.toList := by
    refine .same fun hs => ?_
    obtain ⟨hne, hchars⟩ := isSegment_iff.mp (hs name hname)
    exact ⟨_, lex_word hne fun c hc => (hchars c hc).1⟩
  have has : lex "as".toList = some [.word "as".toList] := by decide
  have hfield := (hvalue.join (c := ' ') rfl (hword.word has (c := ' ') rfl)).mono .inl id
  simpa using hfield

theorem fields {α : Type} {items : List α} {name : α → String} {f g : α → Query} {ty : Ty}
    (ha : ∀ a ∈ items, Alike names k₁ k₂ (f a) (g a))
    (h : ∀ a ∈ items, ∀ {t₁ t₂ : String}, (f a).bare = .ok t₁ → (g a).bare = .ok t₂ →
      SameLayout names k₁ k₂ (f a) (g a) t₁.toList t₂.toList)
    {ts₁ ts₂ : List String} (h₁ : bareFields (items.map fun a => (name a, f a)) = .ok ts₁)
    (h₂ : bareFields (items.map fun a => (name a, g a)) = .ok ts₂) :
    SameLayout names k₁ k₂ (.projection (items.map fun a => (name a, f a)) ty)
      (.projection (items.map fun a => (name a, g a)) ty) (",".intercalate ts₁).toList
      (",".intercalate ts₂).toList := by
  have hchildren : ∀ f : α → Query,
      (Query.projection (items.map fun a => (name a, f a)) ty).children = items.map f := by
    simp [children, Entries.values]
  rw [bareFields_eq_mapM, List.mapM_map] at h₁ h₂
  refine (Written.items (fun a hmem t₁ t₂ ht₁ ht₂ => ?_) h₁ h₂).mono
    (fun hm => hm.of_children (hchildren f) (hchildren g) (by simp)) id
  simp only [Function.comp_apply, bareField, bind_eq_ok, pure_eq_ok] at ht₁ ht₂
  obtain ⟨u₁, hu₁, rfl⟩ := ht₁
  obtain ⟨u₂, hu₂, rfl⟩ := ht₂
  refine field (ha a hmem) (hchildren f ▸ List.mem_map_of_mem hmem) ?_ (h a hmem hu₁ hu₂)
  rw [Query.names, fieldNames_eq_flatMap]
  exact List.mem_flatMap.mpr ⟨_, List.mem_map_of_mem hmem, .head _⟩

end SameLayout

/-- The texts of alike trees have one layout. -/
theorem Alike.sameLayout (h : Alike names k₁ k₂ q₁ q₂) {t₁ t₂ : String} (h₁ : q₁.bare = .ok t₁)
    (h₂ : q₂.bare = .ok t₂) : SameLayout names k₁ k₂ q₁ q₂ t₁.toList t₂.toList := by
  induction h generalizing t₁ t₂ with
  | constant value ty =>
    rw [h₁] at h₂
    cases h₂
    unfold bare at h₁
    split at h₁
    · rename_i text hl
      cases h₁
      obtain ⟨ts, hlex, -⟩ := Denotes.literal (Value.literalText hl)
      exact .leaf rfl (by simp) hlex
    · cases h₁
  | source ty =>
    cases h₁
    cases h₂
    exact .leaf rfl (by simp) (lex_word (by decide) (isBreak_of_all (by decide)))
  | member path ty =>
    cases h₁
    cases h₂
    exact .path path ty
  | entry hne rest ty =>
    cases h₁
    cases h₂
    refine ⟨.entry rest, rfl, rfl, fun _ => Nat.one_pos, ?_⟩
    intro hs name hname
    exact hs name (by simp [Query.names, hname])
  | comparison op hl hr ihl ihr =>
    simp only [bare, bind_eq_ok, pure_eq_ok] at h₁ h₂
    obtain ⟨a₁, ha₁, b₁, hb₁, rfl⟩ := h₁
    obtain ⟨a₂, ha₂, b₂, hb₂, rfl⟩ := h₂
    exact .operands (.comparison op) hl hr rfl rfl (ihl ha₁ ha₂) (ihr hb₁ hb₂)
  | logical op hl hr ihl ihr =>
    simp only [bare, bind_eq_ok, pure_eq_ok] at h₁ h₂
    obtain ⟨a₁, ha₁, b₁, hb₁, rfl⟩ := h₁
    obtain ⟨a₂, ha₂, b₂, hb₂, rfl⟩ := h₂
    rw [precedence_logical, precedence_logical]
    exact .operands (.logical op) hl hr rfl rfl (ihl ha₁ ha₂) (ihr hb₁ hb₂)
  | arithmetic op ty hl hr ihl ihr =>
    simp only [bare, bind_eq_ok, pure_eq_ok] at h₁ h₂
    obtain ⟨a₁, ha₁, b₁, hb₁, rfl⟩ := h₁
    obtain ⟨a₂, ha₂, b₂, hb₂, rfl⟩ := h₂
    rw [precedence_arithmetic, precedence_arithmetic]
    exact .operands (.arithmetic op) hl hr rfl rfl (ihl ha₁ ha₂) (ihr hb₁ hb₂)
  | @not o₁ o₂ h ih =>
    simp only [bare, bind_eq_ok, pure_eq_ok] at h₁ h₂
    obtain ⟨a₁, ha₁, rfl⟩ := h₁
    obtain ⟨a₂, ha₂, rfl⟩ := h₂
    have hword : lex "not".toList = some [.word "not".toList] := by decide
    have hoperand : SameLayout names k₁ k₂ (.not o₁) (.not o₂) _ _ :=
      .operand h rfl rfl (ih ha₁ ha₂)
    unfold SameLayout at hoperand ⊢
    simpa using hoperand.word hword (c := ' ') rfl
  | @negate o₁ o₂ h ih =>
    simp only [bare, bind_eq_ok, pure_eq_ok] at h₁ h₂
    obtain ⟨a₁, ha₁, rfl⟩ := h₁
    obtain ⟨a₂, ha₂, rfl⟩ := h₂
    have hoperand : SameLayout names k₁ k₂ (.negate o₁) (.negate o₂) _ _ :=
      .operand h rfl rfl (ih ha₁ ha₂)
    unfold SameLayout at hoperand ⊢
    simpa using hoperand.after (c := '-') rfl
  | @call _ items f g function ty h ih =>
    simp only [bare, bind_eq_ok, pure_eq_ok] at h₁ h₂
    obtain ⟨ts₁, hts₁, rfl⟩ := h₁
    obtain ⟨ts₂, hts₂, rfl⟩ := h₂
    have hitems : SameLayout names k₁ k₂ (.call function (items.map f) ty)
        (.call function (items.map g) ty) _ _ := .items rfl rfl (by simp) ih hts₁ hts₂
    have hword : lex function.name.toList = some [.word function.name.toList] := by
      cases function <;> decide
    unfold SameLayout at hitems ⊢
    simpa using (hitems.before (c := ')') rfl).word hword (c := '(') rfl
  | @list _ items f g ty h ih =>
    simp only [bare, bind_eq_ok, pure_eq_ok] at h₁ h₂
    obtain ⟨ts₁, hts₁, rfl⟩ := h₁
    obtain ⟨ts₂, hts₂, rfl⟩ := h₂
    have hitems : SameLayout names k₁ k₂ (.list (items.map f) ty) (.list (items.map g) ty) _ _ :=
      .items rfl rfl (by simp) ih hts₁ hts₂
    unfold SameLayout at hitems ⊢
    simpa using (hitems.before (c := ']') rfl).after (c := '[') rfl
  | projection ty h ih =>
    simp only [bare, bind_eq_ok, pure_eq_ok] at h₁ h₂
    obtain ⟨ts₁, hts₁, rfl⟩ := h₁
    obtain ⟨ts₂, hts₂, rfl⟩ := h₂
    exact .fields h ih hts₁ hts₂

end Query

/-- The texts are read as the same tokens, but for the key in some paths after these names. -/
def SameButKey (names : List String) (k₁ k₂ text₁ text₂ : String) : Prop :=
  ∃ pattern, (∃ rest, .entry rest ∈ pattern) ∧ Fits names k₁ pattern text₁.toList ∧
    Fits names k₂ pattern text₂.toList

namespace Compiler

/-- A predicate that has a text is lowered to a tree of that text. -/
theorem print_of_filter {c : Compiler} {x : Parameter} {body : Expr} {text : String}
    (h : c.filter (.lambda [x] body) = .ok text) :
    ((c.scope x).lowerBody .predicate body).print = .ok text := by
  have hlambda : UnaryLambda.ofExpr (.lambda [x] body) = .ok ⟨x, body⟩ := rfl
  simp only [filter, compile, lower, bind_eq_ok] at h
  obtain ⟨q, ⟨l, hl, hq⟩, hprint⟩ := h
  cases hbool : body.ty.isBoolean with
  | false => simp [validated, hlambda, bind, Except.bind, hbool] at hl
  | true =>
    have hvalid : validated .predicate none (.lambda [x] body) = .ok ⟨x, body⟩ := by
      simp [validated, hlambda, bind, Except.bind, hbool, pure, Except.pure]
    rw [hvalid] at hl
    cases hl
    cases hq
    exact hprint

section
variable {c : Compiler} {x hole : Parameter} {dictionary key₁ key₂ body : Expr}
  {names : List String} {k₁ k₂ text₁ text₂ : String}

/-- The texts of two predicates that differ in a key have one layout with a place for it. -/
theorem layout_of_filter (hp : (c.scope x).Path dictionary names) (hk₁ : key₁.FoldsTo k₁)
    (hk₂ : key₂.FoldsTo k₂) (hshown : ∃ part ∈ (c.scope x).shown body, part.Mentions hole)
    (h₁ : c.filter (.lambda [x] (body.substitute (.entryAt hole dictionary key₁))) = .ok text₁)
    (h₂ : c.filter (.lambda [x] (body.substitute (.entryAt hole dictionary key₂))) = .ok text₂) :
    names ≠ [] ∧ Written names k₁ k₂ True
      ((c.scope x).lowerBody .predicate (body.substitute (.entryAt hole dictionary key₁))).Segmented
      text₁.toList text₂.toList := by
  have hprint₁ := print_of_filter h₁
  have hprint₂ := print_of_filter h₂
  have hrep₁ := Query.isRepresentable_of_print hprint₁
  have hrep₂ := Query.isRepresentable_of_print hprint₂
  rw [Query.print_of_isRepresentable hrep₁] at hprint₁
  rw [Query.print_of_isRepresentable hrep₂] at hprint₂
  have hpaired := Scope.lowerBody_paired hp hk₁ hk₂ hrep₁ hrep₂
  have hmarked := hpaired.marked hshown
  exact ⟨hmarked.ne_nil, (hpaired.alike.sameLayout hprint₁ hprint₂).mono (fun _ => hmarked) id⟩

/-- Predicates that differ in a key have different texts. Where the names around the key are those
of the grammar, the texts are read as the same tokens but for the key exactly if each key is a
segment: a key with a break or a point in it, or none at all, is read as something else. -/
theorem sameButKey_iff (hp : (c.scope x).Path dictionary names) (hk₁ : key₁.FoldsTo k₁)
    (hk₂ : key₂.FoldsTo k₂) (hshown : ∃ part ∈ (c.scope x).shown body, part.Mentions hole)
    (h₁ : c.filter (.lambda [x] (body.substitute (.entryAt hole dictionary key₁))) = .ok text₁)
    (h₂ : c.filter (.lambda [x] (body.substitute (.entryAt hole dictionary key₂))) = .ok text₂) :
    (k₁ ≠ k₂ → text₁ ≠ text₂) ∧
    ((∀ name ∈ names, isName name = true) →
      (∀ name ∈ ((c.scope x).lowerBody .predicate
        (body.substitute (.entryAt hole dictionary key₁))).names, name = k₁ ∨ isSegment name = true) →
      (SameButKey names k₁ k₂ text₁ text₂ ↔ isSegment k₁ = true ∧ isSegment k₂ = true)) := by
  obtain ⟨hne, l, hl₁, hl₂, hplaces, htokens⟩ := layout_of_filter hp hk₁ hk₂ hshown h₁ h₂
  refine ⟨?_, fun hnames hothers => ⟨?_, ?_⟩⟩
  · rintro hk rfl
    exact hk (Layout.eq_of_write_eq (hplaces trivial) (hl₁.trans hl₂.symm))
  · rintro ⟨pattern, ⟨rest, hrest⟩, hfits₁, hfits₂⟩
    exact ⟨hfits₁.isSegment hrest, hfits₂.isSegment hrest⟩
  · rintro ⟨hseg₁, hseg₂⟩
    have htokenized : l.IsTokenized := by
      refine htokens fun name hname => ?_
      rcases hothers name hname with rfl | hsegment
      · exact hseg₁
      · exact hsegment
    have hentry := Layout.mem_pattern_of_places (hplaces trivial)
    have hfits₁ := Layout.fits_pattern hne hnames hseg₁ htokenized
    have hfits₂ := Layout.fits_pattern hne hnames hseg₂ htokenized
    exact ⟨l.pattern, hentry, hl₁ ▸ hfits₁, hl₂ ▸ hfits₂⟩

end

namespace Sample
open Critters

def paint : Expr := trait "Paint" (.dictionary .string .string)

def layer : Parameter := ⟨"layer", .string⟩

/-- A layer of paint is black or has the name of the critter. -/
def body : Expr :=
  .binaryOf (.logical .or) (.binaryOf (.comparison .equal) (.parameter layer) (.ofValue (.string "black")))
    (.binaryOf (.comparison .equal) name (.parameter layer))

def filterOf (key : Expr) : Except CompileError String :=
  asDeclared.filter (.lambda [x] (body.substitute (.entryAt layer paint key)))

def first : Expr := .binaryOf (.arithmetic .add) (.ofValue (.string "fir")) (.ofValue (.string "st"))

def last : Expr := .ofValue (.string "last")

def forged : Expr := .ofValue (.string "last ne 'it' or a.b")

end Sample

open Critters Sample in
theorem sameButKey_iff_coats :
    filterOf first = .ok "Paint.first eq 'black' or Name eq Paint.first" ∧
    filterOf last = .ok "Paint.last eq 'black' or Name eq Paint.last" ∧
    filterOf forged = .ok "Paint.last ne 'it' or a.b eq 'black' or Name eq Paint.last ne 'it' or a.b" ∧
    SameButKey ["Paint"] "first" "last" "Paint.first eq 'black' or Name eq Paint.first"
      "Paint.last eq 'black' or Name eq Paint.last" ∧
    ¬SameButKey ["Paint"] "first" "last ne 'it' or a.b" "Paint.first eq 'black' or Name eq Paint.first"
      "Paint.last ne 'it' or a.b eq 'black' or Name eq Paint.last ne 'it' or a.b" := by
  have hp : critters.Path paint ["Paint"] := .member rfl (.parameter rfl)
  have hfirst : first.FoldsTo "first" := ⟨2, .string "first", rfl, rfl⟩
  have hlast : last.FoldsTo "last" := ⟨1, .string "last", rfl, rfl⟩
  have hforged : forged.FoldsTo "last ne 'it' or a.b" := ⟨1, .string "last ne 'it' or a.b", rfl, rfl⟩
  have hshown : ∃ part ∈ critters.shown body, part.Mentions layer :=
    ⟨body, .head _, .child (.head _) (.child (.head _) .here)⟩
  have hnames : ∀ name ∈ ["Paint"], isName name = true := by decide
  have hothers : ∀ name ∈ (critters.lowerBody .predicate
      (body.substitute (.entryAt layer paint first))).names, name = "first" ∨ isSegment name = true := by
    decide
  have h₁ : filterOf first = .ok "Paint.first eq 'black' or Name eq Paint.first" := by rfl
  have h₂ : filterOf last = .ok "Paint.last eq 'black' or Name eq Paint.last" := by rfl
  have h₃ : filterOf forged =
      .ok "Paint.last ne 'it' or a.b eq 'black' or Name eq Paint.last ne 'it' or a.b" := by rfl
  refine ⟨h₁, h₂, h₃, ?_, ?_⟩
  · exact ((sameButKey_iff hp hfirst hlast hshown h₁ h₂).2 hnames hothers).mpr (by decide)
  · intro hsame
    have hsegments := ((sameButKey_iff hp hfirst hforged hshown h₁ h₃).2 hnames hothers).mp hsame
    revert hsegments
    decide

end Compiler
end ResourceQuery
