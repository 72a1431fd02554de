import ResourceQuery.Proofs.MappingQuestions

/-! # Reading through the cache

A compiler that asks the cache node by node comes to the outcome under the mapping as it was seen through
the cache at the beginning, and leaves the cache after all questions that are listed for it. No answer that
is kept on the way has a part in what follows.
-/
namespace ResourceQuery

/-! ## Asking the cache -/

/-- The computation gives what a mapping gives, asked through the cache, and the cache keeps the
answers to these questions. -/
def Asks {α : Type} (x : StateM Cache α) (outcome : Mapping → α) (questions : Mapping → List Question) :
    Prop :=
  ∀ c, x c = (outcome c.reading, c.askAll (questions c.reading))

namespace Asks
variable {α β : Type}

theorem pure (a : α) : Asks (pure a) (fun _ => a) (fun _ => []) := fun _ => rfl

theorem bind {x : StateM Cache α} {k : α → StateM Cache β} {f : Mapping → α} {g : α → Mapping → β}
    {first : Mapping → List Question} {rest : α → Mapping → List Question} (hx : Asks x f first)
    (hk : ∀ a, Asks (k a) (g a) (rest a)) :
    Asks (x >>= k) (fun m => g (f m) m) (fun m => first m ++ rest (f m) m) := by
  intro c
  change k (x c).1 (x c).2 = _
  rw [hx c, hk, Cache.reading_askAll, Cache.askAll_append]

/-- What has been asked before leaves the cache as it is. -/
theorem of_knows {x : StateM Cache α} {f : Mapping → α} {q : Question} {c : Cache} (hx : Asks x f (fun _ => [q]))
    (h : c.knows q = true) : x c = (f c.reading, c) := by
  rw [hx c, Cache.askAll, List.foldl_cons, List.foldl_nil, Cache.ask_of_knows h]

theorem map {x : StateM Cache α} {f : Mapping → α} {questions : Mapping → List Question} (hx : Asks x f questions)
    (g : α → β) : Asks (do return g (← x)) (fun m => g (f m)) questions := by
  intro c
  change (g (x c).1, (x c).2) = _
  rw [hx c]

theorem map₂ {γ : Type} {x : StateM Cache α} {y : StateM Cache β} {f : Mapping → α} {g : Mapping → β}
    {first rest : Mapping → List Question} (hx : Asks x f first) (hy : Asks y g rest) (k : α → β → γ) :
    Asks (do return k (← x) (← y)) (fun m => k (f m) (g m)) (fun m => first m ++ rest m) :=
  hx.bind fun a => hy.map (k a)

theorem mapM {k : α → StateM Cache β} {g : α → Mapping → β} {rest : α → Mapping → List Question}
    (hk : ∀ a, Asks (k a) (g a) (rest a)) (as : List α) :
    Asks (as.mapM k) (fun m => as.map (g · m)) (fun m => as.flatMap (rest · m)) := by
  induction as with
  | nil => exact .pure []
  | cons a as ih =>
    rw [List.mapM_cons]
    exact (hk a).bind fun b => ih.map (b :: ·)

theorem property (declaring : Ty) (name : String) :
    Asks (Cache.property declaring name) (·.property declaring name) (fun _ => [.property declaring name]) := by
  intro c
  cases hp : c.properties.lookup (declaring, name) <;>
    simp only [Cache.property, Cache.reading, Cache.askAll, Cache.ask, List.foldl, hp, Option.getD]

theorem typeInfo (ty : Ty) : Asks (Cache.typeInfo ty) (·.typeInfo ty) (fun _ => [.type ty]) := by
  intro c
  cases hinfo : c.types.lookup ty <;>
    simp only [Cache.typeInfo, Cache.reading, Cache.askAll, Cache.ask, List.foldl, hinfo, Option.getD]

end Asks

/-! ## Lambda bodies -/

namespace Scope
variable {n : Nat} {e : Expr}

theorem memberRole_of_asksMapping {s : Scope} {declaring : Ty} {name : String}
    (h : asksMapping declaring name = true) (target : Expr) :
    s.memberRole target declaring name =
      if (s.mapping.property declaring name).mapped then .path target declaring name
      else .unsupported (some (.unmappedMember declaring name)) := by
  simp only [asksMapping, Bool.and_eq_true, Bool.not_eq_true', Option.isNone_iff_eq_none] at h
  obtain ⟨⟨hnullable, hreceiver⟩, hdictionary⟩ := h
  simp only [memberRole, hnullable, hreceiver, hdictionary, Bool.false_eq_true, if_false]

theorem isProjection_eq_any (s : Scope) (m : Mapping) (ty : Ty) :
    (s.withMapping m).isProjection ty = (m.typeInfo ty).any TypeInfo.isProjection := by
  unfold isProjection withMapping
  dsimp only
  cases m.typeInfo ty <;> rfl

theorem asks_roleThrough (s : Scope) (e : Expr) :
    Asks (s.roleThrough e) (fun m => (s.withMapping m).role e) (fun _ => asked e) := by
  -- a node that asks nothing has the same role under every mapping
  have hfixed (h : asked e = []) : Asks (pure (s.role e)) (fun m => (s.withMapping m).role e) (fun _ => asked e) := by
    intro c
    have hnone : ∀ q ∈ asked e, s.mapping.AgreesOn c.reading q := by simp [h]
    simp only [role_withMapping hnone, h]
    rfl
  cases e with
  | member target declaring name ty =>
    rw [roleThrough]
    split
    · rename_i h
      obtain ⟨hopen, hasks⟩ := Bool.and_eq_true_iff.mp h
      have hrole (m : Mapping) := memberRole_of_asksMapping (s := s.withMapping m) hasks target
      simp only [role, ifOpen, hopen, if_true, hrole, asked, hasks]
      exact (Asks.property declaring name).map fun p =>
        if p.mapped then Role.path target declaring name else .unsupported (some (.unmappedMember declaring name))
    · rename_i h
      exact hfixed (by simp_all [asked])
  | construct ty args members =>
    rw [roleThrough]
    split
    · rename_i hopen
      simp only [role, ifOpen, hopen, if_true, isProjection_eq_any, asked]
      exact (Asks.typeInfo ty).map fun info =>
        if info.any TypeInfo.isProjection then Role.record else .unsupported none
    · rename_i h
      exact hfixed (by simp_all [asked])
  | _ => exact hfixed (by simp [asked])

theorem extendThrough_of_knows {c : Cache} {declaring : Ty} {name : String}
    (h : c.knows (.property declaring name) = true) (q : Query) :
    extendThrough e declaring name q c = (extendPath e (c.reading.property declaring name).name q, c) := by
  cases q with
  | member path ty => exact ((Asks.property declaring name).map fun p => Query.member (path ++ [p.name]) e.ty).of_knows h
  | _ => rfl

/-- The parts are asked for one after the other, as they are listed. The property of a path has been
asked for with its role. -/
theorem lowerAs_eq {s t : Scope} {next : Expr → StateM Cache Query} {c : Cache} {r : Role}
    (hnext : ∀ part, Asks (next part) (fun m => (s.withMapping m).lower n part)
      (fun m => (s.withMapping m).consulted n part))
    (ht : t = s.withMapping c.reading) (hrole : t.role e = r)
    (hknown : ∀ target declaring name, r = .path target declaring name →
      c.knows (.property declaring name) = true) :
    s.lowerAs n next e r c = (t.lower (n + 1) e, c.askAll ((t.visited n r).flatMap (t.consulted n))) := by
  have hone (part : Expr) : [part].flatMap (t.consulted n) = t.consulted n part := List.flatMap_singleton _ _
  have htwo (left right : Expr) :
      [left, right].flatMap (t.consulted n) = t.consulted n left ++ t.consulted n right := by simp
  rw [lower, hrole]
  subst ht
  cases r with
  | path target declaring name =>
    rw [visited, hone]
    have hlater := (c.extends_askAll ((s.withMapping c.reading).consulted n target)).knows
      (hknown target declaring name rfl)
    change extendThrough e declaring name (next target c).1 (next target c).2 = _
    rw [hnext target c, extendThrough_of_knows hlater, c.reading_askAll]
    rfl
  | entry target key =>
    have hkey : s.entryKey n key = (s.withMapping c.reading).entryKey n key := rfl
    rw [lowerAs, visited, hkey]
    dsimp only
    cases (s.withMapping c.reading).entryKey n key with
    | ok k =>
      have htarget := (hnext target).map (extendEntry e k) c
      rw [← hone] at htarget
      exact htarget
    | error cause => rfl
  | comparison op left right =>
    rw [visited, htwo]
    exact (hnext left).map₂ (hnext right) (fun l r => joined e [l, r] (.comparison op l r)) c
  | logical op left right =>
    rw [visited, htwo]
    exact (hnext left).map₂ (hnext right) (fun l r => joined e [l, r] (.logical op l r)) c
  | arithmetic op left right =>
    rw [visited, htwo]
    exact (hnext left).map₂ (hnext right) (fun l r => joined e [l, r] (.arithmetic op l r e.ty)) c
  | concat left right =>
    rw [visited, htwo]
    exact (hnext left).map₂ (hnext right) (fun l r => joined e [l, r] (.call .concat [l, r] e.ty)) c
  | not operand =>
    rw [visited, hone]
    exact (hnext operand).map (fun q => joined e [q] (.not q)) c
  | negate operand =>
    rw [visited, hone]
    exact (hnext operand).map (fun q => joined e [q] (.negate q)) c
  | conversion operand =>
    rw [visited, hone]
    exact hnext operand c
  | hasValue target declaring =>
    rw [visited, hone]
    exact (hnext target).map (fun q => joined e [q] (.comparison .notEqual q (.constant .null declaring))) c
  | function signature receiver args =>
    rw [visited, List.flatMap_append]
    have hargs := Asks.mapM hnext args
    let build (receiver : Option Query) (args : List Query) : Query :=
      joined e (receiver.toList ++ args) (called e signature receiver args)
    cases receiver with
    | none => exact (Asks.pure none).map₂ hargs build c
    | some receiver =>
      rw [Option.toList_some, hone]
      exact ((hnext receiver).map some).map₂ hargs build c
  | list elements => exact (Asks.mapM hnext elements).map (fun parts => joined e parts (.list parts e.ty)) c
  | folded =>
    have hfold : s.fold n e = (s.withMapping c.reading).fold n e := rfl
    rw [lowerAs, hfold]
    cases (s.withMapping c.reading).fold n e <;> rfl
  | constant | source | parameter | record | unsupported => rfl

/-- By induction on the levels: the role asks first, and the parts begin with the cache that it leaves. -/
theorem asks_lowerThrough (s : Scope) (n : Nat) (e : Expr) :
    Asks (s.lowerThrough n e) (fun m => (s.withMapping m).lower n e) (fun m => (s.withMapping m).consulted n e) := by
  induction n generalizing e with
  | zero => exact .pure _
  | succ n ih =>
    intro c
    change s.lowerAs n (s.lowerThrough n) e (s.roleThrough e c).1 (s.roleThrough e c).2 = _
    have hscope : s.withMapping c.reading = s.withMapping (c.askAll (asked e)).reading := by rw [c.reading_askAll]
    have hnode := lowerAs_eq (e := e) ih hscope rfl fun target declaring name hpath =>
      Cache.knows_askAll_of_mem (asked_of_role_path hpath)
    rw [← Cache.askAll_append] at hnode
    rw [s.asks_roleThrough e c]
    exact hnode

theorem fieldNamesThrough_of_knows {c : Cache} {ty : Ty} (h : c.knows (.type ty) = true) (s : Scope) (arity : Nat)
    (members : Option (List String)) :
    fieldNamesThrough ty arity members c = ((s.withMapping c.reading).fieldNames ty arity members, c) := by
  unfold fieldNamesThrough fieldNames
  dsimp only
  cases members.filter (fun names => names.length == arity) with
  | some names => rfl
  | none =>
    have hasked := (Asks.typeInfo ty).map fun info =>
      ((info.bind TypeInfo.constructor).filter fun names => names.length == arity).getD (TypeInfo.itemNames arity)
    refine (hasked.of_knows h).trans ?_
    dsimp only [withMapping]
    cases ((c.reading.typeInfo ty).bind TypeInfo.constructor).filter fun names => names.length == arity <;> rfl

theorem projectThrough_of_knows {c : Cache} {ty : Ty} (h : c.knows (.type ty) = true) (s : Scope) (body : Expr)
    (args : List Expr) (members : Option (List String)) :
    let t := s.withMapping c.reading
    s.projectThrough body ty args members c =
      (t.project body ty args members, c.askAll (args.flatMap (t.consulted s.options.maxDepth))) := by
  intro t
  have hnames := fieldNamesThrough_of_knows h s args.length members
  let build (names : List String) (values : List Query) : Query :=
    let fields := Entries.ofPairs (names.zip values)
    if values.any Query.isUnsupported then .propagated body (Entries.values fields) else .projection fields ty
  change (do
    let values ← args.mapM (s.lowerThrough s.options.maxDepth)
    return build (fieldNamesThrough ty args.length members c).1 values : StateM Cache Query)
      (fieldNamesThrough ty args.length members c).2 = _
  rw [hnames]
  exact (Asks.mapM (s.asks_lowerThrough s.options.maxDepth) args).map (build _) c

theorem asks_lowerValueThrough (s : Scope) (form : Form) (body : Expr) :
    Asks (s.lowerValueThrough form body) (fun m => (s.withMapping m).lowerValue form body)
      (fun m => (s.withMapping m).consulted (s.options.maxDepth + 1) body) := by
  have hlower := s.asks_lowerThrough (s.options.maxDepth + 1) body
  cases form with
  | predicate | value => exact hlower.map id
  | selector => exact hlower.map Query.selector
  | sequence => exact hlower.map fun q => Query.selectMany (.source s.parameter.ty) q q.ty

theorem asks_lowerBodyThrough (s : Scope) (form : Form) (body : Expr) :
    Asks (s.lowerBodyThrough form body) (fun m => (s.withMapping m).lowerBody form body)
      (fun m => (s.withMapping m).consultedBody form body) := by
  unfold lowerBodyThrough lowerBody consultedBody
  cases body.unconverted with
  | construct ty args members =>
    intro c
    have hknown := (c.asked_ask (.type ty)).knows
    have hreading := (c.asked_ask (.type ty)).reading_eq
    -- the names of the fields find the type answered
    have hproject := projectThrough_of_knows hknown s body args members
    have hvalue := s.asks_lowerValueThrough form body (c.ask (.type ty))
    change (if (Cache.typeInfo ty c).1.any TypeInfo.isProjection then s.projectThrough body ty args members
      else s.lowerValueThrough form body) (Cache.typeInfo ty c).2 = _
    rw [Asks.typeInfo ty c]
    rw [hreading] at hproject hvalue
    dsimp only
    rw [isProjection_eq_any]
    split
    · exact hproject
    · exact hvalue
  | list ty elements =>
    dsimp only
    split
    · exact s.asks_lowerValueThrough form body
    · exact (Asks.mapM (s.asks_lowerThrough s.options.maxDepth) elements).map fun parts =>
        joined body parts (.list parts ty)
  | _ => exact s.asks_lowerValueThrough form body

end Scope

/-! ## Lambdas and chains -/

theorem Compiler.asks_lowerThrough (c : Compiler) (form : Form) (expected : Option Ty) (e : Expr) :
    Asks (c.lowerThrough form expected e) (fun m => (c.withMapping m).lower form expected e)
      (fun m => (c.withMapping m).consulted form expected e) := by
  unfold lowerThrough lower consulted
  cases validated form expected e with
  | ok l => exact ((c.scope l.parameter).asks_lowerBodyThrough form l.body).map Except.ok
  | error error => exact .pure _

namespace Progress
variable {c : Compiler} {p : Progress} {step : Step} {op : QueryOp}

theorem perform_eq_advance {form : Form} (h : op.form? = some form) :
    p.perform c step op = lowerArg c p form step >>= p.advance op := by
  cases op <;> cases h <;> simp only [perform, printArg, bind_assoc] <;> rfl

/-- An operator that lowers no lambda asks nothing. -/
theorem perform_withMapping (h : ∀ form arg, op.form? = some form → step.args ≠ [arg]) (m : Mapping) :
    p.perform (c.withMapping m) step op = p.perform c step op := by
  cases hform : op.form? with
  | none =>
    cases op with
    | take | skip | first | totalCount => rfl
    | _ => cases hform
  | some form =>
    have hargs (c : Compiler) : lowerArg c p form step = .error (.invalidArgument ⟨100⟩
        (step.name ++ " expects a single lambda argument")) := by
      unfold lowerArg lambdaArg
      split
      · exact absurd ‹_› (h form _ hform)
      · rfl
    rw [perform_eq_advance hform, perform_eq_advance hform, hargs, hargs]

theorem asks_performThrough (c : Compiler) (p : Progress) (step : Step) (op : QueryOp) :
    Asks (p.performThrough c step op) (fun m => p.perform (c.withMapping m) step op) (fun m =>
      match op.form?, step.args with
      | some form, [arg] => (c.withMapping m).consulted form (some p.elementTy) arg
      | _, _ => []) := by
  have hnone (h : ∀ form arg, op.form? = some form → step.args ≠ [arg]) :
      Asks (pure (p.perform c step op)) (fun m => p.perform (c.withMapping m) step op) (fun _ => []) := by
    simp only [perform_withMapping h]
    exact .pure _
  unfold performThrough
  cases hform : op.form? with
  | none => exact hnone (by simp [hform])
  | some form =>
    rcases hargs : step.args with _ | ⟨arg, _ | ⟨other, rest⟩⟩
    · exact hnone (by simp [hargs])
    · have hperform (m : Mapping) : p.perform (c.withMapping m) step op =
          (c.withMapping m).lower form (some p.elementTy) arg >>= p.advance op := by
        rw [perform_eq_advance hform, lowerArg, lambdaArg, hargs]
        rfl
      simp only [hperform]
      exact (c.asks_lowerThrough form (some p.elementTy) arg).map (· >>= p.advance op)
    · exact hnone (by simp [hargs])

theorem asks_applyThrough (c : Compiler) (p : Progress) (position : Nat) (step : Step) :
    Asks (p.applyThrough c position step) (fun m => p.apply (c.withMapping m) position step)
      (fun m => p.consulted (c.withMapping m) position step) := by
  unfold applyThrough apply consulted
  cases p.accept position step with
  | ok op => exact asks_performThrough c p step op
  | error error => exact .pure _

/-- By induction on the steps, each of which begins with the cache that the one before it has left. -/
theorem asks_applyAllThrough (c : Compiler) (position : Nat) (p : Progress) (steps : List Step) :
    Asks (applyAllThrough c position p steps) (fun m => applyAll (c.withMapping m) position p steps)
      (fun m => consultedAll (c.withMapping m) position p steps) := by
  induction steps generalizing position p with
  | nil => exact .pure _
  | cons step rest ih =>
    intro cache
    have hstep := asks_applyThrough c p position step cache
    simp only [applyAllThrough, applyAll, consultedAll, bind, StateT.bind, hstep]
    cases p.apply (c.withMapping cache.reading) position step with
    | ok next =>
      have hrest := ih (position + 1) next (cache.askAll (p.consulted (c.withMapping cache.reading) position step))
      rw [Cache.reading_askAll] at hrest
      rw [Cache.askAll_append]
      exact hrest
    | error error =>
      rw [List.append_nil]
      rfl

end Progress

theorem Compiler.asks_parametersThrough (c : Compiler) (e : Expr) :
    Asks (c.parametersThrough e) (fun m => (c.withMapping m).parameters e)
      (fun m => (c.withMapping m).consultedChain e) := by
  unfold parametersThrough parameters consultedChain
  cases chain e with
  | ok chain =>
    exact (Progress.asks_applyAllThrough c 0 { elementTy := chain.elementTy } chain.steps).map (· >>= Progress.finish)
  | error error => exact .pure _

end ResourceQuery
