import Mathlib.Data.List.Forall2
import ResourceQuery.Function
import ResourceQuery.Operator
import ResourceQuery.Proofs.Token

/-! # Reading filter text

The grammar is read one token at a time with a stack of what is not yet complete: operators that
wait for their last operand, and open parentheses, brackets and calls. An operator completes
those before it that hold at least as strongly; a closing sign completes all of them.
-/
namespace ResourceQuery
open Text

/-- What a filter says, apart from the types: a run of one logical operator is a list, and a
negative number is a negated one. -/
inductive Shape
  | literal (text : String)
  | path (segments : List String)
  | comparison (op : ComparisonOp) (left right : Shape)
  | logical (op : LogicalOp) (operands : List Shape)
  | arithmetic (op : ArithmeticOp) (left right : Shape)
  | not (operand : Shape)
  | negate (operand : Shape)
  | call (function : Function) (args : List Shape)
  | list (elements : List Shape)

namespace Shape

/-- The operands of a run of the operator; any other shape is a run by itself. -/
def operands (op : LogicalOp) : Shape → List Shape
  | .logical own shapes => if own = op then shapes else [.logical own shapes]
  | shape => [shape]

def joined (op : LogicalOp) (left right : Shape) : Shape :=
  .logical op (left.operands op ++ right.operands op)

theorem joined_assoc (op : LogicalOp) (a b c : Shape) :
    joined op (joined op a b) c = joined op a (joined op b c) := by
  simp [joined, operands]

def isKeyword (w : List Char) : Bool := w ∈ ["null".toList, "true".toList, "false".toList]

def startsWithDigit (w : List Char) : Bool := w.head?.any Char.isDigit

def ofWord (w : List Char) : Shape :=
  if startsWithDigit w || isKeyword w then .literal (String.ofList w)
  else .path ((w.splitOn '.').map String.ofList)

def ofItems (function : Option Function) (items : List Shape) : Shape :=
  match function with
  | some f => .call f items
  | none => .list items

/-- A literal is read as the negation of what follows its sign. -/
def ofLiteral (text : String) : Shape :=
  match text.toList with
  | '-' :: rest => .negate (.literal (String.ofList rest))
  | _ => .literal text

end Shape

def Function.named? (name : String) : Option Function :=
  [.substringOf, .startsWith, .endsWith, .indexOf, .substring, .replace, .toLower, .toUpper, .trim,
    .concat, .length, .count, .year, .month, .day, .hour, .minute, .second, .round, .floor,
    .ceiling].find? (·.name = name)

theorem Function.named?_name (f : Function) : named? f.name = some f := by cases f <;> rfl

namespace BinaryOp

def token : BinaryOp → String
  | .comparison op => op.token
  | .logical op => op.token
  | .arithmetic op => op.token

def ofWord? (w : List Char) : Option BinaryOp :=
  [.comparison .equal, .comparison .notEqual, .comparison .less, .comparison .lessOrEqual,
    .comparison .greater, .comparison .greaterOrEqual, .logical .and, .logical .or,
    .arithmetic .add, .arithmetic .subtract, .arithmetic .multiply, .arithmetic .divide,
    .arithmetic .modulo].find? (·.token.toList = w)

theorem ofWord?_token (op : BinaryOp) : ofWord? op.token.toList = some op := by
  cases op with
  | comparison op => cases op <;> rfl
  | logical op => cases op <;> rfl
  | arithmetic op => cases op <;> rfl

def level : BinaryOp → Nat
  | .logical .or => 1
  | .logical .and => 2
  | .comparison _ => 4
  | .arithmetic .add | .arithmetic .subtract => 5
  | .arithmetic _ => 6

/-- The least level of a right operand without parentheses. A logical operator may be repeated
there, since its runs have one meaning however they are grouped. -/
def rightLevel : BinaryOp → Nat
  | .logical op => (BinaryOp.logical op).level
  | op => op.level + 1

def shape (op : BinaryOp) (left right : Shape) : Shape :=
  match op with
  | .comparison op => .comparison op left right
  | .logical op => .joined op left right
  | .arithmetic op => .arithmetic op left right

theorem level_le (op : BinaryOp) : op.level ≤ 6 := by
  cases op with
  | comparison op => simp [level]
  | logical op => cases op <;> decide
  | arithmetic op => cases op <;> decide

theorem level_le_rightLevel (op : BinaryOp) : op.level ≤ op.rightLevel := by
  cases op with
  | logical op => exact Nat.le_refl _
  | comparison op => exact Nat.le_succ _
  | arithmetic op => exact Nat.le_succ _

theorem rightLevel_le (op : BinaryOp) : op.rightLevel ≤ 7 := by
  have hle := op.level_le
  cases op with
  | logical op => exact Nat.le_succ_of_le hle
  | comparison op => exact Nat.succ_le_succ hle
  | arithmetic op => exact Nat.succ_le_succ hle

/-- Only a logical operator takes an operator of its level on the right, and then its own. -/
theorem eq_of_rightLevel_le {op other : BinaryOp} (h : other.rightLevel ≤ op.level)
    (hle : op.level ≤ other.level) : other = op ∧ ∃ l, op = .logical l := by
  cases other with
  | comparison o => simp only [rightLevel] at h; omega
  | arithmetic o => simp only [rightLevel] at h; omega
  | logical o =>
    have heq : op.level = (BinaryOp.logical o).level := Nat.le_antisymm hle h
    rcases op with op | op | op
    · cases o <;> cases heq
    · cases o <;> cases op <;> first | exact ⟨rfl, _, rfl⟩ | cases heq
    · cases o <;> cases op <;> cases heq

end BinaryOp

inductive Frame
  | group
  /-- The arguments of a call, or the elements of a list, before the one being read. -/
  | items (function : Option Function) (before : List Shape)
  | operator (op : BinaryOp) (left : Shape)
  | not
  | negate

namespace Frame

/-- How strongly an operator holds its last operand, and what it makes of it. -/
def completion? : Frame → Option (Nat × (Shape → Shape))
  | .operator op left => some (op.level, op.shape left)
  | .not => some (7, .not)
  | .negate => some (7, .negate)
  | .group | .items .. => none

/-- What a sign opens in the place of an operand. -/
def opened? (c : Char) : Option Frame :=
  if c = '(' then some .group
  else if c = '[' then some (.items none [])
  else if c = '-' then some .negate
  else none

end Frame

def closer (function : Option Function) : Char := if function.isSome then ')' else ']'

/-- Completes the operators on top of the stack that hold with at least this strength. -/
def settle (level : Nat) (shape : Shape) : List Frame → Shape × List Frame
  | [] => (shape, [])
  | f :: fs =>
    match f.completion? with
    | some (own, complete) => if level ≤ own then settle level (complete shape) fs else (shape, f :: fs)
    | none => (shape, f :: fs)

/-- A reader expects an operand, or has read one. -/
inductive Reader
  | before (stack : List Frame)
  | after (shape : Shape) (stack : List Frame)

namespace Reader

def stepBefore (stack : List Frame) : Token → Option Reader
  | .word w => some (if w = "not".toList then .before (.not :: stack) else .after (.ofWord w) stack)
  | .quoted cs => some (.after (.literal (Text.quoted (String.ofList cs))) stack)
  | .sign c =>
    match Frame.opened? c, stack with
    | some f, _ => some (.before (f :: stack))
    | none, .items function [] :: rest =>
      if c = closer function then some (.after (.ofItems function []) rest) else none
    | none, _ => none

/-- A comma or a closing sign after all operators are complete. -/
def close (c : Char) (shape : Shape) : List Frame → Option Reader
  | .group :: rest => if c = ')' then some (.after shape rest) else none
  | .items function items :: rest =>
    if c = ',' then some (.before (.items function (items ++ [shape]) :: rest))
    else if c = closer function then some (.after (.ofItems function (items ++ [shape])) rest)
    else none
  | _ => none

def stepAfter (shape : Shape) (stack : List Frame) : Token → Option Reader
  | .word w => do
    let op ← BinaryOp.ofWord? w
    let (left, rest) := settle op.level shape stack
    return .before (.operator op left :: rest)
  | .quoted cs =>
    match shape with
    | .path [mark] => some (.after (.literal (mark ++ Text.quoted (String.ofList cs))) stack)
    | _ => none
  | .sign c =>
    if c = '(' then
      match shape with
      | .path [name] => do
        let function ← Function.named? name
        return .before (.items (some function) [] :: stack)
      | _ => none
    else
      let (complete, rest) := settle 0 shape stack
      close c complete rest

def step : Reader → Token → Option Reader
  | .before stack, t => stepBefore stack t
  | .after shape stack, t => stepAfter shape stack t

def run : Reader → List Token → Option Reader
  | r, [] => some r
  | r, t :: ts => (r.step t).bind fun next => next.run ts

def result? : Reader → Option Shape
  | .after shape stack =>
    match settle 0 shape stack with
    | (complete, []) => some complete
    | _ => none
  | .before _ => none

theorem run_cons {r n : Reader} {t : Token} {ts : List Token} (h : r.step t = some n) :
    r.run (t :: ts) = n.run ts := by
  rw [run, h, Option.bind_some]

theorem run_append {r next : Reader} {ts us : List Token} (h : r.run ts = some next) :
    r.run (ts ++ us) = next.run us := by
  induction ts generalizing r with
  | nil =>
    cases h
    rfl
  | cons t ts ih =>
    obtain ⟨middle, hstep, hrun⟩ := Option.bind_eq_some_iff.mp h
    rw [List.cons_append, run_cons hstep]
    exact ih hrun

theorem step_operator {v left : Shape} {gs rest : List Frame} {op : BinaryOp}
    (h : settle op.level v gs = (left, rest)) :
    (Reader.after v gs).step (.word op.token.toList) = some (.before (.operator op left :: rest)) := by
  simp only [step, stepAfter, BinaryOp.ofWord?_token, Option.bind_eq_bind, Option.bind_some, h]
  rfl

theorem step_close {v s : Shape} {gs rest : List Frame} {c : Char} (hc : c ≠ '(')
    (h : settle 0 v gs = (s, rest)) : (Reader.after v gs).step (.sign c) = close c s rest := by
  simp only [step, stepAfter, hc, ↓reduceIte, h]

end Reader

def readShape (text : String) : Option Shape := do
  let ts ← lex text.toList
  (← (Reader.before []).run ts).result?

/-- Whether the top of the stack leaves operators of this level to the operand that comes. -/
def Admits : List Frame → Nat → Prop
  | .operator op _ :: rest, level => op.rightLevel ≤ level ∧ ∀ s, settle op.level s rest = (s, rest)
  | .not :: _, level | .negate :: _, level => 7 ≤ level
  | _, _ => True

theorem Admits.mono {fs : List Frame} {j k : Nat} (h : Admits fs j) (hjk : j ≤ k) : Admits fs k := by
  rcases fs with _ | ⟨f, fs⟩
  · trivial
  · cases f with
    | group | items => trivial
    | operator op left => exact ⟨Nat.le_trans h.1 hjk, h.2⟩
    | not | negate => exact Nat.le_trans h hjk

/-- An operator completes nothing on such a stack, or only the same operator before it. -/
theorem Admits.settle {fs : List Frame} {op : BinaryOp} (h : Admits fs op.level) :
    (∀ s, settle op.level s fs = (s, fs)) ∨
      ∃ l left rest, op = .logical l ∧ fs = .operator op left :: rest ∧
        ∀ s, ResourceQuery.settle op.level s rest = (s, rest) := by
  rcases fs with _ | ⟨f, rest⟩
  · exact .inl fun s => rfl
  · cases f with
    | group | items => exact .inl fun s => rfl
    | not => exact absurd (Nat.le_trans h op.level_le) (by decide)
    | negate => exact absurd (Nat.le_trans h op.level_le) (by decide)
    | operator other left =>
      by_cases hle : op.level ≤ other.level
      · obtain ⟨rfl, l, hl⟩ := BinaryOp.eq_of_rightLevel_le h.1 hle
        exact .inr ⟨l, left, rest, hl, rfl, h.2⟩
      · exact .inl fun s => by simp [ResourceQuery.settle, Frame.completion?, hle]

/-- The tokens are read as an operand of this shape, up to operators that anything of a lower
level completes. -/
def Yields (ts : List Token) (level : Nat) (s : Shape) : Prop :=
  ∀ fs, Admits fs level → ∃ v gs, (Reader.before fs).run ts = some (.after v gs) ∧
    ∀ p ≤ level, settle p v gs = settle p s fs

namespace Yields

theorem mono {ts : List Token} {j k : Nat} {s : Shape} (h : Yields ts k s) (hjk : j ≤ k) :
    Yields ts j s := by
  intro fs hfs
  obtain ⟨v, gs, hrun, hsettle⟩ := h fs (hfs.mono hjk)
  exact ⟨v, gs, hrun, fun p hp => hsettle p (Nat.le_trans hp hjk)⟩

theorem atom {ts : List Token} {s : Shape} (level : Nat)
    (h : ∀ fs, (Reader.before fs).run ts = some (.after s fs)) : Yields ts level s :=
  fun fs _ => ⟨s, fs, h fs, fun _ _ => rfl⟩

theorem grouped {ts : List Token} {k : Nat} {s : Shape} (level : Nat) (h : Yields ts k s) :
    Yields (.sign '(' :: (ts ++ [.sign ')'])) level s := by
  refine atom level fun fs => ?_
  obtain ⟨v, gs, hrun, hsettle⟩ := h (.group :: fs) trivial
  have hclose : settle 0 v gs = (s, .group :: fs) := hsettle 0 (Nat.zero_le k)
  rw [Reader.run_cons (n := .before (.group :: fs)) rfl, Reader.run_append hrun]
  exact Reader.run_cons (Reader.step_close (by decide) hclose)

theorem binary {ts us : List Token} {op : BinaryOp} {a b : Shape} (ha : Yields ts op.level a)
    (hb : Yields us op.rightLevel b) :
    Yields (ts ++ .word op.token.toList :: us) op.level (op.shape a b) := by
  intro fs hfs
  obtain ⟨v, gs, hrun, hsettle⟩ := ha fs hfs
  -- The operator completes the left operand, and with it a run that the operator continues.
  obtain ⟨left, rest, hleft, hrest, hshape⟩ : ∃ left rest, settle op.level a fs = (left, rest) ∧
      (∀ s, settle op.level s rest = (s, rest)) ∧
      ∀ p ≤ op.level, settle p (op.shape left b) rest = settle p (op.shape a b) fs := by
    rcases hfs.settle with hfs | ⟨l, before, rest, rfl, rfl, hrest⟩
    · exact ⟨a, fs, hfs a, hfs, fun _ _ => rfl⟩
    · refine ⟨.joined l before a, rest, ?_, hrest, fun p hp => ?_⟩
      · simpa [settle, Frame.completion?, BinaryOp.shape] using hrest _
      · simp [settle, Frame.completion?, BinaryOp.shape, hp, Shape.joined_assoc]
  obtain ⟨w, hs, hrun', hsettle'⟩ := hb (.operator op left :: rest) ⟨Nat.le_refl _, hrest⟩
  refine ⟨w, hs, ?_, fun p hp => ?_⟩
  · have hv := (hsettle op.level (Nat.le_refl _)).trans hleft
    rw [Reader.run_append hrun, Reader.run_cons (Reader.step_operator hv), hrun']
  · rw [hsettle' p (Nat.le_trans hp op.level_le_rightLevel), ← hshape p hp]
    simp [settle, Frame.completion?, hp]

theorem not {ts : List Token} {s : Shape} (h : Yields ts 7 s) :
    Yields (.word "not".toList :: ts) 7 (.not s) := by
  intro fs _
  obtain ⟨v, gs, hrun, hsettle⟩ := h (.not :: fs) (Nat.le_refl 7)
  refine ⟨v, gs, ?_, fun p hp => ?_⟩
  · rw [Reader.run_cons (n := .before (.not :: fs)) rfl, hrun]
  · rw [hsettle p hp]
    simp [settle, Frame.completion?, hp]

theorem negate {ts : List Token} {s : Shape} (h : Yields ts 7 s) :
    Yields (.sign '-' :: ts) 7 (.negate s) := by
  intro fs _
  obtain ⟨v, gs, hrun, hsettle⟩ := h (.negate :: fs) (Nat.le_refl 7)
  refine ⟨v, gs, ?_, fun p hp => ?_⟩
  · rw [Reader.run_cons (n := .before (.negate :: fs)) rfl, hrun]
  · rw [hsettle p hp]
    simp [settle, Frame.completion?, hp]

/-- One item after another, up to the closing sign. -/
theorem run_items {tss : List (List Token)} {shapes : List Shape} (function : Option Function)
    (h : List.Forall₂ (Yields · 0 ·) tss shapes) (hne : tss ≠ []) (before : List Shape)
    (fs : List Frame) :
    (Reader.before (.items function before :: fs)).run
        ([.sign ','].intercalate tss ++ [.sign (closer function)]) =
      some (.after (.ofItems function (before ++ shapes)) fs) := by
  induction h generalizing before with
  | nil => exact absurd rfl hne
  | @cons ts s tss shapes hts htss ih =>
    obtain ⟨v, gs, hrun, hsettle⟩ := hts (.items function before :: fs) trivial
    have hclose : settle 0 v gs = (s, .items function before :: fs) := hsettle 0 (Nat.le_refl 0)
    rcases htss with _ | ⟨hnext, hrest⟩
    · rw [List.intercalate_singleton, Reader.run_append hrun]
      refine Reader.run_cons ((Reader.step_close ?_ hclose).trans ?_)
      · cases function <;> simp [closer]
      · cases function <;> rfl
    · rw [List.intercalate_cons_cons, List.append_assoc, List.append_assoc,
        Reader.run_append hrun, List.singleton_append,
        Reader.run_cons ((Reader.step_close (by decide) hclose).trans rfl), ih (by simp)]
      simp

theorem items {tss : List (List Token)} {shapes : List Shape} (function : Option Function)
    (h : List.Forall₂ (Yields · 0 ·) tss shapes) (fs : List Frame) :
    (Reader.before (.items function [] :: fs)).run
        ([.sign ','].intercalate tss ++ [.sign (closer function)]) =
      some (.after (.ofItems function shapes) fs) := by
  rcases h with _ | ⟨hfirst, hrest⟩
  · cases function <;> rfl
  · exact run_items function (.cons hfirst hrest) (by simp) [] fs

theorem list {tss : List (List Token)} {shapes : List Shape} (level : Nat)
    (h : List.Forall₂ (Yields · 0 ·) tss shapes) :
    Yields (.sign '[' :: ([.sign ','].intercalate tss ++ [.sign ']'])) level (.list shapes) := by
  refine atom level fun fs => ?_
  rw [Reader.run_cons (n := .before (.items none [] :: fs)) rfl]
  exact items none h fs

theorem call {tss : List (List Token)} {shapes : List Shape} (level : Nat) (f : Function)
    (h : List.Forall₂ (Yields · 0 ·) tss shapes) :
    Yields (.word f.name.toList :: .sign '(' :: ([.sign ','].intercalate tss ++ [.sign ')'])) level
      (.call f shapes) := by
  refine atom level fun fs => ?_
  have hname : (Reader.before fs).step (.word f.name.toList) = some (.after (.path [f.name]) fs) := by
    cases f <;> rfl
  have hopen : (Reader.after (.path [f.name]) fs).step (.sign '(') =
      some (.before (.items (some f) [] :: fs)) := by
    simp [Reader.step, Reader.stepAfter, Function.named?_name]
  rw [Reader.run_cons hname, Reader.run_cons hopen]
  exact items (some f) h fs

/-- Where nothing is left to complete, the tokens are read as the shape alone. -/
theorem run_eq {ts : List Token} {level : Nat} {s : Shape} (h : Yields ts level s) :
    ((Reader.before []).run ts).bind Reader.result? = some s := by
  obtain ⟨v, gs, hrun, hsettle⟩ := h [] trivial
  have hclose : settle 0 v gs = (s, []) := hsettle 0 (Nat.zero_le level)
  simp only [hrun, Option.bind_some, Reader.result?, hclose]

end Yields
end ResourceQuery
