import ResourceQuery.Proofs.Subtrees

/-! # Folding integers

Integer expressions have a mathematical value, whatever the types of their nodes. Folding gives this
value if every operator of the tree can store its own in its declared type, and otherwise the failure
of the first operator that cannot: nothing is wrapped around, and what comes later does not count.
-/
namespace ResourceQuery

/-- Whether an integer type has the number. Nullable wrappers do not count. -/
def Ty.holds (ty : Ty) (n : Int) : Bool :=
  match ty.underlying with
  | .byte => 0 ≤ n && n ≤ 255
  | .int16 => -32768 ≤ n && n ≤ 32767
  | .int32 => -2147483648 ≤ n && n ≤ 2147483647
  | .int64 => -9223372036854775808 ≤ n && n ≤ 9223372036854775807
  | _ => false

/-- The result of an operator on whole numbers. A quotient is rounded toward zero, and a remainder
has the sign of the dividend. -/
def ArithmeticOp.exact : ArithmeticOp → Int → Int → Int
  | .add, a, b => a + b
  | .subtract, a, b => a - b
  | .multiply, a, b => a * b
  | .divide, a, b => a.tdiv b
  | .modulo, a, b => a.tmod b

def ArithmeticOp.divides : ArithmeticOp → Bool
  | .divide | .modulo => true
  | .add | .subtract | .multiply => false

/-! ## Storing a number -/

theorem inInt64_iff {n : Int} :
    inInt64 n = true ↔ -9223372036854775808 ≤ n ∧ n ≤ 9223372036854775807 := by
  rw [inInt64, Bool.and_eq_true, decide_eq_true_eq, decide_eq_true_eq]
  rfl

namespace Ty
variable {ty : Ty} {n : Int}

theorem isInteger_cases (h : ty.isInteger = true) :
    ty.underlying = .byte ∨ ty.underlying = .int16 ∨ ty.underlying = .int32 ∨ ty.underlying = .int64 := by
  unfold isInteger at h
  split at h <;> simp_all

theorem inInt64_of_holds (h : ty.holds n = true) : inInt64 n = true := by
  rw [inInt64_iff]
  unfold holds at h
  split at h
  case h_5 => cases h
  all_goals
    simp only [Bool.and_eq_true, decide_eq_true_eq] at h
    omega

theorem holds_congr {ty' : Ty} (h : ty.underlying = ty'.underlying) (n : Int) : ty.holds n = ty'.holds n := by
  rw [holds, holds, h]

end Ty

namespace Value
variable {v : Value} {ty : Ty} {n : Int}

/-- The value is this number, as one of an integer type. -/
structure Stores (v : Value) (ty : Ty) (n : Int) : Prop where
  integer : v.integer? = some n
  ty : v.ty = ty.underlying

theorem holds_of_integer? (h : v.integer? = some n) : v.ty.holds n = true := by
  cases v with
  | byte k =>
    cases h
    have hlt := k.toNat_lt
    simp only [Value.ty, Ty.holds, Ty.underlying, Bool.and_eq_true, decide_eq_true_eq]
    omega
  | int16 k =>
    cases h
    have hle := k.le_toInt
    have hlt := k.toInt_lt
    simp only [Value.ty, Ty.holds, Ty.underlying, Bool.and_eq_true, decide_eq_true_eq]
    omega
  | int32 k =>
    cases h
    have hle := k.le_toInt
    have hlt := k.toInt_lt
    simp only [Value.ty, Ty.holds, Ty.underlying, Bool.and_eq_true, decide_eq_true_eq]
    omega
  | int64 k =>
    cases h
    have hle := k.le_toInt
    have hlt := k.toInt_lt
    simp only [Value.ty, Ty.holds, Ty.underlying, Bool.and_eq_true, decide_eq_true_eq]
    omega
  | _ => cases h

theorem isNull_of_integer? (h : v.integer? = some n) : v.isNull = false := by
  cases v with
  | byte | int16 | int32 | int64 => rfl
  | _ => cases h

theorem string?_of_integer? (h : v.integer? = some n) : v.string? = none := by
  cases v with
  | byte | int16 | int32 | int64 => rfl
  | _ => cases h

theorem operand?_of_integer? (h : v.integer? = some n) : v.operand? = some (.whole n) := by
  cases v <;> cases h <;> rfl

/-- The number is stored in a type that has it, and refused in any other. -/
def StoresOrFails (operation : String) (ty : Ty) (n : Int) (r : Evaluated) : Prop :=
  (ty.holds n = true ∧ ∃ v, r = .ok v ∧ v.Stores ty n) ∨
    (ty.holds n = false ∧ r = .error (.overflow operation))

theorem stored_of_holds (operation : String) (h : ty.holds n = true) :
    ∃ v, stored operation ty n = .ok v ∧ v.Stores ty n := by
  have hwide := Ty.inInt64_of_holds h
  unfold stored ofWhole?
  rw [hwide]
  unfold Ty.holds at h
  split at h
  case h_5 => cases h
  all_goals
    rename_i hty
    simp only [Bool.and_eq_true, decide_eq_true_eq] at h
    simp only [hty, Bool.not_true, Bool.false_eq_true, ↓reduceIte]
  · have hbyte : byte? n = some (.byte (UInt8.ofNat n.toNat)) := if_pos ⟨h.1, by omega⟩
    refine ⟨.byte (UInt8.ofNat n.toNat), by rw [hbyte], ?_, hty.symm⟩
    rw [integer?, UInt8.toNat_ofNat']
    congr 1
    omega
  · have hint : int16? n = some (.int16 (Int16.ofInt n)) := if_pos h
    refine ⟨.int16 (Int16.ofInt n), by rw [hint], ?_, hty.symm⟩
    rw [integer?, Int16.toInt_ofInt_of_le (by omega) (by omega)]
  · have hint : int32? n = some (.int32 (Int32.ofInt n)) := if_pos h
    refine ⟨.int32 (Int32.ofInt n), by rw [hint], ?_, hty.symm⟩
    rw [integer?, Int32.toInt_ofInt_of_le (by omega) (by omega)]
  · refine ⟨.int64 (Int64.ofInt n), rfl, ?_, hty.symm⟩
    rw [integer?, Int64.toInt_ofInt_of_le (by omega) (by omega)]

theorem ofWhole?_of_not_holds (hty : ty.isInteger = true) (h : ty.holds n = false) :
    ofWhole? ty n = none := by
  unfold ofWhole?
  split
  · rfl
  · rename_i hwide
    unfold Ty.holds at h
    rcases Ty.isInteger_cases hty with hu | hu | hu | hu
    all_goals
      simp only [hu] at h ⊢
      simp only [Bool.not_eq_true', Bool.not_eq_false, inInt64_iff] at hwide
      simp only [Bool.and_eq_false_iff, decide_eq_false_iff_not] at h
    · exact if_neg (by omega)
    · exact if_neg (by omega)
    · exact if_neg (by omega)
    · omega

theorem stored_storesOrFails (operation : String) (hty : ty.isInteger = true) (n : Int) :
    StoresOrFails operation ty n (stored operation ty n) := by
  cases h : ty.holds n with
  | true => exact .inl ⟨h, stored_of_holds operation h⟩
  | false => exact .inr ⟨h, by rw [stored, ofWhole?_of_not_holds hty h]⟩

/-! ## One operator -/

/-- The quotient of 64-bit numbers has more bits in one case only. -/
theorem inInt64_tdiv_iff {a b : Int} (ha : inInt64 a = true) :
    inInt64 (a.tdiv b) = true ↔ ¬(a = minInt64 ∧ b = -1) := by
  have hmin : minInt64 = -9223372036854775808 := rfl
  rw [inInt64_iff] at ha ⊢
  rw [hmin]
  by_cases hminus : b = -1
  · rw [hminus, Int.tdiv_neg, Int.tdiv_one]
    omega
  by_cases hone : b = 1
  · rw [hone, Int.tdiv_one]
    omega
  -- Any other divisor at least halves the dividend, or is zero and gives zero.
  have habs : (a.tdiv b).natAbs = a.natAbs / b.natAbs := Int.natAbs_tdiv a b
  have hhalf : a.natAbs / b.natAbs ≤ a.natAbs / 2 := by
    by_cases hzero : b.natAbs = 0
    · simp [hzero]
    · exact Nat.div_le_div_left (by omega) (by omega)
  omega

theorem wholeArithmetic_of_zero {op : ArithmeticOp} (h : op.divides = true) (a : Int) :
    wholeArithmetic op ty a 0 = .error .divisionByZero := by
  cases op with
  | divide | modulo => rfl
  | add | subtract | multiply => cases h

/-- In all other cases the exact result is stored. -/
theorem wholeArithmetic_eq_stored {op : ArithmeticOp} {a b : Int} (ha : inInt64 a = true)
    (hzero : ¬(op.divides = true ∧ b = 0)) (hleast : ¬(op = .modulo ∧ a = minInt64 ∧ b = -1)) :
    wholeArithmetic op ty a b = stored op.symbol ty (op.exact a b) := by
  cases op with
  | add | subtract | multiply => rfl
  | divide =>
    have hb : b ≠ 0 := fun hb => hzero ⟨rfl, hb⟩
    exact if_neg hb
  | modulo =>
    have hb : b ≠ 0 := fun hb => hzero ⟨rfl, hb⟩
    have hquotient : inInt64 (a.tdiv b) = true := (inInt64_tdiv_iff ha).mpr fun h => hleast ⟨rfl, h⟩
    rw [wholeArithmetic, if_neg hb, if_pos hquotient]
    rfl

theorem arithmetic_of_integer? {w : Value} {m : Int} (op : ArithmeticOp) (hty : ty.isInteger = true)
    (hv : v.integer? = some n) (hw : w.integer? = some m) :
    v.arithmetic op ty w = wholeArithmetic op ty n m := by
  have htext : ty.isText = false := by
    unfold Ty.isText
    rcases Ty.isInteger_cases hty with hu | hu | hu | hu <;> rw [hu]
  have hjoins : joins op ty v = false := by simp [joins, htext, string?_of_integer? hv]
  simp [arithmetic, hjoins, isNull_of_integer? hv, isNull_of_integer? hw, operand?_of_integer? hv,
    operand?_of_integer? hw, Operands.of?]

theorem negate_of_integer? (hv : v.integer? = some n) : v.negate ty = stored "Negate" ty (-n) := by
  cases v <;> cases hv <;> rfl

/-- A value that has the type already stays as it is, and the type has its number. -/
theorem convert_storesOrFails (hty : ty.isInteger = true) (hv : v.integer? = some n) :
    StoresOrFails "Convert" ty n (v.convert ty) := by
  have hobject : ty.underlying ≠ .object := by
    rcases Ty.isInteger_cases hty with hu | hu | hu | hu <;> rw [hu] <;> nofun
  by_cases hsame : v.ty = ty.underlying
  · have hholds : ty.holds n = true := by
      rw [← holds_of_integer? hv]
      exact Ty.holds_congr (by rw [hsame, Ty.underlying_underlying]) n
    have hconvert : v.convert ty = .ok v := by simp [convert, isNull_of_integer? hv, hsame]
    exact .inl ⟨hholds, v, hconvert, hv, hsame⟩
  · have hconvert : v.convert ty = stored "Convert" ty n := by
      simp only [convert, isNull_of_integer? hv, hobject, hsame, operand?_of_integer? hv, convertOperand,
        wholePart?, Bool.false_eq_true, or_self, ↓reduceIte]
      rcases Ty.isInteger_cases hty with hu | hu | hu | hu <;> rw [hu]
    rw [hconvert]
    exact stored_storesOrFails _ hty n

end Value

/-! ## Trees of operators -/

namespace Expr

/-- An expression of integer constants and of operators with integer types. -/
inductive IsIntegral : Expr → Prop
  | constant {value : Value} {n : Int} (ty : Ty) (hn : value.integer? = some n) :
    IsIntegral (.constant value ty)
  | negate {operand : Expr} {ty : Ty} (h : IsIntegral operand) (hty : ty.isInteger = true) :
    IsIntegral (.unary .negate operand ty)
  | convert {operand : Expr} {ty : Ty} (h : IsIntegral operand) (hty : ty.isInteger = true) :
    IsIntegral (.unary .convert operand ty)
  | arithmetic {left right : Expr} {ty : Ty} (op : ArithmeticOp) (hl : IsIntegral left)
    (hr : IsIntegral right) (hty : ty.isInteger = true) :
    IsIntegral (.binary (.arithmetic op) left right ty)

/-- The mathematical value of an integer expression, which does not depend on types. -/
def exact : Expr → Int
  | .constant value _ => value.integer?.getD 0
  | .unary .negate operand _ => -operand.exact
  | .unary .convert operand _ => operand.exact
  | .binary (.arithmetic op) left right _ => op.exact left.exact right.exact
  | _ => 0

def isOperator : Expr → Bool
  | .unary .. | .binary .. => true
  | _ => false

def operation : Expr → String
  | .unary .negate .. => "Negate"
  | .unary op .. => op.symbol
  | .binary op .. => op.symbol
  | _ => ""

def dividesByZero : Expr → Bool
  | .binary (.arithmetic op) _ right _ => op.divides && right.exact == 0
  | _ => false

/-- The remainder of the least 64-bit number by minus one, which is refused for its quotient. -/
def dividesLeast : Expr → Bool
  | .binary (.arithmetic op) left right _ => op == .modulo && left.exact == minInt64 && right.exact == -1
  | _ => false

/-- Whether the node itself has a result: a number that its type has. -/
def hasResult (node : Expr) : Bool :=
  !node.isOperator || (node.ty.holds node.exact && !node.dividesByZero && !node.dividesLeast)

theorem hasResult_iff {node : Expr} : node.hasResult = true ↔ (node.isOperator = true →
    node.ty.holds node.exact = true ∧ node.dividesByZero = false ∧ node.dividesLeast = false) := by
  cases h : node.isOperator <;> simp [hasResult, h, and_assoc]

def failure (node : Expr) : EvalError :=
  if node.dividesByZero then .divisionByZero else .overflow node.operation

/-- The nodes of a tree of operators: operands come before the node, and left ones before right ones. -/
def postorder : Expr → List Expr
  | .unary op operand ty => operand.postorder ++ [.unary op operand ty]
  | .binary op left right ty => left.postorder ++ right.postorder ++ [.binary op left right ty]
  | e => [e]

def NodeOutcome (node : Expr) (r : Evaluated) : Prop :=
  (node.hasResult = true ∧ ∃ v, r = .ok v ∧ v.Stores node.ty node.exact) ∨
    (node.hasResult = false ∧ r = .error node.failure)

/-- What a tree comes to: its exact value if every node has a result, and otherwise the failure of the
first node that has none. -/
def Outcome (e : Expr) (r : Evaluated) : Prop :=
  match e.postorder.find? (!·.hasResult) with
  | none => ∃ v, r = .ok v ∧ v.integer? = some e.exact ∧ (e.isOperator = true → v.ty = e.ty.underlying)
  | some node => r = .error node.failure

section
variable {e operand left right : Expr} {ty : Ty} {v w : Value} {r r' : Evaluated}

theorem nodeOutcome_of_storesOrFails (hop : e.isOperator = true) (hzero : e.dividesByZero = false)
    (hleast : e.dividesLeast = false) (h : Value.StoresOrFails e.operation e.ty e.exact r) :
    NodeOutcome e r := by
  have hresult : e.hasResult = e.ty.holds e.exact := by simp [hasResult, hop, hzero, hleast]
  have hfailure : e.failure = .overflow e.operation := by simp [failure, hzero]
  rw [NodeOutcome, hresult, hfailure]
  exact h

theorem nodeOutcome_negate (hty : ty.isInteger = true) (hv : v.integer? = some operand.exact) :
    NodeOutcome (.unary .negate operand ty) (v.negate ty) := by
  refine nodeOutcome_of_storesOrFails rfl rfl rfl ?_
  rw [Value.negate_of_integer? hv]
  exact Value.stored_storesOrFails "Negate" hty (-operand.exact)

theorem nodeOutcome_convert (hty : ty.isInteger = true) (hv : v.integer? = some operand.exact) :
    NodeOutcome (.unary .convert operand ty) (v.convert ty) :=
  nodeOutcome_of_storesOrFails rfl rfl rfl (Value.convert_storesOrFails hty hv)

theorem nodeOutcome_arithmetic (op : ArithmeticOp) (hty : ty.isInteger = true)
    (hv : v.integer? = some left.exact) (hw : w.integer? = some right.exact) :
    NodeOutcome (.binary (.arithmetic op) left right ty) (v.arithmetic op ty w) := by
  rw [Value.arithmetic_of_integer? op hty hv hw]
  by_cases hzero : op.divides = true ∧ right.exact = 0
  · have hdivides : (binary (.arithmetic op) left right ty).dividesByZero = true := by
      simpa [dividesByZero] using hzero
    refine .inr ⟨by simp [hasResult, isOperator, hdivides], ?_⟩
    rw [hzero.2, Value.wholeArithmetic_of_zero hzero.1, failure, if_pos hdivides]
  have hdivides : (binary (.arithmetic op) left right ty).dividesByZero = false := by
    simpa [dividesByZero] using hzero
  by_cases hleast : op = .modulo ∧ left.exact = minInt64 ∧ right.exact = -1
  · obtain ⟨rfl, hl, hr⟩ := hleast
    refine .inr ⟨by simp [hasResult, isOperator, dividesLeast, hl, hr], ?_⟩
    rw [hl, hr, failure, hdivides]
    rfl
  · refine nodeOutcome_of_storesOrFails rfl hdivides (by simpa [dividesLeast, and_assoc] using hleast) ?_
    have hwide := Ty.inInt64_of_holds (Value.holds_of_integer? hv)
    rw [Value.wholeArithmetic_eq_stored hwide hzero hleast]
    exact Value.stored_storesOrFails _ hty _

theorem outcome_of_nodeOutcome {below : List Expr} (hpost : e.postorder = below ++ [e])
    (hbelow : below.find? (!·.hasResult) = none) (h : NodeOutcome e r) : Outcome e r := by
  rw [Outcome, hpost, List.find?_append, hbelow, Option.none_or]
  rcases h with ⟨hresult, v, hr, hv⟩ | ⟨hresult, hr⟩
  · rw [List.find?_singleton, hresult]
    exact ⟨v, hr, hv.integer, fun _ => hv.ty⟩
  · rw [List.find?_singleton, hresult]
    exact hr

theorem outcome_of_failure {below rest : List Expr} {node : Expr} (hpost : e.postorder = below ++ rest)
    (hbelow : below.find? (!·.hasResult) = some node) : Outcome e (.error node.failure) := by
  rw [Outcome, hpost, List.find?_append, hbelow]
  rfl

theorem Outcome.unary {op : UnaryOp} (h : Outcome operand r)
    (hnode : ∀ v : Value, v.integer? = some operand.exact → NodeOutcome (.unary op operand ty) (applyUnary op ty v)) :
    Outcome (.unary op operand ty) (r >>= applyUnary op ty) := by
  unfold Outcome at h
  split at h
  · rename_i hbelow
    obtain ⟨v, rfl, hv, -⟩ := h
    exact outcome_of_nodeOutcome rfl hbelow (hnode v hv)
  · rename_i node hbelow
    rw [h]
    exact outcome_of_failure rfl hbelow

theorem Outcome.binary {op : ArithmeticOp} (hl : Outcome left r) (hr : Outcome right r')
    (hnode : ∀ v w : Value, v.integer? = some left.exact → w.integer? = some right.exact →
      NodeOutcome (.binary (.arithmetic op) left right ty) (v.arithmetic op ty w)) :
    Outcome (.binary (.arithmetic op) left right ty)
      (r >>= fun v => r' >>= fun w => v.arithmetic op ty w) := by
  unfold Outcome at hl hr
  split at hl
  · rename_i hleft
    obtain ⟨v, rfl, hv, -⟩ := hl
    split at hr
    · rename_i hright
      obtain ⟨w, rfl, hw, -⟩ := hr
      exact outcome_of_nodeOutcome rfl (by simp [List.find?_append, hleft, hright]) (hnode v w hv hw)
    · rename_i node hright
      rw [hr]
      exact outcome_of_failure rfl (by simp [List.find?_append, hleft, hright])
  · rename_i node hleft
    rw [hl]
    exact outcome_of_failure rfl (by simp [List.find?_append, hleft])

end

/-- By induction on the expression: an operand that fails ends it, and values of all operands leave
what the node itself comes to. -/
theorem outcome_eval {e : Expr} {n : Nat} (h : e.IsIntegral) (hn : e.height < n) :
    Outcome e (eval n e) := by
  induction h generalizing n with
  | @constant value k ty hk =>
    obtain ⟨n, rfl⟩ : ∃ m, n = m + 1 := ⟨n - 1, by omega⟩
    have hexact : (constant value ty).exact = k := by simp [exact, hk]
    exact ⟨value, rfl, by rw [hexact, hk], nofun⟩
  | negate h hty ih =>
    obtain ⟨n, rfl⟩ : ∃ m, n = m + 1 := ⟨n - 1, by omega⟩
    have hbelow := ih (n := n) (by simpa [height] using hn)
    exact hbelow.unary fun v hv => nodeOutcome_negate hty hv
  | convert h hty ih =>
    obtain ⟨n, rfl⟩ : ∃ m, n = m + 1 := ⟨n - 1, by omega⟩
    have hbelow := ih (n := n) (by simpa [height] using hn)
    exact hbelow.unary fun v hv => nodeOutcome_convert hty hv
  | arithmetic op hl hr hty ihl ihr =>
    obtain ⟨n, rfl⟩ : ∃ m, n = m + 1 := ⟨n - 1, by omega⟩
    rw [height, Nat.lt_succ_iff, Nat.max_le] at hn
    have hleft := ihl (n := n) hn.1
    have hright := ihr (n := n) hn.2
    exact hleft.binary hright fun v w hv hw => nodeOutcome_arithmetic op hty hv hw

theorem IsIntegral.mem_postorder_iff {e node : Expr} (h : e.IsIntegral) :
    node ∈ e.postorder ↔ node ∈ e :: e.parts := by
  induction h with
  | constant => simp [postorder, parts]
  | negate _ _ ih | convert _ _ ih =>
    rw [postorder, parts, List.mem_append, List.mem_singleton, ih, List.mem_cons (b := unary _ _ _)]
    exact or_comm
  | arithmetic op _ _ _ ihl ihr =>
    rw [postorder, parts, List.mem_append, List.mem_append, List.mem_singleton, ihl, ihr,
      List.mem_cons (b := binary _ _ _ _), ← List.mem_append]
    exact or_comm

/-- Integers are folded exactly or not at all. Given enough levels, there is a value exactly if at
every operator the exact result is a number of the declared type, no divisor is zero and no remainder
is one of the least 64-bit number by minus one. It is then the exact value, of the type that is declared
at the root. Otherwise the first operator without a result tells the failure. -/
theorem evaluateWithin_integers {e : Expr} {maxDepth : Nat} (h : e.IsIntegral) (hdepth : e.height ≤ maxDepth) :
    ((∃ v, e.evaluateWithin maxDepth = .ok v) ↔
      e.Everywhere fun node => node.isOperator = true →
        node.ty.holds node.exact = true ∧ node.dividesByZero = false ∧ node.dividesLeast = false) ∧
    (∀ v, e.evaluateWithin maxDepth = .ok v →
      v.integer? = some e.exact ∧ (e.isOperator = true → v.ty = e.ty.underlying)) ∧
    ∀ before node after, e.postorder = before ++ node :: after → (∀ done ∈ before, done.hasResult = true) →
      node.hasResult = false →
      e.evaluateWithin maxDepth =
        .error (if node.dividesByZero then .divisionByZero else .overflow node.operation) := by
  have houtcome : Outcome e (e.evaluateWithin maxDepth) := outcome_eval h (Nat.lt_succ_of_le hdepth)
  have hall : (e.Everywhere fun node => node.isOperator = true →
      node.ty.holds node.exact = true ∧ node.dividesByZero = false ∧ node.dividesLeast = false) ↔
      e.postorder.find? (!·.hasResult) = none := by
    simp [Everywhere, List.find?_eq_none, h.mem_postorder_iff, hasResult_iff]
  rw [hall]
  unfold Outcome at houtcome
  refine ⟨?_, fun v hv => ?_, fun before node after hpost hbefore hnode => ?_⟩
  · split at houtcome
    · rename_i hnone
      obtain ⟨v, hv, -⟩ := houtcome
      exact iff_of_true ⟨v, hv⟩ hnone
    · rename_i node hsome
      rw [houtcome, hsome]
      simp
  · split at houtcome
    · obtain ⟨w, hw, hvalue⟩ := houtcome
      rw [hv] at hw
      cases hw
      exact hvalue
    · rw [hv] at houtcome
      cases houtcome
  · have hsome : e.postorder.find? (!·.hasResult) = some node := by
      rw [List.find?_eq_some_iff_append]
      exact ⟨by simp [hnode], before, after, hpost, by simpa using hbefore⟩
    rw [hsome] at houtcome
    exact houtcome

namespace Widths

/-- Three widths, one of them without a sign; the product needs a fourth. -/
def product : Expr :=
  .binary (.arithmetic .multiply) (.unary .convert (.ofValue (.byte 200)) (.nullable .int16))
    (.ofValue (.int32 (-100000000))) .int64

/-- The remainder would be zero, which a byte can hold. -/
def remainder : Expr :=
  .binary (.arithmetic .modulo) (.ofValue (.int64 Int64.minValue))
    (.unary .negate (.ofValue (.byte 1)) .int16) .byte

def quotient : Expr := .binary (.arithmetic .divide) (.ofValue (.int32 1)) (.ofValue (.int32 0)) .int32

/-- Both operands fail, and the left one tells how. -/
def sum : Expr := .binary (.arithmetic .add) remainder quotient .int32

end Widths

open Widths in
theorem evaluateWithin_integers_widths :
    (∃ v, product.evaluateWithin 2 = .ok v ∧ v.integer? = some (-20000000000) ∧ v.ty = .int64) ∧
    sum.evaluateWithin 3 = .error (.overflow "%") := by
  have hproduct : product.IsIntegral :=
    .arithmetic .multiply (.convert (.constant _ rfl) rfl) (.constant _ rfl) rfl
  have hremainder : remainder.IsIntegral :=
    .arithmetic .modulo (.constant _ rfl) (.negate (.constant _ rfl) rfl) rfl
  have hsum : sum.IsIntegral :=
    .arithmetic .add hremainder (.arithmetic .divide (.constant _ rfl) (.constant _ rfl) rfl) rfl
  have htwo : product.height ≤ 2 := by decide
  have hthree : sum.height ≤ 3 := by decide
  obtain ⟨hok, hvalue, -⟩ := evaluateWithin_integers hproduct htwo
  obtain ⟨-, -, hfails⟩ := evaluateWithin_integers hsum hthree
  obtain ⟨v, hv⟩ := hok.mpr (by decide)
  obtain ⟨hinteger, hty⟩ := hvalue v hv
  have hexact : product.exact = -20000000000 := by decide
  refine ⟨⟨v, hv, by rw [hinteger, hexact], hty rfl⟩, ?_⟩
  exact hfails [.ofValue (.int64 Int64.minValue), .ofValue (.byte 1),
    .unary .negate (.ofValue (.byte 1)) .int16] remainder _ rfl (by decide) (by decide)

end Expr
end ResourceQuery
