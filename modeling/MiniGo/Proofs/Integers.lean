import MiniGo.Proofs.Layer
/-!
Arithmetic on 64-bit integers. Sums, differences and products are the exact ones modulo `2 ^ 64`,
division truncates, comparison is that of the integers, and only a division by zero fails.
-/

namespace MiniGo

def Wraps (exact : Int) (word : Int64) : Prop :=
  ∀ other : Int64, other.toInt ≡ exact [ZMOD 2 ^ 64] ↔ other = word

theorem wraps_of_bmod {exact : Int} {word : Int64} (same : word.toInt = exact.bmod (2 ^ 64)) :
    Wraps exact word := by
  intro other
  constructor
  · intro congruent
    apply Int64.toInt_inj.mp
    calc other.toInt = other.toInt.bmod (2 ^ 64) := (Int64.toInt_bmod other).symm
      _ = (other.toInt % (2 ^ 64 : Nat)).bmod (2 ^ 64) := (Int.emod_bmod _ _).symm
      _ = (exact % (2 ^ 64 : Nat)).bmod (2 ^ 64) := congrArg (Int.bmod · _) congruent
      _ = exact.bmod (2 ^ 64) := Int.emod_bmod _ _
      _ = word.toInt := same.symm
  · rintro rfl
    show other.toInt % (2 ^ 64 : Nat) = exact % (2 ^ 64 : Nat)
    rw [same]
    exact Int.bmod_emod

namespace BinaryOp

/-- Operators whose result wraps around, with the operation on integers that each stands for. -/
def wrapping? : BinaryOp → Option (Int → Int → Int)
  | add => some (· + ·)
  | sub => some (· - ·)
  | mul => some (· * ·)
  | _ => none

/-- Operators that compare, with the comparison of integers that each stands for. -/
def comparing? : BinaryOp → Option (Int → Int → Bool)
  | eq => some fun left right => decide (left = right)
  | notEq => some fun left right => decide (left ≠ right)
  | lt => some fun left right => decide (left < right)
  | ltEq => some fun left right => decide (left ≤ right)
  | gt => some fun left right => decide (right < left)
  | gtEq => some fun left right => decide (right ≤ left)
  | _ => none

end BinaryOp

/-- A quotient that is rounded toward zero, and the remainder that goes with it. -/
structure Truncates (left right quotient rest : Int64) : Prop where
  wraps : Wraps (left.toInt.tdiv right.toInt) quotient
  exact : quotient.toInt = left.toInt.tdiv right.toInt ↔ ¬(left = Int64.minValue ∧ right = -1)
  sign : rest = 0 ∨ rest.toInt.sign = left.toInt.sign
  small : rest.toInt.natAbs < right.toInt.natAbs
  restores : ∃ product, Value.binary .mul (.int quotient) (.int right) = .ok product ∧
    Value.binary .add product (.int rest) = .ok (.int left)

theorem binary_wraps {op : BinaryOp} {exact : Int → Int → Int} (wrapping : op.wrapping? = some exact)
    (left right : Int64) : ∃ word, Value.binary op (.int left) (.int right) = .ok (.int word) ∧
      Wraps (exact left.toInt right.toInt) word := by
  cases op <;> cases wrapping
  · exact ⟨left + right, rfl, wraps_of_bmod (Int64.toInt_add left right)⟩
  · exact ⟨left - right, rfl, wraps_of_bmod (Int64.toInt_sub left right)⟩
  · exact ⟨left * right, rfl, wraps_of_bmod (Int64.toInt_mul left right)⟩

theorem binary_compares {op : BinaryOp} {holds : Int → Int → Bool}
    (comparing : op.comparing? = some holds) (left right : Int64) :
    Value.binary op (.int left) (.int right) = .ok (.bool (holds left.toInt right.toInt)) := by
  have same : (left == right) = decide (left.toInt = right.toInt) := by
    rw [Bool.eq_iff_iff, beq_iff_eq, decide_eq_true_iff, Int64.toInt_inj]
  -- Each operator gives a truth value of its own, which is the one looked for.
  have gives (truth : Bool) (isTruth : truth = holds left.toInt right.toInt)
      (computed : Value.binary op (.int left) (.int right) = .ok (.bool truth)) :
      Value.binary op (.int left) (.int right) = .ok (.bool (holds left.toInt right.toInt)) :=
    isTruth ▸ computed
  cases op <;> cases comparing
  case eq => exact gives (left == right) same rfl
  case notEq => exact gives (!(left == right)) (by simp [same]) rfl
  case lt => exact gives (left < right) (decide_eq_decide.mpr Int64.lt_iff_toInt_lt) rfl
  case ltEq => exact gives (left ≤ right) (decide_eq_decide.mpr Int64.le_iff_toInt_le) rfl
  case gt => exact gives (right < left) (decide_eq_decide.mpr Int64.lt_iff_toInt_lt) rfl
  case gtEq => exact gives (right ≤ left) (decide_eq_decide.mpr Int64.le_iff_toInt_le) rfl

theorem toInt_div_eq_iff (left right : Int64) :
    (left / right).toInt = left.toInt.tdiv right.toInt ↔ ¬(left = Int64.minValue ∧ right = -1) := by
  constructor
  · rintro same ⟨rfl, rfl⟩
    revert same
    decide
  · intro ordinary
    by_cases least : left = Int64.minValue
    · exact Int64.toInt_div_of_ne_right _ _ fun negative => ordinary ⟨least, negative⟩
    · exact Int64.toInt_div_of_ne_left _ _ least

theorem div_mul_add_mod (left right : Int64) : left / right * right + left % right = left := by
  apply Int64.toInt_inj.mp
  rw [Int64.toInt_add, Int64.toInt_mul, Int64.toInt_div, Int64.toInt_mod, Int.bmod_mul_bmod,
    Int.bmod_add_bmod, Int.tdiv_mul_add_tmod, Int64.toInt_bmod]

theorem truncates {left right : Int64} (nonzero : right ≠ 0) :
    Truncates left right (left / right) (left % right) where
  wraps := wraps_of_bmod (Int64.toInt_div left right)
  exact := toInt_div_eq_iff left right
  sign := by
    rw [Int64.toInt_mod, Int.sign_tmod]
    split
    · rename_i divides
      left
      apply Int64.toInt_inj.mp
      rw [Int64.toInt_mod, Int.tmod_eq_zero_of_dvd divides]
      rfl
    · exact .inr rfl
  small := by
    rw [Int64.toInt_mod, Int.natAbs_tmod]
    apply Nat.mod_lt
    apply Int.natAbs_pos.mpr
    exact fun zero => nonzero (Int64.toInt_inj.mp zero)
  restores := ⟨.int (left / right * right), rfl, congrArg (fun word => Except.ok (Value.int word))
    (div_mul_add_mod left right)⟩

theorem binary_divides (left : Int64) {right : Int64} (nonzero : right ≠ 0) :
    ∃ quotient rest, Value.binary .div (.int left) (.int right) = .ok (.int quotient) ∧
      Value.binary .rem (.int left) (.int right) = .ok (.int rest) ∧
      Truncates left right quotient rest := by
  refine ⟨left / right, left % right, ?_, ?_, truncates nonzero⟩
  · simp only [Value.binary, Value.int, Const.binary, Const.intOp, if_neg nonzero]
    rfl
  · simp only [Value.binary, Value.int, Const.binary, Const.intOp, if_neg nonzero]
    rfl

theorem binary_by_zero {op : BinaryOp} (divides : op = .div ∨ op = .rem) (left : Int64) :
    Value.binary op (.int left) (.int 0) = .error .divisionByZero := by
  obtain rfl | rfl := divides
  · rfl
  · rfl

theorem binary_succeeds {op : BinaryOp} (admitted : Operand.allows op .int .int = true)
    (left : Int64) {right : Int64} (safe : (op = .div ∨ op = .rem) → right ≠ 0) :
    ∃ result, Value.binary op (.int left) (.int right) = .ok result := by
  cases op
  case div =>
    obtain ⟨quotient, -, found, -⟩ := binary_divides left (safe (.inl rfl))
    exact ⟨_, found⟩
  case rem =>
    obtain ⟨-, rest, -, found, -⟩ := binary_divides left (safe (.inr rfl))
    exact ⟨_, found⟩
  case and => cases admitted
  case or => cases admitted
  all_goals exact ⟨_, rfl⟩

theorem binary_error_iff {op : BinaryOp} (admitted : Operand.allows op .int .int = true)
    (left right : Int64) (error : RuntimeError) :
    Value.binary op (.int left) (.int right) = .error error ↔
      (op = .div ∨ op = .rem) ∧ right = 0 ∧ error = .divisionByZero := by
  constructor
  · intro failed
    by_cases safe : (op = .div ∨ op = .rem) → right ≠ 0
    · obtain ⟨result, succeeded⟩ := binary_succeeds admitted left safe
      rw [succeeded] at failed
      cases failed
    · obtain ⟨divides, zero⟩ := Classical.not_imp.mp safe
      obtain rfl := not_not.mp zero
      rw [binary_by_zero divides] at failed
      cases failed
      exact ⟨divides, rfl, rfl⟩
  · rintro ⟨divides, rfl, rfl⟩
    exact binary_by_zero divides left

theorem neg_eq_sub (operand : Int64) : -operand = 0 - operand := by
  apply Int64.toInt_inj.mp
  rw [Int64.toInt_neg, Int64.toInt_sub]
  simp

/-- The operators on integers. Only a division by zero fails among those that the compiler
admits. -/
theorem integers_exact (left right : Int64) :
    (∀ op exact, BinaryOp.wrapping? op = some exact →
      ∃ word, Value.binary op (.int left) (.int right) = .ok (.int word) ∧
        Wraps (exact left.toInt right.toInt) word) ∧
    (right ≠ 0 → ∃ quotient rest,
      Value.binary .div (.int left) (.int right) = .ok (.int quotient) ∧
      Value.binary .rem (.int left) (.int right) = .ok (.int rest) ∧
      Truncates left right quotient rest) ∧
    (∀ op holds, BinaryOp.comparing? op = some holds →
      Value.binary op (.int left) (.int right) = .ok (.bool (holds left.toInt right.toInt))) ∧
    (∀ op error, Operand.allows op .int .int = true →
      (Value.binary op (.int left) (.int right) = .error error ↔
        (op = .div ∨ op = .rem) ∧ right = 0 ∧ error = .divisionByZero)) ∧
    (∃ word, Value.unary .neg (.int left) = .ok (.int word) ∧
      Value.binary .sub (.int 0) (.int left) = .ok (.int word) ∧ Wraps (-left.toInt) word) := by
  refine ⟨fun op exact wrapping => binary_wraps wrapping left right, binary_divides left,
    fun op holds comparing => binary_compares comparing left right,
    fun op error admitted => binary_error_iff admitted left right error,
    -left, rfl, ?_, wraps_of_bmod (Int64.toInt_neg left)⟩
  rw [neg_eq_sub]
  rfl

/-- The one quotient that is out of range, where the rest is still exact. -/
theorem integers_exact_minimum : (-1 : Int64) ≠ 0 ∧ ∃ quotient rest,
    Value.binary .div (.int Int64.minValue) (.int (-1)) = .ok (.int quotient) ∧
    Value.binary .rem (.int Int64.minValue) (.int (-1)) = .ok (.int rest) ∧
    Truncates Int64.minValue (-1) quotient rest :=
  ⟨by decide, (integers_exact Int64.minValue (-1)).2.1 (by decide)⟩

end MiniGo
