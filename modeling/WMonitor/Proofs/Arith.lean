import WMonitor.Report

/-!
# Exact arithmetic

What the operations of `exactArith` do to finite values.
-/

namespace WMonitor

@[simp]
theorem exact_lit (q : ℚ) : exactArith.lit q = .fin q := rfl

@[simp]
theorem exact_ofInt (n : ℤ) : exactArith.ofInt n = .fin n := rfl

@[simp]
theorem exact_add (a b : ℚ) : exactArith.add (.fin a) (.fin b) = .fin (a + b) := rfl

@[simp]
theorem exact_sub (a b : ℚ) : exactArith.sub (.fin a) (.fin b) = .fin (a - b) := rfl

@[simp]
theorem exact_mul (a b : ℚ) : exactArith.mul (.fin a) (.fin b) = .fin (a * b) := rfl

theorem exact_div {a b : ℚ} (hb : b ≠ 0) : exactArith.div (.fin a) (.fin b) = .fin (a / b) := by
  have hne : F64.fin b ≠ .fin 0 := fun h => hb (F64.fin.inj h)
  simp only [exactArith, exactArith.lift, if_neg hne]

@[simp]
theorem fin_lt_fin {a b : ℚ} : (F64.fin a).lt (.fin b) = true ↔ a < b := decide_eq_true_iff

/-- A duration in seconds. -/
theorem seconds_exact (d : ℤ) : exactArith.seconds d = .fin (d / 10 ^ 9) := by
  have hd : (d : ℚ) = d.tdiv second * 10 ^ 9 + d.tmod second := by
    have := Int.tmod_add_mul_tdiv d second
    have hs : (second : ℚ) = 10 ^ 9 := by norm_num [second]
    rw [← hs]
    exact_mod_cast (by linarith : d = d.tdiv second * second + d.tmod second)
  rw [Arith.seconds, exact_ofInt, exact_ofInt, exact_lit, exact_div (by norm_num), exact_add, hd]
  congr 1
  field_simp

end WMonitor
