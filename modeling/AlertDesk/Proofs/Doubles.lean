import AlertDesk.Number.Double
import Mathlib.Algebra.Order.Field.Power
import Mathlib.Algebra.Order.Floor.Semifield
import Mathlib.Data.Rat.Floor
import Mathlib.Tactic.FieldSimp
import Mathlib.Tactic.GCongr
import Mathlib.Tactic.Linarith
import Mathlib.Tactic.NormNum
import Mathlib.Tactic.Positivity
import Mathlib.Tactic.Ring

/-!
How close arithmetic on doubles comes to arithmetic on fractions. Below `2 ^ 20` there always is a
result, and it is off by `2 ^ (-33)` at most.
-/
namespace AlertDesk.Double

def value (x : Double) : ℚ := x.mantissa * 2 ^ x.exponent

theorem scaled_ratio (num : Nat) {den : Nat} (hden : 0 < den) (e : Int) :
    0 < (scaled num den e).2 ∧
      ((scaled num den e).1 : ℚ) / (scaled num den e).2 = num / den / 2 ^ e := by
  have hden' : (den : ℚ) ≠ 0 := by exact_mod_cast hden.ne'
  unfold scaled
  split
  · next hneg =>
    obtain ⟨k, rfl⟩ : ∃ k : Nat, e = -k := ⟨(-e).toNat, by omega⟩
    refine ⟨hden, ?_⟩
    simp only [neg_neg, Int.toNat_natCast, zpow_neg, zpow_natCast, Nat.pow_eq]
    push_cast
    field_simp
  · next hpos =>
    obtain ⟨k, rfl⟩ : ∃ k : Nat, e = k := ⟨e.toNat, by omega⟩
    refine ⟨Nat.mul_pos hden (Nat.pow_pos (by omega)), ?_⟩
    simp only [Int.toNat_natCast, zpow_natCast, Nat.pow_eq]
    push_cast
    field_simp

theorem fraction_ratio (x : Double) :
    0 < x.fraction.2 ∧ (x.fraction.1 : ℚ) / x.fraction.2 = x.value := by
  obtain ⟨hpos, hratio⟩ := scaled_ratio x.mantissa Nat.one_pos (-x.exponent)
  refine ⟨hpos, hratio.trans ?_⟩
  rw [value, Nat.cast_one, div_one, zpow_neg, div_inv_eq_mul]

theorem floor_eq (x : Double) : x.floor = ⌊x.value⌋₊ := by
  obtain ⟨_, hratio⟩ := x.fraction_ratio
  rw [← hratio, Nat.floor_div_eq_div]
  rfl

/-! ### Rounding -/

theorem roundEven_near (num : Nat) {den : Nat} (hden : 0 < den) :
    |(roundEven num den : ℚ) - num / den| ≤ 1 / 2 := by
  have hden' : (0 : ℚ) < den := by exact_mod_cast hden
  have hdiv : (num : ℚ) = den * (num / den : Nat) + (num % den : Nat) := by
    exact_mod_cast (Nat.div_add_mod num den).symm
  have hratio : (num : ℚ) / den = (num / den : Nat) + (num % den : Nat) / den := by
    rw [div_eq_iff hden'.ne', add_mul, div_mul_cancel₀ _ hden'.ne', mul_comm, ← hdiv]
  have hlow : (0 : ℚ) ≤ (num % den : Nat) / den := by positivity
  have hless (h : 2 * (num % den) < den) : ((num % den : Nat) : ℚ) / den < 1 / 2 := by
    rw [div_lt_div_iff₀ hden' two_pos, one_mul, mul_comm]
    exact_mod_cast h
  have hmore (h : den < 2 * (num % den)) : 1 / 2 < ((num % den : Nat) : ℚ) / den := by
    rw [div_lt_div_iff₀ two_pos hden', one_mul, mul_comm]
    exact_mod_cast h
  have htop : ((num % den : Nat) : ℚ) / den < 1 := by
    rw [div_lt_one hden']
    exact_mod_cast Nat.mod_lt num hden
  have hhalf (h : 2 * (num % den) = den) : ((num % den : Nat) : ℚ) / den = 1 / 2 := by
    rw [div_eq_div_iff hden'.ne' two_ne_zero, one_mul, mul_comm]
    exact_mod_cast h
  rw [hratio, abs_le]
  unfold roundEven
  dsimp only
  split
  · next h =>
    have := hless h
    constructor <;> linarith
  · split
    · next h =>
      have := hmore h
      push_cast
      constructor <;> linarith
    · have := hhalf (by omega)
      have heven : ((num / den % 2 : Nat) : ℚ) ≤ 1 := by exact_mod_cast (by omega)
      have hnonneg : (0 : ℚ) ≤ (num / den % 2 : Nat) := Nat.cast_nonneg _
      push_cast at heven hnonneg ⊢
      constructor <;> linarith

theorem exponentOf_le {num den : Nat} (h : num < 2 ^ 20 * den) : exponentOf num den ≤ -32 := by
  have hlog : num.log2 ≤ 20 + den.log2 := by
    rcases Nat.eq_zero_or_pos num with rfl | hnum
    · simp
    · have hden : den < 2 ^ (den.log2 + 1) := Nat.lt_log2_self
      have hpow : 2 ^ (21 + den.log2) = 2 ^ 20 * 2 ^ (den.log2 + 1) := by
        rw [← Nat.pow_add]
        congr 1
        omega
      have hlt : num < 2 ^ (21 + den.log2) := by
        rw [hpow]
        exact h.trans (Nat.mul_lt_mul_of_pos_left hden (by omega))
      have := (Nat.log2_lt hnum.ne').mpr hlt
      omega
  unfold exponentOf
  simp only
  split <;> omega

theorem nearest?_near {num den : Nat} {q : ℚ} (hden : 0 < den) (hq : (num : ℚ) / den = q)
    (h : q < 2 ^ 20) : ∃ x, nearest? num den = some x ∧ |x.value - q| ≤ 1 / 2 ^ 33 := by
  unfold nearest?
  split
  · next hzero =>
    refine ⟨zero, rfl, ?_⟩
    rw [← hq, hzero, value, zero]
    norm_num
  · have hden' : (0 : ℚ) < den := by exact_mod_cast hden
    have hexponent : exponentOf num den ≤ -32 := by
      refine exponentOf_le ?_
      rw [← hq, div_lt_iff₀ hden'] at h
      exact_mod_cast h
    obtain ⟨hpos, hratio⟩ := scaled_ratio num hden (exponentOf num den)
    have hround := roundEven_near (scaled num den (exponentOf num den)).1 hpos
    dsimp only
    generalize roundEven _ _ = m at hround ⊢
    generalize exponentOf num den = e at hexponent hratio hround ⊢
    have hvalue : |(m : ℚ) * 2 ^ e - q| ≤ 1 / 2 ^ 33 := by
      have hscale : (0 : ℚ) < 2 ^ e := by positivity
      have hsmall : (2 : ℚ) ^ e ≤ 1 / 2 ^ 32 := by
        calc (2 : ℚ) ^ e ≤ 2 ^ (-32 : Int) := zpow_le_zpow_right₀ one_le_two hexponent
          _ = 1 / 2 ^ 32 := by norm_num
      have hfactor : (m : ℚ) * 2 ^ e - q = (m - q / 2 ^ e) * 2 ^ e := by
        rw [sub_mul, div_mul_cancel₀ _ hscale.ne']
      rw [hratio, hq] at hround
      rw [hfactor, abs_mul, abs_of_pos hscale]
      calc |(m : ℚ) - q / 2 ^ e| * 2 ^ e ≤ 1 / 2 * (1 / 2 ^ 32) := by gcongr
        _ = 1 / 2 ^ 33 := by norm_num
    by_cases hcarry : m = Nat.pow 2 53
    -- The mantissa is one too large, and is halved.
    · have hsome : ¬ 971 < e + 1 := by omega
      refine ⟨⟨Nat.pow 2 52, e + 1⟩, by simp only [hcarry, if_true, hsome, if_false], ?_⟩
      have hsame : value ⟨Nat.pow 2 52, e + 1⟩ = (m : ℚ) * 2 ^ e := by
        rw [hcarry, value, zpow_add_one₀ two_ne_zero]
        norm_num
        ring
      rwa [hsame]
    · have hsome : ¬ 971 < e := by omega
      exact ⟨⟨m, e⟩, by simp only [hcarry, if_false, hsome], hvalue⟩

/-! ### Arithmetic -/

theorem mul?_near (x y : Double) (h : x.value * y.value < 2 ^ 20) :
    ∃ z, x.mul? y = some z ∧ |z.value - x.value * y.value| ≤ 1 / 2 ^ 33 := by
  obtain ⟨hx, hxv⟩ := x.fraction_ratio
  obtain ⟨hy, hyv⟩ := y.fraction_ratio
  have hratio : ((x.fraction.1 * y.fraction.1 : Nat) : ℚ) / (x.fraction.2 * y.fraction.2 : Nat) =
      x.value * y.value := by
    rw [Nat.cast_mul, Nat.cast_mul, mul_div_mul_comm, hxv, hyv]
  exact nearest?_near (Nat.mul_pos hx hy) hratio h

theorem div?_near (x : Double) {y : Double} (hpos : 0 < y.value) (h : x.value / y.value < 2 ^ 20) :
    ∃ z, x.div? y = some z ∧ |z.value - x.value / y.value| ≤ 1 / 2 ^ 33 := by
  obtain ⟨hx, hxv⟩ := x.fraction_ratio
  obtain ⟨hy, hyv⟩ := y.fraction_ratio
  have hnum : 0 < y.fraction.1 := by
    refine Nat.pos_of_ne_zero fun hzero => ?_
    rw [← hyv, hzero, Nat.cast_zero, zero_div] at hpos
    exact lt_irrefl 0 hpos
  have hratio : ((x.fraction.1 * y.fraction.2 : Nat) : ℚ) / (x.fraction.2 * y.fraction.1 : Nat) =
      x.value / y.value := by
    rw [Nat.cast_mul, Nat.cast_mul, mul_div_mul_comm, hxv, ← inv_div, hyv, div_eq_mul_inv]
  exact nearest?_near (Nat.mul_pos hx hnum) hratio h

theorem add?_near (x y : Double) (h : x.value + y.value < 2 ^ 20) :
    ∃ z, x.add? y = some z ∧ |z.value - (x.value + y.value)| ≤ 1 / 2 ^ 33 := by
  obtain ⟨hx, hxv⟩ := x.fraction_ratio
  obtain ⟨hy, hyv⟩ := y.fraction_ratio
  have hx' : (x.fraction.2 : ℚ) ≠ 0 := by exact_mod_cast hx.ne'
  have hy' : (y.fraction.2 : ℚ) ≠ 0 := by exact_mod_cast hy.ne'
  have hratio : ((x.fraction.1 * y.fraction.2 + y.fraction.1 * x.fraction.2 : Nat) : ℚ) /
      (x.fraction.2 * y.fraction.2 : Nat) = x.value + y.value := by
    rw [← hxv, ← hyv, div_add_div _ _ hx' hy', mul_comm (x.fraction.2 : ℚ) y.fraction.1]
    push_cast
    rfl
  exact nearest?_near (Nat.mul_pos hx hy) hratio h

end AlertDesk.Double
