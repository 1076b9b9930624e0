import Mathlib.Algebra.Order.Field.Basic
import Mathlib.Data.Nat.Dist
import Mathlib.Tactic.FieldSimp
import Mathlib.Tactic.Linarith
import Mathlib.Tactic.Ring
import Syntree.Decimal.Numeral

/-!
The floating-point number nearest to a decimal.

Distances are compared in natural numbers, where `units / 2 ^ 1074` is as far from `num / den` as
`units * den` is from `num * 2 ^ 1074`. Above the exponent that is chosen all numbers are multiples
of one power of two, and so are the others that are not too small to be near.
-/

namespace Syntree.Decimal

/-! Division to the nearest integer -/

section RoundDiv

variable {a d : ℕ}

/-- What is left over decides, and the quotient where that is just one half. -/
theorem roundDiv_cases (a : ℕ) (hd : 0 < d) : ∃ q r, a = q * d + r ∧ r < d ∧
    (roundDiv a d = q ∧ (2 * r < d ∨ 2 * r = d ∧ q % 2 = 0) ∨
      roundDiv a d = q + 1 ∧ (d < 2 * r ∨ 2 * r = d ∧ q % 2 = 1)) := by
  refine ⟨a / d, a % d, (Nat.div_add_mod' a d).symm, Nat.mod_lt a hd, ?_⟩
  unfold roundDiv
  dsimp only
  split
  · next h => exact .inr ⟨rfl, h⟩
  · next h => exact .inl ⟨rfl, by omega⟩

/-- A multiple of `d` is up to the one below a number, or from the one above it. -/
theorem dist_multiple (q : ℕ) {r : ℕ} (hr : r < d) (k : ℕ) :
    (∃ j, q = k + j ∧ Nat.dist (k * d) (q * d + r) = j * d + r) ∨
      ∃ j, k = q + j + 1 ∧ Nat.dist (k * d) (q * d + r) + r = j * d + d := by
  rcases Nat.lt_or_ge q k with hlt | hge
  · obtain ⟨j, rfl⟩ := Nat.exists_eq_add_of_lt hlt
    refine .inr ⟨j, rfl, ?_⟩
    rw [Nat.dist, Nat.add_mul, Nat.add_mul]
    omega
  · obtain ⟨j, rfl⟩ := Nat.exists_eq_add_of_le hge
    refine .inl ⟨j, rfl, ?_⟩
    rw [Nat.dist, Nat.add_mul]
    omega

/-- No multiple is nearer, and one as near leaves an even quotient. -/
theorem roundDiv_nearest (hd : 0 < d) (k : ℕ) :
    Nat.dist (roundDiv a d * d) a ≤ Nat.dist (k * d) a ∧
      (k ≠ roundDiv a d → Nat.dist (k * d) a = Nat.dist (roundDiv a d * d) a →
        roundDiv a d % 2 = 0) := by
  obtain ⟨q, r, rfl, hr, hround⟩ := roundDiv_cases a hd
  have hdown : Nat.dist (q * d) (q * d + r) = r := by
    rw [Nat.dist]
    omega
  have hup : Nat.dist ((q + 1) * d) (q * d + r) = d - r := by
    rw [Nat.dist, Nat.add_mul]
    omega
  have hmul (j : ℕ) : j = 0 ∨ d ≤ j * d :=
    j.eq_zero_or_pos.imp_right (Nat.le_mul_of_pos_left d)
  obtain ⟨h, hrest⟩ | ⟨h, hrest⟩ := hround <;> rw [h]
  · rw [hdown]
    obtain ⟨j, hj, hk⟩ | ⟨j, hj, hk⟩ := dist_multiple q hr k
    · have := hmul j
      exact ⟨by omega, by omega⟩
    · exact ⟨by omega, by omega⟩
  · rw [hup]
    obtain ⟨j, hj, hk⟩ | ⟨j, hj, hk⟩ := dist_multiple q hr k
    · exact ⟨by omega, by omega⟩
    · have := hmul j
      exact ⟨by omega, by omega⟩

/-- The quotient is past `n` from the middle between `n` and the next number on, if `n` is odd. -/
theorem lt_roundDiv_iff (hd : 0 < d) {n : ℕ} (hn : n % 2 = 1) :
    n < roundDiv a d ↔ (2 * n + 1) * d ≤ 2 * a := by
  obtain ⟨q, r, rfl, hr, hround⟩ := roundDiv_cases a hd
  have hmiddle : (2 * n + 1) * d = 2 * (n * d) + d := by ring
  rcases Nat.lt_trichotomy n q with hlt | rfl | hgt
  · obtain ⟨j, rfl⟩ := Nat.exists_eq_add_of_lt hlt
    have hq : (n + j + 1) * d = n * d + j * d + d := by ring
    omega
  · omega
  · obtain ⟨j, rfl⟩ := Nat.exists_eq_add_of_lt hgt
    have hq : (q + j + 1) * d = q * d + j * d + d := by ring
    omega

theorem roundDiv_le (hd : 0 < d) {n : ℕ} (h : a ≤ n * d) : roundDiv a d ≤ n := by
  obtain ⟨q, r, rfl, hr, hround⟩ := roundDiv_cases a hd
  have hq : q ≤ n := Nat.le_of_mul_le_mul_right (Nat.le_trans (Nat.le_add_right _ r) h) hd
  rcases hq.lt_or_eq with hlt | rfl <;> omega

theorem le_roundDiv (hd : 0 < d) {n : ℕ} (h : n * d ≤ a) : n ≤ roundDiv a d := by
  obtain ⟨q, r, rfl, hr, hround⟩ := roundDiv_cases a hd
  have hq : n < q + 1 := by
    refine Nat.lt_of_mul_lt_mul_right (a := d) ?_
    rw [Nat.add_mul]
    omega
  omega

end RoundDiv

/-- The distance of two ratios, in natural numbers. -/
theorem abs_div_sub_div (u n : ℕ) {b d : ℕ} (hb : 0 < b) (hd : 0 < d) :
    |(u : ℚ) / b - n / d| = Nat.dist (u * d) (n * b) / (b * d) := by
  have hb' : (0 : ℚ) < b := Nat.cast_pos.mpr hb
  have hd' : (0 : ℚ) < d := Nat.cast_pos.mpr hd
  rw [div_sub_div _ _ hb'.ne' hd'.ne', abs_div, abs_of_pos (mul_pos hb' hd'), mul_comm (b : ℚ) n]
  congr 1
  rcases Nat.le_total (u * d) (n * b) with hle | hle
  · rw [Nat.dist_eq_sub_of_le hle, abs_of_nonpos (by rw [sub_nonpos]; exact_mod_cast hle),
      Nat.cast_sub hle]
    push_cast
    ring
  · rw [Nat.dist_eq_sub_of_le_right hle, abs_of_nonneg (by rw [sub_nonneg]; exact_mod_cast hle),
      Nat.cast_sub hle]
    push_cast
    ring

/-! The numbers of 64 bits, and which of them is nearest -/

namespace Binary64

/-- The number that is represented, in the units of the format. -/
def value (x : Binary64) : ℚ :=
  x.significand * 2 ^ x.exponent / 2 ^ 1074

/-- No finite number is nearer to `q`, and if another one is as near, the significand is even. -/
structure Nearest (q : ℚ) (x : Binary64) : Prop where
  nearest : ∀ y : Binary64, |x.value - q| ≤ |y.value - q|
  even : ∀ y : Binary64, y.value ≠ x.value → |y.value - q| = |x.value - q| →
    x.significand % 2 = 0

theorem unitsPerOne_eq : unitsPerOne = 2 ^ 1074 := by
  decide +kernel

theorem unitsPerOne_pos : 0 < unitsPerOne := by
  rw [unitsPerOne_eq]
  positivity

theorem value_eq (x : Binary64) : x.value = x.units / (unitsPerOne : ℚ) := by
  rw [value, units, unitsPerOne_eq, Nat.pow_eq, Nat.cast_mul, Nat.cast_pow, Nat.cast_pow,
    Nat.cast_two]

/-- A number is a multiple of a power of two, or too small to be near. -/
theorem multiple_or_small (y : Binary64) (e : ℕ) :
    (∃ k, y.units = k * 2 ^ e) ∨ y.units < 2 ^ 52 * 2 ^ e ∧ e ≠ 0 := by
  rcases Nat.lt_or_ge y.exponent e with hlt | hge
  · obtain ⟨j, rfl⟩ := Nat.exists_eq_add_of_lt hlt
    refine .inr ⟨?_, by omega⟩
    calc y.units = y.significand * 2 ^ y.exponent := rfl
      _ < 2 ^ 53 * 2 ^ y.exponent :=
        Nat.mul_lt_mul_of_pos_right y.significand_lt (Nat.two_pow_pos _)
      _ ≤ 2 ^ 53 * 2 ^ (y.exponent + j) :=
        Nat.mul_le_mul_left _ (Nat.pow_le_pow_right (by decide) (Nat.le_add_right _ j))
      _ = 2 ^ 52 * 2 ^ (y.exponent + j + 1) := by
        rw [← Nat.pow_add, ← Nat.pow_add]
        congr 1
        omega
  · refine .inl ⟨y.significand * 2 ^ (y.exponent - e), ?_⟩
    rw [Nat.mul_assoc, ← Nat.pow_add, Nat.sub_add_cancel hge, units, Nat.pow_eq]

/-! No two numbers are both nearest: of two neighbours one has an odd significand -/

section Neighbours

variable {x y : Binary64}

theorem value_lt_value_iff : x.value < y.value ↔ x.units < y.units := by
  rw [value_eq, value_eq, div_lt_div_iff_of_pos_right (Nat.cast_pos.mpr unitsPerOne_pos),
    Nat.cast_lt]

theorem succ_units_le (h : x.units < y.units) :
    (x.significand + 1) * 2 ^ x.exponent ≤ y.units := by
  have hx : x.units = x.significand * 2 ^ x.exponent := rfl
  obtain ⟨k, hk⟩ | ⟨hsmall, hne⟩ := y.multiple_or_small x.exponent
  · rw [hk] at h ⊢
    exact Nat.mul_le_mul_right _ (Nat.lt_of_mul_lt_mul_right (hx ▸ h))
  · have hnormal : 2 ^ 52 * 2 ^ x.exponent ≤ x.significand * 2 ^ x.exponent :=
      Nat.mul_le_mul_right _ (x.normal.resolve_left hne)
    omega

/-- Every number is represented in one way only. -/
theorem eq_of_units_eq (h : x.units = y.units) : x = y := by
  wlog hle : x.exponent ≤ y.exponent generalizing x y
  · exact (this h.symm (Nat.le_of_not_le hle)).symm
  have hx : x.units = x.significand * 2 ^ x.exponent := rfl
  have hy : y.units = y.significand * 2 ^ y.exponent := rfl
  rcases hle.lt_or_eq with hlt | heq
  · exfalso
    have hnormal := calc 2 ^ 53 * 2 ^ x.exponent = 2 ^ 52 * 2 ^ (x.exponent + 1) := by ring
      _ ≤ y.significand * 2 ^ y.exponent :=
        Nat.mul_le_mul (y.normal.resolve_left (by omega)) (Nat.pow_le_pow_right (by decide) hlt)
    have hsmall : x.significand * 2 ^ x.exponent < 2 ^ 53 * 2 ^ x.exponent :=
      Nat.mul_lt_mul_of_pos_right x.significand_lt (Nat.two_pow_pos _)
    omega
  · rw [hx, hy, heq] at h
    have hm := Nat.eq_of_mul_eq_mul_right (Nat.two_pow_pos y.exponent) h
    cases x
    cases y
    simp_all only

theorem exists_between (h : x.value < y.value) (hx : x.significand % 2 = 0)
    (hy : y.significand % 2 = 0) : ∃ z : Binary64, x.value < z.value ∧ z.value < y.value := by
  simp only [value_lt_value_iff] at h ⊢
  have hlt : x.significand + 1 < 2 ^ 53 := by
    have hm : x.significand < 2 ^ 53 := x.significand_lt
    omega
  let z : Binary64 :=
    ⟨x.significand + 1, x.exponent, hlt, x.exponent_le, x.normal.imp_right Nat.le_succ_of_le⟩
  refine ⟨z, Nat.mul_lt_mul_of_pos_right (Nat.lt_succ_self _) (Nat.two_pow_pos _), ?_⟩
  refine Nat.lt_of_le_of_ne (succ_units_le h) fun heq => ?_
  have hodd : x.significand + 1 = y.significand :=
    congrArg significand (eq_of_units_eq (x := z) heq)
  omega

/-- There is only one number nearest to `q`. -/
theorem Nearest.unique {q : ℚ} (hx : x.Nearest q) (hy : y.Nearest q) : x = y := by
  wlog hle : x.value ≤ y.value generalizing x y
  · exact (this hy hx (not_le.mp hle).le).symm
  have hdist : |y.value - q| = |x.value - q| := le_antisymm (hy.nearest x) (hx.nearest y)
  rcases hle.lt_or_eq with hlt | heq
  · exfalso
    obtain ⟨z, hxz, hzy⟩ :=
      exists_between hlt (hx.even y hlt.ne' hdist) (hy.even x hlt.ne hdist.symm)
    have hmiddle : y.value - q = q - x.value := by
      rcases abs_eq_abs.mp hdist with h | h <;> linarith
    have hx' : |x.value - q| = q - x.value := by
      rw [abs_sub_comm]
      exact abs_of_nonneg (by linarith)
    refine (hx.nearest z).not_gt ?_
    rw [hx', abs_lt]
    constructor <;> linarith
  · refine eq_of_units_eq ?_
    rw [value_eq, value_eq, div_left_inj' (Nat.cast_pos.mpr unitsPerOne_pos).ne'] at heq
    exact Nat.cast_inj.mp heq

end Neighbours

/-! The exponent that is chosen for a ratio -/

/-- The largest exponent that leaves 53 bits in front of the point, or 0. -/
def scale (a d : ℕ) : ℕ :=
  (a / d).log2 - 52

section Scale

variable {d : ℕ}

theorem lt_scale (a : ℕ) (hd : 0 < d) : a < 2 ^ 53 * (d * 2 ^ scale a d) := by
  have hlog : a / d < 2 ^ 53 * 2 ^ scale a d := by
    refine Nat.lt_of_lt_of_le Nat.lt_log2_self ?_
    rw [← Nat.pow_add]
    exact Nat.pow_le_pow_right (by decide) (by rw [scale]; omega)
  calc a < d * (a / d + 1) := Nat.lt_mul_div_succ a hd
    _ = (a / d + 1) * d := Nat.mul_comm _ _
    _ ≤ 2 ^ 53 * 2 ^ scale a d * d := Nat.mul_le_mul_right d hlog
    _ = 2 ^ 53 * (d * 2 ^ scale a d) := by ring

theorem scale_le {a : ℕ} (h : scale a d ≠ 0) : 2 ^ 52 * (d * 2 ^ scale a d) ≤ a := by
  have hlog : 52 + scale a d = (a / d).log2 := by
    rw [scale] at h ⊢
    omega
  have hne : a / d ≠ 0 := by
    intro heq
    rw [heq, Nat.log2_zero] at hlog
    omega
  calc 2 ^ 52 * (d * 2 ^ scale a d) = 2 ^ (52 + scale a d) * d := by
        rw [Nat.pow_add]
        ring
    _ ≤ a / d * d := Nat.mul_le_mul_right d (hlog ▸ Nat.log2_self_le hne)
    _ ≤ a := Nat.div_mul_le_self a d

/-- At the exponent that is chosen, no number is nearer than the rounded multiple of its power. -/
theorem scaled_nearest (a : ℕ) (hd : 0 < d) (y : Binary64) :
    Nat.dist (roundDiv a (d * 2 ^ scale a d) * 2 ^ scale a d * d) a ≤ Nat.dist (y.units * d) a ∧
      (y.units ≠ roundDiv a (d * 2 ^ scale a d) * 2 ^ scale a d →
        Nat.dist (y.units * d) a =
          Nat.dist (roundDiv a (d * 2 ^ scale a d) * 2 ^ scale a d * d) a →
        roundDiv a (d * 2 ^ scale a d) % 2 = 0) := by
  have hunit : 0 < d * 2 ^ scale a d := Nat.mul_pos hd (Nat.two_pow_pos _)
  have hassoc (n : ℕ) : n * 2 ^ scale a d * d = n * (d * 2 ^ scale a d) := by ring
  rw [hassoc]
  obtain ⟨k, hk⟩ | ⟨hsmall, hne⟩ := y.multiple_or_small (scale a d)
  · rw [hk, hassoc]
    obtain ⟨hnearest, heven⟩ := roundDiv_nearest (a := a) hunit k
    exact ⟨hnearest, fun hunits => heven (fun heq => hunits (by rw [heq]))⟩
  · -- The first number with this exponent is nearer than any that is below it.
    have hfirst := (roundDiv_nearest (a := a) hunit (2 ^ 52)).1
    have hle := scale_le hne
    have hlt := Nat.mul_lt_mul_of_pos_right hsmall hd
    rw [hassoc] at hlt
    rw [Nat.dist_eq_sub_of_le hle] at hfirst
    rw [Nat.dist_eq_sub_of_le (Nat.le_trans hlt.le hle)]
    omega

/-- The exponent or the carry is past `t + 1` from the middle between the last number of `t + 1`
and the next power of two on. -/
theorem past_scale_iff (a : ℕ) (hd : 0 < d) (t : ℕ) :
    t + 1 < scale a d ∨ scale a d = t + 1 ∧ roundDiv a (d * 2 ^ scale a d) = 2 ^ 53 ↔
      (2 ^ 54 - 1) * (d * 2 ^ t) ≤ a := by
  have hpos : 0 < d * 2 ^ t := Nat.mul_pos hd (Nat.two_pow_pos t)
  have hlt := lt_scale a hd
  have hle := scale_le (a := a) (d := d)
  rcases Nat.lt_trichotomy (scale a d) (t + 1) with hbelow | heq | habove
  · have hunit : d * 2 ^ scale a d ≤ d * 2 ^ t :=
      Nat.mul_le_mul_left d (Nat.pow_le_pow_right (by decide) (by omega))
    omega
  · -- Only the carry is left to tell, and it is made where the last number is exceeded.
    have hunit : d * 2 ^ (t + 1) = 2 * (d * 2 ^ t) := by ring
    rw [heq] at hlt ⊢
    have hround := roundDiv_le (Nat.mul_pos hd (Nat.two_pow_pos (t + 1))) hlt.le
    have hpast := lt_roundDiv_iff (a := a) (Nat.mul_pos hd (Nat.two_pow_pos (t + 1)))
      (n := 2 ^ 53 - 1) (by decide)
    omega
  · have hunit : 4 * (d * 2 ^ t) ≤ d * 2 ^ scale a d := by
      calc 4 * (d * 2 ^ t) = d * 2 ^ (t + 2) := by ring
        _ ≤ d * 2 ^ scale a d :=
          Nat.mul_le_mul_left d (Nat.pow_le_pow_right (by decide) (by omega))
    have := hle (by omega)
    omega

end Scale

/-! The number that is made of a ratio -/

/-- The number `m * 2 ^ e`, where `2 ^ 53` counts into the exponent. -/
def carried? (m e : ℕ) : Option Binary64 :=
  if m = 2 ^ 53 then ofParts? (2 ^ 52) (e + 1) else ofParts? m e

section Carried

variable {m e : ℕ} {x : Binary64}

theorem ofParts?_eq_some (h : ofParts? m e = some x) : x.significand = m ∧ x.exponent = e := by
  unfold ofParts? at h
  split at h
  · cases h
    exact ⟨rfl, rfl⟩
  · cases h

theorem ofParts?_eq_none_iff (hm : m < 2 ^ 53) (hnormal : e = 0 ∨ 2 ^ 52 ≤ m) :
    ofParts? m e = none ↔ 2045 < e := by
  unfold ofParts?
  split
  · next h => exact iff_of_false (Option.some_ne_none _) (Nat.not_lt_of_ge h.2.1)
  · next h => exact iff_of_true rfl (Nat.lt_of_not_le fun he => h ⟨hm, he, hnormal⟩)

theorem carried?_units (h : carried? m e = some x) : x.units = m * 2 ^ e := by
  unfold carried? at h
  split at h
  · next hm =>
    obtain ⟨hs, he⟩ := ofParts?_eq_some h
    rw [Binary64.units, hs, he, hm, Nat.pow_eq, Nat.pow_succ]
    ring
  · obtain ⟨hs, he⟩ := ofParts?_eq_some h
    rw [Binary64.units, hs, he, Nat.pow_eq]

theorem carried?_even (h : carried? m e = some x) (hm : m % 2 = 0) : x.significand % 2 = 0 := by
  unfold carried? at h
  split at h
  · rw [(ofParts?_eq_some h).1]
    decide
  · rw [(ofParts?_eq_some h).1, hm]

theorem carried?_eq_none_iff (hm : m ≤ 2 ^ 53) (hnormal : e ≠ 0 → 2 ^ 52 ≤ m) :
    carried? m e = none ↔ 2044 + 1 < e ∨ e = 2044 + 1 ∧ m = 2 ^ 53 := by
  unfold carried?
  split
  · next h =>
    rw [ofParts?_eq_none_iff (by decide) (.inr (Nat.le_refl _))]
    omega
  · next h =>
    rw [ofParts?_eq_none_iff (Nat.lt_of_le_of_ne hm h)
      ((Nat.eq_zero_or_pos e).imp_right (hnormal ·.ne'))]
    omega

end Carried

section Ratio

variable {num den : ℕ} {x : Binary64}

theorem ofRatio?_eq (num den : ℕ) :
    ofRatio? num den =
      let e := scale (num * unitsPerOne) den
      carried? (roundDiv (num * unitsPerOne) (den * 2 ^ e)) e :=
  rfl

/-- What is made of a ratio is the number nearest to it. -/
theorem ofRatio?_nearest (hden : 0 < den) (h : ofRatio? num den = some x) :
    x.Nearest (num / den) := by
  rw [ofRatio?_eq] at h
  have hnear (y : Binary64) := scaled_nearest (num * unitsPerOne) hden y
  rw [← carried?_units h] at hnear
  have hpos : (0 : ℚ) < unitsPerOne * den :=
    mul_pos (Nat.cast_pos.mpr unitsPerOne_pos) (Nat.cast_pos.mpr hden)
  have hdist (y : Binary64) := abs_div_sub_div y.units num unitsPerOne_pos hden
  refine ⟨fun y => ?_, fun y hne heq => ?_⟩
  · rw [value_eq, value_eq, hdist, hdist, div_le_div_iff_of_pos_right hpos]
    exact Nat.cast_le.mpr (hnear y).1
  · rw [value_eq, value_eq, hdist, hdist, div_left_inj' hpos.ne'] at heq
    have hunits : y.units ≠ x.units := fun h => hne (by rw [value_eq, value_eq, h])
    exact carried?_even h ((hnear y).2 hunits (Nat.cast_inj.mp heq))

/-- Half way between two neighbours it is the even one. -/
example : ofRatio? (2 ^ 53 + 1) 1 = ofParts? (2 ^ 52) 1075 := by
  decide +kernel

theorem middle_eq : (2 : ℚ) ^ 1024 - 2 ^ 970 = (2 ^ 54 - 1) * 2 ^ 970 := by
  rw [pow_add (2 : ℚ) 54 970, sub_one_mul]

/-- Nothing is made of a ratio from the middle between the largest number and the power of two
above it on. -/
theorem ofRatio?_eq_none_iff (num : ℕ) (hden : 0 < den) :
    ofRatio? num den = none ↔ 2 ^ 1024 - 2 ^ 970 ≤ (num / den : ℚ) := by
  have hsome : ofRatio? num den = none ↔ (2 ^ 54 - 1) * (den * 2 ^ 2044) ≤ num * unitsPerOne := by
    rw [ofRatio?_eq, ← past_scale_iff (num * unitsPerOne) hden 2044]
    have hunit (e : ℕ) : 0 < den * 2 ^ e := Nat.mul_pos hden (Nat.two_pow_pos e)
    exact carried?_eq_none_iff (roundDiv_le (hunit _) (lt_scale _ hden).le)
      fun hne => le_roundDiv (hunit _) (scale_le hne)
  have hpow : 2 ^ 2044 = 2 ^ 970 * unitsPerOne := by
    rw [unitsPerOne_eq, ← Nat.pow_add]
  have hmul (c p u : ℕ) : c * (den * (p * u)) = c * p * den * u := by ring
  have hmiddle : (2 : ℚ) ^ 1024 - 2 ^ 970 = ((2 ^ 54 - 1) * 2 ^ 970 : ℕ) := by
    rw [middle_eq, Nat.cast_mul, Nat.cast_pow 2 970, Nat.cast_two]
    norm_num only
  rw [hsome, hpow, hmul, Nat.mul_le_mul_right_iff unitsPerOne_pos, hmiddle,
    le_div_iff₀ (Nat.cast_pos.mpr hden), ← Nat.cast_mul, Nat.cast_le]

/-- The middle itself is out of range, and what is below it is not. -/
example : ofRatio? (2 ^ 1024 - 2 ^ 970) 1 = none ∧
    ofRatio? (2 ^ 1024 - 2 ^ 970 - 1) 1 = ofParts? (2 ^ 53 - 1) 2045 := by
  decide +kernel

end Ratio

end Binary64

/-! The number that digits stand for -/

open Text (isAsciiDigit)

def digitValue (c : Char) : ℕ :=
  c.toNat - '0'.toNat

/-- Digits in front of the point, of which the last one counts ones. -/
def wholeValue : List Char → ℚ
  | [] => 0
  | c :: cs => digitValue c * 10 ^ cs.length + wholeValue cs

/-- Digits behind the point, of which the first one counts tenths. -/
def fractionValue : List Char → ℚ
  | [] => 0
  | c :: cs => (digitValue c + fractionValue cs) / 10

/-- `Writes text q`: the text is digits, with a point and more digits behind them or without, and
`q` is the number that they stand for. -/
inductive Writes : List Char → ℚ → Prop
  | whole {ds : List Char} (some : ds ≠ []) (digits : ∀ c ∈ ds, isAsciiDigit c = true) :
      Writes ds (wholeValue ds)
  | fraction {ds fs : List Char} (some : ds ≠ []) (digits : ∀ c ∈ ds, isAsciiDigit c = true)
      (more : fs ≠ []) (behind : ∀ c ∈ fs, isAsciiDigit c = true) :
      Writes (ds ++ '.' :: fs) (wholeValue ds + fractionValue fs)

variable {text : List Char} {q r : ℚ} {x : Binary64}

theorem wholeValue_append (ds fs : List Char) :
    wholeValue (ds ++ fs) = wholeValue ds * 10 ^ fs.length + wholeValue fs := by
  induction ds with
  | nil => simp [wholeValue]
  | cons c ds ih =>
    rw [List.cons_append, wholeValue, wholeValue, ih, List.length_append, pow_add]
    ring

theorem readDigits_eq (ds : List Char) : (readDigits ds : ℚ) = wholeValue ds := by
  -- what has been read before counts as many places further on
  have hread (n : ℕ) : ((ds.foldl (fun n c => n * 10 + (c.toNat - 48)) n : ℕ) : ℚ) =
      n * 10 ^ ds.length + wholeValue ds := by
    induction ds generalizing n with
    | nil => simp [wholeValue]
    | cons c ds ih =>
      have hdigit : c.toNat - 48 = digitValue c := rfl
      rw [List.foldl_cons, ih, wholeValue, List.length_cons, hdigit]
      push_cast
      ring
  simpa [readDigits] using hread 0

theorem fractionValue_eq (fs : List Char) : fractionValue fs = wholeValue fs / 10 ^ fs.length := by
  induction fs with
  | nil => simp [fractionValue, wholeValue]
  | cons c fs ih =>
    rw [fractionValue, wholeValue, ih, List.length_cons, pow_succ]
    field_simp

section OfText

variable {ds fs : List Char}

/-- Digits at the start of a text are all that is taken, if no digit follows. -/
theorem split_digits (h : ∀ c ∈ ds, isAsciiDigit c = true) {u : List Char}
    (hu : ∀ c ∈ u.head?, isAsciiDigit c = false) :
    (ds ++ u).takeWhile isAsciiDigit = ds ∧ (ds ++ u).dropWhile isAsciiDigit = u := by
  rw [List.takeWhile_append_of_pos h, List.dropWhile_append_of_pos h]
  cases u with
  | nil => exact ⟨List.append_nil ds, rfl⟩
  | cons c u =>
    have hc : ¬ isAsciiDigit c = true := by simp [hu c rfl]
    rw [List.takeWhile_cons_of_neg hc, List.dropWhile_cons_of_neg hc, List.append_nil]
    exact ⟨rfl, rfl⟩

theorem unsigned_digits (hne : ds ≠ []) (h : ∀ c ∈ ds, isAsciiDigit c = true) (u : List Char) :
    unsigned (ds ++ u) = ds ++ u := by
  cases ds with
  | nil => exact absurd rfl hne
  | cons c ds =>
    refine unsigned.eq_2 _ fun rest heq => ?_
    obtain ⟨rfl, -⟩ := List.cons.inj heq
    exact absurd (h '+' List.mem_cons_self) (by decide)

theorem ofText?_whole (hne : ds ≠ []) (h : ∀ c ∈ ds, isAsciiDigit c = true) :
    Numeral.ofText? ds = some ⟨readDigits ds, 0⟩ := by
  obtain ⟨htake, hdrop⟩ := split_digits h (u := []) nofun
  have hsign := unsigned_digits hne h []
  rw [List.append_nil] at htake hdrop hsign
  simp [Numeral.ofText?, hsign, htake, hdrop, splitFraction, exponent?, hne]

theorem ofText?_fraction (hne : ds ≠ []) (h : ∀ c ∈ ds, isAsciiDigit c = true)
    (hf : ∀ c ∈ fs, isAsciiDigit c = true) :
    Numeral.ofText? (ds ++ '.' :: fs) = some ⟨readDigits (ds ++ fs), -fs.length⟩ := by
  have hpoint : ∀ c ∈ ('.' :: fs).head?, isAsciiDigit c = false := by
    rintro c hc
    rw [← Option.some.inj hc]
    decide
  obtain ⟨htake, hdrop⟩ := split_digits h hpoint
  obtain ⟨htake', hdrop'⟩ := split_digits hf (u := []) nofun
  rw [List.append_nil] at htake' hdrop'
  simp [Numeral.ofText?, unsigned_digits hne h, htake, hdrop, htake', hdrop', splitFraction,
    exponent?, hne]

/-- An exponent counts, and what is no numeral is refused. -/
example : Numeral.ofText? "1.5e-3".toList = some ⟨15, -4⟩ ∧
    Numeral.ofText? ".".toList = none ∧ Numeral.ofText? "inf".toList = none := by
  decide

end OfText

/-- The number that a numeral stands for. -/
def Numeral.value (n : Numeral) : ℚ :=
  n.digits * 10 ^ n.exponent

/-- A text that writes a number is a numeral for it. -/
theorem Writes.ofText? (h : Writes text q) : ∃ n, Numeral.ofText? text = some n ∧ n.value = q := by
  cases h with
  | whole hne digits =>
    refine ⟨_, ofText?_whole hne digits, ?_⟩
    rw [Numeral.value, readDigits_eq, zpow_zero, mul_one]
  | fraction hne digits _ behind =>
    refine ⟨_, ofText?_fraction hne digits behind, ?_⟩
    rw [Numeral.value, readDigits_eq, wholeValue_append, fractionValue_eq, zpow_neg, zpow_natCast]
    field_simp

/-- A text stands for one number. -/
theorem Writes.unique (h : Writes text q) (h' : Writes text r) : q = r := by
  obtain ⟨n, hn, rfl⟩ := h.ofText?
  obtain ⟨n', hn', rfl⟩ := h'.ofText?
  rw [Option.some.inj (hn.symm.trans hn')]

/-- The ratio that is made of a numeral. -/
theorem Numeral.exists_ratio (n : Numeral) : ∃ num den : ℕ, 0 < den ∧ num / den = n.value ∧
    n.toBinary64? = Binary64.ofRatio? num den := by
  obtain ⟨digits, exponent⟩ := n
  by_cases h : 0 ≤ -exponent
  · obtain ⟨k, rfl⟩ : ∃ k : ℕ, exponent = -k := ⟨(-exponent).toNat, by omega⟩
    refine ⟨digits, 1 * 10 ^ k, Nat.mul_pos Nat.one_pos (Nat.pow_pos (by decide)), ?_, ?_⟩
    · rw [value, zpow_neg, zpow_natCast, one_mul, Nat.cast_pow, Nat.cast_ofNat, div_eq_mul_inv]
    · rw [toBinary64?, overPower, if_pos h, neg_neg, Int.toNat_natCast, Nat.pow_eq]
  · obtain ⟨k, rfl⟩ : ∃ k : ℕ, exponent = k := ⟨exponent.toNat, by omega⟩
    refine ⟨digits * 10 ^ k, 1, Nat.one_pos, ?_, ?_⟩
    · rw [value, zpow_natCast, Nat.cast_mul, Nat.cast_pow, Nat.cast_ofNat, Nat.cast_one, div_one]
    · rw [toBinary64?, overPower, if_neg h, neg_neg, Int.toNat_natCast, Nat.pow_eq]

theorem Writes.nearest (h : Writes text q) (hx : Binary64.ofText? text = some x) :
    x.Nearest q := by
  obtain ⟨n, hn, rfl⟩ := h.ofText?
  obtain ⟨num, den, hden, hvalue, hratio⟩ := n.exists_ratio
  rw [Binary64.ofText?, hn, Option.bind_some, hratio] at hx
  rw [← hvalue]
  exact Binary64.ofRatio?_nearest hden hx

theorem Writes.past_iff (h : Writes text q) :
    Binary64.ofText? text = none ↔ 2 ^ 1024 - 2 ^ 970 ≤ q := by
  obtain ⟨n, hn, rfl⟩ := h.ofText?
  obtain ⟨num, den, hden, hvalue, hratio⟩ := n.exists_ratio
  rw [Binary64.ofText?, hn, Option.bind_some, hratio, ← hvalue]
  exact Binary64.ofRatio?_eq_none_iff num hden

end Syntree.Decimal
