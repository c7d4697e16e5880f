import Mathlib

/-! Rounding to binary floating point: the nearest number with so many significant bits, ties to even. -/

namespace Rounding

def nearestEven (q : ℚ) : ℤ :=
  let below := ⌊q⌋
  let rest := q - below
  if rest < 1 / 2 then below
  else if 1 / 2 < rest then below + 1
  else if below % 2 = 0 then below
  else below + 1

theorem nearestEven_cases (q : ℚ) : nearestEven q = ⌊q⌋ ∧ q - ⌊q⌋ ≤ 1 / 2 ∨ nearestEven q = ⌊q⌋ + 1 ∧ 1 / 2 ≤ q - ⌊q⌋ := by
  dsimp only [nearestEven]
  split
  · rename_i h
    exact .inl ⟨rfl, h.le⟩
  · rename_i h
    split
    · rename_i h'
      exact .inr ⟨rfl, h'.le⟩
    · rename_i h'
      split
      · exact .inl ⟨rfl, not_lt.mp h'⟩
      · exact .inr ⟨rfl, not_lt.mp h⟩

theorem nearestEven_le {q : ℚ} {n : ℤ} (h : q ≤ n) : nearestEven q ≤ n := by
  rcases nearestEven_cases q with ⟨heq, -⟩ | ⟨heq, hhalf⟩
  · rw [heq]
    exact_mod_cast (Int.floor_le q).trans h
  · rw [heq, Int.add_one_le_iff, Int.floor_lt]
    rcases h.lt_or_eq with hlt | rfl
    · exact hlt
    · norm_num at hhalf

theorem le_nearestEven {q : ℚ} {n : ℤ} (h : (n : ℚ) ≤ q) : n ≤ nearestEven q := by
  have hfloor : n ≤ ⌊q⌋ := Int.le_floor.mpr h
  rcases nearestEven_cases q with ⟨heq, -⟩ | ⟨heq, -⟩
  · rw [heq]
    exact hfloor
  · rw [heq]
    exact hfloor.trans (Int.le_add_one le_rfl)

theorem nearestEven_mono : Monotone nearestEven := by
  intro p q h
  rcases (Int.floor_le_floor h).lt_or_eq with hlt | heq
  · -- an integer lies between the two
    have hp : nearestEven p ≤ ⌊q⌋ := nearestEven_le ((Int.floor_lt.mp hlt).le)
    exact hp.trans (le_nearestEven (Int.floor_le q))
  · dsimp only [nearestEven]
    rw [heq]
    split_ifs <;> first | omega | linarith

/-- The exponent of the last of `bits` significant bits; numbers below the normal range keep the least one. -/
def exponent (bits : ℕ) (least : ℤ) (q : ℚ) : ℤ := max (Int.log 2 |q| - (bits - 1)) least

def toBits (bits : ℕ) (least : ℤ) (q : ℚ) : ℚ :=
  nearestEven (q / 2 ^ exponent bits least q) * 2 ^ exponent bits least q

variable {bits : ℕ} {least k : ℤ} {p q : ℚ}

theorem exponent_mono (hp : p ≠ 0) (h : |p| ≤ |q|) : exponent bits least p ≤ exponent bits least q := by
  have hlog := Int.log_mono_right (b := 2) (abs_pos.mpr hp) h
  exact max_le_max (by omega) le_rfl

theorem two_zpow_eq {e : ℤ} (h : e ≤ k) : (2 : ℚ) ^ k = ((2 ^ (k - e).toNat : ℤ) : ℚ) * 2 ^ e := by
  push_cast
  rw [← zpow_natCast, ← zpow_add₀ (by norm_num), Int.toNat_of_nonneg (by omega), sub_add_cancel]

theorem toBits_le (c : ℤ) (hk : exponent bits least q ≤ k) (h : q ≤ c * 2 ^ k) : toBits bits least q ≤ c * 2 ^ k := by
  have hpos : (0 : ℚ) < 2 ^ exponent bits least q := zpow_pos (by norm_num) _
  have hk' := two_zpow_eq hk
  have hle : q / 2 ^ exponent bits least q ≤ ((c * 2 ^ (k - exponent bits least q).toNat : ℤ) : ℚ) := by
    rw [div_le_iff₀ hpos, Int.cast_mul, mul_assoc, ← hk']
    exact h
  have hround : ((nearestEven (q / 2 ^ exponent bits least q) : ℤ) : ℚ) ≤
      ((c * 2 ^ (k - exponent bits least q).toNat : ℤ) : ℚ) := Int.cast_le.mpr (nearestEven_le hle)
  rw [toBits, hk', ← mul_assoc, ← Int.cast_mul]
  exact mul_le_mul_of_nonneg_right hround hpos.le

theorem le_toBits (c : ℤ) (hk : exponent bits least q ≤ k) (h : c * 2 ^ k ≤ q) : c * 2 ^ k ≤ toBits bits least q := by
  have hpos : (0 : ℚ) < 2 ^ exponent bits least q := zpow_pos (by norm_num) _
  have hk' := two_zpow_eq hk
  have hle : ((c * 2 ^ (k - exponent bits least q).toNat : ℤ) : ℚ) ≤ q / 2 ^ exponent bits least q := by
    rw [le_div_iff₀ hpos, Int.cast_mul, mul_assoc, ← hk']
    exact h
  have hround : ((c * 2 ^ (k - exponent bits least q).toNat : ℤ) : ℚ) ≤
      ((nearestEven (q / 2 ^ exponent bits least q) : ℤ) : ℚ) := Int.cast_le.mpr (le_nearestEven hle)
  rw [toBits, hk', ← mul_assoc, ← Int.cast_mul]
  exact mul_le_mul_of_nonneg_right hround hpos.le

/-- Where the larger of two magnitudes has the larger exponent, its leading power of two lies between them. -/
theorem lead_between (hbits : 0 < bits) (h : exponent bits least p < exponent bits least q) :
    exponent bits least p ≤ Int.log 2 |q| ∧ exponent bits least q ≤ Int.log 2 |q| ∧ |p| ≤ 2 ^ Int.log 2 |q| := by
  have hlog : exponent bits least q = Int.log 2 |q| - (bits - 1) :=
    (max_choice _ _).resolve_right fun heq => absurd (le_max_right (Int.log 2 |p| - (bits - 1)) least)
      (not_le.mpr (lt_of_lt_of_eq h heq))
  have hless : Int.log 2 |p| + 1 ≤ Int.log 2 |q| := by
    have hlow := le_max_left (Int.log 2 |p| - (bits - 1)) least
    have hlt := lt_of_le_of_lt hlow h
    omega
  refine ⟨by omega, by omega, ?_⟩
  have hp' : |p| < 2 ^ (Int.log 2 |p| + 1) := by exact_mod_cast Int.lt_zpow_succ_log_self (b := 2) (by decide) |p|
  exact hp'.le.trans (zpow_le_zpow_right₀ (by norm_num) hless)

theorem toBits_nonpos (h : q ≤ 0) : toBits bits least q ≤ 0 := by
  have hzero := toBits_le 0 (le_refl (exponent bits least q)) (by simpa using h)
  simpa using hzero

theorem toBits_nonneg (h : 0 ≤ q) : 0 ≤ toBits bits least q := by
  have hzero := le_toBits 0 (le_refl (exponent bits least q)) (by simpa using h)
  simpa using hzero

theorem toBits_mono (hbits : 0 < bits) : Monotone (toBits bits least) := by
  intro p q h
  rcases lt_trichotomy (exponent bits least p) (exponent bits least q) with hlt | heq | hgt
  · rcases le_or_gt p 0 with hp | hp
    · rcases le_or_gt 0 q with hq | hq
      · exact (toBits_nonpos hp).trans (toBits_nonneg hq)
      · have habs : |q| ≤ |p| := by
          rw [abs_of_neg hq, abs_of_nonpos hp]
          exact neg_le_neg h
        exact absurd (exponent_mono hq.ne habs) (not_le.mpr hlt)
    · obtain ⟨hlow, hhigh, hlead⟩ := lead_between hbits hlt
      have hq : 0 < q := hp.trans_le h
      rw [abs_of_pos hp] at hlead
      have hlead' : (2 : ℚ) ^ Int.log 2 |q| ≤ q := by
        have hself := Int.zpow_log_le_self (b := 2) (by decide) (abs_pos.mpr hq.ne')
        rw [abs_of_pos hq] at hself ⊢
        exact_mod_cast hself
      exact (toBits_le 1 hlow (by simpa using hlead)).trans (le_toBits 1 hhigh (by simpa using hlead'))
  · rw [toBits, toBits, heq]
    have hpos : (0 : ℚ) < 2 ^ exponent bits least q := zpow_pos (by norm_num) _
    exact mul_le_mul_of_nonneg_right (Int.cast_le.mpr (nearestEven_mono (div_le_div_of_nonneg_right h hpos.le))) hpos.le
  · rcases le_or_gt 0 q with hq | hq
    · rcases le_or_gt p 0 with hp | hp
      · exact (toBits_nonpos hp).trans (toBits_nonneg hq)
      · have habs : |p| ≤ |q| := by
          rw [abs_of_pos hp, abs_of_pos (hp.trans_le h)]
          exact h
        exact absurd (exponent_mono hp.ne' habs) (not_le.mpr hgt)
    · obtain ⟨hlow, hhigh, hlead⟩ := lead_between hbits hgt
      have hp : p < 0 := h.trans_lt hq
      rw [abs_of_neg hq] at hlead
      have hlead' : (2 : ℚ) ^ Int.log 2 |p| ≤ -p := by
        have hself := Int.zpow_log_le_self (b := 2) (by decide) (abs_pos.mpr hp.ne)
        rw [abs_of_neg hp] at hself ⊢
        exact_mod_cast hself
      refine (toBits_le (-1) hhigh ?_).trans (le_toBits (-1) hlow ?_)
      · push_cast
        linarith
      · push_cast
        linarith

end Rounding
