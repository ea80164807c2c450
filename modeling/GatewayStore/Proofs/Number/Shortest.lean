import GatewayStore.Number.Shortest
import GatewayStore.Proofs.Number.Rounding

/-
  The size of the shortest decimal. A candidate lies in the interval of the decimals that round to
  the number, and it has at most seventeen digits, because the power of ten over the number is known
  (`lt_pow_floorLog10`). So the shortest decimal is close to the number, unless no candidate was
  found (`shortest_cases`).
-/

namespace GatewayStore

/-! ## Decimals -/

namespace Decimal

/-- The number that a decimal stands for. -/
def value (d : Decimal) : ℚ := d.digits * 10 ^ d.scale

/-- A positive decimal of at most seventeen digits that is not above some bound. -/
structure Below (d : Decimal) (bound : ℚ) : Prop where
  pos : 0 < d.digits
  digits_le : d.digits ≤ 10 ^ 17
  value_le : d.value ≤ bound

theorem Below.mul_pow_le {d : Decimal} {k : Nat} {bound : Nat} (h : d.Below bound)
    (hk : d.scale = k) : d.digits * 10 ^ k ≤ bound := by
  have hvalue := h.value_le
  rw [value, hk, zpow_natCast] at hvalue
  exact_mod_cast hvalue

theorem digits_pos_of_value {d : Decimal} (h : 0 < d.value) : 0 < d.digits := by
  refine Nat.pos_of_ne_zero fun hzero => ?_
  rw [value, hzero, Nat.cast_zero, zero_mul] at h
  exact lt_irrefl _ h

/-- Dropping zeros keeps what a decimal is below. -/
theorem Below.trimZeros {d : Decimal} {bound : ℚ} (h : d.Below bound) (fuel : Nat) :
    (d.trimZeros fuel).Below bound := by
  induction fuel generalizing d with
  | zero => exact h
  | succ fuel ih =>
    rw [Decimal.trimZeros]
    split
    · next hc =>
      have htens : d.digits / 10 * 10 = d.digits := by omega
      have hvalue : (⟨d.digits / 10, d.scale + 1⟩ : Decimal).value = d.value := by
        unfold value
        rw [zpow_add_one₀ (by norm_num), ← htens]
        push_cast
        rw [Nat.mul_div_cancel _ (by decide)]
        ring
      exact ih ⟨by dsimp only; omega, (Nat.div_le_self _ _).trans h.digits_le, hvalue ▸ h.value_le⟩
    · exact h

end Decimal

namespace Binary64

/-! ## The power of ten over a number -/

theorem mul_pow_lt_of_lt_lift10 {fuel num den k : Nat} (h : k < lift10 fuel num den) :
    num * 10 ^ k < den := by
  induction fuel generalizing num k with
  | zero => cases h
  | succ fuel ih =>
    rw [lift10] at h
    split at h
    · cases h
    · next hlt =>
      cases k with
      | zero =>
        rw [Nat.pow_zero, Nat.mul_one]
        exact Nat.not_le.1 hlt
      | succ k =>
        have hnext := ih (Nat.lt_of_succ_lt_succ h)
        rwa [Nat.mul_assoc, ← Nat.pow_succ'] at hnext

/-- A quotient is below the power of ten after the one that `floorLog10` finds. -/
theorem lt_pow_floorLog10 {num den : Nat} (hden : 0 < den) :
    (num : ℚ) / den < 10 ^ (floorLog10 num den + 1) := by
  have hd : (0 : ℚ) < den := Nat.cast_pos.2 hden
  rw [div_lt_iff₀ hd]
  unfold floorLog10
  split
  · have hne : 0 < (digitsOf (num / den)).length := List.length_pos_iff.2 Nat.toDigits_ne_nil
    have hsucc : ((floorLog10Nat num den : ℕ) : ℤ) + 1 = ((digitsOf (num / den)).length : ℕ) := by
      unfold floorLog10Nat
      omega
    have hquotient : num / den < 10 ^ (digitsOf (num / den)).length :=
      (Nat.length_toDigits_le_iff (by omega) hne).1 (Nat.le_refl _)
    rw [hsucc, zpow_natCast]
    exact_mod_cast (Nat.div_lt_iff_lt_mul hden).1 hquotient
  · next hlt =>
    have hpos : 0 < lift10 400 num den := by
      rw [lift10, if_neg hlt]
      exact Nat.succ_pos _
    obtain ⟨k, hk⟩ : ∃ k, lift10 400 num den = k + 1 := Nat.exists_eq_succ_of_ne_zero hpos.ne'
    have hbelow := mul_pow_lt_of_lt_lift10 (show k < lift10 400 num den by omega)
    have hexp : -((k + 1 : ℕ) : ℤ) + 1 = -(k : ℤ) := by omega
    rw [hk, hexp, zpow_neg, zpow_natCast, inv_mul_eq_div, lt_div_iff₀ (by positivity)]
    exact_mod_cast hbelow

/-! ## The interval -/

/-- The comparison is the one of the numbers. -/
theorem compareScaled_eq (a : Nat) (e : ℤ) (d : Decimal) :
    compareScaled a e d = compare ((a : ℚ) * 2 ^ e) d.value := by
  -- both sides times the two denominators
  have hpos : (0 : ℚ) < 2 ^ (-e).toNat * 10 ^ (-d.scale).toNat := by positivity
  have hleft : ((a * 2 ^ e.toNat * 10 ^ (-d.scale).toNat : ℕ) : ℚ) =
      a * 2 ^ e * (2 ^ (-e).toNat * 10 ^ (-d.scale).toNat) := by
    rw [zpow_eq_div 2 e]
    push_cast
    field_simp
  have hright : ((d.digits * 10 ^ d.scale.toNat * 2 ^ (-e).toNat : ℕ) : ℚ) =
      d.value * (2 ^ (-e).toNat * 10 ^ (-d.scale).toNat) := by
    rw [Decimal.value, zpow_eq_div 10 d.scale]
    push_cast
    field_simp
  unfold compareScaled
  rcases lt_trichotomy ((a : ℚ) * 2 ^ e) d.value with h | h | h
  · rw [compare_lt_iff_lt.2 h, compare_lt_iff_lt]
    rw [← mul_lt_mul_iff_of_pos_right hpos, ← hleft, ← hright] at h
    exact Nat.cast_lt.1 h
  · rw [compare_eq_iff_eq.2 h, compare_eq_iff_eq]
    rw [h, ← hright] at hleft
    exact Nat.cast_injective hleft
  · rw [compare_gt_iff_gt.2 h, compare_gt_iff_gt]
    rw [← mul_lt_mul_iff_of_pos_right hpos, ← hleft, ← hright] at h
    exact Nat.cast_lt.1 h

/-- A decimal in an interval is between its ends. -/
theorem Interval.between_of_contains {i : Interval} {d : Decimal} (hi : i.low ≤ i.high)
    (h : i.contains d = true) :
    (i.low : ℚ) * 2 ^ i.exponent ≤ d.value ∧ d.value ≤ i.high * 2 ^ i.exponent := by
  have hends : (i.low : ℚ) * 2 ^ i.exponent ≤ i.high * 2 ^ i.exponent :=
    mul_le_mul_of_nonneg_right (Nat.cast_le.2 hi) (by positivity)
  unfold contains at h
  rw [compareScaled_eq, compareScaled_eq] at h
  split at h
  · next hlow hhigh =>
    exact ⟨(compare_lt_iff_lt.1 hlow).le, (compare_gt_iff_gt.1 hhigh).le⟩
  · next hlow =>
    have heq := compare_eq_iff_eq.1 hlow
    exact ⟨heq.le, heq.ge.trans hends⟩
  · next hhigh _ =>
    have heq := compare_eq_iff_eq.1 hhigh
    exact ⟨hends.trans heq.le, heq.ge⟩
  · cases h

/-! ## Candidates -/

theorem candidate?_eq_some {i : Interval} {num den count : Nat} {top : ℤ} {d : Decimal}
    (h : candidate? i num den top count = some d) :
    i.contains d = true ∧ d.digits ≤ num * 10 ^ (-(top - count + 1)).toNat /
      (den * 10 ^ (top - count + 1).toNat) + 1 := by
  unfold candidate? at h
  dsimp only at h
  split at h
  · next hlower hupper =>
    obtain rfl := Option.some.inj h
    split
    · exact ⟨hlower, Nat.le_succ _⟩
    · exact ⟨hupper, Nat.le_refl _⟩
  · next hlower _ =>
    obtain rfl := Option.some.inj h
    exact ⟨hlower, Nat.le_succ _⟩
  · next _ hupper =>
    obtain rfl := Option.some.inj h
    exact ⟨hupper, Nat.le_refl _⟩
  · cases h

/-- The digits of a candidate. -/
theorem digits_candidate?_le {i : Interval} {num den count : Nat} {top : ℤ} {d : Decimal}
    (hden : 0 < den) (htop : (num : ℚ) / den < 10 ^ (top + 1))
    (h : candidate? i num den top count = some d) : d.digits ≤ 10 ^ count := by
  refine (candidate?_eq_some h).2.trans (Nat.succ_le_of_lt ?_)
  generalize hs : top - count + 1 = s
  obtain rfl : top = s + count - 1 := by omega
  rw [Nat.div_lt_iff_lt_mul (by positivity)]
  have hd : (0 : ℚ) < den := Nat.cast_pos.2 hden
  have hexp : s + (count : ℤ) - 1 + 1 = s + count := by omega
  rw [hexp, zpow_add₀ (by norm_num), zpow_natCast, zpow_eq_div, div_lt_iff₀ hd, div_mul_eq_mul_div,
    div_mul_eq_mul_div, lt_div_iff₀ (by positivity)] at htop
  have hnat : num * 10 ^ (-s).toNat < 10 ^ s.toNat * 10 ^ count * den := by exact_mod_cast htop
  calc num * 10 ^ (-s).toNat < 10 ^ s.toNat * 10 ^ count * den := hnat
    _ = 10 ^ count * (den * 10 ^ s.toNat) := by ring

/-- The shortest decimal of a number that is not zero: none was found, or it is in the number's
interval. -/
theorem shortest_cases {x : Binary64} (h : 0 < x.mantissa) :
    x.shortest = ⟨0, 0⟩ ∨
      x.shortest.Below ((4 * x.mantissa + 2 : ℕ) * 2 ^ (x.exponent - 2)) := by
  unfold shortest
  dsimp only
  cases hfound : (List.range 17).findSome? fun n => candidate? x.interval x.ratio.1 x.ratio.2
      (floorLog10 x.ratio.1 x.ratio.2) (n + 1) with
  | none => exact .inl rfl
  | some d =>
    right
    obtain ⟨n, hn, hcandidate⟩ := List.exists_of_findSome?_eq_some hfound
    have hn := List.mem_range.1 hn
    have hlow : 2 ≤ x.interval.low := by
      unfold interval
      dsimp only
      split <;> omega
    have hhigh : x.interval.low ≤ x.interval.high := by
      unfold interval
      dsimp only
      omega
    obtain ⟨hge, hle⟩ := Interval.between_of_contains hhigh (candidate?_eq_some hcandidate).1
    have hlowpos : (0 : ℚ) < x.interval.low := Nat.cast_pos.2 (by omega)
    have hdigits : d.digits ≤ 10 ^ 17 :=
      (digits_candidate?_le x.ratio_snd_pos (lt_pow_floorLog10 x.ratio_snd_pos) hcandidate).trans
        (Nat.pow_le_pow_right (by decide) (by omega))
    have hbelow : d.Below ((4 * x.mantissa + 2 : ℕ) * 2 ^ (x.exponent - 2)) :=
      ⟨Decimal.digits_pos_of_value ((by positivity : (0 : ℚ) < _ ).trans_le hge), hdigits, hle⟩
    exact hbelow.trimZeros 20

end Binary64

end GatewayStore
