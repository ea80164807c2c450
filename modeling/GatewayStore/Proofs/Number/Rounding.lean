import GatewayStore.Json.Token
import Mathlib.Algebra.Order.Field.Power
import Mathlib.Data.Rat.Cast.Order
import Mathlib.Tactic.FieldSimp
import Mathlib.Tactic.Linarith
import Mathlib.Tactic.NormNum
import Mathlib.Tactic.Positivity
import Mathlib.Tactic.Ring

/-
  How far rounding goes. `limit` is the least number that rounds to infinity: a quotient below it
  stays finite (`isFinite_ofRatio`), and everything that rounding gives is finite or infinite
  (`isFinite_or_isInfinite_ofRatio`). A whole number grows by at most half a unit of its last place
  (`magnitude_ofNat_le`).
-/

namespace GatewayStore.Binary64

/-! ## Fields -/

theorem toNat_bits_ofFields {negative : Bool} {f m : Nat} (hf : f < 2 ^ 11) (hm : m < 2 ^ 52) :
    (ofFields negative f m).bits.toNat = (if negative then 2 ^ 63 else 0) + f * 2 ^ 52 + m := by
  unfold ofFields
  dsimp only
  rw [UInt64.toNat_ofNat', Nat.mod_eq_of_lt]
  split <;> omega

theorem field_ofFields {negative : Bool} {f m : Nat} (hf : f < 2 ^ 11) (hm : m < 2 ^ 52) :
    (ofFields negative f m).field = f := by
  unfold field
  rw [toNat_bits_ofFields hf hm]
  split <;> omega

theorem fraction_ofFields {negative : Bool} {f m : Nat} (hf : f < 2 ^ 11) (hm : m < 2 ^ 52) :
    (ofFields negative f m).fraction = m := by
  unfold fraction
  rw [toNat_bits_ofFields hf hm]
  split <;> omega

theorem field_lt (x : Binary64) : x.field < 2 ^ 11 := Nat.mod_lt _ (by decide)

theorem fraction_lt (x : Binary64) : x.fraction < 2 ^ 52 := Nat.mod_lt _ (by decide)

theorem isFinite_ofFields {negative : Bool} {f m : Nat} (hf : f < 2047) (hm : m < 2 ^ 52) :
    (ofFields negative f m).isFinite = true := by
  unfold isFinite
  rw [field_ofFields (by omega) hm]
  exact decide_eq_true hf

theorem isFinite_negate (x : Binary64) : x.negate.isFinite = x.isFinite := by
  unfold isFinite negate
  rw [field_ofFields x.field_lt x.fraction_lt]

theorem mantissa_lt (x : Binary64) : x.mantissa < 2 ^ 53 := by
  have := x.fraction_lt
  unfold mantissa
  split <;> omega

/-! ## Values -/

/-- The size of a finite number. -/
def magnitude (x : Binary64) : ℚ := x.mantissa * 2 ^ x.exponent

theorem magnitude_nonneg (x : Binary64) : 0 ≤ x.magnitude := by
  unfold magnitude
  positivity

/-- A power by its two natural parts. -/
theorem zpow_eq_div (b : ℚ) (e : ℤ) : b ^ e = b ^ e.toNat / b ^ (-e).toNat := by
  rcases le_total 0 e with h | h
  · obtain ⟨n, rfl⟩ := Int.eq_ofNat_of_zero_le h
    simp
  · obtain ⟨n, hn⟩ := Int.eq_ofNat_of_zero_le (neg_nonneg.2 h)
    obtain rfl : e = -(n : ℤ) := by omega
    simp

theorem ratio_snd_pos (x : Binary64) : 0 < x.ratio.2 := by
  unfold ratio
  dsimp only
  split
  · exact Nat.one_pos
  · exact Nat.pow_pos (by decide)

theorem ratio_eq (x : Binary64) : (x.ratio.1 : ℚ) / x.ratio.2 = x.magnitude := by
  unfold ratio magnitude
  dsimp only
  rw [zpow_eq_div]
  split
  · next h =>
    have hneg : (-x.exponent).toNat = 0 := by omega
    simp [hneg]
  · next h =>
    have hpos : x.exponent.toNat = 0 := by omega
    simp [hpos, div_eq_mul_inv]

/-- The least number that rounds to infinity. -/
def limit : ℚ := (2 ^ 54 - 1) * 2 ^ (970 : ℤ)

theorem limit_eq_cast : limit = ((2 ^ 54 - 1) * 2 ^ 970 : ℕ) := by
  unfold limit
  simp only [Nat.cast_mul, Nat.cast_pow]
  norm_num

theorem exponent_le {x : Binary64} (h : x.isFinite = true) : x.exponent ≤ 971 := by
  have hf : x.field < 2047 := of_decide_eq_true h
  unfold exponent
  split <;> omega

/-- A finite number is below the limit. -/
theorem magnitude_lt_limit {x : Binary64} (h : x.isFinite = true) : x.magnitude < limit := by
  have hm : (x.mantissa : ℚ) ≤ 2 ^ 53 - 1 := by
    have := x.mantissa_lt
    have hle : x.mantissa + 1 ≤ 2 ^ 53 := this
    have hq : ((x.mantissa + 1 : ℕ) : ℚ) ≤ ((2 ^ 53 : ℕ) : ℚ) := Nat.cast_le.2 hle
    push_cast at hq
    linarith
  have he : (2 : ℚ) ^ x.exponent ≤ 2 ^ (971 : ℤ) :=
    zpow_le_zpow_right₀ (by norm_num) (exponent_le h)
  have hdouble : (2 : ℚ) ^ (971 : ℤ) = 2 ^ (970 : ℤ) * 2 := zpow_add_one₀ two_ne_zero 970
  have hpos : (0 : ℚ) < 2 ^ (970 : ℤ) := by positivity
  unfold magnitude limit
  calc (x.mantissa : ℚ) * 2 ^ x.exponent ≤ (2 ^ 53 - 1) * 2 ^ (971 : ℤ) :=
        mul_le_mul hm he (by positivity) (by norm_num)
    _ = (2 ^ 54 - 2) * 2 ^ (970 : ℤ) := by rw [hdouble]; ring
    _ < (2 ^ 54 - 1) * 2 ^ (970 : ℤ) := mul_lt_mul_of_pos_right (by norm_num) hpos

/-! ## Rounded quotients -/

theorem roundDiv_le (num : Nat) {den : Nat} (h : 0 < den) :
    2 * (roundDiv num den * den) ≤ 2 * num + den := by
  have hdiv := Nat.div_add_mod num den
  have hmod := Nat.mod_lt num h
  rw [Nat.mul_comm] at hdiv
  unfold roundDiv
  dsimp only
  split
  · omega
  · split
    · rw [Nat.add_mul]
      omega
    · split
      · omega
      · rw [Nat.add_mul]
        omega

theorem roundDiv_one (n : Nat) : roundDiv n 1 = n := by
  simp [roundDiv, Nat.mod_one]

theorem roundDiv_le_add_half (num : Nat) {den : Nat} (h : 0 < den) :
    (roundDiv num den : ℚ) ≤ num / den + 1 / 2 := by
  have hle : ((2 * (roundDiv num den * den) : ℕ) : ℚ) ≤ ((2 * num + den : ℕ) : ℚ) :=
    Nat.cast_le.2 (roundDiv_le num h)
  have hden : (0 : ℚ) < den := Nat.cast_pos.2 h
  push_cast at hle
  rw [div_add_div _ _ hden.ne' (by norm_num), le_div_iff₀ (by positivity)]
  linarith

/-- A power of two is at most a quotient, as `floorLog2` asks for it. -/
theorem two_zpow_le_div_iff {num den : Nat} (hden : 0 < den) (l : ℤ) :
    (if 0 ≤ l then den * 2 ^ l.toNat ≤ num else den ≤ num * 2 ^ (-l).toNat) ↔
      (2 : ℚ) ^ l ≤ num / den := by
  have hd : (0 : ℚ) < den := Nat.cast_pos.2 hden
  rw [le_div_iff₀ hd, zpow_eq_div]
  split
  · next h =>
    have hneg : (-l).toNat = 0 := by omega
    rw [hneg, pow_zero, div_one, mul_comm]
    exact_mod_cast Iff.rfl
  · next h =>
    have hpos : l.toNat = 0 := by omega
    rw [hpos, pow_zero, div_mul_eq_mul_div, one_mul, div_le_iff₀ (by positivity)]
    exact_mod_cast Iff.rfl

/-- The binary logarithm of a quotient. -/
theorem floorLog2_bounds {num den : Nat} (hnum : 0 < num) (hden : 0 < den) :
    (2 : ℚ) ^ floorLog2 num den ≤ num / den ∧ (num : ℚ) / den < 2 ^ (floorLog2 num den + 1) := by
  have hd : (0 : ℚ) < den := Nat.cast_pos.2 hden
  have hnlow : (2 : ℚ) ^ (num.log2 : ℤ) ≤ num := by
    rw [zpow_natCast]
    exact_mod_cast Nat.log2_self_le (Nat.ne_of_gt hnum)
  have hnhigh : (num : ℚ) < 2 ^ ((num.log2 : ℤ) + 1) := by
    exact_mod_cast Nat.lt_log2_self (n := num)
  have hdlow : (2 : ℚ) ^ (den.log2 : ℤ) ≤ den := by
    rw [zpow_natCast]
    exact_mod_cast Nat.log2_self_le (Nat.ne_of_gt hden)
  have hdhigh : (den : ℚ) < 2 ^ ((den.log2 : ℤ) + 1) := by
    exact_mod_cast Nat.lt_log2_self (n := den)
  unfold floorLog2
  dsimp only
  generalize (num.log2 : ℤ) = a at hnlow hnhigh ⊢
  generalize (den.log2 : ℤ) = b at hdlow hdhigh ⊢
  by_cases h : (2 : ℚ) ^ (a - b) ≤ num / den
  · rw [if_pos ((two_zpow_le_div_iff hden _).2 h)]
    refine ⟨h, ?_⟩
    rw [div_lt_iff₀ hd]
    calc (num : ℚ) < 2 ^ (a + 1) := hnhigh
      _ = 2 ^ (a - b + 1) * 2 ^ b := by rw [← zpow_add₀ two_ne_zero]; congr 1; omega
      _ ≤ 2 ^ (a - b + 1) * den := mul_le_mul_of_nonneg_left hdlow (by positivity)
  · rw [if_neg (fun hr => h ((two_zpow_le_div_iff hden _).1 hr))]
    constructor
    · rw [le_div_iff₀ hd]
      calc (2 : ℚ) ^ (a - b - 1) * den ≤ 2 ^ (a - b - 1) * 2 ^ (b + 1) :=
            mul_le_mul_of_nonneg_left hdhigh.le (by positivity)
        _ = 2 ^ a := by rw [← zpow_add₀ two_ne_zero]; congr 1; omega
        _ ≤ num := hnlow
    · rw [sub_add_cancel]
      exact not_le.1 h

/-- The rounded significand of a quotient at some exponent. -/
def significand (num den : Nat) (e : ℤ) : Nat :=
  if 0 ≤ e then roundDiv num (den * 2 ^ e.toNat) else roundDiv (num * 2 ^ (-e).toNat) den

theorem significand_mul_le (num : Nat) {den : Nat} (hden : 0 < den) (e : ℤ) :
    (significand num den e : ℚ) * 2 ^ e ≤ num / den + 2 ^ e / 2 := by
  have hd : (0 : ℚ) < den := Nat.cast_pos.2 hden
  have hpow : (0 : ℚ) < 2 ^ e := by positivity
  have hround : (significand num den e : ℚ) ≤ num / den / 2 ^ e + 1 / 2 := by
    unfold significand
    split
    · next h =>
      have hneg : (-e).toNat = 0 := by omega
      refine (roundDiv_le_add_half num (by positivity)).trans_eq ?_
      rw [zpow_eq_div, hneg]
      push_cast
      field_simp
    · next h =>
      have hpos : e.toNat = 0 := by omega
      refine (roundDiv_le_add_half _ hden).trans_eq ?_
      rw [zpow_eq_div, hpos]
      push_cast
      field_simp
  calc (significand num den e : ℚ) * 2 ^ e ≤ (num / den / 2 ^ e + 1 / 2) * 2 ^ e :=
        mul_le_mul_of_nonneg_right hround hpow.le
    _ = num / den + 2 ^ e / 2 := by
      field_simp

theorem significand_le {num den : Nat} (hnum : 0 < num) (hden : 0 < den) {e : ℤ}
    (he : floorLog2 num den - 52 ≤ e) : significand num den e ≤ 2 ^ 53 := by
  have hpow : (0 : ℚ) < 2 ^ e := by positivity
  have hquotient : (num : ℚ) / den < 2 ^ 53 * 2 ^ e := by
    calc (num : ℚ) / den < 2 ^ (floorLog2 num den + 1) := (floorLog2_bounds hnum hden).2
      _ ≤ 2 ^ (53 + e) := zpow_le_zpow_right₀ (by norm_num) (by omega)
      _ = 2 ^ 53 * 2 ^ e := zpow_add₀ two_ne_zero 53 e
  have hle := significand_mul_le num hden e
  have hlt : (significand num den e : ℚ) * 2 ^ e < (2 ^ 53 + 1) * 2 ^ e := by linarith
  have hnat := lt_of_mul_lt_mul_right hlt hpow.le
  exact Nat.lt_succ_iff.1 (by exact_mod_cast hnat)

/-- The number with a significand and an exponent, as rounding packs them. -/
def pack (m : Nat) (e : ℤ) : Binary64 :=
  let (m, e) := if m = 2 ^ 53 then (2 ^ 52, e + 1) else (m, e)
  if m < 2 ^ 52 then ofFields false 0 m
  else if 972 ≤ e then infinity
  else ofFields false (e + 1075).toNat (m - 2 ^ 52)

/-- The exponent at which a quotient is rounded. -/
def roundingExponent (num den : Nat) : ℤ := max (floorLog2 num den - 52) (-1074)

theorem ofRatio_eq_pack {num : Nat} (hnum : 0 < num) (den : Nat) :
    ofRatio num den =
      pack (significand num den (roundingExponent num den)) (roundingExponent num den) := by
  unfold ofRatio
  rw [if_neg (Nat.ne_of_gt hnum)]
  rfl

theorem pack_cases {m : Nat} {e : ℤ} (hm : m ≤ 2 ^ 53) :
    (m < 2 ^ 52 ∧ pack m e = ofFields false 0 m) ∨
    (m = 2 ^ 53 ∧ pack m e = if 971 ≤ e then infinity else ofFields false (e + 1076).toNat 0) ∨
    (2 ^ 52 ≤ m ∧ m < 2 ^ 53 ∧
      pack m e = if 972 ≤ e then infinity else ofFields false (e + 1075).toNat (m - 2 ^ 52)) := by
  unfold pack
  by_cases hcarry : m = 2 ^ 53
  · right; left
    refine ⟨hcarry, ?_⟩
    rw [if_pos hcarry]
    dsimp only
    rw [if_neg (by omega)]
    have hcond : 972 ≤ e + 1 ↔ 971 ≤ e := by omega
    have hexp : e + 1 + 1075 = e + 1076 := by omega
    simp only [hcond, hexp, Nat.sub_self]
  · rw [if_neg hcarry]
    dsimp only
    by_cases hsmall : m < 2 ^ 52
    · left
      exact ⟨hsmall, by rw [if_pos hsmall]⟩
    · right; right
      exact ⟨by omega, by omega, by rw [if_neg hsmall]⟩

theorem isInfinite_infinity : infinity.isInfinite = true := by decide +kernel

/-- A packed number is finite, unless its significand and its exponent are too large together. -/
theorem isFinite_pack {m : Nat} {e : ℤ} (hm : m ≤ 2 ^ 53) (he : -1074 ≤ e) :
    (pack m e).isFinite = true ∨
    pack m e = infinity ∧ (m = 2 ^ 53 ∧ 971 ≤ e ∨ 2 ^ 52 ≤ m ∧ 972 ≤ e) := by
  rcases pack_cases (e := e) hm with ⟨h, heq⟩ | ⟨h, heq⟩ | ⟨h, h', heq⟩
  · rw [heq]
    exact .inl (isFinite_ofFields (by omega) h)
  · rw [heq]
    split
    · next hhuge => exact .inr ⟨rfl, .inl ⟨h, hhuge⟩⟩
    · exact .inl (isFinite_ofFields (by omega) (by omega))
  · rw [heq]
    split
    · next hhuge => exact .inr ⟨rfl, .inr ⟨h, hhuge⟩⟩
    · exact .inl (isFinite_ofFields (by omega) (by omega))

/-- Rounding gives a finite number, or infinity for a quotient that reaches the limit. -/
theorem isFinite_ofRatio_or (num : Nat) {den : Nat} (hden : 0 < den) :
    (ofRatio num den).isFinite = true ∨
    ofRatio num den = infinity ∧ limit ≤ (num : ℚ) / den := by
  rcases Nat.eq_zero_or_pos num with rfl | hnum
  · left
    rw [ofRatio, if_pos rfl]
    decide +kernel
  have hm : significand num den (roundingExponent num den) ≤ 2 ^ 53 :=
    significand_le hnum hden (le_max_left _ _)
  have hlow : -1074 ≤ roundingExponent num den := le_max_right _ _
  rw [ofRatio_eq_pack hnum]
  rcases isFinite_pack hm hlow with hfinite | ⟨hinfinity, ⟨hcarry, hhuge⟩ | ⟨-, hhuge⟩⟩
  · exact .inl hfinite
  · refine .inr ⟨hinfinity, ?_⟩
    -- the quotient is within half a unit of `2 ^ 53` units
    have hle := significand_mul_le num hden (roundingExponent num den)
    have hpow : (2 : ℚ) ^ (971 : ℤ) ≤ 2 ^ roundingExponent num den :=
      zpow_le_zpow_right₀ (by norm_num) hhuge
    rw [hcarry] at hle
    rw [show (971 : ℤ) = 970 + 1 from rfl, zpow_add_one₀ two_ne_zero] at hpow
    unfold limit
    generalize (2 : ℚ) ^ (970 : ℤ) = unit at hpow ⊢
    push_cast at hle
    linarith
  · refine .inr ⟨hinfinity, ?_⟩
    have htop : 1024 ≤ floorLog2 num den := by
      unfold roundingExponent at hhuge
      omega
    have hpow : (2 : ℚ) ^ (1024 : ℤ) ≤ 2 ^ floorLog2 num den :=
      zpow_le_zpow_right₀ (by norm_num) htop
    have hunit : (0 : ℚ) < 2 ^ (970 : ℤ) := by positivity
    have hreach := (floorLog2_bounds hnum hden).1
    rw [show (1024 : ℤ) = 54 + 970 from rfl, zpow_add₀ two_ne_zero] at hpow
    unfold limit
    generalize (2 : ℚ) ^ (970 : ℤ) = unit at hunit hpow ⊢
    norm_num at hpow
    linarith

/-- Rounding gives nothing but finite numbers and infinity. -/
theorem isFinite_or_isInfinite_ofRatio (num : Nat) {den : Nat} (hden : 0 < den) :
    (ofRatio num den).isFinite = true ∨ (ofRatio num den).isInfinite = true := by
  refine (isFinite_ofRatio_or num hden).imp_right fun ⟨hinfinity, _⟩ => ?_
  rw [hinfinity]
  exact isInfinite_infinity

/-- A quotient below the limit stays finite. -/
theorem isFinite_ofRatio {num den : Nat} (hden : 0 < den) (h : (num : ℚ) / den < limit) :
    (ofRatio num den).isFinite = true :=
  (isFinite_ofRatio_or num hden).resolve_right fun ⟨_, hle⟩ => absurd h (not_lt.2 hle)

/-! ## Products and quotients -/

theorem ratio_mul_ratio (x y : Binary64) :
    ((x.ratio.1 * y.ratio.1 : ℕ) : ℚ) / (x.ratio.2 * y.ratio.2 : ℕ) = x.magnitude * y.magnitude := by
  rw [← x.ratio_eq, ← y.ratio_eq]
  push_cast
  rw [div_mul_div_comm]

theorem isFinite_mul {x y : Binary64} (h : x.magnitude * y.magnitude < limit) :
    (x.mul y).isFinite = true := by
  refine isFinite_ofRatio (Nat.mul_pos x.ratio_snd_pos y.ratio_snd_pos) ?_
  rwa [ratio_mul_ratio]

/-- A quotient is no larger than the dividend, unless the divisor is below one. -/
theorem isFinite_div {x y : Binary64} (hx : x.isFinite = true) (hy : 1 ≤ y.magnitude) :
    (x.div y).isFinite = true := by
  have hx2 := x.ratio_snd_pos
  have hpos : 0 < y.ratio.1 := by
    refine Nat.pos_of_ne_zero fun hzero => ?_
    rw [← y.ratio_eq, hzero] at hy
    norm_num at hy
  have hvalue : ((x.ratio.1 * y.ratio.2 : ℕ) : ℚ) / (x.ratio.2 * y.ratio.1 : ℕ) =
      x.magnitude / y.magnitude := by
    rw [← x.ratio_eq, ← y.ratio_eq]
    push_cast
    rw [div_div_div_eq]
  refine isFinite_ofRatio (Nat.mul_pos hx2 hpos) ?_
  rw [hvalue]
  exact (div_le_self x.magnitude_nonneg hy).trans_lt (magnitude_lt_limit hx)

/-! ## Whole numbers -/

theorem magnitude_ofFields {negative : Bool} {f m : Nat} (hf : f < 2 ^ 11) (hm : m < 2 ^ 52) :
    (ofFields negative f m).magnitude =
      if f = 0 then (m : ℚ) * 2 ^ (-1074 : ℤ) else (m + 2 ^ 52 : ℕ) * 2 ^ ((f : ℤ) - 1075) := by
  unfold magnitude mantissa exponent
  rw [field_ofFields hf hm, fraction_ofFields hf hm]
  split <;> rfl

theorem magnitude_infinity : infinity.magnitude = 2 ^ 52 * 2 ^ (972 : ℤ) := by
  rw [infinity, magnitude_ofFields (by omega) (by omega), if_neg (by omega)]
  norm_num

/-- Packing never makes a number larger. -/
theorem magnitude_pack_le {m : Nat} {e : ℤ} (hm : m ≤ 2 ^ 53) (he : -1074 ≤ e) :
    (pack m e).magnitude ≤ m * 2 ^ e := by
  rcases pack_cases (e := e) hm with ⟨h, heq⟩ | ⟨rfl, heq⟩ | ⟨h, h', heq⟩
  · rw [heq, magnitude_ofFields (by omega) h, if_pos rfl]
    exact mul_le_mul_of_nonneg_left (zpow_le_zpow_right₀ (by norm_num) he) (Nat.cast_nonneg m)
  · rw [heq]
    push_cast
    split
    · next hhuge =>
      rw [magnitude_infinity, show (972 : ℤ) = 971 + 1 from rfl, zpow_add_one₀ two_ne_zero]
      have hpow : (2 : ℚ) ^ (971 : ℤ) ≤ 2 ^ e := zpow_le_zpow_right₀ (by norm_num) hhuge
      generalize (2 : ℚ) ^ (971 : ℤ) = unit at hpow
      linarith
    · have hexp : ((e + 1076).toNat : ℤ) - 1075 = e + 1 := by omega
      rw [magnitude_ofFields (by omega) (by omega), if_neg (by omega), hexp,
        zpow_add_one₀ two_ne_zero]
      refine le_of_eq ?_
      push_cast
      ring
  · rw [heq]
    split
    · next hhuge =>
      rw [magnitude_infinity]
      have hlow : ((2 ^ 52 : ℕ) : ℚ) ≤ m := Nat.cast_le.2 h
      have hpow : (2 : ℚ) ^ (972 : ℤ) ≤ 2 ^ e := zpow_le_zpow_right₀ (by norm_num) hhuge
      push_cast at hlow
      exact mul_le_mul hlow hpow (by positivity) (Nat.cast_nonneg m)
    · have hexp : ((e + 1075).toNat : ℤ) - 1075 = e := by omega
      rw [magnitude_ofFields (by omega) (by omega), if_neg (by omega), hexp, Nat.sub_add_cancel h]

theorem magnitude_ofRatio_le {num den : Nat} (hnum : 0 < num) (hden : 0 < den) :
    (ofRatio num den).magnitude ≤
      significand num den (roundingExponent num den) * 2 ^ roundingExponent num den := by
  have hm := significand_le hnum hden (le_max_left (floorLog2 num den - 52) (-1074))
  rw [ofRatio_eq_pack hnum]
  exact magnitude_pack_le hm (le_max_right _ _)

theorem floorLog2_one {n : Nat} (h : 0 < n) : floorLog2 n 1 = n.log2 := by
  have hlow := Nat.log2_self_le (Nat.ne_of_gt h)
  have hone : Nat.log2 1 = 0 := by decide
  unfold floorLog2
  simp only [hone, Nat.cast_zero, sub_zero, Int.natCast_nonneg, if_true, Int.toNat_natCast, one_mul]
  rw [if_pos hlow]

/-- A whole number grows by at most a part in `2 ^ 53`. -/
theorem magnitude_ofNat_le {n : Nat} (hpos : 0 < n) :
    (ofNat n).magnitude ≤ n + (n / 2 ^ 53 : ℕ) := by
  refine (magnitude_ofRatio_le hpos Nat.one_pos).trans ?_
  have hexp : roundingExponent n 1 = (n.log2 : ℤ) - 52 := by
    unfold roundingExponent
    rw [floorLog2_one hpos]
    omega
  rcases le_or_gt (roundingExponent n 1) 0 with he | he
  · -- the number has at most 53 bits and is exact
    have hexact : (significand n 1 (roundingExponent n 1) : ℚ) * 2 ^ roundingExponent n 1 ≤ n := by
      generalize roundingExponent n 1 = e at he ⊢
      obtain ⟨k, hk⟩ := Int.eq_ofNat_of_zero_le (neg_nonneg.2 he)
      obtain rfl : e = -(k : ℤ) := by omega
      unfold significand
      rcases Nat.eq_zero_or_pos k with rfl | hk
      · simp [roundDiv_one]
      · rw [if_neg (by omega), roundDiv_one]
        simp
    exact hexact.trans (le_add_of_nonneg_right (Nat.cast_nonneg _))
  · refine (significand_mul_le n Nat.one_pos _).trans ?_
    rw [Nat.cast_one, div_one]
    refine add_le_add_right ?_ _
    have hhalf : 2 ^ (n.log2 - 53) ≤ n / 2 ^ 53 := by
      rw [Nat.le_div_iff_mul_le (by positivity), ← Nat.pow_add]
      have hsum : n.log2 - 53 + 53 = n.log2 := by omega
      rw [hsum]
      exact Nat.log2_self_le (Nat.ne_of_gt hpos)
    have hcast : ((2 ^ (n.log2 - 53) : ℕ) : ℚ) ≤ (n / 2 ^ 53 : ℕ) := Nat.cast_le.2 hhalf
    refine le_trans (le_of_eq ?_) hcast
    have hsucc : roundingExponent n 1 = ((n.log2 - 53 : ℕ) : ℤ) + 1 := by omega
    rw [hsucc, zpow_add_one₀ two_ne_zero, zpow_natCast]
    push_cast
    ring


end GatewayStore.Binary64
