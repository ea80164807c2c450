import GatewayStore.Json.Token
import GatewayStore.Proofs.Number.Rounding

/-
  What the reader makes of a number's parts. Every number that is read is finite
  (`Number.Finite`). A whole number shifted to the right is always read, and one shifted to the left
  at least if it stays two places below the greatest float (`isSome_scaled?_of_le`).
-/

namespace GatewayStore.Json

/-- A number is not infinite and stands for something. -/
def Number.Finite : Number → Prop
  | .integer _ _ => True
  | .float x => x.isFinite = true

namespace Token

open Binary64

theorem accumulate_fst_lt {limit n : Nat} (cs : List Char) (h : n < limit) :
    (accumulate limit n cs).1 < limit := by
  induction cs generalizing n with
  | nil => exact h
  | cons c cs ih =>
    unfold accumulate
    dsimp only
    split
    · next hnext => exact ih hnext
    · exact h

/-! ## Powers of ten -/

theorem one_le_powerOfTen {n : Nat} (h : n ≤ 308) : 1 ≤ (powerOfTen n).magnitude := by
  have htable : ∀ k < 309, (powerOfTen k).ratio.2 ≤ (powerOfTen k).ratio.1 := by decide +kernel
  have hden : (0 : ℚ) < (powerOfTen n).ratio.2 := Nat.cast_pos.2 (powerOfTen n).ratio_snd_pos
  rw [← ratio_eq, one_le_div hden]
  exact Nat.cast_le.2 (htable n (by omega))

theorem isFinite_ofNat {n : Nat} (h : n < 2 ^ 64) : (ofNat n).isFinite = true := by
  refine isFinite_ofRatio Nat.one_pos ?_
  have hn : (n : ℚ) < 2 ^ 64 := by exact_mod_cast h
  have hone : (1 : ℚ) ≤ 2 ^ (916 : ℤ) := one_le_zpow₀ (by norm_num) (by norm_num)
  unfold limit
  rw [Nat.cast_one, div_one, show (970 : ℤ) = 54 + 916 from rfl, zpow_add₀ two_ne_zero]
  generalize (2 : ℚ) ^ (916 : ℤ) = unit at hone ⊢
  linarith

/-- A finite number shifted to the right is finite. -/
theorem isFinite_shiftDown {x : Binary64} (steps n : Nat) (h : x.isFinite = true) :
    (shiftDown steps x n).isFinite = true := by
  induction steps generalizing x n with
  | zero => exact h
  | succ steps ih =>
    unfold shiftDown
    split
    · next hn => exact isFinite_div h (one_le_powerOfTen hn)
    · split
      · exact h
      · exact ih _ (isFinite_div h (one_le_powerOfTen (Nat.le_refl _)))

/-! ## Everything that is read is finite -/

theorem isFinite_of_scaled? {significand : Nat} {scale : ℤ} {x : Binary64}
    (hsmall : significand < 2 ^ 64) (h : scaled? significand scale = some x) :
    x.isFinite = true := by
  unfold scaled? at h
  dsimp only at h
  split at h
  · obtain rfl := Option.some.inj h
    exact isFinite_shiftDown 4 _ (isFinite_ofNat hsmall)
  · split at h
    · split at h
      · cases h
      · next hinfinite =>
        obtain rfl := Option.some.inj h
        have hden := Nat.mul_pos (ofNat significand).ratio_snd_pos
          (powerOfTen scale.toNat).ratio_snd_pos
        exact (isFinite_or_isInfinite_ofRatio _ hden).resolve_right hinfinite
    · split at h
      · obtain rfl := Option.some.inj h
        exact isFinite_ofNat hsmall
      · cases h

theorem finite_signed {negative : Bool} {x : Binary64} (h : x.isFinite = true) :
    (signed negative x).Finite := by
  unfold signed Number.Finite
  dsimp only
  split
  · rw [isFinite_negate, h]
  · exact h

theorem finite_map_scaled? {negative : Bool} {significand : Nat} {scale : ℤ} {n : Number}
    (hsmall : significand < 2 ^ 64)
    (h : (scaled? significand scale).map (signed negative) = some n) : n.Finite := by
  obtain ⟨x, hx, rfl⟩ := Option.map_eq_some_iff.1 h
  exact finite_signed (isFinite_of_scaled? hsmall hx)

theorem finite_of_wholeNumber? {negative : Bool} {digits : List Char} {n : Number}
    (h : wholeNumber? negative digits = some n) : n.Finite := by
  unfold wholeNumber? at h
  have hsmall : (accumulate (2 ^ 64) 0 digits).1 < 2 ^ 64 :=
    accumulate_fst_lt digits (by decide)
  dsimp only at h
  generalize (accumulate (2 ^ 64) 0 digits).1 = significand at h hsmall
  by_cases hall : (accumulate (2 ^ 64) 0 digits).2.isEmpty = true
  · rw [if_pos hall] at h
    by_cases hfits : -2 ^ 63 ≤ (if negative = true then -(significand : ℤ) else significand) ∧
        (if negative = true then -(significand : ℤ) else significand) < 2 ^ 64 ∧
        ¬(negative = true ∧ significand = 0)
    · rw [dif_pos hfits] at h
      cases Option.some.inj h
      trivial
    · rw [dif_neg hfits] at h
      cases Option.some.inj h
      exact finite_signed (isFinite_ofNat hsmall)
  · rw [if_neg hall] at h
    exact finite_map_scaled? hsmall h

theorem finite_of_fraction? {negative : Bool} {whole places : List Char}
    {exponent : Option (Bool × List Char)} {n : Number}
    (h : fraction? negative whole places exponent = some n) : n.Finite := by
  unfold fraction? at h
  have hwhole : (accumulate (2 ^ 64) 0 whole).1 < 2 ^ 64 := accumulate_fst_lt whole (by decide)
  have hsmall := accumulate_fst_lt places hwhole
  dsimp only at h
  split at h
  · exact finite_map_scaled? hsmall h
  · split at h
    · exact finite_map_scaled? hsmall h
    · split at h
      · cases h
      · obtain rfl := Option.some.inj h
        exact finite_signed (by decide +kernel)

theorem finite_of_scanUnsigned {negative : Bool} {s rest : List Char} {n : Number}
    (h : scanUnsigned negative s = some (n, rest)) : n.Finite := by
  unfold scanUnsigned at h
  dsimp only at h
  split at h
  · cases h
  · split at h
    · cases h
    · split at h
      · cases h
      · obtain ⟨m, hm, heq⟩ := Option.map_eq_some_iff.1 h
        cases heq
        split at hm
        · exact finite_of_wholeNumber? hm
        · exact finite_of_fraction? hm

theorem finite_of_scanOne {s rest : List Char} {n : Number}
    (h : scanOne s = some (.number n, rest)) : n.Finite := by
  have hsigned {negative : Bool} {s : List Char}
      (h : (scanUnsigned negative s).map (fun p => (Token.number p.1, p.2)) =
        some (.number n, rest)) : n.Finite := by
    obtain ⟨⟨m, rest'⟩, hm, heq⟩ := Option.map_eq_some_iff.1 h
    cases heq
    exact finite_of_scanUnsigned hm
  unfold scanOne at h
  split at h
  all_goals first
    | exact hsigned h
    | cases h
    | (obtain ⟨p, -, heq⟩ := Option.map_eq_some_iff.1 h
       cases heq)

/-- The numbers among the tokens of a text are finite. -/
theorem finite_of_scanFrom {fuel : Nat} {s : List Char} {ts : List Token}
    (h : scanFrom fuel s = some ts) : ∀ n, .number n ∈ ts → n.Finite := by
  induction fuel generalizing s ts with
  | zero =>
    cases s with
    | nil =>
      cases h
      intro n hn
      cases hn
    | cons c s => cases h
  | succ fuel ih =>
    cases s with
    | nil =>
      cases h
      intro n hn
      cases hn
    | cons c s =>
      unfold scanFrom at h
      split at h
      · exact ih h
      · split at h
        · cases h
        · next token rest hone =>
          obtain ⟨ts', hts', rfl⟩ := Option.map_eq_some_iff.1 h
          intro n hn
          rcases List.mem_cons.1 hn with rfl | hn
          · exact finite_of_scanOne hone
          · exact ih hts' n hn

/-! ## What is read for sure -/

theorem isInfinite_of_isFinite {x : Binary64} (h : x.isFinite = true) : x.isInfinite = false := by
  have hfield : x.field < 2047 := of_decide_eq_true h
  unfold isInfinite
  rw [Bool.and_eq_false_iff]
  left
  exact beq_false_of_ne (Nat.ne_of_lt hfield)

theorem isSome_scaled? {significand : Nat} {scale : ℤ} (hscale : scale ≤ 308)
    (h : 0 ≤ scale →
      (ofNat significand).magnitude * (powerOfTen scale.toNat).magnitude < limit) :
    (scaled? significand scale).isSome = true := by
  unfold scaled?
  dsimp only
  split
  · rfl
  · next hneg =>
    have hfinite := isFinite_mul (h (by omega))
    rw [if_neg (by rw [isInfinite_of_isFinite hfinite]; decide)]
    rfl

/-- Everything is read that is not shifted to the left. -/
theorem isSome_scaled?_of_nonpos {significand : Nat} {scale : ℤ} (hsmall : significand < 2 ^ 64)
    (h : scale ≤ 0) : (scaled? significand scale).isSome = true := by
  refine isSome_scaled? (by omega) fun hscale => ?_
  obtain rfl : scale = 0 := by omega
  have hone : (powerOfTen (0 : ℤ).toNat).magnitude ≤ 1 := by
    have hle := magnitude_ofNat_le (n := 10 ^ 0) (by decide)
    norm_num at hle
    exact hle
  exact (mul_le_of_le_one_right (magnitude_nonneg _) hone).trans_lt (magnitude_lt_limit (isFinite_ofNat hsmall))

/-- Two places below the greatest float, in the middle between two numbers. -/
def reach : Nat := (2 ^ 54 - 3) * 2 ^ 970

/-- Three times rounded, a decimal of seventeen digits within reach is still below the limit. -/
theorem reach_table : ∀ k < 309, (min (10 ^ 17) (reach / 10 ^ k) +
    min (10 ^ 17) (reach / 10 ^ k) / 2 ^ 53) * (powerOfTen k).ratio.1 <
      (2 ^ 54 - 1) * 2 ^ 970 * (powerOfTen k).ratio.2 := by
  decide +kernel

theorem lt_of_mul_pow_le_reach {significand k : Nat} (hpos : 0 < significand)
    (h : significand * 10 ^ k ≤ reach) : k < 309 := by
  have htop : reach < 10 ^ 309 := by decide +kernel
  have hle := Nat.le_mul_of_pos_left (10 ^ k) hpos
  exact (Nat.pow_lt_pow_iff_right (by decide)).1 (hle.trans_lt (h.trans_lt htop))

theorem isSome_scaled?_of_le {significand k : Nat} (hpos : 0 < significand)
    (hdigits : significand ≤ 10 ^ 17) (h : significand * 10 ^ k ≤ reach) :
    (scaled? significand k).isSome = true := by
  have hk := lt_of_mul_pow_le_reach hpos h
  refine isSome_scaled? (by omega) fun _ => ?_
  have hmin : significand ≤ min (10 ^ 17) (reach / 10 ^ k) :=
    Nat.le_min.2 ⟨hdigits, (Nat.le_div_iff_mul_le (by positivity)).2 h⟩
  have htable := reach_table k hk
  generalize min (10 ^ 17) (reach / 10 ^ k) = greatest at hmin htable
  have hquotient : significand / 2 ^ 53 ≤ greatest / 2 ^ 53 := Nat.div_le_div_right hmin
  have hmagnitude := magnitude_ofNat_le hpos
  generalize significand / 2 ^ 53 = added at hquotient hmagnitude
  generalize greatest / 2 ^ 53 = most at hquotient htable
  have hsum : ((significand + added : ℕ) : ℚ) ≤ (greatest + most : ℕ) :=
    Nat.cast_le.2 (Nat.add_le_add hmin hquotient)
  rw [Nat.cast_add] at hsum
  have hden : (0 : ℚ) < (powerOfTen k).ratio.2 := Nat.cast_pos.2 (powerOfTen k).ratio_snd_pos
  rw [Int.toNat_natCast]
  calc (ofNat significand).magnitude * (powerOfTen k).magnitude
      ≤ (greatest + most : ℕ) * (powerOfTen k).magnitude :=
        mul_le_mul_of_nonneg_right (hmagnitude.trans hsum) (magnitude_nonneg _)
    _ < limit := by
      rw [← ratio_eq, mul_div_assoc', div_lt_iff₀ hden, limit_eq_cast, ← Nat.cast_mul,
        ← Nat.cast_mul]
      exact Nat.cast_lt.2 htable

end Token

end GatewayStore.Json
