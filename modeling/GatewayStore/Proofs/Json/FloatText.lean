import GatewayStore.Proofs.Json.Numbers
import GatewayStore.Proofs.Json.Reread
import GatewayStore.Proofs.Number.Shortest

/-
  The text of a finite number is read back, if not always as the same number. Positional texts and
  negative exponents are never too large. For a positive exponent all digits are read, and the
  shortest decimal of a finite number is within the reader's reach, the greatest number apart
  (`Number.readable_of_finite`).
-/

namespace GatewayStore.Json

open Token

/-! ## Digits that are read in full -/

theorem Token.ofDigitChars_lt {cs : List Char} (h : ∀ c ∈ cs, c.isDigit = true) (n : Nat) :
    Nat.ofDigitChars 10 cs n < (n + 1) * 10 ^ cs.length := by
  induction cs generalizing n with
  | nil => simp
  | cons c cs ih =>
    have hc := h c List.mem_cons_self
    have hdigit : c.toNat - '0'.toNat ≤ 9 := by
      simp only [Char.isDigit, Bool.and_eq_true, decide_eq_true_eq] at hc
      have hle : c.toNat ≤ 57 := hc.2
      have hzero : '0'.toNat = 48 := rfl
      omega
    rw [Nat.ofDigitChars_cons, List.length_cons, Nat.pow_succ']
    refine (ih (fun d hd => h d (List.mem_cons_of_mem _ hd)) _).trans_le ?_
    rw [← Nat.mul_assoc]
    exact Nat.mul_le_mul_right _ (by omega)

/-- Nineteen digits fit into a word. -/
theorem Token.ofDigitChars_lt_word {ds : List Char} (h : ∀ c ∈ ds, c.isDigit = true)
    (hlen : ds.length ≤ 19) : Nat.ofDigitChars 10 ds 0 < 2 ^ 64 := by
  have hlt := ofDigitChars_lt h 0
  have hpow : 10 ^ ds.length ≤ 10 ^ 19 := Nat.pow_le_pow_right (by decide) hlen
  omega

/-! ## Texts of numbers without a sign -/

/-- A text that is read as one number, whatever its sign and whatever follows it. -/
structure Unsigned (s : List Char) : Prop where
  head : ∃ ds tail, s = ds ++ tail ∧ Whole ds
  scanned : ∀ negative, ∃ n, ∀ rest, StopsNumber rest →
    scanUnsigned negative (s ++ rest) = some (n, rest)

/-- Places alone never make a number too large. -/
theorem isSome_fraction?_places (negative : Bool) {ds : List Char} (ps : List Char)
    (hds : ∀ c ∈ ds, c.isDigit = true) (hlen : ds.length ≤ 19) :
    (fraction? negative ds ps none).isSome = true := by
  have hwhole := ofDigitChars_lt_word hds hlen
  unfold fraction?
  rw [accumulate_of_lt hwhole]
  dsimp only
  rw [Option.isSome_map]
  exact isSome_scaled?_of_nonpos (accumulate_fst_lt ps hwhole) (by simp)

/-- Nor does a negative exponent. -/
theorem isSome_fraction?_negative {negative : Bool} {ds ps es : List Char}
    (hds : ∀ c ∈ ds, c.isDigit = true) (hlen : ds.length ≤ 19) :
    (fraction? negative ds ps (some (true, es))).isSome = true := by
  have hwhole := ofDigitChars_lt_word hds hlen
  unfold fraction?
  rw [accumulate_of_lt hwhole]
  dsimp only
  split
  · rw [Option.isSome_map, if_pos rfl]
    refine isSome_scaled?_of_nonpos (accumulate_fst_lt ps hwhole) ?_
    simp only [List.length_nil]
    omega
  · simp

/-- With a positive exponent the number is the one of all digits. -/
theorem isSome_fraction?_positive {negative : Bool} {c : Char} {ps : List Char} {n k : Nat}
    (hdigits : digitsOf n = c :: ps) (hn : n < 2 ^ 64) (hk : k < 2 ^ 31)
    (h : (scaled? n ((k : ℤ) - ps.length)).isSome = true) :
    (fraction? negative [c] ps (some (false, digitsOf k))).isSome = true := by
  have hvalue : Nat.ofDigitChars 10 (digitsOf n) 0 = n := Nat.ofDigitChars_ten_toDigits
  rw [hdigits, Nat.ofDigitChars_cons] at hvalue
  have hwhole : accumulate (2 ^ 64) 0 [c] = (10 * 0 + (c.toNat - '0'.toNat), []) := by
    have hlt : Nat.ofDigitChars 10 [c] 0 < 2 ^ 64 := by
      rw [Nat.ofDigitChars_cons, Nat.ofDigitChars_nil]
      exact (le_ofDigitChars _ ps).trans_lt (by rwa [hvalue])
    exact accumulate_of_lt hlt
  have hall := accumulate_of_lt (hvalue.trans_lt hn)
  unfold fraction?
  rw [hwhole]
  dsimp only
  rw [hall, hvalue, accumulate_digitsOf hk]
  have hscale : ((0 : ℕ) : ℤ) - ((ps.length - 0 : ℕ) : ℤ) + k = k - ps.length := by omega
  simp only [List.isEmpty_nil, if_true, List.length_nil, Bool.false_eq_true, if_false,
    Option.isSome_map, hscale]
  exact h

/-- Digits, a point and places. -/
theorem Unsigned.places (ds ps : List Char) (hds : Whole ds) (hlen : ds.length ≤ 19)
    (hps : ∀ c ∈ ps, c.isDigit = true) (hne : ps ≠ []) : Unsigned (ds ++ '.' :: ps) := by
  refine ⟨⟨ds, _, rfl, hds⟩, fun negative => ?_⟩
  obtain ⟨n, hn⟩ := Option.isSome_iff_exists.1
    (isSome_fraction?_places negative ps hds.digits hlen)
  refine ⟨n, fun rest hrest => ?_⟩
  rw [List.append_assoc, List.cons_append, scanUnsigned_places hds hps hne hrest, hn]
  rfl

/-- Digits, perhaps places, and an exponent. -/
theorem Unsigned.exponent (negativeExponent : Bool) {ds ps es : List Char} (hds : Whole ds)
    (hps : ∀ c ∈ ps, c.isDigit = true) (hes : ∀ c ∈ es, c.isDigit = true) (hne : es ≠ [])
    (h : ∀ negative, (fraction? negative ds ps (some (negativeExponent, es))).isSome = true) :
    Unsigned (ds ++ ((if ps = [] then [] else '.' :: ps) ++
      'e' :: (if negativeExponent then '-' else '+') :: es)) := by
  refine ⟨⟨ds, _, rfl, hds⟩, fun negative => ?_⟩
  obtain ⟨n, hn⟩ := Option.isSome_iff_exists.1 (h negative)
  refine ⟨n, fun rest hrest => ?_⟩
  have hscan := scanUnsigned_exponent negative negativeExponent hds hps hes hne hrest
  rw [hn, Option.map_some] at hscan
  simpa only [List.append_assoc, List.cons_append] using hscan

/-! ## The shapes of a decimal's text -/

theorem length_digitsOf_pos (n : Nat) : 0 < (digitsOf n).length :=
  List.length_pos_iff.2 (digitsOf_ne_nil n)

theorem isDigit_of_mem_replicate {k : Nat} {c : Char} (h : c ∈ List.replicate k '0') :
    c.isDigit = true := by
  rw [List.eq_of_mem_replicate h]
  rfl

/-- Digits that start like a positive number. -/
theorem whole_of_head {ds : List Char} {n : Nat} (hn : 0 < n) (hdigits : ∀ c ∈ ds, c.isDigit = true)
    (hne : ds ≠ []) (hhead : ds.head? = (digitsOf n).head?) : Whole ds :=
  ⟨hdigits, hne, fun h => absurd (hhead ▸ h) (head?_digitsOf_ne hn)⟩

/-- Zeros up to the point. -/
theorem Unsigned.beforePoint {n k : Nat} (hn : 0 < n) (hlen : (digitsOf n).length + k ≤ 19) :
    Unsigned (digitsOf n ++ List.replicate k '0' ++ ['.', '0']) := by
  refine .places _ ['0'] (whole_of_head hn (fun c hc => ?_) ?_ ?_) ?_ (by simp) (by simp)
  · rcases List.mem_append.1 hc with hc | hc
    · exact isDigit_of_mem_digitsOf hc
    · exact isDigit_of_mem_replicate hc
  · exact List.append_ne_nil_of_left_ne_nil (digitsOf_ne_nil n) _
  · exact List.head?_append_of_ne_nil _ (digitsOf_ne_nil n)
  · rw [List.length_append, List.length_replicate]
    exact hlen

/-- The point among the digits. -/
theorem Unsigned.amongDigits {n cut : Nat} (hn : 0 < n) (hpos : 0 < cut) (hcut : cut ≤ 19)
    (hlen : cut < (digitsOf n).length) :
    Unsigned ((digitsOf n).take cut ++ '.' :: (digitsOf n).drop cut) := by
  have htake : ((digitsOf n).take cut).length = cut := by
    rw [List.length_take]
    omega
  have hdrop : 0 < ((digitsOf n).drop cut).length := by
    rw [List.length_drop]
    omega
  refine .places _ _ (whole_of_head hn (fun c hc => ?_) ?_ ?_) (by omega) (fun c hc => ?_)
    (List.ne_nil_of_length_pos hdrop)
  · exact isDigit_of_mem_digitsOf (List.mem_of_mem_take hc)
  · exact List.ne_nil_of_length_pos (by omega)
  · rw [List.head?_take, if_neg (by omega)]
  · exact isDigit_of_mem_digitsOf (List.mem_of_mem_drop hc)

/-- Zeros after the point. -/
theorem Unsigned.afterPoint (n k : Nat) :
    Unsigned ('0' :: '.' :: (List.replicate k '0' ++ digitsOf n)) := by
  refine .places ['0'] _ ⟨by simp, by simp, by simp⟩ (by simp) (fun c hc => ?_)
    (List.append_ne_nil_of_right_ne_nil _ (digitsOf_ne_nil n))
  rcases List.mem_append.1 hc with hc | hc
  · exact isDigit_of_mem_replicate hc
  · exact isDigit_of_mem_digitsOf hc

/-- An exponent. -/
theorem Unsigned.scientific {n : Nat} {c : Char} {ps : List Char} {top : ℤ} (hn : 0 < n)
    (hsmall : n < 2 ^ 64) (hdigits : digitsOf n = c :: ps) (htop : top < 2 ^ 31)
    (h : (scaled? n (top - ps.length)).isSome = true) :
    Unsigned ([c] ++ ((if ps = [] then [] else '.' :: ps) ++
      'e' :: (if top < 0 then '-' else '+') :: digitsOf top.natAbs)) := by
  have hmem {p : Char} (hp : p ∈ c :: ps) : p.isDigit = true :=
    isDigit_of_mem_digitsOf (hdigits ▸ hp)
  have hc : ∀ p ∈ [c], p.isDigit = true := fun p hp => by
    rw [List.mem_singleton.1 hp]
    exact hmem List.mem_cons_self
  have hwhole : Whole [c] := whole_of_head hn hc (List.cons_ne_nil c []) (by rw [hdigits]; rfl)
  have hps : ∀ p ∈ ps, p.isDigit = true := fun p hp => hmem (List.mem_cons_of_mem c hp)
  have hes : ∀ p ∈ digitsOf top.natAbs, p.isDigit = true := fun p => isDigit_of_mem_digitsOf
  rcases lt_or_ge top 0 with hneg | hnonneg
  · rw [if_pos hneg]
    exact .exponent true hwhole hps hes (digitsOf_ne_nil _)
      fun negative => isSome_fraction?_negative hc (by simp)
  · rw [if_neg (not_lt.2 hnonneg)]
    refine .exponent false hwhole hps hes (digitsOf_ne_nil _)
      fun negative => isSome_fraction?_positive hdigits hsmall (by omega) ?_
    rwa [Int.natAbs_of_nonneg hnonneg]

/-! ## Legible decimals -/

/-- A decimal whose text is read: it is positive, and not too large with its zeros. -/
structure Legible (d : Decimal) : Prop where
  pos : 0 < d.digits
  small : d.digits < 2 ^ 64
  scale_le : d.scale ≤ 308
  scaled : (scaled? d.digits d.scale).isSome = true

theorem Legible.unsigned {d : Decimal} (h : Legible d) : Unsigned (floatLayout.text d) := by
  have hlen := length_digitsOf_pos d.digits
  have hlen20 : (digitsOf d.digits).length ≤ 20 :=
    (length_digitsOf_le_iff (by decide)).2 (h.small.trans (by decide))
  have hscale := h.scale_le
  have hleast : floatLayout.least = -5 := rfl
  have hgreatest : floatLayout.greatest = 15 := rfl
  unfold FloatLayout.text
  dsimp only
  generalize htop : d.scale + ((digitsOf d.digits).length : ℤ) - 1 = top
  by_cases hpositional : floatLayout.least ≤ top ∧ top ≤ floatLayout.greatest
  · rw [if_pos hpositional]
    by_cases hscale : 0 ≤ d.scale
    · rw [if_pos hscale]
      exact .beforePoint h.pos (by omega)
    · rw [if_neg hscale]
      by_cases htop : 0 ≤ top
      · rw [if_pos htop]
        exact .amongDigits h.pos (by omega) (by omega) (by omega)
      · rw [if_neg htop]
        exact .afterPoint _ _
  · rw [if_neg hpositional]
    obtain ⟨c, ps, hdigits⟩ := List.exists_cons_of_ne_nil (digitsOf_ne_nil d.digits)
    rw [hdigits, List.length_cons] at htop hlen20
    have hscaled : top - ps.length = d.scale := by omega
    have hread : (scaled? d.digits (top - ps.length)).isSome = true := by
      rw [hscaled]
      exact h.scaled
    have hunsigned := Unsigned.scientific h.pos h.small hdigits (by omega) hread
    rw [hdigits]
    cases ps <;> exact hunsigned

/-! ## Finite numbers -/

theorem reach_eq : (reach : ℚ) = (2 ^ 54 - 3) * 2 ^ (970 : ℤ) := by
  unfold reach
  simp only [Nat.cast_mul, Nat.cast_pow]
  norm_num

/-- Only the greatest number has an interval that goes beyond the reader's reach. -/
theorem interval_le_reach {x : Binary64} (h : x.isFinite = true)
    (hnot : ¬(x.field = 2046 ∧ x.fraction = 2 ^ 52 - 1)) :
    ((4 * x.mantissa + 2 : ℕ) : ℚ) * 2 ^ (x.exponent - 2) ≤ reach := by
  have hfield : x.field < 2047 := of_decide_eq_true h
  have hfraction := x.fraction_lt
  have hcases : 4 * x.mantissa + 2 ≤ 2 ^ 55 - 2 ∧ x.exponent - 2 ≤ 968 ∨
      4 * x.mantissa + 2 ≤ 2 ^ 55 - 6 ∧ x.exponent - 2 ≤ 969 := by
    unfold Binary64.mantissa Binary64.exponent
    split <;> omega
  have hbelow {a : ℕ} {e : ℤ} (ha : 4 * x.mantissa + 2 ≤ a) (he : x.exponent - 2 ≤ e) :
      ((4 * x.mantissa + 2 : ℕ) : ℚ) * 2 ^ (x.exponent - 2) ≤ a * 2 ^ e :=
    mul_le_mul (Nat.cast_le.2 ha) (zpow_le_zpow_right₀ (by norm_num) he) (by positivity)
      (Nat.cast_nonneg a)
  have hpow : (0 : ℚ) < 2 ^ (968 : ℤ) := by positivity
  rw [reach_eq, show (970 : ℤ) = 968 + 2 from rfl, zpow_add₀ two_ne_zero]
  rcases hcases with ⟨ha, he⟩ | ⟨ha, he⟩
  · refine (hbelow ha he).trans ?_
    generalize (2 : ℚ) ^ (968 : ℤ) = unit at hpow
    norm_num
    linarith
  · refine (hbelow ha he).trans ?_
    rw [show (969 : ℤ) = 968 + 1 from rfl, zpow_add₀ two_ne_zero]
    generalize (2 : ℚ) ^ (968 : ℤ) = unit at hpow
    norm_num
    linarith

theorem shortest_eq_of_fields {x y : Binary64} (hfield : x.field = y.field)
    (hfraction : x.fraction = y.fraction) : x.shortest = y.shortest := by
  unfold Binary64.shortest Binary64.ratio Binary64.interval Binary64.mantissa Binary64.exponent
  rw [hfield, hfraction]

/-- The greatest number is read although its decimal is not within reach. -/
theorem legible_greatest : Legible (Binary64.ofFields false 2046 (2 ^ 52 - 1)).shortest := by
  have hshortest : (Binary64.ofFields false 2046 (2 ^ 52 - 1)).shortest =
      ⟨17976931348623157, 292⟩ := by decide +kernel
  rw [hshortest]
  exact ⟨by decide, by decide, by decide, by decide +kernel⟩

theorem legible_shortest {x : Binary64} (h : x.isFinite = true) (hpos : 0 < x.mantissa) :
    x.shortest = ⟨0, 0⟩ ∨ Legible x.shortest := by
  by_cases hgreatest : x.field = 2046 ∧ x.fraction = 2 ^ 52 - 1
  · right
    have hsame : x.shortest = (Binary64.ofFields false 2046 (2 ^ 52 - 1)).shortest := by
      refine shortest_eq_of_fields ?_ ?_
      · rw [hgreatest.1, Binary64.field_ofFields (by decide) (by decide)]
      · rw [hgreatest.2, Binary64.fraction_ofFields (by decide) (by decide)]
    rw [hsame]
    exact legible_greatest
  rcases Binary64.shortest_cases hpos with hnone | hbelow
  · exact .inl hnone
  right
  have hsmall : x.shortest.digits < 2 ^ 64 := hbelow.digits_le.trans_lt (by decide)
  rcases le_or_gt x.shortest.scale 0 with hscale | hscale
  · exact ⟨hbelow.pos, hsmall, by omega, isSome_scaled?_of_nonpos hsmall hscale⟩
  · obtain ⟨k, hk⟩ := Int.eq_ofNat_of_zero_le hscale.le
    have hreach : x.shortest.Below reach :=
      ⟨hbelow.pos, hbelow.digits_le, hbelow.value_le.trans (interval_le_reach h hgreatest)⟩
    have hle := hreach.mul_pow_le hk
    have hlt := lt_of_mul_pow_le_reach hbelow.pos hle
    refine ⟨hbelow.pos, hsmall, by omega, ?_⟩
    rw [hk]
    exact isSome_scaled?_of_le hbelow.pos hbelow.digits_le hle

theorem unsigned_zero : Unsigned ['0', '.', '0'] :=
  .places ['0'] ['0'] ⟨by simp, by simp, by simp⟩ (by simp) (by simp) (by simp)

/-- The text of a finite number is a sign and a number. -/
theorem write_eq {x : Binary64} (h : x.isFinite = true) : ∃ body, Unsigned body ∧
    floatLayout.write x = (if x.isNegative then ['-'] else []) ++ body := by
  unfold FloatLayout.write
  by_cases hzero : x.isZero = true
  · rw [if_pos hzero]
    exact ⟨_, unsigned_zero, rfl⟩
  · rw [if_neg hzero]
    refine ⟨_, ?_, rfl⟩
    have hpos : 0 < x.mantissa := by
      refine Nat.pos_of_ne_zero fun hm => hzero ?_
      unfold Binary64.mantissa at hm
      split at hm
      · next hfield =>
        simp [Binary64.isZero, hfield, hm]
      · omega
    rcases legible_shortest h hpos with hnone | hlegible
    · have htext : floatLayout.text ⟨0, 0⟩ = ['0', '.', '0'] := by decide
      rw [hnone, htext]
      exact unsigned_zero
    · exact hlegible.unsigned

/-! ## Readable numbers -/

theorem isBlank_of_isDigit {c : Char} (h : c.isDigit = true) : isBlank c = false := by
  simp only [isBlank, Bool.or_eq_false_iff, decide_eq_false_iff_not]
  refine ⟨⟨⟨?_, ?_⟩, ?_⟩, ?_⟩ <;> (rintro rfl; cases h)

/-- A sign and a number are one word. -/
theorem Number.readable_of_unsigned {x : Binary64} {body : List Char} (hbody : Unsigned body)
    (htext : floatLayout.write x = (if x.isNegative then ['-'] else []) ++ body) :
    (Number.float x).Readable := by
  obtain ⟨ds, tail, rfl, hds⟩ := hbody.head
  obtain ⟨n, hn⟩ := hbody.scanned x.isNegative
  have hscan (rest : List Char) (hrest : StopsNumber rest) :
      scanOne (floatLayout.write x ++ rest) = some (.number n, rest) := by
    have hunsigned := hn rest hrest
    rw [List.append_assoc] at hunsigned
    rw [htext, List.append_assoc, List.append_assoc, scanOne_number hds, hunsigned]
    rfl
  have hreread : (Number.float x).reread = n := by
    have hwhole := hscan [] (fun c hc => by cases hc)
    rw [List.append_nil] at hwhole
    simp [reread, hwhole]
  obtain ⟨d, ds, rfl⟩ := List.exists_cons_of_ne_nil hds.nonempty
  refine ⟨?_, ?_, fun rest hrest => ?_⟩
  · rw [text, htext]
    simp
  · rw [text, htext]
    intro c hc
    cases hsign : x.isNegative with
    | true =>
      rw [hsign] at hc
      cases hc
      rfl
    | false =>
      rw [hsign] at hc
      cases hc
      exact isBlank_of_isDigit (hds.digits d List.mem_cons_self)
  · rw [hreread]
    exact hscan rest hrest

theorem Number.readable_integer {i : Int} (fits : -2 ^ 63 ≤ i ∧ i < 2 ^ 64) :
    (Number.integer i fits).Readable := by
  refine ⟨?_, ?_, fun rest hrest => scanOne_intText fits hrest⟩
  · simp only [text, intText]
    split
    · simp
    · exact digitsOf_ne_nil _
  · simp only [text, intText]
    split
    · intro c hc
      cases hc
      rfl
    · intro c hc
      exact isBlank_of_isDigit (isDigit_of_mem_digitsOf (List.mem_of_mem_head? hc))

/-- The text of a finite number is read back. -/
theorem Number.readable_of_finite {n : Number} (h : n.Finite) : n.Readable := by
  cases n with
  | integer i fits => exact readable_integer fits
  | float x =>
    obtain ⟨body, hbody, htext⟩ := write_eq h
    exact readable_of_unsigned hbody htext

end GatewayStore.Json
