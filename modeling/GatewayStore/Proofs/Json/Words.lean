import GatewayStore.Json.Printer
import GatewayStore.Json.Reader
import Mathlib.Data.List.Basic
import Mathlib.Data.List.TakeDrop

/-
  The words of printed JSON are read back. Digits come first, then strings with their escapes and the
  three shapes of numbers. `Scans` says which tokens a text has, without the fuel of the scanner
  (`Scans.scan_eq`).
-/

namespace GatewayStore

/-! ## Digits -/

theorem isDigit_of_mem_digitsOf {n : Nat} {c : Char} (h : c ∈ digitsOf n) : c.isDigit = true :=
  Nat.isDigit_of_mem_toDigits (by omega) (by omega) h

theorem digitsOf_ne_nil (n : Nat) : digitsOf n ≠ [] := Nat.toDigits_ne_nil

/-- Only zero starts with a zero. -/
theorem head?_digitsOf_ne {n : Nat} (h : 0 < n) : (digitsOf n).head? ≠ some '0' := by
  unfold digitsOf
  induction n using Nat.strongRecOn with
  | ind n ih =>
    rw [Nat.toDigits_eq_if (by omega)]
    split
    · simp only [List.head?_cons, ne_eq, Option.some.injEq, Nat.digitChar_eq_zero]
      omega
    · rw [List.head?_append_of_ne_nil _ Nat.toDigits_ne_nil]
      exact ih (n / 10) (by omega) (by omega)

/-- A number has at most `k` digits if it is below the power of ten. -/
theorem length_digitsOf_le_iff {n k : Nat} (hk : 0 < k) : (digitsOf n).length ≤ k ↔ n < 10 ^ k :=
  Nat.length_toDigits_le_iff (by omega) hk

namespace Json.Token

/-- Digits that do not follow a zero at the start. -/
structure Whole (ds : List Char) : Prop where
  digits : ∀ c ∈ ds, c.isDigit = true
  nonempty : ds ≠ []
  canonical : ds.head? = some '0' → ds.length ≤ 1

theorem whole_digitsOf (n : Nat) : Whole (digitsOf n) := by
  refine ⟨fun c => isDigit_of_mem_digitsOf, digitsOf_ne_nil n, fun h => ?_⟩
  rcases Nat.eq_zero_or_pos n with rfl | hpos
  · exact Nat.le_refl _
  · exact absurd h (head?_digitsOf_ne hpos)

theorem le_ofDigitChars (n : Nat) (cs : List Char) : n ≤ Nat.ofDigitChars 10 cs n := by
  rw [Nat.ofDigitChars_eq_ofDigitChars_zero]
  have hpos : 0 < 10 ^ cs.length := Nat.pow_pos (by omega)
  exact Nat.le_add_right_of_le (Nat.le_mul_of_pos_left n hpos)

/-- All digits are read as long as their number is below the limit. -/
theorem accumulate_of_lt {limit n : Nat} {cs : List Char} (h : Nat.ofDigitChars 10 cs n < limit) :
    accumulate limit n cs = (Nat.ofDigitChars 10 cs n, []) := by
  induction cs generalizing n with
  | nil => rfl
  | cons c cs ih =>
    have hnext : n * 10 + (c.toNat - '0'.toNat) = 10 * n + (c.toNat - '0'.toNat) := by omega
    rw [Nat.ofDigitChars_cons] at h ⊢
    have hlt := Nat.lt_of_le_of_lt (le_ofDigitChars _ cs) h
    unfold accumulate
    rw [hnext]
    dsimp only
    rw [if_pos hlt]
    exact ih h

/-- A number below the limit is read in full. -/
theorem accumulate_digitsOf {limit n : Nat} (h : n < limit) :
    accumulate limit 0 (digitsOf n) = (n, []) := by
  have hvalue : Nat.ofDigitChars 10 (digitsOf n) 0 = n := Nat.ofDigitChars_ten_toDigits
  have hread := accumulate_of_lt (show Nat.ofDigitChars 10 (digitsOf n) 0 < limit by rwa [hvalue])
  rwa [hvalue] at hread

/-! ## Numbers -/

/-- No number goes on with this text. -/
def StopsNumber (s : List Char) : Prop :=
  ∀ c ∈ s.head?, c.isDigit = false ∧ c ≠ '.' ∧ c ≠ 'e' ∧ c ≠ 'E'

theorem span_digits {ds rest : List Char} (hds : ∀ c ∈ ds, c.isDigit = true)
    (hrest : ∀ c ∈ rest.head?, c.isDigit = false) :
    (ds ++ rest).span Char.isDigit = (ds, rest) := by
  rw [List.span_eq_takeWhile_dropWhile, List.takeWhile_append_of_pos hds,
    List.dropWhile_append_of_pos hds]
  cases rest with
  | nil => simp
  | cons c rest =>
    have hc := hrest c rfl
    simp [hc]

theorem Whole.not_refused {ds : List Char} (h : Whole ds) :
    ¬(ds.isEmpty = true ∨ ds.head? = some '0' ∧ 1 < ds.length) := by
  rintro (hempty | ⟨hzero, hlong⟩)
  · exact h.nonempty (List.isEmpty_iff.1 hempty)
  · have := h.canonical hzero
    omega

/-- A number without places and exponent. -/
theorem scanUnsigned_whole {negative : Bool} {ds rest : List Char} (hds : Whole ds)
    (hrest : StopsNumber rest) :
    scanUnsigned negative (ds ++ rest) = (wholeNumber? negative ds).map fun n => (n, rest) := by
  unfold scanUnsigned
  rw [span_digits hds.digits fun c hc => (hrest c hc).1]
  dsimp only
  rw [if_neg hds.not_refused]
  cases rest with
  | nil => rfl
  | cons c rest =>
    obtain ⟨-, hdot, he, hE⟩ := hrest c rfl
    simp [hdot, he, hE]

/-- A number with places and no exponent. -/
theorem scanUnsigned_places {negative : Bool} {ds ps rest : List Char} (hds : Whole ds)
    (hps : ∀ c ∈ ps, c.isDigit = true) (hne : ps ≠ []) (hrest : StopsNumber rest) :
    scanUnsigned negative (ds ++ '.' :: (ps ++ rest)) =
      (fraction? negative ds ps none).map fun n => (n, rest) := by
  unfold scanUnsigned
  rw [span_digits hds.digits (by simp [Char.isDigit])]
  dsimp only
  rw [if_neg hds.not_refused]
  have hspan := span_digits hps fun c hc => (hrest c hc).1
  generalize ps ++ rest = s at hspan
  obtain ⟨p, ps, rfl⟩ := List.exists_cons_of_ne_nil hne
  cases rest with
  | nil => simp [hspan, -List.span_eq_takeWhile_dropWhile]
  | cons c rest =>
    obtain ⟨-, -, he, hE⟩ := hrest c rfl
    simp [hspan, he, hE, -List.span_eq_takeWhile_dropWhile]

theorem scanExponent_digits (negative : Bool) {es rest : List Char}
    (hes : ∀ c ∈ es, c.isDigit = true) (hne : es ≠ [])
    (hrest : ∀ c ∈ rest.head?, c.isDigit = false) :
    scanExponent ((if negative then '-' else '+') :: (es ++ rest)) = some ((negative, es), rest) := by
  unfold scanExponent
  have hspan := span_digits hes hrest
  generalize es ++ rest = s at hspan
  obtain ⟨e, es, rfl⟩ := List.exists_cons_of_ne_nil hne
  cases negative <;> simp [hspan, -List.span_eq_takeWhile_dropWhile]

/-- A number with an exponent, and perhaps with places. -/
theorem scanUnsigned_exponent (negative negativeExponent : Bool) {ds ps es rest : List Char}
    (hds : Whole ds) (hps : ∀ c ∈ ps, c.isDigit = true) (hes : ∀ c ∈ es, c.isDigit = true)
    (hne : es ≠ []) (hrest : StopsNumber rest) :
    scanUnsigned negative (ds ++ ((if ps = [] then [] else '.' :: ps) ++
        'e' :: (if negativeExponent then '-' else '+') :: (es ++ rest))) =
      (fraction? negative ds ps (some (negativeExponent, es))).map fun n => (n, rest) := by
  have hexp := scanExponent_digits negativeExponent hes hne
    fun c hc => (hrest c hc).1
  generalize (if negativeExponent then '-' else '+') :: (es ++ rest) = s at hexp
  have hletter : ∀ c ∈ ('e' :: s).head?, c.isDigit = false := by simp [Char.isDigit]
  unfold scanUnsigned
  cases ps with
  | nil =>
    rw [if_pos rfl, List.nil_append, span_digits hds.digits hletter]
    dsimp only
    rw [if_neg hds.not_refused]
    simp [hexp]
  | cons p ps =>
    have hspan := span_digits hps hletter
    generalize htext : p :: ps ++ 'e' :: s = s' at hspan
    rw [if_neg (List.cons_ne_nil p ps), List.cons_append, htext,
      span_digits hds.digits (by simp [Char.isDigit])]
    dsimp only
    rw [if_neg hds.not_refused]
    simp [hspan, hexp, -List.span_eq_takeWhile_dropWhile]

/-- A sign and a number after it. -/
theorem scanOne_number {negative : Bool} {ds rest : List Char} (hds : Whole ds) :
    scanOne ((if negative then ['-'] else []) ++ (ds ++ rest)) =
      (scanUnsigned negative (ds ++ rest)).map fun p => (.number p.1, p.2) := by
  cases negative with
  | true => rfl
  | false =>
    obtain ⟨d, ds', rfl⟩ := List.exists_cons_of_ne_nil hds.nonempty
    have hd := hds.digits d List.mem_cons_self
    generalize htext : d :: ds' ++ rest = s
    have hhead : s.head? = some d := by rw [← htext]; rfl
    simp only [Bool.false_eq_true, if_false, List.nil_append]
    unfold scanOne
    split <;> first | rfl | (cases hhead; cases hd)

/-! ## Strings -/

theorem hexValue?_hexDigit : ∀ n < 16, hexValue? (hexDigit n) = some n := by
  decide

theorem scanString_escape (c : Char) (rest : List Char) :
    scanString (escape c ++ rest) = (scanString rest).map fun p => (c :: p.1, p.2) := by
  have hchar {n : Nat} (h : c.toNat = n) : Char.ofNat n = c := by
    rw [← h, Char.ofNat_toNat]
  unfold escape
  split
  · next h => subst h; simp [scanString, simpleEscape?]
  split
  · next h => subst h; simp [scanString, simpleEscape?]
  split
  · next hcontrol =>
    split
    · next h => rw [← hchar h]; simp [scanString, simpleEscape?]
    split
    · next h => rw [← hchar h]; simp [scanString, simpleEscape?]
    split
    · next h => rw [← hchar h]; simp [scanString, simpleEscape?]
    split
    · next h => rw [← hchar h]; simp [scanString, simpleEscape?]
    split
    · next h => rw [← hchar h]; simp [scanString, simpleEscape?]
    · have hhigh := hexValue?_hexDigit (c.toNat / 16) (by omega)
      have hlow := hexValue?_hexDigit (c.toNat % 16) (by omega)
      have hzero : hexValue? '0' = some 0 := by decide
      have hvalue : (0 * 16 + 0) * 16 + c.toNat / 16 = c.toNat / 16 := by omega
      have hquad : hexQuad? '0' '0' (hexDigit (c.toNat / 16)) (hexDigit (c.toNat % 16)) =
          some c.toNat := by
        simp only [hexQuad?, hzero, hhigh, hlow]
        congr 1
        omega
      have hsurrogate : isHighSurrogate c.toNat = false ∧ isLowSurrogate c.toNat = false := by
        simp only [isHighSurrogate, isLowSurrogate, Bool.and_eq_false_iff, decide_eq_false_iff_not]
        omega
      simp [scanString, hquad, hsurrogate, Char.ofNat_toNat]
  · next hquote hslash hcontrol =>
    have hplain : ¬(c.toNat < 32 ∨ c = '\\') := by
      rintro (h | h)
      · exact hcontrol h
      · exact hslash h
    rw [List.singleton_append, scanString.eq_def]
    split
    · next heq => cases heq
    · next heq => exact absurd (List.cons.inj heq).1 hquote
    · next heq => exact absurd (List.cons.inj heq).1 hslash
    · next heq => exact absurd (List.cons.inj heq).1 hslash
    · next heq =>
      cases heq
      rw [if_neg hplain]

theorem scanString_quote (cs rest : List Char) :
    scanString (cs.flatMap escape ++ '"' :: rest) = some (cs, rest) := by
  induction cs with
  | nil => simp [scanString]
  | cons c cs ih =>
    rw [List.flatMap_cons, List.append_assoc, scanString_escape, ih]
    rfl

theorem scanOne_quote (s : String) (rest : List Char) :
    scanOne (quote s ++ rest) = some (.string s, rest) := by
  unfold quote
  rw [List.cons_append, List.append_assoc, List.singleton_append]
  simp [scanOne, scanString_quote]

/-! ## Integers -/

theorem scanOne_intText {i : Int} (fits : -2 ^ 63 ≤ i ∧ i < 2 ^ 64) {rest : List Char}
    (hrest : StopsNumber rest) :
    scanOne (intText i ++ rest) = some (.number (.integer i fits), rest) := by
  have hparts : ∃ negative n, intText i = (if negative then ['-'] else []) ++ digitsOf n ∧
      i = (if negative then -n else n) ∧ (negative = true → n ≠ 0) := by
    unfold intText
    split
    · exact ⟨true, i.natAbs, rfl, by rw [if_pos rfl]; omega, by omega⟩
    · exact ⟨false, i.toNat, rfl, by rw [if_neg (by decide)]; omega, nofun⟩
  obtain ⟨negative, n, htext, hvalue, hzero⟩ := hparts
  rw [htext, List.append_assoc, scanOne_number (whole_digitsOf n),
    scanUnsigned_whole (whole_digitsOf n) hrest]
  unfold wholeNumber?
  have hlt : n < 2 ^ 64 := by
    cases negative <;> simp at hvalue <;> omega
  rw [accumulate_digitsOf hlt]
  have hi : (if negative = true then -(n : Int) else n) = i := hvalue.symm
  have hcond : -2 ^ 63 ≤ i ∧ i < 2 ^ 64 ∧ ¬(negative = true ∧ n = 0) :=
    ⟨fits.1, fits.2, fun h => hzero h.1 h.2⟩
  simp only [List.isEmpty_nil, if_true, hi, hcond, dif_pos, not_false_eq_true, and_self]
  rfl

/-! ## Texts -/

/-- A text is a row of words, each of which is the next token. -/
inductive Scans : List Char → List Token → Prop
  | done : Scans [] []
  | word {w rest : List Char} {t : Token} {ts : List Token} (hne : w ≠ [])
    (hblank : ∀ c ∈ w.head?, isBlank c = false) (hone : scanOne (w ++ rest) = some (t, rest))
    (hrest : Scans rest ts) : Scans (w ++ rest) (t :: ts)

theorem Scans.scanFrom_eq {s : List Char} {ts : List Token} (h : Scans s ts) {fuel : Nat}
    (hfuel : s.length ≤ fuel) : scanFrom fuel s = some ts := by
  induction h generalizing fuel with
  | done => cases fuel <;> rfl
  | @word w rest t ts hne hblank hone _ ih =>
    obtain ⟨c, w, rfl⟩ := List.exists_cons_of_ne_nil hne
    have hlen : (c :: w ++ rest).length = w.length + rest.length + 1 := by simp
    cases fuel with
    | zero => omega
    | succ fuel =>
      rw [List.cons_append] at hone ⊢
      unfold scanFrom
      rw [if_neg (by simp [hblank c rfl]), hone]
      dsimp only
      rw [ih (by omega)]
      rfl

theorem Scans.scan_eq {s : List Char} {ts : List Token} (h : Scans s ts) : scan s = some ts :=
  h.scanFrom_eq (Nat.le_refl _)

end Json.Token

end GatewayStore
