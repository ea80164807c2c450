import GatewayStore.Clock.Backoff
import Mathlib.Data.List.Induction

/-
  The waiting times of a backoff over any calls, in closed form. A backoff is told by its bounds and by
  how often it was asked since the last reset (`after_ofBounds`). Its count stops at the greatest
  32-bit word, which is long after the doubling does, so the stop does not show in the waiting times
  (`delay_asked`). All durations that 64 bits of seconds can hold keep the doubled milliseconds far
  below 128 bits (`keepsToWords_asked`), so that machine words compute the same waiting time with no
  care for overflow (`toNat_wordDelay`).
-/

namespace GatewayStore

/-- A length of time from its whole seconds and the nanoseconds beyond them. -/
def Duration.ofParts (seconds : UInt64) (beyond : Fin 1000000000) : Duration :=
  ⟨seconds.toNat * 1000000000 + beyond⟩

theorem Duration.millis_ofParts_lt (seconds : UInt64) (beyond : Fin 1000000000) :
    (ofParts seconds beyond).millis < 2 ^ 74 := by
  have hseconds := seconds.toNat_lt
  have hbeyond := beyond.isLt
  simp only [ofParts, millis]
  omega

namespace Backoff

/-- What can be asked of a backoff: the next waiting time, or to start over. -/
inductive Call where
  | next
  | reset
deriving DecidableEq

/-- The state after a call. -/
def afterCall (b : Backoff) : Call → Backoff
  | .next => b.advance
  | .reset => b.reset

/-- The state after some calls. -/
def after (b : Backoff) (calls : List Call) : Backoff := calls.foldl afterCall b

/-- The waiting times in milliseconds that some calls hand out. -/
def delays (b : Backoff) : List Call → List Nat
  | [] => []
  | .next :: later => b.delay :: b.advance.delays later
  | .reset :: later => b.reset.delays later

/-- How many waiting times were handed out since the last reset. -/
def sinceReset (calls : List Call) : Nat := (calls.reverse.takeWhile (· = .next)).length

/-- A backoff that was asked some times since it started over. -/
def asked (initial greatest : Duration) (times : Nat) : Backoff :=
  { ofBounds initial greatest with attempts := min times maxAttempts }

variable {initial greatest : Duration}

/-! ## Runs -/

theorem after_append (b : Backoff) (calls later : List Call) :
    b.after (calls ++ later) = (b.after calls).after later :=
  List.foldl_append

theorem delays_append (b : Backoff) (calls later : List Call) :
    b.delays (calls ++ later) = b.delays calls ++ (b.after calls).delays later := by
  induction calls generalizing b with
  | nil => rfl
  | cons call calls ih =>
    cases call with
    | next => exact congrArg (b.delay :: ·) (ih b.advance)
    | reset => exact ih b.reset

theorem sinceReset_concat_next (calls : List Call) :
    sinceReset (calls ++ [.next]) = sinceReset calls + 1 := by
  simp [sinceReset]

theorem sinceReset_concat_reset (calls : List Call) : sinceReset (calls ++ [.reset]) = 0 := by
  simp [sinceReset]

theorem advance_asked (times : Nat) :
    (asked initial greatest times).advance = asked initial greatest (times + 1) := by
  have hcount : min (min times maxAttempts + 1) maxAttempts = min (times + 1) maxAttempts := by omega
  simp only [advance, asked, hcount]

/-- The state depends on the calls since the last reset alone. -/
theorem after_ofBounds (calls : List Call) :
    (ofBounds initial greatest).after calls = asked initial greatest (sinceReset calls) := by
  induction calls using List.reverseRecOn with
  | nil => rfl
  | append_singleton calls call ih =>
    rw [after_append, ih]
    cases call with
    | next => rw [sinceReset_concat_next, ← advance_asked]; rfl
    | reset => rw [sinceReset_concat_reset]; rfl

/-- Asked again and again, a backoff only counts on. -/
theorem delays_asked_replicate (times more : Nat) :
    (asked initial greatest times).delays (List.replicate more .next) =
      (List.range' times more).map fun n => (asked initial greatest n).delay := by
  induction more generalizing times with
  | zero => rfl
  | succ more ih =>
    rw [List.replicate_succ, delays, advance_asked, ih, List.range'_succ, List.map_cons]

/-! ## One waiting time -/

/-- Neither the stop of the count nor the case of no initial time shows in a waiting time. -/
theorem delay_asked (times : Nat) :
    (asked initial greatest times).delay =
      min (min (initial.millis * 2 ^ min times 31) (max initial.nanos greatest.nanos / 1000000))
        (2 ^ 64 - 1) := by
  have hdoublings : min (min times maxAttempts) maxDoublings = min times 31 := by
    unfold maxAttempts maxDoublings
    omega
  show (if initial.nanos = 0 then 0
    else min (min (initial.millis * 2 ^ min (min times maxAttempts) maxDoublings)
      (max initial.nanos greatest.nanos / 1000000)) maxDelay) = _
  rw [hdoublings]
  split
  · next hzero => simp [Duration.millis, hzero]
  · rfl

theorem delay_asked_mono {times later : Nat} (h : times ≤ later) :
    (asked initial greatest times).delay ≤ (asked initial greatest later).delay := by
  have hpow : 2 ^ min times 31 ≤ 2 ^ min later 31 := Nat.pow_le_pow_right (by decide) (by omega)
  have hscaled := Nat.mul_le_mul_left initial.millis hpow
  rw [delay_asked, delay_asked]
  omega

/-- Between resets the waiting times never get shorter. -/
theorem pairwise_delays_asked (times more : Nat) :
    ((asked initial greatest times).delays (List.replicate more .next)).Pairwise (· ≤ ·) := by
  rw [delays_asked_replicate, List.pairwise_map]
  exact (List.pairwise_lt_range' 1).imp fun hlt => delay_asked_mono (Nat.le_of_lt hlt)

theorem nanos_delay_asked_le (times : Nat) :
    (Duration.ofMillis (asked initial greatest times).delay).nanos ≤
      max initial.nanos greatest.nanos := by
  have hle : (asked initial greatest times).delay ≤ max initial.nanos greatest.nanos / 1000000 := by
    rw [delay_asked]
    omega
  unfold Duration.ofMillis
  dsimp only
  omega

/-- Every waiting time that a run hands out is that of some number of earlier ones. -/
theorem exists_asked_of_mem_delays (times : Nat) {calls : List Call} {d : Nat}
    (h : d ∈ (asked initial greatest times).delays calls) :
    ∃ n, d = (asked initial greatest n).delay := by
  induction calls generalizing times with
  | nil => cases h
  | cons call calls ih =>
    cases call with
    | next =>
      rcases List.mem_cons.1 h with rfl | h
      · exact ⟨times, rfl⟩
      · rw [advance_asked] at h
        exact ih _ h
    | reset => exact ih 0 h

/-! ## Machine words -/

/-- Every number on the way to a waiting time keeps to its machine word: the count has 32 bits, the
milliseconds and their doubling have 128, and the waiting time has 64. -/
structure KeepsToWords (b : Backoff) : Prop where
  attempts_lt : b.attempts < 2 ^ 32
  initial_lt : b.initial.millis < 2 ^ 128
  greatest_lt : b.greatest.millis < 2 ^ 128
  factor_lt : 2 ^ min b.attempts maxDoublings < 2 ^ 128
  scaled_lt : b.initial.millis * 2 ^ min b.attempts maxDoublings < 2 ^ 128
  delay_lt : b.delay < 2 ^ 64

/-- The waiting time as machine words compute it, with no care for overflow. -/
def wordDelay (b : Backoff) : UInt64 :=
  let doublings : UInt32 := if UInt32.ofNat b.attempts ≤ 31 then .ofNat b.attempts else 31
  let scaled : BitVec 128 := .ofNat 128 b.initial.millis * (1#128 <<< doublings.toNat)
  let greatest : BitVec 128 := .ofNat 128 b.greatest.millis
  let capped := if scaled ≤ greatest then scaled else greatest
  let longest : BitVec 128 := .ofNat 128 maxDelay
  .ofBitVec ((if capped ≤ longest then capped else longest).setWidth 64)

theorem keepsToWords_asked {seconds seconds' : UInt64} {beyond beyond' : Fin 1000000000}
    (times : Nat) :
    (asked (.ofParts seconds beyond) (.ofParts seconds' beyond') times).KeepsToWords := by
  have hinitial := Duration.millis_ofParts_lt seconds beyond
  have hgreatest := Duration.millis_ofParts_lt seconds' beyond'
  have hdoublings : min (min times maxAttempts) maxDoublings ≤ 31 := Nat.min_le_right _ _
  have hfactor := Nat.pow_le_pow_right (n := 2) (by decide) hdoublings
  have hscaled := Nat.mul_le_mul (Nat.le_of_lt hinitial) hfactor
  refine ⟨?_, ?_, ?_, ?_, ?_, ?_⟩
  · show min times maxAttempts < 2 ^ 32
    unfold maxAttempts
    omega
  · exact Nat.lt_trans hinitial (by decide)
  · show max (Duration.ofParts seconds beyond).nanos (Duration.ofParts seconds' beyond').nanos /
      1000000 < 2 ^ 128
    unfold Duration.millis at hinitial hgreatest
    omega
  · exact Nat.lt_of_le_of_lt hfactor (by decide)
  · exact Nat.lt_of_le_of_lt hscaled (by decide)
  · rw [delay_asked]
    omega

theorem toNat_lesser (x y : BitVec 128) :
    (if x ≤ y then x else y).toNat = min x.toNat y.toNat := by
  split
  · next hle => exact (Nat.min_eq_left (BitVec.le_def.1 hle)).symm
  · next hgt => exact (Nat.min_eq_right (Nat.le_of_not_le (mt BitVec.le_def.2 hgt))).symm

theorem toNat_wordDelay {b : Backoff} (h : b.KeepsToWords) : b.wordDelay.toNat = b.delay := by
  have hattempts : (UInt32.ofNat b.attempts).toNat = b.attempts :=
    UInt32.toNat_ofNat_of_lt h.attempts_lt
  have hdoublings : (if UInt32.ofNat b.attempts ≤ 31 then UInt32.ofNat b.attempts else 31).toNat =
      min b.attempts maxDoublings := by
    unfold maxDoublings
    split
    · next hle =>
      rw [UInt32.le_iff_toNat_le, hattempts] at hle
      rw [hattempts]
      exact (Nat.min_eq_left hle).symm
    · next hgt =>
      rw [UInt32.le_iff_toNat_le, hattempts] at hgt
      exact (Nat.min_eq_right (Nat.le_of_not_le hgt)).symm
  have hscaled : (BitVec.ofNat 128 b.initial.millis *
      (1#128 <<< min b.attempts maxDoublings)).toNat =
        b.initial.millis * 2 ^ min b.attempts maxDoublings := by
    rw [BitVec.toNat_mul, BitVec.toNat_shiftLeft, BitVec.toNat_ofNat, BitVec.toNat_ofNat,
      Nat.mod_eq_of_lt h.initial_lt, Nat.shiftLeft_eq, Nat.one_mod_two_pow (by decide), Nat.one_mul,
      Nat.mod_eq_of_lt h.factor_lt, Nat.mod_eq_of_lt h.scaled_lt]
  have hword : b.wordDelay.toNat =
      min (min (b.initial.millis * 2 ^ min b.attempts maxDoublings) b.greatest.millis) maxDelay := by
    unfold wordDelay
    dsimp only
    rw [hdoublings, UInt64.toNat_ofBitVec, BitVec.toNat_setWidth, toNat_lesser, toNat_lesser,
      hscaled, BitVec.toNat_ofNat, BitVec.toNat_ofNat, Nat.mod_eq_of_lt h.greatest_lt]
    unfold maxDelay
    omega
  rw [hword, delay]
  split
  · next hzero => simp [Duration.millis, hzero]
  · rfl

/-! ## The waiting times -/

/-- The waiting times for all bounds that 64 bits of seconds can hold, and all calls. After `k` waiting
times since the last reset the next one is the initial time doubled `k` times, 31 times at most, and
cut to the greater bound and to 64 bits, all in whole milliseconds. Between resets the waiting times
never get shorter; none is longer than the greater bound; a reset starts over; and no machine word on
the way overflows. -/
theorem delays_exact (seconds seconds' : UInt64) (beyond beyond' : Fin 1000000000)
    (calls : List Call) :
    let initial := Duration.ofParts seconds beyond
    let greatest := Duration.ofParts seconds' beyond'
    let b := ofBounds initial greatest
    b.delays (calls ++ [.next]) = b.delays calls ++
        [min (min (initial.millis * 2 ^ min (sinceReset calls) 31)
          (max initial.nanos greatest.nanos / 1000000)) (2 ^ 64 - 1)] ∧
      (∀ more, ((b.after calls).delays (List.replicate more .next)).Pairwise (· ≤ ·)) ∧
      (∀ d ∈ b.delays calls,
        (Duration.ofMillis d).nanos ≤ max initial.nanos greatest.nanos) ∧
      (∀ later, b.delays (calls ++ .reset :: later) = b.delays calls ++ b.delays later) ∧
      (b.after calls).attempts = min (sinceReset calls) maxAttempts ∧
      (b.after calls).KeepsToWords ∧ (b.after calls).wordDelay.toNat = (b.after calls).delay := by
  intro initial greatest b
  have hafter : b.after calls = asked initial greatest (sinceReset calls) := after_ofBounds calls
  have hwords : (b.after calls).KeepsToWords := by
    rw [hafter]
    exact keepsToWords_asked _
  refine ⟨?_, fun more => ?_, fun d hd => ?_, fun later => ?_, ?_, hwords, toNat_wordDelay hwords⟩
  · rw [delays_append, hafter, ← delay_asked]
    rfl
  · rw [hafter]
    exact pairwise_delays_asked _ more
  · obtain ⟨n, rfl⟩ := exists_asked_of_mem_delays 0 hd
    exact nanos_delay_asked_le n
  · rw [delays_append, hafter]
    rfl
  · rw [hafter]
    rfl

/-- The initial time is a little less than `2 ^ 63` milliseconds and the greatest is as long as a
duration can be, so the third waiting time is cut to 64 bits. -/
theorem delays_exact_longest :
    let b := ofBounds (.ofParts 9223372036854775 807999999)
      (.ofParts 18446744073709551615 999999999)
    let calls := [Call.next, .next, .next, .reset]
    b.delays (calls ++ [.next]) = [2 ^ 63 - 1, 2 ^ 64 - 2, 2 ^ 64 - 1, 2 ^ 63 - 1] ∧
      2 ^ 64 - 1 ∈ b.delays calls ∧
      (Duration.ofMillis (2 ^ 64 - 1)).nanos ≤ 18446744073709551615999999999 := by
  intro b calls
  obtain ⟨hnext, -, hgreatest, -⟩ := delays_exact 9223372036854775 18446744073709551615 807999999
    999999999 calls
  have hmem : 2 ^ 64 - 1 ∈ b.delays calls := by decide +kernel
  refine ⟨hnext.trans (by decide +kernel), hmem, hgreatest _ hmem⟩

end Backoff

end GatewayStore
