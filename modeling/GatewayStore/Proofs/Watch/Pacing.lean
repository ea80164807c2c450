import GatewayStore.Proofs.Watch.Retry

/-
  How a watch loop is slowed down when its attempts fail. Two balances are kept by every reaction. What
  has to be waited for and what was waited for differ by the wait that is going on (`owed`), so that at
  every attempt the account is even. And the calls that a loop has made, with those that it may still
  make before it has to wait (`callsLeft`), are paid for two by two: by the start, by the waits, and by
  the compactions, for the loop does not wait after a compaction. `attempts_paced` has both for every
  run. A backend that answers each attempt with a compaction therefore keeps the loop calling with no
  wait at all (`compactions_unpaced`).
-/

namespace GatewayStore

namespace Occurrence

def isWatchFailure : Occurrence → Bool
  | .watchFailed _ => true
  | _ => false

def isRelistFailure : Occurrence → Bool
  | .relistFailed _ => true
  | _ => false

/-- A failed stream whose place in the history is lost. -/
def isCompaction : Occurrence → Bool
  | .watchFailed cause => cause.requiresRelist
  | _ => false

variable {log : List Occurrence}

/-- Without failed streams only failed listings have to be waited for. -/
theorem countP_needsWait (h : ∀ o ∈ log, o.isWatchFailure = false) :
    log.countP needsWait = log.countP isRelistFailure := by
  refine List.countP_congr fun o ho => ?_
  have hnot := h o ho
  cases o with
  | watchFailed cause => cases hnot
  | _ => rfl

end Occurrence

open Occurrence

namespace WatchSettings

variable {settings : WatchSettings}

/-- The initial delay is the least. -/
theorem backoffInitial_le_delayAfter (settings : WatchSettings) (earlier : Nat) :
    settings.backoffInitial ≤ settings.delayAfter earlier := by
  have hgrown : settings.backoffInitial ≤ settings.backoffInitial * 2 ^ min earlier 31 :=
    Nat.le_mul_of_pos_right _ (Nat.two_pow_pos _)
  unfold delayAfter
  omega

end WatchSettings

namespace WatchLoop

/-- Whether a loop makes a call on its way to another state: there it waits for an answer for which
it did not wait before. -/
def asks (w w' : WatchLoop) : Bool := w'.request?.isSome && w'.stage ≠ w.stage

/-- How many calls to the store a loop makes on some signals. -/
def callCount (w : WatchLoop) : List Signal → Nat
  | [] => 0
  | s :: later => (if w.asks (w.react s) then 1 else 0) + (w.react s).callCount later

/-- How many calls a loop may still make before it has to wait or is told of a compaction. -/
def callsLeft : Stage → Nat
  | .ready => 2
  | .listing => 1
  | _ => 0

/-- The wait that is going on. -/
def owed : Stage → Nat
  | .waiting _ => 1
  | _ => 0

variable {w w' : WatchLoop} {s : Signal} {o : Option Occurrence}

/-! ## Single reactions -/

namespace Transition

theorem settings_eq (ht : w.Transition s o w') : w'.settings = w.settings := by
  cases ht with
  | received _ _ events =>
    rw [applyBatch_eq]
    rfl
  | refused | broken | ended =>
    unfold interrupted
    dsimp only
    split <;> rfl
  | _ => rfl

/-- What a reaction does to the backoff. -/
theorem backoff_cases (ht : w.Transition s o w') : w'.backoff = w.backoff ∨
    w'.backoff = w.backoff.advance ∨ w'.backoff = w.backoff.reset ∨
    w'.backoff = w.settings.backoff := by
  cases ht with
  | started => exact .inr (.inr (.inr rfl))
  | relisted => exact .inr (.inr (.inl rfl))
  | relistFailed => exact .inr (.inl rfl)
  | received _ _ events =>
    rw [applyBatch_eq]
    exact .inr (.inr (.inl rfl))
  | refused | broken | ended =>
    unfold interrupted
    dsimp only
    split
    · exact .inl rfl
    · exact .inr (.inl rfl)
  | _ => exact .inl rfl

/-- A wait that begins is as long as the backoff says. -/
theorem delay_cases (ht : w.Transition s o w') {delay : Nat} (hstage : w'.stage = .waiting delay) :
    w.stage = .waiting delay ∨ delay = w.backoff.delay := by
  cases ht with
  | ignored => exact .inl hstage
  | relistFailed =>
    cases hstage
    exact .inr rfl
  | received _ _ events =>
    have hkept : (w.applyBatch events).recover.stage = w.stage := stage_applyBatch w events
    exact .inl (hkept ▸ hstage)
  | refused | broken | ended =>
    rw [stage_interrupted] at hstage
    split at hstage <;> cases hstage
    exact .inr rfl
  | _ => cases hstage

theorem stage_of_waited {delay : Nat} (ht : w.Transition s (some (.waited delay)) w') :
    w.stage = .waiting delay := by
  cases ht with
  | woke _ hstage => exact hstage

/-- An attempt that fails was under way. -/
theorem stage_of_watchFailed {cause : Failure} (ht : w.Transition s (some (.watchFailed cause)) w') :
    w.stage = .opening ∨ ∃ stream, w.stage = .streaming stream := by
  cases ht with
  | refused hstage _ => exact .inl hstage
  | broken stream hstage _ => exact .inr ⟨stream, hstage⟩
  | ended stream hstage => exact .inr ⟨stream, hstage⟩

/-- A loop that was stopped stays so. -/
theorem stopped_of_stopped (ht : w.Transition s o w') (h : w.stage = .stopped) :
    w'.stage = .stopped ∧ o = none := by
  cases ht with
  | ignored => exact ⟨h, rfl⟩
  | stopped _ => exact ⟨rfl, rfl⟩
  | _ => simp [h] at *

/-- While a loop runs, what has to be waited for is what it waited for, up to the wait that is going
on. -/
theorem owed_add (ht : w.Transition s o w') (hruns : w'.stage ≠ .stopped) :
    owed w.stage + o.toList.countP needsWait = o.toList.countP isWait + owed w'.stage := by
  cases ht with
  | ignored => simp
  | received _ hstage events =>
    have hkept : (w.applyBatch events).recover.stage = w.stage := stage_applyBatch w events
    rw [hkept]
    simp [needsWait, isWait]
  | refused hstage cause | broken _ hstage cause =>
    rw [stage_interrupted, hstage]
    cases hcause : cause.requiresRelist <;> simp [owed, needsWait, isWait, hcause]
  | ended _ hstage =>
    rw [stage_interrupted, hstage]
    rfl
  | stopped _ => exact absurd rfl hruns
  | synced hstage _ | syncFailed hstage _ | started hstage | asksListing hstage _ | asksStream hstage _
  | relisted hstage _ | relistFailed hstage _ | subscribed hstage _ | woke _ hstage =>
    rw [hstage]
    rfl

/-- A call is one of those that the loop could still make, and only the end of a wait and a compaction
allow for new ones. -/
theorem asks_add_callsLeft_le (ht : w.Transition s o w') (hruns : w.Runs) :
    (if w.asks w' then 1 else 0) + callsLeft w'.stage ≤
      callsLeft w.stage + 2 * (o.toList.countP isWait + o.toList.countP isCompaction) := by
  have hsame (h : w'.stage = w.stage) : w.asks w' = false := by simp [asks, h]
  have hnone (h : w'.request? = none) : w.asks w' = false := by simp [asks, h]
  have hone : (if w.asks w' then 1 else 0) ≤ 1 := by split <;> decide
  cases ht with
  | ignored => simp [hsame rfl]
  | synced hstage _ | syncFailed hstage _ => exact absurd hstage hruns.1
  | started hstage => exact absurd hstage hruns.2
  | received _ _ events =>
    have hkept : (w.applyBatch events).recover.stage = w.stage := stage_applyBatch w events
    rw [hsame hkept, hkept]
    simp
  | refused hstage cause | broken _ hstage cause =>
    -- only a compaction brings new calls
    have hcall : (w.interrupted cause).request? = none := by
      unfold request?
      rw [stage_interrupted]
      cases cause.requiresRelist <;> rfl
    rw [hnone hcall, stage_interrupted]
    cases hcause : cause.requiresRelist <;> simp [callsLeft, isWait, isCompaction, hcause]
  | ended _ hstage =>
    have hcall : (w.interrupted (.storeUnavailable .streamEnded)).request? = none := by
      unfold request?
      rw [stage_interrupted]
      rfl
    rw [hnone hcall, stage_interrupted]
    exact Nat.zero_le _
  | asksStream hstage _ | relisted hstage _ =>
    rw [hstage]
    exact Nat.le_trans (Nat.add_le_add_right hone 0) (by simp [callsLeft])
  | asksListing hstage _ | relistFailed hstage _ | subscribed hstage _ | woke _ hstage =>
    simp [asks, request?, hstage, callsLeft, isWait, isCompaction, pause]
  | stopped _ => simp [asks, request?, stop, callsLeft]

end Transition

/-! ## The account -/

/-- At every attempt that failed, the waits before it are as many as were needed. -/
def Even (log : List Occurrence) : Prop :=
  ∀ later cause earlier, log = later ++ .watchFailed cause :: earlier →
    earlier.countP isWait = earlier.countP needsWait

/-- What holds of a running loop and of what occurred, the latest first. -/
structure Paced (settings : WatchSettings) (w : WatchLoop) (log : List Occurrence) : Prop where
  settings_eq : w.settings = settings
  backoff_eq : ∃ earlier, w.backoff = settings.backoffAfter earlier
  balance : w.stage = .stopped ∨ log.countP needsWait = log.countP isWait + owed w.stage
  delay : ∀ delay, w.stage = .waiting delay → settings.backoffInitial ≤ delay
  delays : ∀ delay, .waited delay ∈ log → settings.backoffInitial ≤ delay
  even : Even log

namespace Paced

variable {settings : WatchSettings} {log : List Occurrence}

theorem start (hidle : w.stage = .idle) : Paced w.settings (w.react .start) [] := by
  have hstage : (w.react .start).stage = .ready := by simp only [react, hidle]
  refine ⟨?_, ⟨0, ?_⟩, .inr ?_, fun delay h => ?_, fun delay h => ?_, fun later cause earlier h => ?_⟩
  · simp only [react, hidle]
  · simp only [react, hidle]
    rfl
  · rw [hstage]
    rfl
  · rw [hstage] at h
    cases h
  · cases h
  · cases later <;> cases h

theorem step (h : w.Paced settings log) (hfits : settings.Fits) (ht : w.Transition s o w') :
    w'.Paced settings (o.toList ++ log) := by
  obtain ⟨hsettings, ⟨earlier, hbackoff⟩, hbalance, hdelay, hdelays, heven⟩ := h
  refine ⟨ht.settings_eq.trans hsettings, ?_, ?_, fun delay hstage => ?_, fun delay hmem => ?_, ?_⟩
  · rcases ht.backoff_cases with hb | hb | hb | hb
    · exact ⟨earlier, hb.trans hbackoff⟩
    · exact ⟨earlier + 1, by rw [hb, hbackoff, WatchSettings.advance_backoffAfter]⟩
    · exact ⟨0, by rw [hb, hbackoff, WatchSettings.reset_backoffAfter]⟩
    · exact ⟨0, by rw [hb, hsettings]; rfl⟩
  · by_cases hstopped : w'.stage = .stopped
    · exact .inl hstopped
    · right
      have howed := ht.owed_add hstopped
      have hbefore := hbalance.resolve_left fun hs => hstopped (ht.stopped_of_stopped hs).1
      simp only [List.countP_append]
      omega
  · rcases ht.delay_cases hstage with hold | rfl
    · exact hdelay delay hold
    · rw [hbackoff, WatchSettings.delay_backoffAfter hfits]
      exact settings.backoffInitial_le_delayAfter earlier
  · rcases List.mem_append.1 hmem with hnew | hold
    · obtain rfl := Option.mem_toList.1 hnew
      exact hdelay delay ht.stage_of_waited
    · exact hdelays delay hold
  · intro later cause earlier heq
    cases o with
    | none => exact heven later cause earlier heq
    | some last =>
      cases later with
      | cons last' later =>
        cases heq
        exact heven later cause earlier rfl
      | nil =>
        -- the attempt that has just failed
        cases heq
        have hstage := ht.stage_of_watchFailed
        have hbefore := hbalance.resolve_left fun hs => by
          rcases hstage with h | ⟨stream, h⟩ <;> rw [hs] at h <;> cases h
        rcases hstage with h | ⟨stream, h⟩ <;> rw [h] at hbefore <;> exact hbefore.symm

theorem run (h : w.Paced settings log) (hfits : settings.Fits) (signals : List Signal) :
    (w.after signals).Paced settings (w.occurrences signals ++ log) := by
  induction signals generalizing w log with
  | nil => exact h
  | cons s later ih =>
    have hnext := ih (h.step hfits (w.transition_react s))
    rwa [← List.append_assoc] at hnext

end Paced

/-- The calls of a run, with those that are left at its end, are paid for. -/
theorem callCount_add_callsLeft_le (hruns : w.Runs) (signals : List Signal) :
    w.callCount signals + callsLeft (w.after signals).stage ≤ callsLeft w.stage +
      2 * ((w.occurrences signals).countP isWait + (w.occurrences signals).countP isCompaction) := by
  induction signals generalizing w with
  | nil => simp [callCount, after]
  | cons s later ih =>
    have ht := w.transition_react s
    have hfirst := ht.asks_add_callsLeft_le hruns
    have hlater := ih (ht.runs hruns)
    simp only [callCount, occurrences, List.countP_append]
    have hafter : w.after (s :: later) = (w.react s).after later := rfl
    rw [hafter]
    omega

/-! ## The main result -/

/-- Attempts are paced, except after a compaction. Between a failed attempt of a stream and the next one
that fails, the loop waits once for each failed listing, and once more if the first attempt did not
fail with a compaction. No wait is shorter than the initial delay. And every two calls to the store
are paid for by the start, by a wait or by a compaction. -/
theorem attempts_paced (w : WatchLoop) (hidle : w.stage = .idle) (hfits : w.settings.Fits)
    (signals : List Signal) :
    let started := w.react .start
    let log := started.occurrences signals
    (∀ later second between first earlier,
      log = later ++ .watchFailed second :: (between ++ .watchFailed first :: earlier) →
      (∀ o ∈ between, o.isWatchFailure = false) →
      between.countP isWait =
        between.countP isRelistFailure + if first.requiresRelist then 0 else 1) ∧
    (∀ delay, .waited delay ∈ log → w.settings.backoffInitial ≤ delay) ∧
    started.callCount signals ≤ 2 * (1 + log.countP isWait + log.countP isCompaction) := by
  intro started log
  have hpaced := (Paced.start hidle).run hfits signals
  rw [List.append_nil] at hpaced
  have hstage : started.stage = .ready := by
    show (w.react .start).stage = .ready
    simp only [react, hidle]
  refine ⟨?_, hpaced.delays, ?_⟩
  · intro later second between first earlier heq hbetween
    have hsecond := hpaced.even later second _ heq
    have hfirst := hpaced.even (later ++ .watchFailed second :: between) first earlier (by
      show log = _
      rw [heq]
      simp)
    have hneeds := countP_needsWait hbetween
    simp only [List.countP_append, List.countP_cons] at hsecond
    cases hcause : first.requiresRelist <;>
      simp only [needsWait, isWait, hcause, Bool.not_true, Bool.not_false, if_true, if_false,
        Bool.false_eq_true] at hsecond ⊢ <;> omega
  · have hcalls := callCount_add_callsLeft_le (w := started) ⟨by simp [hstage], by simp [hstage]⟩ signals
    have hleft : callsLeft started.stage = 2 := by rw [hstage]; rfl
    show started.callCount signals ≤ 2 * (1 + (started.occurrences signals).countP isWait +
      (started.occurrences signals).countP isCompaction)
    omega

/-- A loop after the first listing fails to open a stream and waits, is told of a compaction, fails to
list the keys and waits again, and then fails to open the next stream. -/
def pacedFailures : List Signal :=
  [.proceed, .opened (.error (.storeUnavailable .offline)), .elapsed, .proceed, .opened (.ok 0),
    .delivered (some (.failed (.streamCompacted 8 9))), .proceed,
    .listed (.error (.storeUnavailable .offline)), .elapsed, .proceed, .listed (.ok ⟨[], 9⟩),
    .opened (.error (.storeUnavailable .offline))]

theorem attempts_paced_failures :
    listedOnce.stage = .idle ∧ listedOnce.settings.Fits ∧
      ∃ between earlier, (listedOnce.react .start).occurrences pacedFailures =
          .watchFailed (.storeUnavailable .offline) :: (between ++
            .watchFailed (.streamCompacted 8 9) :: earlier) ∧
        between.countP isWait = 1 ∧ (∀ delay, .waited delay ∈ between → 100 ≤ delay) ∧
        (listedOnce.react .start).callCount pacedFailures ≤ 8 := by
  have hidle : listedOnce.stage = .idle := by decide +kernel
  have hfits : listedOnce.settings.Fits :=
    ⟨by decide +kernel, by decide +kernel, by decide +kernel⟩
  have hlog : (listedOnce.react .start).occurrences pacedFailures =
      [.watchFailed (.storeUnavailable .offline), .relisted, .waited 200,
        .relistFailed (.storeUnavailable .offline), .watchFailed (.streamCompacted 8 9), .waited 100,
        .watchFailed (.storeUnavailable .offline)] := by decide +kernel
  obtain ⟨hcount, hdelays, hcalls⟩ := attempts_paced listedOnce hidle hfits pacedFailures
  refine ⟨hidle, hfits, [.relisted, .waited 200, .relistFailed (.storeUnavailable .offline)],
    [.waited 100, .watchFailed (.storeUnavailable .offline)], hlog, ?_, fun delay hmem => ?_, ?_⟩
  · exact hcount [] _ [.relisted, .waited 200, .relistFailed (.storeUnavailable .offline)] _ _ hlog
      (by decide)
  · refine hdelays delay ?_
    rw [hlog]
    simp only [List.mem_cons] at hmem ⊢
    tauto
  · rw [hlog] at hcalls
    exact hcalls

/-! ## Compactions -/

theorem occurrences_append (w : WatchLoop) (l l' : List Signal) :
    w.occurrences (l ++ l') = (w.after l).occurrences l' ++ w.occurrences l := by
  induction l generalizing w with
  | nil => simp [occurrences, after]
  | cons s l ih =>
    rw [List.cons_append, occurrences, ih, occurrences, List.append_assoc]
    rfl

theorem callCount_append (w : WatchLoop) (l l' : List Signal) :
    w.callCount (l ++ l') = w.callCount l + (w.after l).callCount l' := by
  induction l generalizing w with
  | nil => simp [callCount, after]
  | cons s l ih =>
    rw [List.cons_append, callCount, ih, callCount, Nat.add_assoc]
    rfl

/-- A subscription is answered with a compaction, and the keys can be listed again. -/
def compactedRound : List Signal :=
  [.opened (.error (.streamCompacted 8 9)), .proceed, .listed (.ok ⟨[], 9⟩)]

/-- Such a round takes two calls and no wait, and leads to another one. The floor of the cache is then
the revision of the listing. -/
theorem compactedRound_spins (h : w.stage = .opening) (hfloor : w.cache.floor ≤ 9) :
    ((w.after compactedRound).stage = .opening ∧ (w.after compactedRound).cache.floor ≤ 9) ∧
    w.occurrences compactedRound = [.relisted, .watchFailed (.streamCompacted 8 9)] ∧
    w.callCount compactedRound = 2 := by
  have hlisted : (w.cache.replaceAll [] 9).2.floor = 9 := by
    rw [Cache.floor_replaceAll]
    omega
  simp [compactedRound, after, occurrences, occurrence?, callCount, asks, react, interrupted,
    Failure.requiresRelist, request?, recover, relist, h, hlisted, resumeRevision?_eq,
    Session.relisted]

/-- Any number of rounds goes by without a wait. -/
theorem compactedRounds_spin (h : w.stage = .opening) (hfloor : w.cache.floor ≤ 9) (n : Nat) :
    let rounds := (List.replicate n compactedRound).flatten
    (∀ o ∈ w.occurrences rounds, o.isWait = false) ∧ w.callCount rounds = 2 * n := by
  induction n generalizing w with
  | zero => exact ⟨nofun, rfl⟩
  | succ n ih =>
    obtain ⟨⟨hstage, hfloor'⟩, hlog, hcalls⟩ := compactedRound_spins h hfloor
    obtain ⟨hquiet, hcount⟩ := ih hstage hfloor'
    simp only [List.replicate_succ, List.flatten_cons]
    refine ⟨fun o ho => ?_, ?_⟩
    · rw [occurrences_append, hlog] at ho
      rcases List.mem_append.1 ho with ho | ho
      · exact hquiet o ho
      · simp only [List.mem_cons, List.not_mem_nil, or_false] at ho
        rcases ho with rfl | rfl <;> rfl
    · rw [callCount_append, hcalls, hcount]
      omega

/-- Compactions are not paced: there is no bound on the calls that a loop makes without a wait. -/
theorem compactions_unpaced : ¬ ∃ bound, ∀ signals,
    (∀ o ∈ (listedOnce.react .start).occurrences signals, o.isWait = false) →
      (listedOnce.react .start).callCount signals ≤ bound := by
  rintro ⟨bound, hbound⟩
  have hopening : ((listedOnce.react .start).after [.proceed]).stage = .opening := by decide +kernel
  have hfloor : ((listedOnce.react .start).after [.proceed]).cache.floor ≤ 9 := by decide +kernel
  obtain ⟨hquiet, hcount⟩ := compactedRounds_spin hopening hfloor (bound + 1)
  have hfirst : (listedOnce.react .start).occurrences [.proceed] = [] := by decide +kernel
  have hcalls := hbound ([.proceed] ++ (List.replicate (bound + 1) compactedRound).flatten) (by
    rwa [occurrences_append, hfirst, List.append_nil])
  rw [callCount_append, hcount] at hcalls
  omega

end WatchLoop

end GatewayStore
