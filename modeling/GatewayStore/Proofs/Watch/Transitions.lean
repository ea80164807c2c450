import GatewayStore.Proofs.Watch.Run

/-
  What a watch loop can do on one signal, and what an observer notes of it. `Transition` has one case
  for each thing that the loop can do, with the stage in which it does it and the whole state after it;
  `transition_react` says that there are no others. Laws of the loop are proved from these cases, so
  that none of them opens `react` again.
-/

namespace GatewayStore

/-- What can happen to a running loop that matters for its retries. -/
inductive Occurrence where
  | relisted
  | relistFailed (cause : Failure)
  /-- a batch came in -/
  | received
  /-- a stream could not be opened, failed or ended -/
  | watchFailed (cause : Failure)
  /-- a wait of this many milliseconds is over -/
  | waited (delay : Nat)
deriving DecidableEq

namespace WatchLoop

/-- What a signal makes happen. A signal that the loop does not wait for makes nothing happen. -/
def occurrence? (w : WatchLoop) (s : Signal) : Option Occurrence :=
  match w.stage, s with
  | .listing, .listed (.ok _) => some .relisted
  | .listing, .listed (.error cause) => some (.relistFailed cause)
  | .opening, .opened (.error cause) => some (.watchFailed cause)
  | .streaming _, .delivered (some (.batch _)) => some .received
  | .streaming _, .delivered (some (.failed cause)) => some (.watchFailed cause)
  | .streaming _, .delivered none => some (.watchFailed (.storeUnavailable .streamEnded))
  | .waiting delay, .elapsed => some (.waited delay)
  | _, _ => none

/-- The loop after some signals. -/
def after (w : WatchLoop) (signals : List Signal) : WatchLoop := signals.foldl react w

theorem after_append (w : WatchLoop) (signals later : List Signal) :
    w.after (signals ++ later) = (w.after signals).after later :=
  List.foldl_append

/-- What some signals make happen, the latest first. -/
def occurrences (w : WatchLoop) : List Signal → List Occurrence
  | [] => []
  | s :: later => (w.react s).occurrences later ++ (w.occurrence? s).toList

/-- One reaction of a loop: the signal, what it makes happen, and the state after it. -/
inductive Transition (w : WatchLoop) : Signal → Option Occurrence → WatchLoop → Prop where
  | ignored (s : Signal) : Transition w s none w
  | synced (stage_eq : w.stage = .syncing) (listing : Listing) :
    Transition w (.listed (.ok listing)) none
      { w.relist listing with
        session := (w.relist listing).session.enter .streaming, stage := .idle }
  | syncFailed (stage_eq : w.stage = .syncing) (cause : Failure) :
    Transition w (.listed (.error cause)) none
      { w with session := w.session.fail cause, stage := .idle }
  | started (stage_eq : w.stage = .idle) :
    Transition w .start none
      { w with
        needsListing := w.session.phase ≠ .streaming
        backoff := w.settings.backoff
        failures := 0
        stage := .ready }
  | asksListing (stage_eq : w.stage = .ready) (needs : w.needsListing = true) :
    Transition w .proceed none { w with session := w.session.enter .listing, stage := .listing }
  | asksStream (stage_eq : w.stage = .ready) (needs : w.needsListing = false) :
    Transition w .proceed none { w with stage := .opening }
  | relisted (stage_eq : w.stage = .listing) (listing : Listing) :
    Transition w (.listed (.ok listing)) (some .relisted)
      { (w.relist listing).recover with needsListing := false, stage := .opening }
  | relistFailed (stage_eq : w.stage = .listing) (cause : Failure) :
    Transition w (.listed (.error cause)) (some (.relistFailed cause))
      { w with session := w.session.fail cause }.pause
  | subscribed (stage_eq : w.stage = .opening) (stream : Nat) :
    Transition w (.opened (.ok stream)) none
      { w with session := w.session.enter .streaming, stage := .streaming stream }
  | received (stream : Nat) (stage_eq : w.stage = .streaming stream) (events : List Event) :
    Transition w (.delivered (some (.batch events))) (some .received) (w.applyBatch events).recover
  | refused (stage_eq : w.stage = .opening) (cause : Failure) :
    Transition w (.opened (.error cause)) (some (.watchFailed cause)) (w.interrupted cause)
  | broken (stream : Nat) (stage_eq : w.stage = .streaming stream) (cause : Failure) :
    Transition w (.delivered (some (.failed cause))) (some (.watchFailed cause))
      (w.interrupted cause)
  | ended (stream : Nat) (stage_eq : w.stage = .streaming stream) :
    Transition w (.delivered none) (some (.watchFailed (.storeUnavailable .streamEnded)))
      (w.interrupted (.storeUnavailable .streamEnded))
  | woke (delay : Nat) (stage_eq : w.stage = .waiting delay) :
    Transition w .elapsed (some (.waited delay)) { w with stage := .ready }
  | stopped (runs : w.stage ≠ .syncing ∧ w.stage ≠ .idle) : Transition w .shutdown none w.stop

/-- Every reaction is one of these. -/
theorem transition_react (w : WatchLoop) (s : Signal) :
    w.Transition s (w.occurrence? s) (w.react s) := by
  unfold occurrence?
  cases s with
  | listed result =>
    cases result with
    | ok listing =>
      cases hstage : w.stage <;> simp only [react, hstage]
      case syncing => exact .synced hstage listing
      case listing => exact .relisted hstage listing
      all_goals exact .ignored _
    | error cause =>
      cases hstage : w.stage <;> simp only [react, hstage]
      case syncing => exact .syncFailed hstage cause
      case listing => exact .relistFailed hstage cause
      all_goals exact .ignored _
  | opened result =>
    cases hstage : w.stage <;> simp only [react, hstage]
    case opening =>
      cases result with
      | ok stream => exact .subscribed hstage stream
      | error cause => exact .refused hstage cause
    all_goals exact .ignored _
  | delivered item =>
    cases hstage : w.stage <;> simp only [react, hstage]
    case streaming stream =>
      cases item with
      | none => exact .ended stream hstage
      | some delivery =>
        cases delivery with
        | batch events => exact .received stream hstage events
        | failed cause => exact .broken stream hstage cause
    all_goals exact .ignored _
  | elapsed =>
    cases hstage : w.stage <;> simp only [react, hstage]
    case waiting delay => exact .woke delay hstage
    all_goals exact .ignored _
  | proceed =>
    cases hstage : w.stage <;> simp only [react, hstage]
    case ready =>
      split
      · next hneeds => exact .asksListing hstage hneeds
      · next hneeds => exact .asksStream hstage (Bool.eq_false_iff.2 hneeds)
    all_goals exact .ignored _
  | start =>
    cases hstage : w.stage <;> simp only [react, hstage]
    case idle => exact .started hstage
    all_goals exact .ignored _
  | shutdown =>
    cases hstage : w.stage <;> simp only [react, hstage]
    case syncing | idle => exact .ignored _
    all_goals exact .stopped (by simp [hstage])

theorem stage_interrupted (w : WatchLoop) (cause : Failure) : (w.interrupted cause).stage =
    if cause.requiresRelist then .ready else .waiting w.backoff.delay := by
  unfold interrupted
  dsimp only
  split <;> rfl

/-- A failed stream does not end the loop. -/
theorem stage_interrupted_ne (w : WatchLoop) (cause : Failure) :
    (w.interrupted cause).stage ≠ .stopped := by
  rw [stage_interrupted]
  split <;> intro h <;> cases h

/-- Only a shutdown ends a loop. -/
theorem stopped_of_react {w : WatchLoop} {s : Signal} (h : (w.react s).stage = .stopped) :
    w.stage = .stopped ∨ s = .shutdown := by
  have ht := w.transition_react s
  generalize w.occurrence? s = o, w.react s = w' at ht h
  cases ht with
  | ignored => exact .inl h
  | received stream hstage events =>
    rw [← h]
    exact .inl (stage_applyBatch w events).symm
  | refused _ _ | broken _ _ _ | ended _ _ => exact absurd h (w.stage_interrupted_ne _)
  | stopped _ => exact .inr rfl
  | _ => cases h

theorem stopped_of_after {w : WatchLoop} {signals : List Signal}
    (h : (w.after signals).stage = .stopped) : w.stage = .stopped ∨ .shutdown ∈ signals := by
  induction signals generalizing w with
  | nil => exact .inl h
  | cons s later ih =>
    rcases ih h with hnow | hlater
    · rcases stopped_of_react hnow with hbefore | rfl
      · exact .inl hbefore
      · exact .inr List.mem_cons_self
    · exact .inr (List.mem_cons_of_mem s hlater)

/-- The loop has been started. -/
def Runs (w : WatchLoop) : Prop := w.stage ≠ .syncing ∧ w.stage ≠ .idle

/-- No signal takes a loop back to before its start. -/
theorem Transition.runs {w w' : WatchLoop} {s : Signal} {o : Option Occurrence}
    (ht : w.Transition s o w') (h : w.Runs) : w'.Runs := by
  obtain ⟨hsyncing, hidle⟩ := h
  cases ht with
  | ignored => exact ⟨hsyncing, hidle⟩
  | synced hstage _ | syncFailed hstage _ => exact absurd hstage hsyncing
  | received _ _ events =>
    have hkept : (w.applyBatch events).recover.stage = w.stage := stage_applyBatch w events
    unfold Runs
    rw [hkept]
    exact ⟨hsyncing, hidle⟩
  | refused | broken | ended =>
    unfold Runs
    rw [stage_interrupted]
    split <;> exact ⟨nofun, nofun⟩
  | _ => exact ⟨nofun, nofun⟩

end WatchLoop

end GatewayStore
