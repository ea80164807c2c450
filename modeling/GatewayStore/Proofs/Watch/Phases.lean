import GatewayStore.Proofs.Watch.Transitions

/-
  The phases that a watch loop goes through. `Phase.next` is the machine documented for them, and
  `Stage.phases` says which phases a loop shows at a stage; for a loop that is free to go on this
  depends on whether it lists the keys next. Every reaction keeps a loop in a phase of its stage, and
  from such a state it changes the phase only as the machine has it (`InPhase.step`), so every run does
  (`InPhase.run`). The closed phase comes with the last stage, which only a shutdown leads to
  (`stopped_of_react`) and nothing leaves (`after_stopped`).

  A shutdown before the start of the loop is one that comes first after it: a loop that has not
  started has nothing to stop.
-/

namespace GatewayStore

namespace Phase

/-- The phases to which a phase can change. -/
def next : Phase → List Phase
  | .initializing => [.listing, .closed]
  | .listing => [.streaming, .erroring, .closed]
  | .streaming => [.erroring, .closed]
  | .erroring => [.listing, .streaming, .closed]
  | .closed => []

/-- What a phase is after a step: the same, or one to which it can change. -/
def GoesTo (p q : Phase) : Prop := q = p ∨ q ∈ p.next

instance (p q : Phase) : Decidable (p.GoesTo q) := inferInstanceAs (Decidable (q = p ∨ q ∈ p.next))

theorem GoesTo.refl (p : Phase) : p.GoesTo p := .inl rfl

theorem goesTo_closed (p : Phase) : p.GoesTo .closed := by cases p <;> decide

end Phase

/-- The phases that a loop shows at a stage. -/
def Stage.phases (needsListing : Bool) : Stage → List Phase
  | .syncing | .listing => [.listing]
  | .idle => [.streaming, .erroring]
  | .ready => if needsListing then [.erroring] else [.streaming, .erroring]
  | .opening => [.listing, .streaming, .erroring]
  | .streaming _ => [.streaming]
  | .waiting _ => [.erroring]
  | .stopped => [.closed]

@[simp]
theorem Session.phase_enter (s : Session) (phase : Phase) : (s.enter phase).phase = phase := rfl

@[simp]
theorem Session.phase_fail (s : Session) (cause : Failure) : (s.fail cause).phase = .erroring := rfl

namespace WatchLoop

variable {w w' : WatchLoop}

/-- The phase is one of the stage. -/
def InPhase (w : WatchLoop) : Prop := w.session.phase ∈ w.stage.phases w.needsListing

theorem phase_foldl_applyEvent (w : WatchLoop) (events : List Event) :
    (events.foldl applyEvent w).session.phase = w.session.phase := by
  induction events generalizing w with
  | nil => rfl
  | cons e events ih => exact ih (w.applyEvent e)

theorem phase_applyBatch (w : WatchLoop) (events : List Event) :
    (w.applyBatch events).session.phase = w.session.phase :=
  phase_foldl_applyEvent w events

theorem phase_interrupted (w : WatchLoop) (cause : Failure) :
    (w.interrupted cause).session.phase = .erroring := by
  unfold interrupted
  dsimp only
  split <;> rfl

theorem inPhase_interrupted (w : WatchLoop) (cause : Failure) : (w.interrupted cause).InPhase := by
  unfold InPhase
  rw [phase_interrupted]
  unfold interrupted
  dsimp only
  split <;> exact List.mem_singleton_self Phase.erroring

namespace InPhase

/-- The closed phase is that of the last stage alone. -/
theorem closed_iff (h : w.InPhase) : w.session.phase = .closed ↔ w.stage = .stopped := by
  constructor
  · intro hclosed
    rw [InPhase, hclosed] at h
    cases hstage : w.stage <;> simp only [hstage, Stage.phases] at h
    case mp.stopped => rfl
    case mp.ready => cases hneeds : w.needsListing <;> rw [hneeds] at h <;> exact absurd h (by decide)
    all_goals exact absurd h (by decide)
  · intro hstage
    rw [InPhase, hstage] at h
    exact List.mem_singleton.1 h

/-- At most stages there is one phase that a loop can be in. -/
theorem phase_eq {p : Phase} (h : w.InPhase) (hone : w.stage.phases w.needsListing = [p]) :
    w.session.phase = p := by
  rw [InPhase, hone] at h
  exact List.mem_singleton.1 h

/-- A loop whose stream fails goes into the erroring phase, from every phase in which it has or opens
one. -/
theorem interrupted (h : w.InPhase)
    (hstage : w.stage = .opening ∨ ∃ stream, w.stage = .streaming stream) (cause : Failure) :
    (w.interrupted cause).InPhase ∧
      w.session.phase.GoesTo (w.interrupted cause).session.phase := by
  have hphase : w.session.phase ∈ [Phase.listing, .streaming, .erroring] := by
    rcases hstage with hstage | ⟨stream, hstage⟩
    · rwa [InPhase, hstage] at h
    · rw [h.phase_eq (p := .streaming) (by rw [hstage]; rfl)]
      decide
  refine ⟨inPhase_interrupted w cause, ?_⟩
  rw [phase_interrupted]
  simp only [List.mem_cons, List.not_mem_nil, or_false] at hphase
  rcases hphase with hphase | hphase | hphase <;> rw [hphase] <;> decide

/-- Every reaction keeps the phase in the stage and follows the machine. -/
theorem step {s : Signal} {o : Option Occurrence} (h : w.InPhase) (ht : w.Transition s o w') :
    w'.InPhase ∧ w.session.phase.GoesTo w'.session.phase := by
  have hshown := h
  unfold InPhase at hshown
  cases ht with
  | ignored => exact ⟨h, .refl _⟩
  | synced hstage listing =>
    have hphase := h.phase_eq (p := .listing) (by rw [hstage]; rfl)
    exact ⟨by simp [InPhase, Stage.phases], by simp [hphase, Phase.GoesTo, Phase.next]⟩
  | syncFailed hstage cause =>
    have hphase := h.phase_eq (p := .listing) (by rw [hstage]; rfl)
    exact ⟨by simp [InPhase, Stage.phases], by simp [hphase, Phase.GoesTo, Phase.next]⟩
  | started hstage =>
    -- a loop whose first listing failed lists again, and any other goes on streaming
    simp only [hstage, Stage.phases, List.mem_cons, List.not_mem_nil, or_false] at hshown
    refine ⟨?_, .refl _⟩
    rcases hshown with hphase | hphase <;> simp [InPhase, Stage.phases, hphase]
  | asksListing hstage hneeds =>
    have hphase := h.phase_eq (p := .erroring) (by rw [hstage, hneeds]; rfl)
    exact ⟨by simp [InPhase, Stage.phases], by simp [hphase, Phase.GoesTo, Phase.next]⟩
  | asksStream hstage hneeds =>
    have hopens : w.session.phase ∈ [Phase.listing, .streaming, .erroring] := by
      rw [hstage, hneeds] at hshown
      exact List.mem_cons_of_mem Phase.listing hshown
    exact ⟨hopens, .refl _⟩
  | relisted hstage listing =>
    have hphase := h.phase_eq (p := .listing) (by rw [hstage]; rfl)
    have hopens : w.session.phase ∈ [Phase.listing, .streaming, .erroring] := by
      rw [hphase]
      decide
    exact ⟨hopens, .refl _⟩
  | relistFailed hstage cause =>
    have hphase := h.phase_eq (p := .listing) (by rw [hstage]; rfl)
    exact ⟨List.mem_singleton_self _, by simp [pause, hphase, Phase.GoesTo, Phase.next]⟩
  | subscribed hstage stream =>
    simp only [hstage, Stage.phases, List.mem_cons, List.not_mem_nil, or_false] at hshown
    refine ⟨by simp [InPhase, Stage.phases], ?_⟩
    rcases hshown with hphase | hphase | hphase <;> simp [hphase, Phase.GoesTo, Phase.next]
  | received stream hstage events =>
    have hphase : (w.applyBatch events).recover.session.phase = w.session.phase :=
      phase_applyBatch w events
    refine ⟨?_, .inl hphase⟩
    unfold InPhase
    rw [hphase, applyBatch_eq]
    exact h
  | refused hstage cause => exact h.interrupted (.inl hstage) cause
  | broken stream hstage cause => exact h.interrupted (.inr ⟨stream, hstage⟩) cause
  | ended stream hstage => exact h.interrupted (.inr ⟨stream, hstage⟩) _
  | woke delay hstage =>
    have hphase := h.phase_eq (p := .erroring) (by rw [hstage]; rfl)
    refine ⟨?_, .refl _⟩
    cases hneeds : w.needsListing <;> simp [InPhase, Stage.phases, hphase]
  | stopped _ => exact ⟨List.mem_singleton_self _, Phase.goesTo_closed _⟩

/-- Every run keeps the phase in the stage. -/
theorem run (h : w.InPhase) (signals : List Signal) : (w.after signals).InPhase := by
  induction signals generalizing w with
  | nil => exact h
  | cons s later ih => exact ih (h.step (w.transition_react s)).1

end InPhase

/-- A loop that asks for its first listing is in the phase for it. -/
theorem inPhase_beginSync (w : WatchLoop) : w.beginSync.InPhase :=
  List.mem_singleton_self Phase.listing

/-! ## The end of a loop -/

/-- A loop that has stopped reacts to nothing. -/
theorem react_stopped (hstage : w.stage = .stopped) (hclosed : w.session.phase = .closed)
    (s : Signal) : w.react s = w := by
  have ht := w.transition_react s
  generalize w.occurrence? s = o, w.react s = w' at ht ⊢
  cases ht with
  | ignored => rfl
  | stopped _ =>
    show { w with session := w.session.enter .closed, stage := .stopped } = w
    rw [Session.enter, ← hclosed, ← hstage]
  | _ => simp_all

theorem after_stopped (hstage : w.stage = .stopped) (hclosed : w.session.phase = .closed)
    (signals : List Signal) : w.after signals = w := by
  induction signals with
  | nil => rfl
  | cons s later ih =>
    show (w.react s).after later = w
    rw [react_stopped hstage hclosed, ih]

/-- A shutdown closes a loop that runs. -/
theorem phase_react_shutdown (hsyncing : w.stage ≠ .syncing) (hidle : w.stage ≠ .idle) :
    (w.react .shutdown).session.phase = .closed := by
  simp only [react]
  rfl

/-! ## The main result -/

/-- What is promised of the phase of a loop that was begun and then saw some signals. -/
structure FollowsPhases (w : WatchLoop) (signals : List Signal) : Prop where
  /-- Whatever comes next, the phase stays or changes as the machine has it. -/
  changes : ∀ s, w.session.phase.GoesTo (w.react s).session.phase
  /-- Nothing but a shutdown closes the loop. -/
  closes : ∀ s, (w.react s).session.phase = .closed → w.session.phase = .closed ∨ s = .shutdown
  closed : w.session.phase = .closed → .shutdown ∈ signals
  /-- A closed loop is done: its phase, its counters and its cache are what they are from then on. -/
  final : w.session.phase = .closed → ∀ later, w.after later = w
  /-- From the start on a shutdown closes the loop at any moment. -/
  stops : w.stage ≠ .syncing → w.stage ≠ .idle → (w.react .shutdown).session.phase = .closed

theorem InPhase.followsPhases {begun : WatchLoop} (h : begun.InPhase)
    (hopen : begun.session.phase ≠ .closed) (signals : List Signal) :
    (begun.after signals).FollowsPhases signals := by
  have hin := h.run signals
  refine ⟨?_, ?_, ?_, ?_, phase_react_shutdown⟩
  · exact fun s => (hin.step (transition_react _ s)).2
  · intro s hclosed
    have hnext := (hin.step (transition_react _ s)).1
    rw [hin.closed_iff]
    exact stopped_of_react (hnext.closed_iff.1 hclosed)
  · intro hclosed
    rcases stopped_of_after (hin.closed_iff.1 hclosed) with hstage | hshutdown
    · exact absurd (h.closed_iff.2 hstage) hopen
    · exact hshutdown
  · exact fun hclosed => after_stopped (hin.closed_iff.1 hclosed) hclosed

/-- From its first listing on, whatever the backend does and whenever the shutdown comes, a loop
follows the machine at every moment. -/
theorem phases_follow (settings : WatchSettings) (kind : Kind) (keyPrefix : String)
    (signals : List Signal) :
    (fresh settings kind keyPrefix).session.phase.GoesTo
        (fresh settings kind keyPrefix).beginSync.session.phase ∧
      ((fresh settings kind keyPrefix).beginSync.after signals).FollowsPhases signals := by
  refine ⟨.inr List.mem_cons_self, (inPhase_beginSync _).followsPhases ?_ signals⟩
  intro hclosed
  cases hclosed

/-- The place of the stream is compacted, the listing then fails, and the shutdown comes while the
loop waits. -/
def closedWaiting : List Signal :=
  [.listed (.ok ⟨[], 7⟩), .start, .proceed, .opened (.error (.streamCompacted 8 9)), .proceed,
    .listed (.error (.storeUnavailable .offline)), .shutdown]

theorem phases_follow_closedWaiting :
    let begun := (fresh .default .route "/r/").beginSync
    let w := begun.after closedWaiting
    (closedWaiting.scanl react begun).map (fun w => w.session.phase) =
        [.listing, .streaming, .streaming, .streaming, .erroring, .listing, .erroring, .closed] ∧
      ∀ later, w.after later = w := by
  intro begun w
  have hclosed : w.session.phase = .closed := by decide +kernel
  exact ⟨by decide +kernel, (phases_follow .default .route "/r/" closedWaiting).2.final hclosed⟩

end WatchLoop

end GatewayStore
