import GatewayStore.Proofs.Cache.Reflection
import GatewayStore.Watch.Loop

/-
  Runs of a watch loop against any backend. A move is the request for the first listing or a signal;
  of all signals, only an accepted listing and a batch of events touch the cache and the revision up
  to which it is current (`react_progress`).
-/

namespace GatewayStore

/-- What can happen to a watch loop: startup asks for the first listing, or a signal comes in. -/
inductive LoopMove where
  | sync
  | signal (s : Signal)

namespace WatchLoop

/-- The loop after a move. The first listing is asked for only before the start. -/
def move (w : WatchLoop) : LoopMove → WatchLoop
  | .sync => if w.stage = .idle then w.beginSync else w
  | .signal s => w.react s

/-- The loop after some moves. -/
def moves (w : WatchLoop) (l : List LoopMove) : WatchLoop := l.foldl move w

/-! ## Batches -/

theorem cache_foldl_applyEvent (w : WatchLoop) (events : List Event) :
    (events.foldl applyEvent w).cache = events.foldl Cache.take w.cache := by
  induction events generalizing w with
  | nil => rfl
  | cons e events ih => exact ih (w.applyEvent e)

theorem lastApplied_foldl_applyEvent (w : WatchLoop) (events : List Event) :
    (events.foldl applyEvent w).session.lastApplied =
      lastRevision w.session.lastApplied events := by
  induction events generalizing w with
  | nil => rfl
  | cons e events ih => exact ih (w.applyEvent e)

theorem cache_applyBatch (w : WatchLoop) (events : List Event) :
    (w.applyBatch events).cache =
      (events.foldl Cache.take w.cache).advanceFloor
        (lastRevision w.session.lastApplied events) := by
  unfold applyBatch
  dsimp only
  rw [cache_foldl_applyEvent, lastApplied_foldl_applyEvent]

theorem lastApplied_applyBatch (w : WatchLoop) (events : List Event) :
    (w.applyBatch events).session.lastApplied =
      lastRevision w.session.lastApplied events :=
  lastApplied_foldl_applyEvent w events

theorem foldl_applyEvent_eq (w : WatchLoop) (events : List Event) :
    events.foldl applyEvent w =
      { w with
        cache := (events.foldl applyEvent w).cache
        session := (events.foldl applyEvent w).session } := by
  induction events generalizing w with
  | nil => rfl
  | cons e events ih => exact ih (w.applyEvent e)

/-- A batch changes only the cache and the session. -/
theorem applyBatch_eq (w : WatchLoop) (events : List Event) :
    w.applyBatch events =
      { w with
        cache := (w.applyBatch events).cache
        session := (w.applyBatch events).session } := by
  unfold applyBatch
  dsimp only
  rw [foldl_applyEvent_eq]

theorem stage_applyBatch (w : WatchLoop) (events : List Event) :
    (w.applyBatch events).stage = w.stage := by
  rw [applyBatch_eq]

/-- A batch raises the floor to the revision up to which the loop is current. -/
theorem floor_applyBatch {w : WatchLoop} (h : w.cache.floor = w.session.lastApplied)
    (events : List Event) :
    (w.applyBatch events).cache.floor = (w.applyBatch events).session.lastApplied := by
  rw [cache_applyBatch, lastApplied_applyBatch, Cache.floor_advanceFloor, Cache.floor_foldl_take, h]
  exact Nat.max_eq_right (le_lastRevision _ _)

/-- The cache is settled at the revision from which the loop would resume. -/
structure InStep (w : WatchLoop) : Prop where
  floor_eq : w.cache.floor = w.session.lastApplied
  settled : w.cache.Settled

theorem inStep_fresh (settings : WatchSettings) (kind : Kind) (keyPrefix : String) :
    (fresh settings kind keyPrefix).InStep :=
  ⟨rfl, Cache.settled_empty kind keyPrefix⟩

theorem InStep.applyBatch {w : WatchLoop} (h : w.InStep) (events : List Event) :
    (w.applyBatch events).InStep := by
  refine ⟨floor_applyBatch h.floor_eq events, ?_⟩
  rw [cache_applyBatch]
  refine Cache.settled_advanceFloor fun key => Cache.level_foldl_take_le ?_ ?_
  · rw [h.settled key, h.floor_eq]
    exact le_lastRevision _ _
  · exact fun e he => revision_le_lastRevision he

/-! ## What a signal does to the cache -/

/-- A failure of a stream leaves the cache and its revision alone. -/
theorem interrupted_progress (w : WatchLoop) (cause : Failure) :
    (w.interrupted cause).cache = w.cache ∧
      (w.interrupted cause).session.lastApplied = w.session.lastApplied := by
  unfold interrupted
  dsimp only
  split <;> exact ⟨rfl, rfl⟩

/-- The cache moves by an awaited listing or by a batch of the stream, and by nothing else. -/
theorem react_progress (w : WatchLoop) (s : Signal) :
    ((w.react s).cache = w.cache ∧ (w.react s).session.lastApplied = w.session.lastApplied) ∨
    (∃ listing, s = .listed (.ok listing) ∧ (w.stage = .syncing ∨ w.stage = .listing) ∧
      (w.react s).cache = (w.cache.replaceAll listing.keys listing.revision).2 ∧
      (w.react s).session.lastApplied =
        (w.cache.replaceAll listing.keys listing.revision).2.floor) ∨
    (∃ id events, w.stage = .streaming id ∧ s = .delivered (some (.batch events)) ∧
      (w.react s).cache = (w.applyBatch events).cache ∧
      (w.react s).session.lastApplied = (w.applyBatch events).session.lastApplied) := by
  cases s with
  | listed result =>
    cases result with
    | ok listing =>
      simp only [react]
      split
      · next h => exact .inr (.inl ⟨listing, rfl, .inl h, rfl, rfl⟩)
      · next h => exact .inr (.inl ⟨listing, rfl, .inr h, rfl, rfl⟩)
      · exact .inl ⟨rfl, rfl⟩
    | error cause =>
      simp only [react]
      split <;> exact .inl ⟨rfl, rfl⟩
  | opened result =>
    left
    simp only [react]
    split
    · cases result with
      | ok stream => exact ⟨rfl, rfl⟩
      | error cause => exact w.interrupted_progress cause
    · exact ⟨rfl, rfl⟩
  | delivered item =>
    simp only [react]
    split
    · next id h =>
      match item with
      | some (.batch events) => exact .inr (.inr ⟨id, events, h, rfl, rfl, rfl⟩)
      | some (.failed cause) => exact .inl (w.interrupted_progress cause)
      | none => exact .inl (w.interrupted_progress _)
    · exact .inl ⟨rfl, rfl⟩
  | elapsed =>
    left
    simp only [react]
    split <;> exact ⟨rfl, rfl⟩
  | proceed =>
    left
    simp only [react]
    split
    · split <;> exact ⟨rfl, rfl⟩
    · exact ⟨rfl, rfl⟩
  | start =>
    left
    simp only [react]
    split <;> exact ⟨rfl, rfl⟩
  | shutdown =>
    left
    simp only [react]
    split <;> exact ⟨rfl, rfl⟩

/-! ## Streams and calls -/

/-- A loop that is current up to the greatest revision has none to resume from. -/
theorem resumeRevision?_eq (s : Session) : s.resumeRevision? =
    if s.lastApplied < 2 ^ 64 - 1 then some (s.lastApplied + 1) else none := by
  unfold Session.resumeRevision? Session.resumeRevision
  exact if_congr (by omega) rfl rfl

theorem request?_of_stream? {w : WatchLoop} {id : Nat} (h : w.stream? = some id) :
    w.request? = none := by
  unfold stream? at h
  split at h
  · next stream hs =>
    unfold request?
    rw [hs]
  · cases h

theorem stream?_interrupted (w : WatchLoop) (cause : Failure) :
    (w.interrupted cause).stream? = none := by
  unfold interrupted
  dsimp only
  split <;> rfl

theorem react_batch {w : WatchLoop} {id : Nat} (h : w.stream? = some id) (events : List Event) :
    w.react (.delivered (some (.batch events))) = (w.applyBatch events).recover := by
  unfold stream? at h
  split at h
  · next stream hs => simp only [react, hs]
  · cases h

theorem stream?_react_batch {w : WatchLoop} {id : Nat} (h : w.stream? = some id)
    (events : List Event) : (w.react (.delivered (some (.batch events)))).stream? = some id := by
  have hstage : ((w.applyBatch events).recover).stage = w.stage := stage_applyBatch w events
  rw [react_batch h, ← h]
  unfold stream?
  rw [hstage]

/-- The loop reads the stream that it read before or one that was just opened. -/
theorem react_stream? (w : WatchLoop) (s : Signal) {id : Nat} (h : (w.react s).stream? = some id) :
    w.stream? = some id ∨ s = .opened (.ok id) := by
  cases s with
  | listed result =>
    cases result <;> simp only [react] at h <;> split at h
    all_goals first | exact .inl h | cases h
  | opened result =>
    simp only [react] at h
    split at h
    · cases result with
      | ok stream =>
        right
        cases h
        rfl
      | error cause =>
        rw [stream?_interrupted] at h
        cases h
    · exact .inl h
  | delivered item =>
    simp only [react] at h
    split at h
    · next stream hs =>
      match item with
      | some (.batch events) =>
        left
        have hkept : (w.applyBatch events).recover.stage = w.stage := stage_applyBatch w events
        unfold stream? at h ⊢
        rwa [← hkept]
      | some (.failed cause) => rw [stream?_interrupted] at h; cases h
      | none => rw [stream?_interrupted] at h; cases h
    · exact .inl h
  | elapsed =>
    simp only [react] at h
    split at h
    · cases h
    · exact .inl h
  | proceed =>
    simp only [react] at h
    split at h
    · split at h <;> cases h
    · exact .inl h
  | start =>
    simp only [react] at h
    split at h
    · cases h
    · exact .inl h
  | shutdown =>
    simp only [react] at h
    split at h
    · exact .inl h
    · exact .inl h
    · cases h

theorem move_sync_progress (w : WatchLoop) :
    (w.move .sync).cache = w.cache ∧
      (w.move .sync).session.lastApplied = w.session.lastApplied := by
  simp only [move]
  split <;> exact ⟨rfl, rfl⟩

end WatchLoop

end GatewayStore
