import GatewayStore.Proofs.Store.Subscription
import GatewayStore.Proofs.Watch.Run
import GatewayStore.Simulation.World

/-
  One watch loop over one store. Anyone may write, compact, break the connections and watch; the calls
  of the loop are answered, fail or time out at any moment, also after they were answered. `Exact` ties
  the loop to the log of the store: the cache is the state of the store after the revision up to which
  the loop is current, a listing under way is exact, and a stream of the loop carries what follows.
  Every move keeps it (`Exact.move`), and the log only grows.
-/

namespace GatewayStore

/-- A store, a watch loop over it, and the answer that is under way to the loop. -/
structure Mirror where
  store : Store
  loop : WatchLoop
  answer : Option Signal

/-- What can happen to a mirrored store. -/
inductive MirrorMove where
  /-- anyone's operation on the store -/
  | operate (step : StoreStep)
  /-- another watcher opens a stream -/
  | subscribe (keyPrefix : String) (start : Nat)
  /-- another watcher takes an item -/
  | consume (id : Nat)
  /-- another watcher goes away -/
  | abandon (id : Nat)
  /-- startup asks for the first listing -/
  | sync
  | start
  /-- the store answers the loop's call -/
  | perform
  /-- the answer gets to the loop -/
  | hear
  /-- the call fails or times out, with the answer under way lost -/
  | fail (cause : Failure)
  /-- the loop takes an item of its stream, or notices the end -/
  | receive
  | wake
  | proceed
  | shutdown

namespace Mirror

/-- An empty store, and a loop that has done nothing yet. -/
def initial (retention : Nat) (settings : WatchSettings) (kind : Kind) (keyPrefix : String) :
    Mirror :=
  ⟨.withRetention retention, .fresh settings kind keyPrefix, none⟩

/-- The stream that is held for the loop. -/
def held? (m : Mirror) : Option Nat :=
  match m.answer with
  | some (.opened (.ok id)) => some id
  | _ => m.loop.stream?

/-- Gives the loop a signal in the place of an answer under way. A stream that is then held no longer
is released. -/
def signal (m : Mirror) (s : Signal) : Mirror :=
  let loop := m.loop.react s
  match m.held? with
  | none => ⟨m.store, loop, none⟩
  | some id => ⟨if loop.stream? = some id then m.store else m.store.release id, loop, none⟩

/-- Gives the loop a signal if it waits for no answer. -/
def signalUncalled (m : Mirror) (s : Signal) : Mirror :=
  if m.loop.request? = none then m.signal s else m

/-- Another watcher opens a stream. -/
def subscribe (m : Mirror) (keyPrefix : String) (start : Nat) : Mirror :=
  match m.store.watch keyPrefix start with
  | .ok store => { m with store := store }
  | .error _ => m

/-- Another watcher takes an item of its stream. -/
def consume (m : Mirror) (id : Nat) : Mirror :=
  if m.held? = some id then m else { m with store := (m.store.receive id).2 }

/-- Another watcher goes away. -/
def abandon (m : Mirror) (id : Nat) : Mirror :=
  if m.held? = some id then m else { m with store := m.store.release id }

/-- The store answers the call that the loop waits for, once. -/
def perform (m : Mirror) : Mirror :=
  match m.loop.request?, m.answer with
  | some r, none =>
    match m.store.perform r with
    | .ok (answer, store) => ⟨store, m.loop, WatchLoop.signalOf r (.ok answer)⟩
    | .error cause => ⟨m.store, m.loop, WatchLoop.signalOf r (.error cause)⟩
  | _, _ => m

/-- The answer under way gets to the loop. -/
def hear (m : Mirror) : Mirror :=
  match m.answer with
  | none => m
  | some s => m.signal s

/-- The call that the loop waits for fails. -/
def fail (m : Mirror) (cause : Failure) : Mirror :=
  match m.loop.request?.bind fun r => WatchLoop.signalOf r (.error cause) with
  | none => m
  | some s => m.signal s

/-- The loop takes an item of its stream if there is one, or notices the end. -/
def receive (m : Mirror) : Mirror :=
  match m.loop.stream? with
  | none => m
  | some id =>
    if (m.store.stream? id).any (·.isReady) then
      { m with store := (m.store.receive id).2 }.signal (.delivered (m.store.receive id).1)
    else m

/-- The mirror after a move; one that is out of place changes nothing. -/
def move (m : Mirror) : MirrorMove → Mirror
  | .operate step => { m with store := (m.store.run step).2 }
  | .subscribe keyPrefix start => m.subscribe keyPrefix start
  | .consume id => m.consume id
  | .abandon id => m.abandon id
  | .sync => { m with loop := m.loop.move .sync }
  | .start => m.signalUncalled .start
  | .perform => m.perform
  | .hear => m.hear
  | .fail cause => m.fail cause
  | .receive => m.receive
  | .wake => m.signalUncalled .elapsed
  | .proceed => m.signalUncalled .proceed
  | .shutdown => if m.loop.stage = .syncing then m else m.signal .shutdown

/-- The mirror after some moves. -/
def run (m : Mirror) (moves : List MirrorMove) : Mirror := moves.foldl move m

theorem run_append (m : Mirror) (moves : List MirrorMove) (last : MirrorMove) :
    m.run (moves ++ [last]) = (m.run moves).move last := by
  simp [run]

/-! ## The invariant -/

/-- The cache is the state of the store after the revision up to which the loop is current. -/
structure Current (m : Mirror) (log : List Event) (keyPrefix : String) : Prop where
  follows : m.store.Follows log
  numbers : m.store.NumbersBelow
  keyPrefix_eq : m.loop.cache.keyPrefix = keyPrefix
  inStep : m.loop.InStep
  applied_le : m.loop.session.lastApplied ≤ m.store.revision
  reflects : m.loop.cache.Reflects keyPrefix
    (contentsAfter (eventsUpTo log m.loop.session.lastApplied))

/-- The loop is current, what is under way to it is true, and its stream carries what follows. -/
structure Exact (m : Mirror) (log : List Event) (keyPrefix : String) : Prop
    extends Current m log keyPrefix where
  carries : ∀ id, m.held? = some id →
    m.store.Carries id log keyPrefix m.loop.session.lastApplied
  listed : ∀ listing, m.answer = some (.listed (.ok listing)) →
    m.loop.session.lastApplied ≤ listing.revision ∧ listing.revision ≤ m.store.revision ∧
      listing.keys = (contentsAfter (eventsUpTo log listing.revision)).listedUnder keyPrefix
  called : m.answer ≠ none → m.loop.request? ≠ none
  unbatched : ∀ events, m.answer ≠ some (.delivered (some (.batch events)))

theorem exact_initial (retention : Nat) (settings : WatchSettings) (kind : Kind)
    (keyPrefix : String) : (initial retention settings kind keyPrefix).Exact [] keyPrefix where
  follows := Store.follows_withRetention retention
  numbers := Store.numbersBelow_withRetention retention
  keyPrefix_eq := rfl
  inStep := WatchLoop.inStep_fresh settings kind keyPrefix
  applied_le := Nat.le_refl _
  reflects := Cache.reflects_empty kind keyPrefix
  carries _ h := by cases h
  listed _ h := by cases h
  called h := absurd rfl h
  unbatched _ h := by cases h

variable {m : Mirror} {log : List Event} {keyPrefix : String}

namespace Current

/-- Neither a change of the streams nor one of the stage matters. -/
theorem of_unmoved (h : m.Current log keyPrefix) {m' : Mirror} (hf : m'.store.Follows log)
    (hn : m'.store.NumbersBelow) (hcache : m'.loop.cache = m.loop.cache)
    (hlast : m'.loop.session.lastApplied = m.loop.session.lastApplied) :
    m'.Current log keyPrefix := by
  refine ⟨hf, hn, ?_, ⟨?_, ?_⟩, ?_, ?_⟩
  · rw [hcache, h.keyPrefix_eq]
  · rw [hcache, hlast, h.inStep.floor_eq]
  · rw [hcache]
    exact h.inStep.settled
  · rw [hlast, ← hf.length_eq, h.follows.length_eq]
    exact h.applied_le
  · rw [hcache, hlast]
    exact h.reflects

/-- The log grows, and the loop lags behind. -/
theorem grow (h : m.Current log keyPrefix) {store : Store} {added : List Event}
    (hf : store.Follows (log ++ added)) (hn : store.NumbersBelow) :
    Current { m with store := store } (log ++ added) keyPrefix := by
  refine ⟨hf, hn, h.keyPrefix_eq, h.inStep, ?_, ?_⟩
  · exact Nat.le_trans h.applied_le (h.follows.revision_le hf)
  · dsimp only
    rw [h.follows.eventsUpTo_append hf h.applied_le]
    exact h.reflects

/-- The loop takes an exact listing that is not older than its cache. -/
theorem relist (h : m.Current log keyPrefix) {m' : Mirror} {listing : Listing}
    (hf : m'.store.Follows log) (hn : m'.store.NumbersBelow)
    (hlow : m.loop.session.lastApplied ≤ listing.revision)
    (hhigh : listing.revision ≤ m.store.revision)
    (hkeys : listing.keys = (contentsAfter (eventsUpTo log listing.revision)).listedUnder keyPrefix)
    (hcache : m'.loop.cache = (m.loop.cache.replaceAll listing.keys listing.revision).2)
    (hlast : m'.loop.session.lastApplied = m'.loop.cache.floor) :
    m'.Current log keyPrefix ∧ m'.loop.session.lastApplied = listing.revision := by
  have hfloor : m.loop.cache.floor ≤ listing.revision := by
    rw [h.inStep.floor_eq]
    exact hlow
  have hnew : m'.loop.session.lastApplied = listing.revision := by
    rw [hlast, hcache, Cache.floor_replaceAll]
    exact Nat.max_eq_right hfloor
  have hmod : ∀ k r, (contentsAfter (eventsUpTo log listing.revision)).get? k = some r →
      r.modRevision ≤ listing.revision := fun k r hr =>
    (mem_eventsUpTo.1 (mem_of_get?_contentsAfter hr)).2
  rw [hkeys, ← h.keyPrefix_eq] at hcache
  refine ⟨⟨hf, hn, ?_, ⟨hlast.symm, ?_⟩, ?_, ?_⟩, hnew⟩
  · rw [hcache, Cache.keyPrefix_replaceAll, h.keyPrefix_eq]
  · rw [hcache]
    exact Cache.settled_replaceAll hfloor hmod
  · rw [hnew, ← hf.length_eq, h.follows.length_eq]
    exact hhigh
  · rw [hnew, hcache, ← h.keyPrefix_eq]
    exact Cache.reflects_replaceAll hfloor

/-- The stretch of the log up to a later revision goes by: the part of it under the prefix brings the
cache to that revision. -/
theorem reflects_later (h : m.Current log keyPrefix) {revision : Nat}
    (hle : m.loop.session.lastApplied ≤ revision) :
    (((log.filter fun e => m.loop.session.lastApplied < e.revision &&
      decide (e.revision ≤ revision)).filter (Event.isUnder keyPrefix)).foldl Cache.take
        m.loop.cache).Reflects keyPrefix (contentsAfter (eventsUpTo log revision)) := by
  have habove : ∀ e ∈ log.filter (fun e => m.loop.session.lastApplied < e.revision &&
      decide (e.revision ≤ revision)), ∀ key, m.loop.cache.level key < e.revision := by
    intro e he key
    rw [h.inStep.settled key, h.inStep.floor_eq]
    have hbetween := (List.mem_filter.1 he).2
    simp only [Bool.and_eq_true, decide_eq_true_eq] at hbetween
    exact hbetween.1
  have hbefore := h.reflects
  rw [← h.keyPrefix_eq] at hbefore
  have hafter := hbefore.foldl_take (h.follows.ascending.filter _)
    (fun e he => h.follows.full e (List.mem_filter.1 he).1) habove
  rw [h.keyPrefix_eq] at hafter
  rw [h.follows.ascending.eventsUpTo_split hle]
  unfold contentsAfter at hafter ⊢
  rw [List.foldl_append]
  exact hafter

/-- The loop takes the next stretch of the log. -/
theorem applyBatch (h : m.Current log keyPrefix) {m' : Mirror} {events : List Event}
    (hf : m'.store.Follows log) (hn : m'.store.NumbersBelow)
    (hevents : events = (log.filter fun e => m.loop.session.lastApplied < e.revision &&
      decide (e.revision ≤ lastRevision m.loop.session.lastApplied events)).filter
        (Event.isUnder keyPrefix))
    (hcache : m'.loop.cache = (m.loop.applyBatch events).cache)
    (hlast : m'.loop.session.lastApplied = (m.loop.applyBatch events).session.lastApplied) :
    m'.Current log keyPrefix := by
  have hin := h.inStep.applyBatch events
  refine ⟨hf, hn, ?_, ⟨?_, ?_⟩, ?_, ?_⟩
  · rw [hcache, WatchLoop.cache_applyBatch, Cache.keyPrefix_advanceFloor,
      Cache.keyPrefix_foldl_take, h.keyPrefix_eq]
  · rw [hcache, hlast, hin.floor_eq]
  · rw [hcache]
    exact hin.settled
  · rw [hlast, WatchLoop.lastApplied_applyBatch, ← hf.length_eq, h.follows.length_eq]
    rcases lastRevision_eq_or m.loop.session.lastApplied events with hr | ⟨e, he, hr⟩
    · rw [hr]
      exact h.applied_le
    · rw [hevents] at he
      rw [hr]
      exact (h.follows.revision_bounds (List.mem_filter.1 (List.mem_filter.1 he).1).1).2
  · have hafter := h.reflects_later (le_lastRevision m.loop.session.lastApplied events)
    rw [← hevents] at hafter
    intro key
    rw [hcache, hlast, WatchLoop.cache_applyBatch, WatchLoop.lastApplied_applyBatch,
      Cache.get?_advanceFloor]
    exact hafter key

/-- If nothing under the prefix came later, the cache is the state of the store itself. -/
theorem reflects_index (h : m.Current log keyPrefix)
    (hnone : eventsAfter log keyPrefix m.loop.session.lastApplied = []) :
    m.loop.cache.Reflects keyPrefix m.store.index := by
  have hafter := h.reflects_later h.applied_le
  have hnothing : (log.filter fun e => m.loop.session.lastApplied < e.revision &&
      decide (e.revision ≤ m.store.revision)).filter (Event.isUnder keyPrefix) = [] := by
    rw [List.filter_filter, List.filter_eq_nil_iff]
    intro e he hcond
    have hno := List.filter_eq_nil_iff.1 hnone e he
    simp only [Bool.and_eq_true] at hcond hno
    exact hno ⟨hcond.2.1, hcond.1⟩
  rw [hnothing, h.follows.eventsUpTo_revision, ← h.follows.index_eq] at hafter
  exact hafter

end Current

/-! ## Signals -/

theorem answer_eq_none (h : m.Exact log keyPrefix) (hcall : m.loop.request? = none) :
    m.answer = none := by
  by_contra hne
  exact h.called hne hcall

theorem held?_of_stream? (h : m.Exact log keyPrefix) {id : Nat} (hs : m.loop.stream? = some id) :
    m.held? = some id := by
  have hnone := answer_eq_none h (WatchLoop.request?_of_stream? hs)
  unfold held?
  rw [hnone]
  exact hs

/-- Without an answer under way only the stream of the loop matters. -/
theorem Current.exact (h : m.Current log keyPrefix) (hnone : m.answer = none)
    (hcarries : ∀ id, m.loop.stream? = some id →
      m.store.Carries id log keyPrefix m.loop.session.lastApplied) : m.Exact log keyPrefix := by
  refine ⟨h, ?_, ?_, fun ha => absurd hnone ha, ?_⟩
  · intro id hid
    unfold held? at hid
    rw [hnone] at hid
    exact hcarries id hid
  · intro listing hl
    rw [hnone] at hl
    cases hl
  · intro events he
    rw [hnone] at he
    cases he

theorem answer_signal (m : Mirror) (s : Signal) : (m.signal s).answer = none := by
  unfold signal
  dsimp only
  split <;> rfl

theorem loop_signal (m : Mirror) (s : Signal) : (m.signal s).loop = m.loop.react s := by
  unfold signal
  dsimp only
  split <;> rfl

/-- A signal leaves the store alone or releases the stream that is held no longer. -/
theorem store_signal (m : Mirror) (s : Signal) :
    (m.signal s).store = m.store ∨
    ∃ id, m.held? = some id ∧ (m.loop.react s).stream? ≠ some id ∧
      (m.signal s).store = m.store.release id := by
  unfold signal
  cases hheld : m.held? with
  | none => exact .inl rfl
  | some id =>
    by_cases hkeep : (m.loop.react s).stream? = some id
    · left
      simp only [hkeep, if_true]
    · right
      refine ⟨id, rfl, hkeep, ?_⟩
      simp only [hkeep, if_false]

/-- A signal that is no batch, and no answer but the one under way, keeps the loop exact. -/
theorem Exact.signal (h : m.Exact log keyPrefix) {s : Signal}
    (hlisted : ∀ listing, s = .listed (.ok listing) → m.answer = some s)
    (hopened : ∀ id, s = .opened (.ok id) → m.answer = some s)
    (hbatch : ∀ events, s ≠ .delivered (some (.batch events))) :
    (m.signal s).Exact log keyPrefix ∧
      m.loop.session.lastApplied ≤ (m.signal s).loop.session.lastApplied := by
  have hf : (m.signal s).store.Follows log := by
    rcases m.store_signal s with hs | ⟨id, -, -, hs⟩
    · rw [hs]
      exact h.follows
    · rw [hs]
      exact h.follows.release id
  have hn : (m.signal s).store.NumbersBelow := by
    rcases m.store_signal s with hs | ⟨id, -, -, hs⟩
    · rw [hs]
      exact h.numbers
    · rw [hs]
      exact h.numbers.release id
  -- a stream that the loop reads from now on was held before
  have hheld : ∀ id, (m.loop.react s).stream? = some id →
      (m.signal s).store.Carries id log keyPrefix m.loop.session.lastApplied := by
    intro id hid
    have hbefore : m.held? = some id := by
      rcases m.loop.react_stream? s hid with hs | rfl
      · exact held?_of_stream? h hs
      · unfold held?
        rw [hopened id rfl]
    refine (h.carries id hbefore).of_stream?_eq ?_
    rcases m.store_signal s with hs | ⟨other, hother, hgone, hs⟩
    · rw [hs]
    · rw [hbefore] at hother
      cases hother
      exact absurd hid hgone
  rcases m.loop.react_progress s with ⟨hcache, hlast⟩ | ⟨listing, rfl, hstage, hcache, hlast⟩ |
    ⟨id, events, -, rfl, -, -⟩
  · rw [← loop_signal] at hcache hlast
    refine ⟨(h.toCurrent.of_unmoved hf hn hcache hlast).exact (m.answer_signal s) ?_,
      Nat.le_of_eq hlast.symm⟩
    intro id hid
    rw [loop_signal] at hid
    rw [hlast]
    exact hheld id hid
  · rw [← loop_signal] at hcache hlast
    rw [← hcache] at hlast
    obtain ⟨hlow, hhigh, hkeys⟩ := h.listed listing (hlisted listing rfl)
    obtain ⟨hcurrent, hnew⟩ := h.toCurrent.relist hf hn hlow hhigh hkeys hcache hlast
    refine ⟨hcurrent.exact (m.answer_signal _) ?_, by rw [hnew]; exact hlow⟩
    intro id hid
    rw [loop_signal] at hid
    rcases m.loop.react_stream? _ hid with hs | hs
    · rcases hstage with hst | hst <;> rw [WatchLoop.stream?, hst] at hs <;> cases hs
    · cases hs
  · exact absurd rfl (hbatch events)

end Mirror

end GatewayStore
