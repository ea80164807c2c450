import GatewayStore.Proofs.Watch.Mirror

/-
  Snapshot exactness of a mirror. Each move keeps the loop exact while the log of the store grows by
  one event or none (`Exact.move`); so a whole run leaves the cache as the state of the store after a
  revision that the store went through, and as the store's own state once nothing is queued
  (`snapshot_exact`).
-/

namespace GatewayStore.Mirror

variable {m : Mirror} {log : List Event} {keyPrefix : String}

/-! ## Moves -/

/-- The store goes on, with what the loop's stream carries. -/
theorem Exact.grow (h : m.Exact log keyPrefix) {store : Store} {added : List Event}
    (hf : store.Follows (log ++ added)) (hn : store.NumbersBelow)
    (hcarries : ∀ id, m.held? = some id →
      store.Carries id (log ++ added) keyPrefix m.loop.session.lastApplied) :
    Exact { m with store := store } (log ++ added) keyPrefix := by
  refine ⟨h.toCurrent.grow hf hn, hcarries, ?_, h.called, h.unbatched⟩
  intro listing hl
  obtain ⟨hlow, hhigh, hkeys⟩ := h.listed listing hl
  refine ⟨hlow, Nat.le_trans hhigh (h.follows.revision_le hf), ?_⟩
  rw [hkeys, h.follows.eventsUpTo_append hf hhigh]

/-- Another change of the streams does not concern the loop. -/
theorem Exact.keep (h : m.Exact log keyPrefix) {store : Store} (hf : store.Follows log)
    (hn : store.NumbersBelow)
    (hcarries : ∀ id, m.held? = some id →
      store.Carries id log keyPrefix m.loop.session.lastApplied) :
    Exact { m with store := store } log keyPrefix := by
  have hsame : store.Follows (log ++ []) := by rwa [List.append_nil]
  have hgrown := h.grow hsame hn (by rwa [List.append_nil])
  rwa [List.append_nil] at hgrown

theorem Exact.subscribe (h : m.Exact log keyPrefix) (other : String) (start : Nat) :
    (m.subscribe other start).Exact log keyPrefix := by
  unfold Mirror.subscribe
  cases hw : m.store.watch other start with
  | error cause => exact h
  | ok store =>
    obtain ⟨-, -, rfl⟩ := Store.watch_eq_ok.1 hw
    refine h.keep (h.follows.addStream _) (h.numbers.addStream _) fun id hid => ?_
    have hc := h.carries id hid
    refine hc.of_stream?_eq ?_
    have hne : id ≠ m.store.nextStream := Nat.ne_of_lt (hc.lt_nextStream h.numbers)
    rw [Store.stream?_addStream h.numbers, if_neg hne]

theorem Exact.consume (h : m.Exact log keyPrefix) (other : Nat) :
    (m.consume other).Exact log keyPrefix := by
  unfold Mirror.consume
  split
  · exact h
  · next hne =>
    refine h.keep (h.follows.receive other) (h.numbers.receive other) fun id hid => ?_
    refine (h.carries id hid).of_stream?_eq ?_
    have hother : id ≠ other := fun he => hne (he ▸ hid)
    rw [Store.stream?_receive]
    simp [hother]

theorem Exact.abandon (h : m.Exact log keyPrefix) (other : Nat) :
    (m.abandon other).Exact log keyPrefix := by
  unfold Mirror.abandon
  split
  · exact h
  · next hne =>
    refine h.keep (h.follows.release other) (h.numbers.release other) fun id hid => ?_
    exact (h.carries id hid).of_stream?_eq
      (Store.stream?_release m.store fun he => hne (he ▸ hid))

theorem Exact.sync (h : m.Exact log keyPrefix) :
    Exact { m with loop := m.loop.move .sync } log keyPrefix := by
  unfold WatchLoop.move
  by_cases hidle : m.loop.stage = .idle
  · have hnone : m.answer = none := answer_eq_none h (by rw [WatchLoop.request?, hidle])
    simp only [hidle, if_true]
    refine Current.exact (h.toCurrent.of_unmoved h.follows h.numbers rfl rfl) hnone
      fun id hid => ?_
    cases hid
  · simp only [hidle, if_false]
    exact h

/-- The loop's call is the listing of its prefix or a watch from where it is current. -/
theorem request?_cases {w : WatchLoop} {r : Request} (h : w.request? = some r) :
    r = .range w.cache.keyPrefix ∨
      r = .watch w.cache.keyPrefix (w.session.lastApplied + 1) ∧ w.stage = .opening := by
  unfold WatchLoop.request? at h
  split at h
  · exact .inl (Option.some.inj h).symm
  · exact .inl (Option.some.inj h).symm
  · next hs =>
    obtain ⟨revision, hrevision, rfl⟩ := Option.map_eq_some_iff.1 h
    rw [WatchLoop.resumeRevision?_eq, Option.ite_none_right_eq_some] at hrevision
    exact .inr ⟨by rw [← Option.some.inj hrevision.2], hs⟩
  · cases h

/-- An answer gets under way that is true of the store. -/
theorem Exact.answered (h : m.Exact log keyPrefix) {store : Store} {s : Signal}
    (hcalled : m.loop.request? ≠ none) (hf : store.Follows log) (hn : store.NumbersBelow)
    (hopened : ∀ id, s = .opened (.ok id) →
      store.Carries id log keyPrefix m.loop.session.lastApplied)
    (hlisted : ∀ listing, s = .listed (.ok listing) →
      listing.revision = store.revision ∧ listing.keys = store.index.listedUnder keyPrefix)
    (hbatch : ∀ events, s ≠ .delivered (some (.batch events))) :
    Exact ⟨store, m.loop, some s⟩ log keyPrefix := by
  have hcurrent : Current ⟨store, m.loop, some s⟩ log keyPrefix :=
    h.toCurrent.of_unmoved hf hn rfl rfl
  refine ⟨hcurrent, ?_, ?_, fun _ => hcalled, ?_⟩
  · intro id hid
    unfold held? at hid
    split at hid
    · next hs =>
      cases hid
      exact hopened id (Option.some.inj hs)
    · exact absurd (WatchLoop.request?_of_stream? hid) hcalled
  · intro listing hl
    obtain ⟨hrev, hkeys⟩ := hlisted listing (Option.some.inj hl)
    refine ⟨?_, Nat.le_of_eq hrev, ?_⟩
    · rw [hrev]
      exact hcurrent.applied_le
    · rw [hkeys, hrev, hf.eventsUpTo_revision, hf.index_eq]
  · exact fun events he => hbatch events (Option.some.inj he)

theorem Exact.perform (h : m.Exact log keyPrefix) : m.perform.Exact log keyPrefix := by
  unfold Mirror.perform
  split
  · next r hr hnone =>
    have hcalled : m.loop.request? ≠ none := by simp [hr]
    rcases request?_cases hr with rfl | ⟨rfl, -⟩
    · rw [h.keyPrefix_eq]
      cases hrange : m.store.range keyPrefix with
      | error cause =>
        simp only [Store.perform, hrange, bind, Except.bind]
        exact h.answered hcalled h.follows h.numbers (by simp) (by simp) (by simp)
      | ok listing =>
        obtain ⟨-, rfl⟩ := Store.range_eq_ok.1 hrange
        simp only [Store.perform, hrange, bind, Except.bind, pure, Except.pure]
        refine h.answered hcalled h.follows h.numbers (by simp) ?_ (by simp)
        intro listing hl
        cases hl
        exact ⟨rfl, rfl⟩
    · rw [h.keyPrefix_eq]
      cases hwatch : m.store.watch keyPrefix (m.loop.session.lastApplied + 1) with
      | error cause =>
        simp only [Store.perform, hwatch, bind, Except.bind]
        exact h.answered hcalled h.follows h.numbers (by simp) (by simp) (by simp)
      | ok store =>
        obtain ⟨-, -, rfl⟩ := Store.watch_eq_ok.1 hwatch
        simp only [Store.perform, hwatch, bind, Except.bind, pure, Except.pure]
        refine h.answered hcalled (h.follows.addStream _) (h.numbers.addStream _) ?_ (by simp)
          (by simp)
        intro id hid
        cases hid
        exact .of_watch h.follows h.numbers
  · exact h

theorem Exact.fail (h : m.Exact log keyPrefix) (cause : Failure) :
    (m.fail cause).Exact log keyPrefix ∧
      m.loop.session.lastApplied ≤ (m.fail cause).loop.session.lastApplied := by
  unfold Mirror.fail
  cases hr : m.loop.request? with
  | none => exact ⟨h, Nat.le_refl _⟩
  | some r =>
    rcases request?_cases hr with rfl | ⟨rfl, -⟩
    · exact h.signal (by simp) (by simp) (by simp)
    · exact h.signal (by simp) (by simp) (by simp)

theorem Exact.hear (h : m.Exact log keyPrefix) :
    m.hear.Exact log keyPrefix ∧
      m.loop.session.lastApplied ≤ m.hear.loop.session.lastApplied := by
  unfold Mirror.hear
  cases ha : m.answer with
  | none => exact ⟨h, Nat.le_refl _⟩
  | some s =>
    refine h.signal (fun _ _ => ha) (fun _ _ => ha) fun events he => ?_
    exact h.unbatched events (by rw [ha, he])

/-- The loop takes a batch of its stream. -/
theorem Exact.receive_batch (h : m.Exact log keyPrefix) {id : Nat} {stream : Stream}
    {events : List Event} {rest : List Delivery} (hid : m.loop.stream? = some id)
    (hstream : m.store.stream? id = some stream) (hq : stream.queue = .batch events :: rest) :
    let m' := Mirror.signal { m with store := (m.store.receive id).2 }
      (.delivered (some (.batch events)))
    m'.Exact log keyPrefix ∧ m.loop.session.lastApplied ≤ m'.loop.session.lastApplied := by
  intro m'
  have hheld : m.held? = some id := held?_of_stream? h hid
  have hkept : (m.loop.react (.delivered (some (.batch events)))).stream? = some id :=
    WatchLoop.stream?_react_batch hid events
  have hloop : m'.loop = (m.loop.applyBatch events).recover := by
    rw [loop_signal]
    exact WatchLoop.react_batch hid events
  have hstore : m'.store = (m.store.receive id).2 := by
    rcases store_signal _ _ with hs | ⟨other, hother, hgone, -⟩
    · exact hs
    · have heq : m.held? = some other := hother
      rw [hheld] at heq
      cases heq
      exact absurd hkept hgone
  have hlast : m'.loop.session.lastApplied = lastRevision m.loop.session.lastApplied events := by
    rw [hloop]
    exact WatchLoop.lastApplied_applyBatch m.loop events
  obtain ⟨old, hold, hcarries⟩ := h.carries id hheld
  rw [hstream] at hold
  cases hold
  obtain ⟨hleft, hevents⟩ := hcarries.receive_batch h.follows.ascending hq
  have hcurrent : m'.Current log keyPrefix := by
    refine h.toCurrent.applyBatch ?_ ?_ hevents (by rw [hloop]; rfl) (by rw [hloop]; rfl)
    · rw [hstore]
      exact h.follows.receive id
    · rw [hstore]
      exact h.numbers.receive id
  refine ⟨hcurrent.exact (answer_signal _ _) ?_, ?_⟩
  · intro other hother
    have heq : (m.loop.react (.delivered (some (.batch events)))).stream? = some other := by
      rw [← hother, loop_signal]
    rw [hkept] at heq
    cases heq
    refine ⟨{ stream with queue := rest }, ?_, by rw [hlast]; exact hleft⟩
    rw [hstore, Store.stream?_receive, hstream]
    simp [Stream.receive, hq]
  · rw [hlast]
    exact le_lastRevision _ _

theorem Exact.receive (h : m.Exact log keyPrefix) :
    m.receive.Exact log keyPrefix ∧
      m.loop.session.lastApplied ≤ m.receive.loop.session.lastApplied := by
  unfold Mirror.receive
  cases hid : m.loop.stream? with
  | none => exact ⟨h, Nat.le_refl _⟩
  | some id =>
    obtain ⟨stream, hstream, hcarries⟩ := h.carries id (held?_of_stream? h hid)
    -- what is left of the stream carries the same unless a batch was taken
    have hkeep (hleft : stream.receive.2.Carries log keyPrefix m.loop.session.lastApplied) :
        Exact { m with store := (m.store.receive id).2 } log keyPrefix := by
      refine h.keep (h.follows.receive id) (h.numbers.receive id) fun other hother => ?_
      rw [held?_of_stream? h hid] at hother
      cases hother
      refine ⟨stream.receive.2, ?_, hleft⟩
      rw [Store.stream?_receive, hstream]
      simp
    dsimp only
    split
    · rw [Store.receive_fst, hstream]
      match hq : stream.queue with
      | [] =>
        have hnone : stream.receive = (none, stream) := by simp [Stream.receive, hq]
        rw [Option.bind_some, hnone]
        exact (hkeep (by rwa [hnone])).signal (by simp) (by simp) (by simp)
      | .failed cause :: rest =>
        have hsome : stream.receive = (some (.failed cause), { stream with queue := rest }) := by
          simp [Stream.receive, hq]
        rw [Option.bind_some, hsome]
        exact (hkeep (by rw [hsome]; exact hcarries.receive_failed hq)).signal (by simp) (by simp)
          (by simp)
      | .batch events :: rest =>
        have hsome : stream.receive = (some (.batch events), { stream with queue := rest }) := by
          simp [Stream.receive, hq]
        rw [Option.bind_some, hsome]
        exact h.receive_batch hid hstream hq
    · exact ⟨h, Nat.le_refl _⟩

theorem Exact.signalUncalled (h : m.Exact log keyPrefix) {s : Signal}
    (hlisted : ∀ result, s ≠ .listed result) (hopened : ∀ result, s ≠ .opened result)
    (hdelivered : ∀ item, s ≠ .delivered item) :
    (m.signalUncalled s).Exact log keyPrefix ∧
      m.loop.session.lastApplied ≤ (m.signalUncalled s).loop.session.lastApplied := by
  unfold Mirror.signalUncalled
  split
  · exact h.signal (fun l hs => absurd hs (hlisted _)) (fun id hs => absurd hs (hopened _))
      fun events => hdelivered _
  · exact ⟨h, Nat.le_refl _⟩

theorem Exact.shutdown (h : m.Exact log keyPrefix) :
    (m.move .shutdown).Exact log keyPrefix ∧
      m.loop.session.lastApplied ≤ (m.move .shutdown).loop.session.lastApplied := by
  simp only [Mirror.move]
  split
  · exact ⟨h, Nat.le_refl _⟩
  · exact h.signal (by simp) (by simp) (by simp)

/-- Every move keeps the loop exact, and the log grows by one event or none. -/
theorem Exact.move (h : m.Exact log keyPrefix) (mv : MirrorMove) :
    ∃ added, added.length ≤ 1 ∧ (m.move mv).Exact (log ++ added) keyPrefix ∧
      m.loop.session.lastApplied ≤ (m.move mv).loop.session.lastApplied := by
  have still {m' : Mirror} (h' : m'.Exact log keyPrefix ∧
      m.loop.session.lastApplied ≤ m'.loop.session.lastApplied) :
      ∃ added, added.length ≤ 1 ∧ m'.Exact (log ++ added) keyPrefix ∧
        m.loop.session.lastApplied ≤ m'.loop.session.lastApplied :=
    ⟨[], by simp, by rw [List.append_nil]; exact h'.1, h'.2⟩
  cases mv with
  | operate step =>
    refine ⟨(m.store.mutation? step).toList, by cases m.store.mutation? step <;> simp, ?_,
      Nat.le_refl _⟩
    refine h.grow (h.follows.run step) (h.numbers.run step) fun id hid => ?_
    exact (h.carries id hid).run h.applied_le step
  | subscribe other start =>
    refine still ⟨h.subscribe other start, Nat.le_of_eq ?_⟩
    simp only [Mirror.move, Mirror.subscribe]
    split <;> rfl
  | consume other =>
    refine still ⟨h.consume other, Nat.le_of_eq ?_⟩
    simp only [Mirror.move, Mirror.consume]
    split <;> rfl
  | abandon other =>
    refine still ⟨h.abandon other, Nat.le_of_eq ?_⟩
    simp only [Mirror.move, Mirror.abandon]
    split <;> rfl
  | sync => exact still ⟨h.sync, Nat.le_of_eq m.loop.move_sync_progress.2.symm⟩
  | start => exact still (h.signalUncalled (by simp) (by simp) (by simp))
  | perform =>
    refine still ⟨h.perform, Nat.le_of_eq ?_⟩
    simp only [Mirror.move, Mirror.perform]
    split
    · split <;> rfl
    · rfl
  | hear => exact still h.hear
  | fail cause => exact still (h.fail cause)
  | receive => exact still h.receive
  | wake => exact still (h.signalUncalled (by simp) (by simp) (by simp))
  | proceed => exact still (h.signalUncalled (by simp) (by simp) (by simp))
  | shutdown => exact still h.shutdown

/-! ## Runs -/

/-- What holds of a whole run from one mirror: every state on the way was exact for a part of the log
and not ahead of the last, and the store went through all revisions. -/
structure Traced (start : Mirror) (moves : List MirrorMove) (log : List Event)
    (keyPrefix : String) : Prop where
  exact : (start.run moves).Exact log keyPrefix
  earlier : ∀ before, before <+: moves → ∃ old later, log = old ++ later ∧
    (start.run before).Exact old keyPrefix ∧
    (start.run before).loop.session.lastApplied ≤ (start.run moves).loop.session.lastApplied
  reached : ∀ revision, start.store.revision ≤ revision →
    revision ≤ (start.run moves).store.revision →
    ∃ before, before <+: moves ∧ (start.run before).store.revision = revision

theorem Exact.traced {start : Mirror} (h : start.Exact log keyPrefix) (moves : List MirrorMove) :
    ∃ later, start.Traced moves (log ++ later) keyPrefix := by
  induction moves using List.reverseRecOn with
  | nil =>
    refine ⟨[], by rw [List.append_nil]; exact h, ?_, ?_⟩
    · intro before hb
      rw [List.prefix_nil.1 hb]
      exact ⟨log, [], rfl, h, Nat.le_refl _⟩
    · intro revision hlow hhigh
      exact ⟨[], List.nil_prefix, Nat.le_antisymm hlow hhigh⟩
  | append_singleton moves mv ih =>
    obtain ⟨later, ih⟩ := ih
    obtain ⟨added, hlen, hexact, hle⟩ := ih.exact.move mv
    rw [← run_append] at hexact hle
    refine ⟨later ++ added, by rw [← List.append_assoc]; exact hexact, ?_, ?_⟩
    · intro before hb
      rcases List.prefix_concat_iff.1 hb with rfl | hb
      · exact ⟨_, [], (List.append_nil _).symm, by rw [← List.append_assoc]; exact hexact,
          Nat.le_refl _⟩
      · obtain ⟨old, rest, hlog, hold, hbound⟩ := ih.earlier before hb
        refine ⟨old, rest ++ added, ?_, hold, Nat.le_trans hbound hle⟩
        rw [← List.append_assoc, hlog, List.append_assoc]
    · intro revision hlow hhigh
      have hgrow := hexact.follows.length_eq
      rw [List.length_append, ih.exact.follows.length_eq] at hgrow
      rcases Nat.lt_or_ge (start.run moves).store.revision revision with hlt | hge
      · exact ⟨moves ++ [mv], List.prefix_refl _, by omega⟩
      · obtain ⟨before, hb, hrev⟩ := ih.reached revision hlow hge
        exact ⟨before, hb.trans (List.prefix_append _ _), hrev⟩

/-! ## The main result -/

/-- Snapshot exactness. After any moves the store once had the revision up to which the loop is
current, and the cache is the state that it had then. That revision never falls and never exceeds the
store's, and if the loop reads an open stream on which nothing is queued, the cache is what the store
would list now. -/
theorem snapshot_exact (retention : Nat) (settings : WatchSettings) (kind : Kind)
    (keyPrefix : String) (moves : List MirrorMove) :
    let start := initial retention settings kind keyPrefix
    let m := start.run moves
    (∃ before, before <+: moves ∧
      (start.run before).store.revision = m.loop.session.lastApplied) ∧
    (∀ before, before <+: moves →
      (start.run before).store.revision = m.loop.session.lastApplied →
      m.loop.cache.Reflects keyPrefix (start.run before).store.index) ∧
    (∀ before, before <+: moves →
      (start.run before).loop.session.lastApplied ≤ m.loop.session.lastApplied) ∧
    m.loop.session.lastApplied ≤ m.store.revision ∧
    ∀ id, m.loop.stream? = some id → ∃ stream, m.store.stream? id = some stream ∧
      (stream.isOpen = true → stream.queue = [] → ∀ key entry,
        m.loop.cache.get? key = some entry ↔ key ≠ "" ∧
          ∃ k ∈ m.store.keysUnder keyPrefix, k.key = keyPrefix ++ key ∧
            entry = Cache.entryOf k.key key k.value k.modRevision) := by
  intro start m
  obtain ⟨log, htraced⟩ := (exact_initial retention settings kind keyPrefix).traced moves
  have hexact := htraced.exact
  refine ⟨?_, ?_, ?_, hexact.applied_le, ?_⟩
  · exact htraced.reached _ (Nat.zero_le _) hexact.applied_le
  · intro before hb hrev
    obtain ⟨old, later, hlog, hold, -⟩ := htraced.earlier before hb
    have hreflects := hexact.reflects
    rw [← hrev] at hreflects
    have hsame := hold.follows.eventsUpTo_append (hlog ▸ hexact.follows) (Nat.le_refl _)
    rw [hlog, hsame, hold.follows.eventsUpTo_revision, ← hold.follows.index_eq] at hreflects
    exact hreflects
  · intro before hb
    obtain ⟨-, -, -, -, hle⟩ := htraced.earlier before hb
    exact hle
  · intro id hid
    obtain ⟨stream, hstream, hcarries⟩ := hexact.carries id (held?_of_stream? hexact hid)
    refine ⟨stream, hstream, fun hopen hempty => ?_⟩
    rw [Store.keysUnder_eq]
    exact Cache.reflects_iff_listed.1
      (hexact.toCurrent.reflects_index (hcarries.eventsAfter_eq_nil hopen hempty))

/-- A key is written while the first listing is under way, then the stream breaks, and the other key
is deleted before the loop opens the next stream. -/
def resumedRun : List MirrorMove :=
  [.operate (.put "/r/a" [1] none), .sync, .perform, .operate (.put "/r/b" [2] none), .hear,
    .start, .proceed, .perform, .hear, .operate .disconnect, .receive, .receive,
    .operate (.delete "/r/a"), .wake, .proceed, .perform, .hear, .receive]

theorem snapshot_exact_resumed :
    let m := (initial 4 ⟨5000, 100, 10000, 3⟩ .route "/r/").run resumedRun
    m.loop.session.lastApplied = 3 ∧ m.loop.cache.get? "a" = none ∧
      (m.loop.cache.get? "b").map CacheEntry.revision = some 2 := by
  intro m
  obtain ⟨-, hreflects, -, -, hlive⟩ :=
    snapshot_exact 4 ⟨5000, 100, 10000, 3⟩ .route "/r/" resumedRun
  have hlast : m.loop.session.lastApplied = 3 := by decide +kernel
  have hnow : m.loop.cache.Reflects "/r/" m.store.index :=
    hreflects resumedRun (List.prefix_refl _) (by decide +kernel)
  have hdeleted : m.store.index.get? "/r/a" = none := by decide +kernel
  have hkept : ⟨"/r/b", [2], 2, 2⟩ ∈ m.store.keysUnder "/r/" := by decide +kernel
  have hidle : m.store.stream? 1 = some ⟨"/r/", [], true⟩ := by decide +kernel
  obtain ⟨stream, hstream, hlisted⟩ := hlive 1 (by decide +kernel)
  cases hidle.symm.trans hstream
  refine ⟨hlast, ?_, ?_⟩
  · rw [hnow "a", if_neg (by decide)]
    exact congrArg (Option.map _) hdeleted
  · rw [(hlisted rfl rfl "b" _).2 ⟨by decide, _, hkept, rfl, rfl⟩]
    rfl

end GatewayStore.Mirror
