import GatewayStore.Proofs.Watch.Run

/-
  A cache entry never moves back. The backend may deliver whatever it likes from the history of one
  store: batches with gaps, out of order, repeated or replayed, listings of any revision, failures and
  ends at any time. `entries_never_regress` says that the loop's cache still never returns to an older
  state of a key, and that an entry vanishes only if a later delete of its key exists.

  The step from one event to a whole run is `Cache.Beyond`: the cache is past an event of the history.
  Single events, the raising of the floor and listings keep it (`Beyond.take`, `Beyond.advanceFloor`,
  `Beyond.replaceAll`), hence every move does (`beyond_move`).
-/

namespace GatewayStore

/-! ## Deliveries from a history -/

/-- What a backend may send about a store with this history: events of the history in any order and
number, and exact listings of any revision. Failures and ends are free. -/
def Signal.DrawnFrom (h : History) (keyPrefix : String) : Signal → Prop
  | .listed (.ok listing) => ∃ revision, listing = h.listing keyPrefix revision
  | .delivered (some (.batch events)) => ∀ e ∈ events, e ∈ h.events
  | _ => True

def LoopMove.DrawnFrom (h : History) (keyPrefix : String) : LoopMove → Prop
  | .sync => True
  | .signal s => s.DrawnFrom h keyPrefix

/-- The cache before the event with this number in a batch. -/
def WatchLoop.cacheWithin (w : WatchLoop) (events : List Event) (n : Nat) : Cache :=
  ((events.take n).foldl WatchLoop.applyEvent w).cache

/-- A move applies a delete of a key: the event is in a batch of the stream, and when its turn comes
the cache does not find it stale. -/
def WatchLoop.AppliesDelete (w : WatchLoop) (m : LoopMove) (key : String) (revision : Nat) : Prop :=
  ∃ id events n storageKey, w.stage = .streaming id ∧
    m = .signal (.delivered (some (.batch events))) ∧
    events[n]? = some ⟨storageKey, .delete, revision⟩ ∧
    (w.cacheWithin events n).resourceKey? storageKey = some key ∧
    (w.cacheWithin events n).isStale key revision = false

namespace Cache

/-- Every entry was written by a put of the history. -/
def DrawnFrom (h : History) (c : Cache) : Prop :=
  ∀ key entry, c.get? key = some entry → key ≠ "" ∧
    ∃ value, ⟨c.keyPrefix ++ key, .put value, entry.revision⟩ ∈ h.events

/-- The cache is past an event of a key: it reflects the key at least up to the event, an entry is at
least as new, and a missing entry is due to a delete at least as new. -/
structure Beyond (h : History) (c : Cache) (key : String) (e : Event) : Prop where
  level : e.revision ≤ c.level key
  entry : ∀ entry, c.get? key = some entry → e.revision ≤ entry.revision
  gone : c.get? key = none →
    ∃ d ∈ h.events, d.key = e.key ∧ d.change = .delete ∧ e.revision ≤ d.revision

variable {h : History} {c : Cache} {key : String} {e : Event}

/-! ## Single operations -/

theorem DrawnFrom.take (hc : c.DrawnFrom h) {x : Event} (hx : x ∈ h.events) :
    (c.take x).DrawnFrom h := by
  intro key entry hget
  rw [keyPrefix_take]
  by_cases hacc : c.Accepts x key
  · rw [get?_take_of_accepts hacc] at hget
    obtain ⟨hkey, hne⟩ := resourceKey?_eq_some_iff.1 hacc.1
    unfold Event.entry? at hget
    split at hget
    · next value hv =>
      cases hget
      refine ⟨hne, value, ?_⟩
      rw [← hkey, ← hv]
      exact hx
    · cases hget
    · cases hget
  · rw [get?_take_of_not_accepts hacc] at hget
    exact hc key entry hget

theorem DrawnFrom.replaceAll {revision : Nat} (hle : c.floor ≤ revision) :
    (c.replaceAll (h.listing c.keyPrefix revision).keys revision).2.DrawnFrom h := by
  intro key entry hget
  obtain ⟨hne, r, hr, rfl⟩ := (get?_replaceAll_listing hle key entry).1 hget
  rw [keyPrefix_replaceAll]
  exact ⟨hne, r.value, (History.mem_of_get?_contentsAt hr).1⟩

theorem DrawnFrom.foldl_take (hc : c.DrawnFrom h) {events : List Event}
    (hin : ∀ x ∈ events, x ∈ h.events) : (events.foldl Cache.take c).DrawnFrom h := by
  induction events generalizing c with
  | nil => exact hc
  | cons x events ih =>
    exact ih (hc.take (hin x List.mem_cons_self)) fun y hy => hin y (List.mem_cons_of_mem _ hy)

theorem DrawnFrom.advanceFloor (hc : c.DrawnFrom h) (revision : Nat) :
    (c.advanceFloor revision).DrawnFrom h := by
  intro key entry hget
  rw [get?_advanceFloor] at hget
  rw [keyPrefix_advanceFloor]
  exact hc key entry hget

theorem Beyond.take (hb : c.Beyond h key e) (hkey : e.key = c.keyPrefix ++ key) {x : Event}
    (hx : x ∈ h.events) : (c.take x).Beyond h key e := by
  by_cases hacc : c.Accepts x key
  · have hlt : e.revision < x.revision := Nat.lt_of_le_of_lt hb.level hacc.2.2
    have hxk : x.key = e.key := ((resourceKey?_eq_some_iff.1 hacc.1).1).trans hkey.symm
    refine ⟨?_, ?_, ?_⟩
    · rw [level_take_of_accepts hacc]
      exact Nat.le_of_lt hlt
    · intro entry hget
      rw [get?_take_of_accepts hacc] at hget
      unfold Event.entry? at hget
      split at hget <;> cases hget
      exact Nat.le_of_lt hlt
    · intro hget
      rw [get?_take_of_accepts hacc] at hget
      match hc : x.change with
      | .put value => simp [Event.entry?, hc] at hget
      | .blindPut => exact absurd hc hacc.2.1
      | .delete => exact ⟨x, hx, hxk, hc, Nat.le_of_lt hlt⟩
  · refine ⟨?_, ?_, ?_⟩
    · rw [level_take_of_not_accepts hacc]
      exact hb.level
    · rw [get?_take_of_not_accepts hacc]
      exact hb.entry
    · rw [get?_take_of_not_accepts hacc]
      exact hb.gone

/-- The cache that accepts a delete is past it. -/
theorem beyond_take_delete (hacc : c.Accepts e key) (he : e ∈ h.events)
    (hc : e.change = .delete) : (c.take e).Beyond h key e := by
  have hnone : (c.take e).get? key = none := by
    rw [get?_take_of_accepts hacc]
    simp [Event.entry?, hc]
  refine ⟨Nat.le_of_eq (level_take_of_accepts hacc).symm, ?_, fun _ => ⟨e, he, rfl, hc, Nat.le_refl _⟩⟩
  intro entry hget
  rw [hnone] at hget
  cases hget

theorem Beyond.foldl_take (hb : c.Beyond h key e) (hkey : e.key = c.keyPrefix ++ key)
    {events : List Event} (hin : ∀ x ∈ events, x ∈ h.events) :
    (events.foldl Cache.take c).Beyond h key e := by
  induction events generalizing c with
  | nil => exact hb
  | cons x events ih =>
    refine ih (hb.take hkey (hin x List.mem_cons_self)) ?_
      fun y hy => hin y (List.mem_cons_of_mem _ hy)
    rw [keyPrefix_take]
    exact hkey

theorem Beyond.advanceFloor (hb : c.Beyond h key e) (revision : Nat) :
    (c.advanceFloor revision).Beyond h key e := by
  refine ⟨?_, ?_, ?_⟩
  · rw [level_advanceFloor]
    exact Nat.le_trans hb.level (Nat.le_max_left _ _)
  · rw [get?_advanceFloor]
    exact hb.entry
  · rw [get?_advanceFloor]
    exact hb.gone

/-- A listing that the cache takes was made after everything that a settled cache reflects. -/
theorem Beyond.replaceAll (hb : c.Beyond h key e) (hkey : e.key = c.keyPrefix ++ key)
    (hne : key ≠ "") (he : e ∈ h.events) (hs : c.Settled) {revision : Nat} (hle : c.floor ≤ revision) :
    (c.replaceAll (h.listing c.keyPrefix revision).keys revision).2.Beyond h key e := by
  have her : e.revision ≤ revision := by
    have hlevel := hb.level
    rw [hs key] at hlevel
    exact Nat.le_trans hlevel hle
  refine ⟨?_, ?_, ?_⟩
  · have hfloor := floor_le_level (c.replaceAll (h.listing c.keyPrefix revision).keys revision).2 key
    rw [floor_replaceAll] at hfloor
    omega
  · intro entry hget
    obtain ⟨-, r, hr, rfl⟩ := (get?_replaceAll_listing hle key entry).1 hget
    exact History.revision_le_of_get?_contentsAt hr he hkey her
  · intro hget
    have hnone : (h.contentsAt revision).get? e.key = none := by
      cases hr : (h.contentsAt revision).get? e.key with
      | none => rfl
      | some r =>
        rw [hkey] at hr
        have hlisted := (get?_replaceAll_listing hle key _).2 ⟨hne, r, hr, rfl⟩
        unfold History.listing at hget
        rw [hlisted] at hget
        cases hget
    exact History.exists_delete_of_get?_contentsAt hnone he rfl her

end Cache

/-! ## Moves of the loop -/

namespace WatchLoop

/-- What holds of a loop between its moves: its cache is settled at the revision from which it would
resume, and holds nothing but puts of the history. -/
structure Sound (h : History) (keyPrefix : String) (w : WatchLoop) : Prop where
  keyPrefix_eq : w.cache.keyPrefix = keyPrefix
  inStep : w.InStep
  drawn : w.cache.DrawnFrom h

theorem sound_fresh (h : History) (settings : WatchSettings) (kind : Kind) (keyPrefix : String) :
    (fresh settings kind keyPrefix).Sound h keyPrefix := by
  refine ⟨rfl, inStep_fresh settings kind keyPrefix, ?_⟩
  intro key entry hget
  simp [fresh, Cache.empty, Cache.get?] at hget

variable {h : History} {keyPrefix : String} {w : WatchLoop} {m : LoopMove}

/-- How a move that a history allows changes the cache: not at all, by a listing that is not older
than the floor, or by a batch of events. -/
theorem Sound.move_cases (hw : w.Sound h keyPrefix) (hm : m.DrawnFrom h keyPrefix) :
    ((w.move m).cache = w.cache ∧ (w.move m).session.lastApplied = w.session.lastApplied) ∨
    (∃ revision, w.cache.floor ≤ revision ∧
      (w.move m).cache =
        (w.cache.replaceAll (h.listing w.cache.keyPrefix revision).keys revision).2 ∧
      (w.move m).session.lastApplied = revision) ∨
    (∃ events, (∀ e ∈ events, e ∈ h.events) ∧
      (w.move m).cache = (w.applyBatch events).cache ∧
      (w.move m).session.lastApplied = (w.applyBatch events).session.lastApplied) := by
  cases m with
  | sync => exact .inl w.move_sync_progress
  | signal s =>
    rcases w.react_progress s with hsame | ⟨listing, rfl, -, hc, hl⟩ | ⟨id, events, -, rfl, hc, hl⟩
    · exact .inl hsame
    · obtain ⟨revision, rfl⟩ := hm
      rcases Nat.lt_or_ge revision w.cache.floor with hlt | hge
      · left
        have hold : (w.cache.replaceAll (h.listing keyPrefix revision).keys revision).2 = w.cache :=
          Cache.replaceAll_of_lt _ hlt
        exact ⟨hc.trans hold, hl.trans (by
          rw [show (h.listing keyPrefix revision).revision = revision from rfl, hold]
          exact hw.inStep.floor_eq)⟩
      · right; left
        refine ⟨revision, hge, ?_, ?_⟩
        · rw [hw.keyPrefix_eq]
          exact hc
        · refine hl.trans ?_
          rw [Cache.floor_replaceAll]
          exact Nat.max_eq_right hge
    · exact .inr (.inr ⟨events, hm, hc, hl⟩)

theorem Sound.move (hw : w.Sound h keyPrefix) (hm : m.DrawnFrom h keyPrefix) :
    (w.move m).Sound h keyPrefix := by
  rcases hw.move_cases hm with ⟨hc, hl⟩ | ⟨revision, hge, hc, hl⟩ | ⟨events, hin, hc, hl⟩
  · refine ⟨?_, ⟨?_, ?_⟩, ?_⟩
    · rw [hc]; exact hw.keyPrefix_eq
    · rw [hc, hl]; exact hw.inStep.floor_eq
    · rw [hc]; exact hw.inStep.settled
    · rw [hc]; exact hw.drawn
  · refine ⟨?_, ⟨?_, ?_⟩, ?_⟩
    · rw [hc, Cache.keyPrefix_replaceAll]
      exact hw.keyPrefix_eq
    · rw [hc, hl, Cache.floor_replaceAll]
      exact Nat.max_eq_right hge
    · rw [hc]
      exact Cache.settled_replaceAll hge fun k r hr => (History.mem_of_get?_contentsAt hr).2
    · rw [hc]
      exact Cache.DrawnFrom.replaceAll hge
  · have hstep := hw.inStep.applyBatch events
    refine ⟨?_, ⟨?_, ?_⟩, ?_⟩
    · rw [hc, cache_applyBatch, Cache.keyPrefix_advanceFloor, Cache.keyPrefix_foldl_take]
      exact hw.keyPrefix_eq
    · rw [hc, hl]; exact hstep.floor_eq
    · rw [hc]; exact hstep.settled
    · rw [hc, cache_applyBatch]
      exact (hw.drawn.foldl_take hin).advanceFloor _

/-- A move keeps the cache past every event that it is past. -/
theorem Sound.beyond_move (hw : w.Sound h keyPrefix) (hm : m.DrawnFrom h keyPrefix)
    {key : String} {e : Event} (he : e ∈ h.events) (hkey : e.key = keyPrefix ++ key)
    (hne : key ≠ "") (hb : w.cache.Beyond h key e) : (w.move m).cache.Beyond h key e := by
  rw [← hw.keyPrefix_eq] at hkey
  rcases hw.move_cases hm with ⟨hc, -⟩ | ⟨revision, hge, hc, -⟩ | ⟨events, hin, hc, -⟩
  · rw [hc]
    exact hb
  · rw [hc]
    exact hb.replaceAll hkey hne he hw.inStep.settled hge
  · rw [hc, cache_applyBatch]
    exact (hb.foldl_take hkey hin).advanceFloor _

theorem Sound.moves (hw : w.Sound h keyPrefix) {l : List LoopMove}
    (hl : ∀ m ∈ l, m.DrawnFrom h keyPrefix) : (w.moves l).Sound h keyPrefix := by
  induction l generalizing w with
  | nil => exact hw
  | cons m l ih =>
    exact ih (hw.move (hl m List.mem_cons_self)) fun x hx => hl x (List.mem_cons_of_mem _ hx)

theorem Sound.beyond_moves (hw : w.Sound h keyPrefix) {l : List LoopMove}
    (hl : ∀ m ∈ l, m.DrawnFrom h keyPrefix) {key : String} {e : Event} (he : e ∈ h.events)
    (hkey : e.key = keyPrefix ++ key) (hne : key ≠ "") (hb : w.cache.Beyond h key e) :
    (w.moves l).cache.Beyond h key e := by
  induction l generalizing w with
  | nil => exact hb
  | cons m l ih =>
    have hm := hl m List.mem_cons_self
    exact ih (hw.move hm) (fun x hx => hl x (List.mem_cons_of_mem _ hx))
      (hw.beyond_move hm he hkey hne hb)

/-- An entry is past the put that wrote it. -/
theorem Sound.beyond_of_get? (hw : w.Sound h keyPrefix) {key : String} {entry : CacheEntry}
    (hget : w.cache.get? key = some entry) : key ≠ "" ∧ ∃ value,
      ⟨keyPrefix ++ key, .put value, entry.revision⟩ ∈ h.events ∧
        w.cache.Beyond h key ⟨keyPrefix ++ key, .put value, entry.revision⟩ := by
  obtain ⟨hne, value, hin⟩ := hw.drawn key entry hget
  rw [hw.keyPrefix_eq] at hin
  refine ⟨hne, value, hin, Cache.revision_le_level hget, ?_, ?_⟩
  · intro entry' hget'
    rw [hget] at hget'
    cases hget'
    exact Nat.le_refl _
  · intro hnone
    rw [hget] at hnone
    cases hnone

/-- After a move that applies a delete the cache is past the delete. -/
theorem Sound.beyond_of_appliesDelete (hw : w.Sound h keyPrefix) (hm : m.DrawnFrom h keyPrefix)
    {key : String} {revision : Nat} (hd : w.AppliesDelete m key revision) :
    key ≠ "" ∧ ⟨keyPrefix ++ key, .delete, revision⟩ ∈ h.events ∧
      (w.move m).cache.Beyond h key ⟨keyPrefix ++ key, .delete, revision⟩ := by
  obtain ⟨id, events, n, storageKey, hstage, rfl, hat, hk, hfresh⟩ := hd
  obtain ⟨hn, hat⟩ := List.getElem?_eq_some_iff.1 hat
  have hin : ⟨storageKey, .delete, revision⟩ ∈ h.events := hm _ (hat ▸ List.getElem_mem hn)
  unfold cacheWithin at hk hfresh
  rw [cache_foldl_applyEvent] at hk hfresh
  have hunder : ((events.take n).foldl Cache.take w.cache).keyPrefix = keyPrefix := by
    rw [Cache.keyPrefix_foldl_take, hw.keyPrefix_eq]
  obtain ⟨hkey, hne⟩ := Cache.resourceKey?_eq_some_iff.1 hk
  rw [hunder] at hkey
  subst hkey
  refine ⟨hne, hin, ?_⟩
  have hacc : ((events.take n).foldl Cache.take w.cache).Accepts
      ⟨keyPrefix ++ key, .delete, revision⟩ key :=
    ⟨hk, by simp [Event.IsFull], (Cache.isStale_eq_false_iff _ _ _).1 hfresh⟩
  have hsplit : events.foldl Cache.take w.cache = (events.drop (n + 1)).foldl Cache.take
      (((events.take n).foldl Cache.take w.cache).take ⟨keyPrefix ++ key, .delete, revision⟩) := by
    conv => lhs; rw [← List.take_append_drop n events, List.drop_eq_getElem_cons hn, hat]
    rw [List.foldl_append, List.foldl_cons]
  have hmove : (w.move (.signal (.delivered (some (.batch events))))).cache =
      (w.applyBatch events).cache := by
    simp [WatchLoop.move, react, hstage, recover]
  rw [hmove, cache_applyBatch, hsplit]
  refine Cache.Beyond.advanceFloor (Cache.Beyond.foldl_take ?_ ?_ ?_) _
  · exact Cache.beyond_take_delete hacc hin rfl
  · rw [Cache.keyPrefix_take, hunder]
  · exact fun x hx => hm x (List.mem_of_mem_drop hx)

/-! ## The main result -/

/-- No regression under adversarial delivery. Whatever a backend delivers from a history: an entry is
only ever replaced by one that is at least as new; an applied delete is followed by newer entries
only; and an entry that is gone was deleted by a later change of the history. -/
theorem entries_never_regress (h : History) (settings : WatchSettings) (kind : Kind)
    (keyPrefix : String) (earlier later : List LoopMove)
    (hearlier : ∀ m ∈ earlier, m.DrawnFrom h keyPrefix)
    (hlater : ∀ m ∈ later, m.DrawnFrom h keyPrefix) (key : String) :
    let before := (fresh settings kind keyPrefix).moves earlier
    let after := before.moves later
    (∀ old new, before.cache.get? key = some old → after.cache.get? key = some new →
      old.revision ≤ new.revision) ∧
    (∀ m rest revision new, later = m :: rest → before.AppliesDelete m key revision →
      after.cache.get? key = some new → revision < new.revision) ∧
    (∀ old, before.cache.get? key = some old → after.cache.get? key = none →
      ∃ d ∈ h.events, d.key = keyPrefix ++ key ∧ d.change = .delete ∧
        old.revision < d.revision) := by
  intro before after
  have hbefore : before.Sound h keyPrefix :=
    (sound_fresh h settings kind keyPrefix).moves hearlier
  have hafter : after.Sound h keyPrefix := hbefore.moves hlater
  refine ⟨?_, ?_, ?_⟩
  · intro old new hold hnew
    obtain ⟨hne, value, hin, hb⟩ := hbefore.beyond_of_get? hold
    exact (hbefore.beyond_moves hlater hin rfl hne hb).entry new hnew
  · rintro m rest revision new rfl hd hnew
    have hm := hlater m List.mem_cons_self
    obtain ⟨hne, hin, hb⟩ := hbefore.beyond_of_appliesDelete hm hd
    have hb' := (hbefore.move hm).beyond_moves
      (fun x hx => hlater x (List.mem_cons_of_mem _ hx)) hin rfl hne hb
    have hle : revision ≤ new.revision := hb'.entry new hnew
    -- the entry was written by a put, so its revision is not that of the delete
    obtain ⟨-, value, hput⟩ := hafter.drawn key new hnew
    rcases Nat.lt_or_eq_of_le hle with hlt | heq
    · exact hlt
    · have := h.ascending.eq_of_revision_eq hin hput heq
      cases congrArg Event.change this
  · intro old hold hnone
    obtain ⟨hne, value, hin, hb⟩ := hbefore.beyond_of_get? hold
    obtain ⟨d, hd, hdk, hdc, hle⟩ := (hbefore.beyond_moves hlater hin rfl hne hb).gone hnone
    refine ⟨d, hd, hdk, hdc, ?_⟩
    rcases Nat.lt_or_eq_of_le hle with hlt | heq
    · exact hlt
    · have := h.ascending.eq_of_revision_eq hin hd heq
      rw [← this] at hdc
      cases hdc

/-- A key that is written, deleted and written again. -/
def rewrittenKey : History where
  events := [⟨"/r/x", .put [1], 2⟩, ⟨"/r/x", .delete, 5⟩, ⟨"/r/x", .put [2], 7⟩]
  ascending := by simp [Ascending]
  positive := by simp
  full := by simp [Event.IsFull]

/-- The loop lists the key's first state and opens a stream. -/
def listedAtTwo : List LoopMove :=
  [.signal .start, .signal .proceed, .signal (.listed (.ok (rewrittenKey.listing "/r/" 2))),
    .signal (.opened (.ok 0))]

/-- The delete comes before a replay of the first put, then a listing that is out of date, and at
last the second put. -/
def replayedAfterDelete : List LoopMove :=
  [.signal (.delivered (some (.batch [⟨"/r/x", .delete, 5⟩, ⟨"/r/x", .put [1], 2⟩]))),
    .signal (.delivered (some (.failed (.streamCompacted 6 8)))), .signal .proceed,
    .signal (.listed (.ok (rewrittenKey.listing "/r/" 3))), .signal (.opened (.ok 1)),
    .signal (.delivered (some (.batch [⟨"/r/x", .put [2], 7⟩])))]

theorem entries_never_regress_replayed :
    (∀ m ∈ listedAtTwo, m.DrawnFrom rewrittenKey "/r/") ∧
    (∀ m ∈ replayedAfterDelete, m.DrawnFrom rewrittenKey "/r/") ∧
    ∃ old new, ((fresh ⟨5000, 100, 10000, 3⟩ .route "/r/").moves listedAtTwo).cache.get? "x" =
        some old ∧
      (((fresh ⟨5000, 100, 10000, 3⟩ .route "/r/").moves listedAtTwo).moves
        replayedAfterDelete).cache.get? "x" = some new ∧
      old.revision ≤ new.revision ∧ 5 < new.revision := by
  have hlisted : ∀ m ∈ listedAtTwo, m.DrawnFrom rewrittenKey "/r/" := by
    simp only [listedAtTwo, List.forall_mem_cons]
    exact ⟨trivial, trivial, ⟨2, rfl⟩, trivial, by simp⟩
  have hreplayed : ∀ m ∈ replayedAfterDelete, m.DrawnFrom rewrittenKey "/r/" := by
    simp only [replayedAfterDelete, List.forall_mem_cons]
    exact ⟨by simp [LoopMove.DrawnFrom, Signal.DrawnFrom, rewrittenKey], trivial, trivial,
      ⟨3, rfl⟩, trivial, by simp [LoopMove.DrawnFrom, Signal.DrawnFrom, rewrittenKey], by simp⟩
  have hold : (((fresh ⟨5000, 100, 10000, 3⟩ .route "/r/").moves listedAtTwo).cache.get?
      "x").map CacheEntry.revision = some 2 := by decide +kernel
  have hnew : ((((fresh ⟨5000, 100, 10000, 3⟩ .route "/r/").moves listedAtTwo).moves
      replayedAfterDelete).cache.get? "x").map CacheEntry.revision = some 7 := by decide +kernel
  obtain ⟨old, hold, -⟩ := Option.map_eq_some_iff.1 hold
  obtain ⟨new, hnew, -⟩ := Option.map_eq_some_iff.1 hnew
  obtain ⟨hle, hdelete, -⟩ := entries_never_regress rewrittenKey ⟨5000, 100, 10000, 3⟩ .route "/r/"
    listedAtTwo replayedAfterDelete hlisted hreplayed "x"
  have hlt := hdelete _ _ 5 new rfl
    ⟨0, _, 0, "/r/x", by decide +kernel, rfl, rfl, by decide +kernel, by decide +kernel⟩ hnew
  exact ⟨hlisted, hreplayed, old, new, hold, hnew, hle old new hold hnew, hlt⟩

end WatchLoop

end GatewayStore
