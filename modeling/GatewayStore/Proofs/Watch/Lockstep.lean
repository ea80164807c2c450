import GatewayStore.Proofs.Cache.Representation
import GatewayStore.Proofs.Watch.Run

/-
  The revision up to which a loop is current and the floor of its cache are one number. They are kept
  in two places and by different rules: an event raises the first alone, a batch then raises the second
  to it, and a listing raises the second and sets the first to it. Whatever the backend delivers, they
  are the same again after every move (`InLockstep.move`). So the floor covers every tombstone of a
  batch, and none is left (`tombstones_advanceFloor`); neither number goes down
  (`lastApplied_le_moves`); and what is delivered again from below them is ignored.
-/

namespace GatewayStore

/-- The revisions that a signal brings to the loop. -/
def Signal.revisions : Signal → List Nat
  | .listed (.ok listing) => [listing.revision]
  | .delivered (some (.batch events)) => events.map Event.revision
  | _ => []

def LoopMove.revisions : LoopMove → List Nat
  | .sync => []
  | .signal s => s.revisions

namespace Cache

variable {c : Cache}

/-- An event at or below the floor is ignored. -/
theorem applyEvent_of_le_floor {e : Event} (h : e.revision ≤ c.floor) :
    c.applyEvent e = (false, c) := by
  have hstale (key : String) : c.isStale key e.revision = true :=
    (c.isStale_iff key e.revision).2 (Nat.le_trans h (floor_le_level c key))
  unfold applyEvent
  split
  · unfold applyPut
    split
    · rfl
    · rw [if_pos (hstale _)]
  · rfl
  · unfold applyDelete
    split
    · rfl
    · rw [if_pos (hstale _)]

/-- The tombstones that events leave are those from before and new ones above the floor. -/
theorem tombstone_foldl_take {events : List Event} {key : String} {deleted : Nat}
    (h : (events.foldl take c).tombstones.get? key = some deleted) :
    c.tombstones.get? key = some deleted ∨ c.floor < deleted ∧ ∃ e ∈ events, e.revision = deleted := by
  induction events generalizing c with
  | nil => exact .inl h
  | cons e events ih =>
    rcases ih h with hbefore | ⟨hfloor, x, hx, hdeleted⟩
    · rcases tombstone_take hbefore with hold | ⟨hfloor, hdeleted⟩
      · exact .inl hold
      · exact .inr ⟨hfloor, e, List.mem_cons_self, hdeleted⟩
    · rw [floor_take] at hfloor
      exact .inr ⟨hfloor, x, List.mem_cons_of_mem e hx, hdeleted⟩

/-- Tombstones above the floor and up to a revision are all dropped when the floor is raised to it. -/
theorem tombstones_advanceFloor {revision : Nat}
    (h : ∀ key deleted, c.tombstones.get? key = some deleted →
      c.floor < deleted ∧ deleted ≤ revision) :
    (c.advanceFloor revision).tombstones = .empty := by
  ext key : 1
  rw [KeyMap.get?_empty, Option.eq_none_iff_forall_ne_some]
  intro deleted hdeleted
  unfold advanceFloor at hdeleted
  split at hdeleted
  · next hle =>
    obtain ⟨hfloor, hrevision⟩ := h key deleted hdeleted
    omega
  · rw [KeyMap.get?_filter, Option.filter_eq_some_iff] at hdeleted
    have hkept : revision < deleted := of_decide_eq_true hdeleted.2
    have hrevision := (h key deleted hdeleted.1).2
    omega

end Cache

namespace WatchLoop

/-- The floor is the revision up to which the loop is current, and there are no tombstones. -/
structure InLockstep (w : WatchLoop) : Prop where
  floor_eq : w.cache.floor = w.session.lastApplied
  bare : w.cache.tombstones = .empty

variable {w : WatchLoop}

theorem inLockstep_fresh (settings : WatchSettings) (kind : Kind) (keyPrefix : String) :
    (fresh settings kind keyPrefix).InLockstep := ⟨rfl, rfl⟩

/-! ## Listings and batches -/

/-- A listing that is older than the cache is counted, and that is all. -/
theorem InLockstep.relist_of_lt (h : w.InLockstep) {listing : Listing}
    (hlt : listing.revision < w.cache.floor) :
    w.relist listing =
      { w with session := { w.session with relists := w.session.relists + 1 } } := by
  unfold relist
  dsimp only
  rw [Cache.replaceAll_of_lt _ hlt, Session.relisted, h.floor_eq]

theorem lastApplied_relist (w : WatchLoop) (listing : Listing) :
    (w.relist listing).session.lastApplied = max w.cache.floor listing.revision :=
  w.cache.floor_replaceAll listing.keys listing.revision

theorem InLockstep.relist (h : w.InLockstep) (listing : Listing) : (w.relist listing).InLockstep := by
  refine ⟨rfl, ?_⟩
  show (w.cache.replaceAll listing.keys listing.revision).2.tombstones = .empty
  unfold Cache.replaceAll
  split
  · exact h.bare
  · rfl

theorem InLockstep.applyBatch (h : w.InLockstep) (events : List Event) :
    (w.applyBatch events).InLockstep := by
  refine ⟨floor_applyBatch h.floor_eq events, ?_⟩
  rw [cache_applyBatch]
  refine Cache.tombstones_advanceFloor fun key deleted hdeleted => ?_
  rcases Cache.tombstone_foldl_take hdeleted with hold | ⟨hfloor, e, he, rfl⟩
  · rw [h.bare] at hold
    cases hold
  · rw [Cache.floor_foldl_take]
    exact ⟨hfloor, revision_le_lastRevision he⟩

/-! ## Moves -/

/-- The cache and its revision move as by a listing, as by a batch, or not at all. -/
theorem move_cases (w : WatchLoop) (m : LoopMove) :
    ((w.move m).cache = w.cache ∧ (w.move m).session.lastApplied = w.session.lastApplied) ∨
    (∃ listing, m = .signal (.listed (.ok listing)) ∧
      (w.move m).cache = (w.relist listing).cache ∧
      (w.move m).session.lastApplied = (w.relist listing).session.lastApplied) ∨
    (∃ events, m = .signal (.delivered (some (.batch events))) ∧
      (w.move m).cache = (w.applyBatch events).cache ∧
      (w.move m).session.lastApplied = (w.applyBatch events).session.lastApplied) := by
  cases m with
  | sync => exact .inl w.move_sync_progress
  | signal s =>
    rcases w.react_progress s with hsame | ⟨listing, rfl, -, hc, hl⟩ | ⟨id, events, -, rfl, hc, hl⟩
    · exact .inl hsame
    · exact .inr (.inl ⟨listing, rfl, hc, hl⟩)
    · exact .inr (.inr ⟨events, rfl, hc, hl⟩)

theorem InLockstep.congr {w' : WatchLoop} (h : w'.InLockstep) (hcache : w.cache = w'.cache)
    (happlied : w.session.lastApplied = w'.session.lastApplied) : w.InLockstep :=
  ⟨by rw [hcache, happlied, h.floor_eq], by rw [hcache, h.bare]⟩

theorem InLockstep.move (h : w.InLockstep) (m : LoopMove) : (w.move m).InLockstep := by
  rcases w.move_cases m with ⟨hc, hl⟩ | ⟨listing, -, hc, hl⟩ | ⟨events, -, hc, hl⟩
  · exact h.congr hc hl
  · exact (h.relist listing).congr hc hl
  · exact (h.applyBatch events).congr hc hl

/-- A move does not lower the revision, and raises it only to one that it brings. -/
theorem InLockstep.lastApplied_move (h : w.InLockstep) (m : LoopMove) :
    w.session.lastApplied ≤ (w.move m).session.lastApplied ∧
      ((w.move m).session.lastApplied = w.session.lastApplied ∨
        (w.move m).session.lastApplied ∈ m.revisions) := by
  rcases w.move_cases m with ⟨-, hl⟩ | ⟨listing, rfl, -, hl⟩ | ⟨events, rfl, -, hl⟩ <;> rw [hl]
  · exact ⟨Nat.le_refl _, .inl rfl⟩
  · rw [lastApplied_relist, h.floor_eq]
    refine ⟨Nat.le_max_left _ _, ?_⟩
    rcases Nat.le_total listing.revision w.session.lastApplied with hle | hle
    · exact .inl (Nat.max_eq_left hle)
    · rw [Nat.max_eq_right hle]
      exact .inr (List.mem_singleton_self _)
  · rw [lastApplied_applyBatch]
    refine ⟨le_lastRevision _ _, ?_⟩
    rcases lastRevision_eq_or w.session.lastApplied events with hsame | ⟨e, he, hlast⟩
    · exact .inl hsame
    · rw [hlast]
      exact .inr (List.mem_map.2 ⟨e, he, rfl⟩)

theorem InLockstep.moves (h : w.InLockstep) (l : List LoopMove) : (w.moves l).InLockstep := by
  induction l generalizing w with
  | nil => exact h
  | cons m l ih => exact ih (h.move m)

theorem InLockstep.lastApplied_le_moves (h : w.InLockstep) (l : List LoopMove) :
    w.session.lastApplied ≤ (w.moves l).session.lastApplied := by
  induction l generalizing w with
  | nil => exact Nat.le_refl _
  | cons m l ih => exact Nat.le_trans (h.lastApplied_move m).1 (ih (h.move m))

/-- The revision keeps below everything that the revisions of a run keep below. -/
theorem InLockstep.lastApplied_moves_lt (h : w.InLockstep) {bound : Nat}
    (hw : w.session.lastApplied < bound) {l : List LoopMove}
    (hl : ∀ m ∈ l, ∀ r ∈ m.revisions, r < bound) : (w.moves l).session.lastApplied < bound := by
  induction l generalizing w with
  | nil => exact hw
  | cons m l ih =>
    refine ih (h.move m) ?_ fun x hx => hl x (List.mem_cons_of_mem m hx)
    rcases (h.lastApplied_move m).2 with hsame | hbrought
    · rw [hsame]
      exact hw
    · exact hl m List.mem_cons_self _ hbrought

/-! ## The main result -/

/-- The floor of the cache and the revision of the session, after any moves of a loop, whatever its
backend delivered. They are the same, and there are no tombstones; neither goes down later; an event
that is not above them is ignored whenever it is delivered, also in the middle of a batch; no listing
moves back the place where streams resume, and one that is older than the cache changes nothing but the
count of listings. If the listings and events keep below the greatest 64-bit word, the place where
streams resume is such a word. -/
theorem floor_in_lockstep (settings : WatchSettings) (kind : Kind) (keyPrefix : String)
    (l : List LoopMove) :
    let w := (fresh settings kind keyPrefix).moves l
    w.session.lastApplied = w.cache.floor ∧ w.cache.tombstones = .empty ∧
      (∀ later, w.session.lastApplied ≤ (w.moves later).session.lastApplied ∧
        w.cache.floor ≤ (w.moves later).cache.floor) ∧
      (∀ (later : List LoopMove) (before : List Event) (e : Event),
        e.revision ≤ w.session.lastApplied →
          let within := (before.foldl applyEvent (w.moves later)).cache
          within.applyEvent e = (false, within)) ∧
      (∀ listing, w.session.resumeRevision ≤ (w.relist listing).session.resumeRevision ∧
        (listing.revision < w.cache.floor → w.relist listing =
          { w with session := { w.session with relists := w.session.relists + 1 } })) ∧
      ((∀ m ∈ l, ∀ r ∈ m.revisions, r < 2 ^ 64 - 1) → w.session.resumeRevision < 2 ^ 64) := by
  intro w
  have hfresh := inLockstep_fresh settings kind keyPrefix
  have hw : w.InLockstep := hfresh.moves l
  refine ⟨hw.floor_eq.symm, hw.bare, fun later => ?_, fun later before e he => ?_,
    fun listing => ⟨?_, fun hlt => hw.relist_of_lt hlt⟩, fun hfits => ?_⟩
  · have hle := hw.lastApplied_le_moves later
    rw [hw.floor_eq, (hw.moves later).floor_eq]
    exact ⟨hle, hle⟩
  · refine Cache.applyEvent_of_le_floor ?_
    rw [cache_foldl_applyEvent, Cache.floor_foldl_take, (hw.moves later).floor_eq]
    exact Nat.le_trans he (hw.lastApplied_le_moves later)
  · rw [Session.resumeRevision, Session.resumeRevision, lastApplied_relist, hw.floor_eq]
    omega
  · have hzero : (fresh settings kind keyPrefix).session.lastApplied < 2 ^ 64 - 1 :=
      show 0 < 2 ^ 64 - 1 by decide
    have hlt := hfresh.lastApplied_moves_lt hzero hfits
    rw [Session.resumeRevision]
    exact Nat.succ_lt_of_lt_pred hlt

/-- A listing at revision 7; then a batch that is out of order and in part not above the listing. -/
def unorderedRun : List LoopMove :=
  [.sync, .signal (.listed (.ok ⟨[⟨"/r/x", [1], 3, 9⟩], 7⟩)), .signal .start, .signal .proceed,
    .signal (.opened (.ok 0)), .signal (.delivered (some (.batch
      [⟨"/r/x", .delete, 12⟩, ⟨"/r/y", .put [2], 8⟩, ⟨"/r/z", .delete, 4⟩])))]

/-- A later batch brings a put of a key that is newer than its entry, but not above the last revision,
and brings it after a newer event. -/
theorem floor_in_lockstep_unordered :
    let w := (fresh .default .route "/r/").moves unorderedRun
    w.cache.floor = 12 ∧ w.session.lastApplied = 12 ∧ w.cache.tombstones = .empty ∧
      (∀ m ∈ unorderedRun, ∀ r ∈ m.revisions, r < 2 ^ 64 - 1) ∧
      w.session.resumeRevision < 2 ^ 64 ∧
      w.relist ⟨[], 11⟩ =
        { w with session := { w.session with relists := w.session.relists + 1 } } ∧
      ∀ within, within = ([⟨"/r/x", .put [3], 14⟩].foldl applyEvent w).cache →
        within.applyEvent ⟨"/r/y", .put [4], 12⟩ = (false, within) := by
  intro w
  have hfloor : w.cache.floor = 12 := by decide +kernel
  have hfits : ∀ m ∈ unorderedRun, ∀ r ∈ m.revisions, r < 2 ^ 64 - 1 := by
    simp [unorderedRun, LoopMove.revisions, Signal.revisions]
  obtain ⟨heq, hbare, -, hignored, hlisting, hword⟩ :=
    floor_in_lockstep .default .route "/r/" unorderedRun
  have happlied : w.session.lastApplied = 12 := heq.trans hfloor
  refine ⟨hfloor, happlied, hbare, hfits, hword hfits, (hlisting ⟨[], 11⟩).2 ?_, ?_⟩
  · show 11 < w.cache.floor
    rw [hfloor]
    decide
  · rintro within rfl
    exact hignored [] [⟨"/r/x", .put [3], 14⟩] ⟨"/r/y", .put [4], 12⟩ (Nat.le_of_eq happlied.symm)

end WatchLoop

end GatewayStore
