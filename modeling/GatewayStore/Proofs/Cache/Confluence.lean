import GatewayStore.Proofs.Cache.Order
import Mathlib.Data.Finset.Max

/-
  Events in any order, any number of times. Of each key a cache keeps the latest event that it is
  given, if that event is above the level of the key (`shows_foldl_take`), and otherwise what it held
  (`sameAt_foldl_take`). Neither speaks of the order in which the events come, so caches that are given
  the same events end up equal (`foldl_take_eq`), as long as no two different events share key and
  revision.
-/

namespace GatewayStore

/-- No two different events share key and revision. -/
def Distinguished (events : List Event) : Prop :=
  ∀ a ∈ events, ∀ b ∈ events, a.key = b.key → a.revision = b.revision → a = b

namespace Event

/-- The tombstone that an event leaves in a cache: none after a put. -/
def tombstone? (e : Event) : Option Nat :=
  match e.change with
  | .put _ => none
  | .blindPut => none
  | .delete => some e.revision

/-- No other event of the key is later. -/
def IsLatestOf (e : Event) (events : List Event) : Prop :=
  e ∈ events ∧ ∀ x ∈ events, x.key = e.key → x.revision ≤ e.revision

theorem IsLatestOf.mono {e : Event} {events more : List Event} (h : e.IsLatestOf more)
    (hin : e ∈ events) (hsub : ∀ x ∈ events, x ∈ more) : e.IsLatestOf events :=
  ⟨hin, fun x hx => h.2 x (hsub x hx)⟩

/-- Every event is followed by a latest one of its key. -/
theorem exists_isLatestOf {e : Event} {events : List Event} (h : e ∈ events) :
    ∃ last : Event, last.IsLatestOf events ∧ last.key = e.key ∧ e.revision ≤ last.revision := by
  let ofKey := (events.filter fun x => x.key = e.key).toFinset
  have hmem : ∀ x, x ∈ ofKey ↔ x ∈ events ∧ x.key = e.key := by
    intro x
    simp [ofKey]
  obtain ⟨last, hlast, hmax⟩ := ofKey.exists_max_image revision ⟨e, (hmem e).2 ⟨h, rfl⟩⟩
  obtain ⟨hin, hkey⟩ := (hmem last).1 hlast
  refine ⟨last, ⟨hin, ?_⟩, hkey, hmax e ((hmem e).2 ⟨h, rfl⟩)⟩
  intro x hx hxkey
  exact hmax x ((hmem x).2 ⟨hx, hxkey.trans hkey⟩)

end Event

theorem Distinguished.mono {events more : List Event} (h : Distinguished more)
    (hsub : ∀ x ∈ events, x ∈ more) : Distinguished events :=
  fun a ha b hb => h a (hsub a ha) b (hsub b hb)

namespace Cache

/-- Two caches know the same of a key. -/
def SameAt (c d : Cache) (key : String) : Prop :=
  d.get? key = c.get? key ∧ d.tombstones.get? key = c.tombstones.get? key

/-- What a cache knows of a key is what an event left there. -/
def Shows (c : Cache) (e : Event) (key : String) : Prop :=
  c.get? key = e.entry? key ∧ c.tombstones.get? key = e.tombstone?

variable {c d : Cache} {e x : Event} {events : List Event} {key : String}

theorem SameAt.trans {b : Cache} (hbc : b.SameAt c key) (hcd : c.SameAt d key) : b.SameAt d key :=
  ⟨hcd.1.trans hbc.1, hcd.2.trans hbc.2⟩

theorem SameAt.shows (h : c.SameAt d key) (hc : c.Shows e key) : d.Shows e key :=
  ⟨h.1.trans hc.1, h.2.trans hc.2⟩

theorem eq_of_sameAt (hkind : d.kind = c.kind) (hkeyPrefix : d.keyPrefix = c.keyPrefix)
    (hfloor : d.floor = c.floor) (hrevision : d.revision = c.revision)
    (h : ∀ key, c.SameAt d key) : d = c := by
  have hentries : d.entries = c.entries := KeyMap.ext fun key => (h key).1
  have htombstones : d.tombstones = c.tombstones := KeyMap.ext fun key => (h key).2
  cases c
  cases d
  simp_all

/-! ## One event -/

theorem shows_take (h : c.Accepts e key) : (c.take e).Shows e key := by
  refine ⟨get?_take_of_accepts h, ?_⟩
  rcases take_of_accepts h with ⟨value, hc, htake⟩ | ⟨hc, htake⟩
  · simp [htake, Event.tombstone?, hc]
  · simp [htake, Event.tombstone?, hc]

theorem sameAt_take (h : ¬ c.Accepts e key) : c.SameAt (c.take e) key := by
  refine ⟨get?_take_of_not_accepts h, ?_⟩
  rcases take_cases c e with htake | ⟨other, hacc⟩
  · rw [htake]
  · have hne : key ≠ other := fun he => h (he ▸ hacc)
    rcases take_of_accepts hacc with ⟨_, _, htake⟩ | ⟨_, htake⟩ <;> simp [htake, hne]

@[simp]
theorem resourceKey?_take (storageKey : String) :
    (c.take e).resourceKey? storageKey = c.resourceKey? storageKey := by
  unfold resourceKey?
  rw [keyPrefix_take]

/-- After an accepted event a key accepts what is later. -/
theorem accepts_take (h : c.Accepts x key) :
    (c.take x).Accepts e key ↔
      c.resourceKey? e.key = some key ∧ e.IsFull ∧ x.revision < e.revision := by
  unfold Accepts
  rw [resourceKey?_take, level_take_of_accepts h]

theorem accepts_take_of_not_accepts (h : ¬ c.Accepts x key) :
    (c.take x).Accepts e key ↔ c.Accepts e key := by
  unfold Accepts
  rw [resourceKey?_take, level_take_of_not_accepts h]

/-- Levels do not fall, so nothing becomes acceptable. -/
theorem Accepts.of_take (h : (c.take x).Accepts e key) : c.Accepts e key := by
  by_cases hx : c.Accepts x key
  · obtain ⟨hkey, hfull, hlt⟩ := (accepts_take hx).1 h
    exact ⟨hkey, hfull, Nat.lt_trans hx.2.2 hlt⟩
  · exact (accepts_take_of_not_accepts hx).1 h

theorem key_eq_of_accepts (he : c.Accepts e key) (hx : c.Accepts x key) : x.key = e.key :=
  ((resourceKey?_eq_some_iff.1 hx.1).1).trans ((resourceKey?_eq_some_iff.1 he.1).1).symm

theorem revision_take (h : c.Accepts e key) :
    (c.take e).revision = max c.revision e.revision := by
  rcases take_of_accepts h with ⟨_, _, htake⟩ | ⟨_, htake⟩ <;> rw [htake]

theorem revision_le_revision_take (c : Cache) (e : Event) : c.revision ≤ (c.take e).revision := by
  rcases take_cases c e with h | ⟨key, h⟩
  · rw [h]
  · rw [revision_take h]
    exact Nat.le_max_left _ _

/-! ## Many events -/

/-- Events that are not accepted at a key at first are not accepted there later. -/
theorem sameAt_foldl_take (h : ∀ e ∈ events, ¬ c.Accepts e key) :
    c.SameAt (events.foldl take c) key := by
  induction events generalizing c with
  | nil => exact ⟨rfl, rfl⟩
  | cons x events ih =>
    have hrest : ∀ e ∈ events, ¬ (c.take x).Accepts e key := by
      intro e he hacc
      exact h e (List.mem_cons_of_mem x he) hacc.of_take
    exact (sameAt_take (h x List.mem_cons_self)).trans (ih hrest)

/-- The latest event of a key wins, wherever it comes. -/
theorem shows_foldl_take (hdist : Distinguished events) (hlatest : e.IsLatestOf events)
    (hacc : c.Accepts e key) : (events.foldl take c).Shows e key := by
  induction events generalizing c with
  | nil => exact absurd hlatest.1 List.not_mem_nil
  | cons x events ih =>
    have hsub : ∀ y ∈ events, y ∈ x :: events := fun y hy => List.mem_cons_of_mem x hy
    have htail (hne : e ≠ x) : e.IsLatestOf events :=
      hlatest.mono ((List.mem_cons.1 hlatest.1).resolve_left hne) hsub
    rw [List.foldl_cons]
    by_cases hx : c.Accepts x key
    · have hkey : x.key = e.key := key_eq_of_accepts hacc hx
      have hle : x.revision ≤ e.revision := hlatest.2 x List.mem_cons_self hkey
      rcases Nat.lt_or_eq_of_le hle with hlt | heq
      · -- an earlier event of the key is overtaken
        have hne : e ≠ x := by
          intro he
          rw [he] at hlt
          exact Nat.lt_irrefl _ hlt
        exact ih (hdist.mono hsub) (htail hne)
          ((accepts_take hx).2 ⟨hacc.1, hacc.2.1, hlt⟩)
      · -- the event itself: what follows is not later
        obtain rfl : x = e := hdist x List.mem_cons_self e hlatest.1 hkey heq
        refine SameAt.shows (sameAt_foldl_take ?_) (shows_take hx)
        intro y hy hya
        have hyk : y.key = x.key := key_eq_of_accepts hx hya.of_take
        have hyle := hlatest.2 y (hsub y hy) hyk
        have hlt := ((accepts_take hx).1 hya).2.2
        omega
    · have hne : e ≠ x := fun he => hx (he ▸ hacc)
      exact ih (hdist.mono hsub) (htail hne) ((accepts_take_of_not_accepts hx).2 hacc)

/-- The revision is the greatest of the one before and those of the acceptable events. -/
theorem revision_foldl_take_le_iff {bound : Nat} :
    (events.foldl take c).revision ≤ bound ↔ c.revision ≤ bound ∧
      ∀ e ∈ events, ∀ key, c.Accepts e key → e.revision ≤ bound := by
  induction events generalizing c with
  | nil => simp
  | cons x events ih =>
    rw [List.foldl_cons, ih]
    constructor
    · rintro ⟨hc, hrest⟩
      refine ⟨Nat.le_trans (revision_le_revision_take c x) hc, ?_⟩
      intro e he key hacc
      have hx (h : c.Accepts x key) : x.revision ≤ bound := by
        rw [revision_take h] at hc
        omega
      rcases List.mem_cons.1 he with rfl | he
      · exact hx hacc
      · by_cases hxa : c.Accepts x key
        · -- an event that the key has passed by is not later than the one that passed it
          by_cases hlt : x.revision < e.revision
          · exact hrest e he key ((accepts_take hxa).2 ⟨hacc.1, hacc.2.1, hlt⟩)
          · have := hx hxa
            omega
        · exact hrest e he key ((accepts_take_of_not_accepts hxa).2 hacc)
    · rintro ⟨hc, hall⟩
      constructor
      · rcases take_cases c x with h | ⟨key, h⟩
        · rw [h]
          exact hc
        · rw [revision_take h]
          exact Nat.max_le.2 ⟨hc, hall x List.mem_cons_self key h⟩
      · intro e he key hacc
        exact hall e (List.mem_cons_of_mem x he) key hacc.of_take

/-- A key that accepts one of the events accepts the latest of them. -/
theorem exists_latest_accepted (hfull : ∀ e ∈ events, e.IsFull) (he : e ∈ events)
    (hacc : c.Accepts e key) : ∃ last : Event, last.IsLatestOf events ∧ c.Accepts last key := by
  obtain ⟨last, hlatest, hkey, hle⟩ := Event.exists_isLatestOf he
  refine ⟨last, hlatest, ?_, hfull last hlatest.1, Nat.lt_of_lt_of_le hacc.2.2 hle⟩
  rw [hkey]
  exact hacc.1

/-- Caches that are given the same events end up equal. -/
theorem foldl_take_eq {delivered : List Event} (hfull : ∀ e ∈ events, e.IsFull)
    (hdist : Distinguished events) (hsame : ∀ e, e ∈ delivered ↔ e ∈ events) :
    delivered.foldl take c = events.foldl take c := by
  apply eq_of_sameAt
  · rw [kind_foldl_take, kind_foldl_take]
  · rw [keyPrefix_foldl_take, keyPrefix_foldl_take]
  · rw [floor_foldl_take, floor_foldl_take]
  · have hiff (bound : Nat) : (delivered.foldl take c).revision ≤ bound ↔
        (events.foldl take c).revision ≤ bound := by
      simp only [revision_foldl_take_le_iff, hsame]
    exact Nat.le_antisymm ((hiff _).2 (Nat.le_refl _)) ((hiff _).1 (Nat.le_refl _))
  · intro key
    by_cases h : ∃ e ∈ events, c.Accepts e key
    · obtain ⟨e, he, hacc⟩ := h
      obtain ⟨last, hlatest, hlast⟩ := exists_latest_accepted hfull he hacc
      have hsub : ∀ x ∈ delivered, x ∈ events := fun x hx => (hsame x).1 hx
      have hshows := shows_foldl_take hdist hlatest hlast
      have hshows' := shows_foldl_take (hdist.mono hsub)
        (hlatest.mono ((hsame last).2 hlatest.1) hsub) hlast
      exact ⟨hshows'.1.trans hshows.1.symm, hshows'.2.trans hshows.2.symm⟩
    · have hnone : ∀ e ∈ events, ¬ c.Accepts e key := fun e he hacc => h ⟨e, he, hacc⟩
      have hkept := sameAt_foldl_take hnone
      have hkept' : c.SameAt (delivered.foldl take c) key :=
        sameAt_foldl_take fun e he => hnone e ((hsame e).1 he)
      exact ⟨hkept'.1.trans hkept.1.symm, hkept'.2.trans hkept.2.symm⟩

/-! ## The main result -/

/-- What a cache makes of a collection of puts and deletes in which key and revision tell the events
apart. It depends neither on their order nor on how often they come: the latest event of a key is what
is known of the key if it is above the floor and above what was held, and otherwise the key is left
alone; and the revision is the greatest that was new for its key. -/
theorem delivery_confluent (c : Cache) {events : List Event} (hfull : ∀ e ∈ events, e.IsFull)
    (hdist : Distinguished events) :
    (∀ delivered : List Event, (∀ e, e ∈ delivered ↔ e ∈ events) →
      delivered.foldl take c = events.foldl take c) ∧
    (∀ e key, e.IsLatestOf events → c.resourceKey? e.key = some key →
      (c.level key < e.revision → (events.foldl take c).Shows e key) ∧
      (e.revision ≤ c.level key → c.SameAt (events.foldl take c) key)) ∧
    (∀ key, (∀ e ∈ events, c.resourceKey? e.key ≠ some key) →
      c.SameAt (events.foldl take c) key) ∧
    (∀ bound, (events.foldl take c).revision ≤ bound ↔ c.revision ≤ bound ∧
      ∀ e ∈ events, ∀ key, c.resourceKey? e.key = some key → c.level key < e.revision →
        e.revision ≤ bound) := by
  refine ⟨?_, ?_, ?_, ?_⟩
  · intro delivered hsame
    exact foldl_take_eq hfull hdist hsame
  · intro e key hlatest hkey
    constructor
    · intro hlt
      exact shows_foldl_take hdist hlatest ⟨hkey, hfull e hlatest.1, hlt⟩
    · intro hle
      apply sameAt_foldl_take
      intro x hx hacc
      have hxk : x.key = e.key :=
        ((resourceKey?_eq_some_iff.1 hacc.1).1).trans ((resourceKey?_eq_some_iff.1 hkey).1).symm
      have hxle := hlatest.2 x hx hxk
      have hlt := hacc.2.2
      omega
  · intro key hnone
    apply sameAt_foldl_take
    intro e he hacc
    exact hnone e he hacc.1
  · intro bound
    rw [revision_foldl_take_le_iff]
    refine and_congr_right fun _ => ?_
    constructor
    · intro h e he key hkey hlt
      exact h e he key ⟨hkey, hfull e he, hlt⟩
    · intro h e he key hacc
      exact h e he key hacc.1 hacc.2.2

/-- A key that is written, deleted and written again, and another one that is only deleted. -/
def twoKeys : List Event :=
  [⟨"/r/x", .put [1], 4⟩, ⟨"/r/x", .delete, 6⟩, ⟨"/r/x", .put [2], 9⟩, ⟨"/r/y", .delete, 5⟩]

/-- The last put comes first, the delete twice and last of all. -/
def twoKeysShuffled : List Event :=
  [⟨"/r/x", .put [2], 9⟩, ⟨"/r/y", .delete, 5⟩, ⟨"/r/x", .delete, 6⟩, ⟨"/r/x", .put [2], 9⟩,
    ⟨"/r/x", .put [1], 4⟩, ⟨"/r/x", .delete, 6⟩]

theorem delivery_confluent_shuffled :
    (∀ e ∈ twoKeys, e.IsFull) ∧ Distinguished twoKeys ∧
      let c := (empty .route "/r/").advanceFloor 5
      twoKeysShuffled.foldl take c = twoKeys.foldl take c ∧
      (twoKeysShuffled.foldl take c).get? "x" = some (entryOf "/r/x" "x" [2] 9) ∧
      (twoKeysShuffled.foldl take c).tombstones.get? "y" = none ∧
      (twoKeysShuffled.foldl take c).revision ≤ 9 := by
  have hfull : ∀ e ∈ twoKeys, e.IsFull := by simp [twoKeys, Event.IsFull]
  have hdist : Distinguished twoKeys := by
    unfold Distinguished
    decide
  refine ⟨hfull, hdist, ?_⟩
  intro c
  obtain ⟨hsame, hlatest, -, hrevision⟩ := delivery_confluent c hfull hdist
  have heq := hsame twoKeysShuffled (by
    intro e
    simp only [twoKeysShuffled, twoKeys, List.mem_cons, List.not_mem_nil, or_false]
    tauto)
  rw [heq]
  have hx := (hlatest ⟨"/r/x", .put [2], 9⟩ "x" ⟨by decide, by decide⟩ (by decide +kernel)).1
    (by decide +kernel)
  have hy := (hlatest ⟨"/r/y", .delete, 5⟩ "y" ⟨by decide, by decide⟩ (by decide +kernel)).2
    (by decide +kernel)
  refine ⟨rfl, hx.1, hy.2, (hrevision 9).2 ⟨by decide +kernel, ?_⟩⟩
  have hle : ∀ e ∈ twoKeys, e.revision ≤ 9 := by decide
  intro e he key hkey hlt
  exact hle e he

end Cache

end GatewayStore
