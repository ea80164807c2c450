import GatewayStore.Proofs.Cache.Steps
import Mathlib.Order.MinMax

/-
  What a listing leaves of a cache that knows more than the listing. A listing is taken if it is not
  older than the floor, and events may have been taken above the floor. Their tombstones are cleared
  and their entries replaced all the same: afterwards every key stands at the revision of the listing
  (`level_replaceAll`). So nothing newer is lost exactly if there was nothing newer
  (`listing_keeps_newer_iff`).
-/

namespace GatewayStore

namespace Cache

/-- What a cache knew beyond a revision, another one still knows: a tombstone keeps out the puts up to
it, and an entry is neither dropped nor set back. -/
structure KeepsNewer (before after : Cache) (revision : Nat) : Prop where
  tombstones : ∀ key deleted, before.tombstones.get? key = some deleted → revision < deleted →
    ∀ value n, n ≤ deleted → after.applyPut (before.keyPrefix ++ key) value n = (false, after)
  entries : ∀ key old, before.get? key = some old → revision < old.revision →
    ∃ new, after.get? key = some new ∧ old.revision ≤ new.revision

variable {c : Cache} {keys : List StoredKey} {revision : Nat} {key : String}

theorem replaceAll_taken_iff : (c.replaceAll keys revision).1 = true ↔ c.floor ≤ revision := by
  unfold replaceAll
  split
  · next h =>
    simp
    omega
  · next h =>
    simp
    omega

/-- A put of a key is refused up to the level of the key. -/
theorem applyPut_refused_iff {storageKey : String} (hkey : c.resourceKey? storageKey = some key)
    (value : Bytes) (n : Nat) : c.applyPut storageKey value n = (false, c) ↔ n ≤ c.level key := by
  unfold applyPut
  rw [hkey, ← isStale_iff]
  dsimp only
  cases c.isStale key n <;> simp

/-- What is known of a key beyond a revision that the floor does not reach is its entry or its
tombstone. -/
theorem newer_of_lt_level (hfloor : c.floor ≤ revision) (h : revision < c.level key) :
    (∃ entry, c.get? key = some entry ∧ revision < entry.revision) ∨
      ∃ deleted, c.tombstones.get? key = some deleted ∧ revision < deleted := by
  unfold level at h
  rcases lt_max_iff.1 h with h | h
  · omega
  rcases lt_max_iff.1 h with h | h
  · left
    unfold entryRevision at h
    cases hget : c.get? key with
    | none => simp [hget] at h
    | some entry => exact ⟨entry, rfl, by simpa [hget] using h⟩
  · right
    cases hget : c.tombstones.get? key with
    | none => simp [hget] at h
    | some deleted => exact ⟨deleted, rfl, by simpa [hget] using h⟩

theorem tombstone_le_level {deleted : Nat} (h : c.tombstones.get? key = some deleted) :
    deleted ≤ c.level key := by
  unfold level
  rw [h, Option.getD_some]
  omega

/-! ## The bare prefix -/

/-- No step says anything of the bare prefix. -/
theorem level_run_bare (h : c.level "" = c.floor) (step : CacheStep) :
    (c.run step).2.level "" = (c.run step).2.floor := by
  have htake (e : Event) : (c.take e).level "" = (c.take e).floor := by
    have hno : ¬ c.Accepts e "" := fun hacc => (resourceKey?_eq_some_iff.1 hacc.1).2 rfl
    rw [level_take_of_not_accepts hno, floor_take, h]
  cases step with
  | put storageKey value revision => exact htake ⟨storageKey, .put value, revision⟩
  | delete storageKey revision => exact htake ⟨storageKey, .delete, revision⟩
  | advanceFloor revision =>
    show (c.advanceFloor revision).level "" = (c.advanceFloor revision).floor
    rw [level_advanceFloor, floor_advanceFloor, h]
  | replaceAll keys revision =>
    show (c.replaceAll keys revision).2.level "" = (c.replaceAll keys revision).2.floor
    rcases Nat.lt_or_ge revision c.floor with hlt | hge
    · rw [replaceAll_of_lt c hlt, h]
    · rw [replaceAll_of_le c hge]
      cases hget : (c.entriesOf keys).get? "" with
      | none => simp [level, entryRevision, get?, hget]
      | some entry =>
        obtain ⟨k, -, hkey, -⟩ := exists_of_get?_entriesOf hget
        exact absurd rfl (resourceKey?_eq_some_iff.1 hkey).2

theorem level_runAll_bare (h : c.level "" = c.floor) (steps : List CacheStep) :
    (c.runAll steps).level "" = (c.runAll steps).floor := by
  induction steps generalizing c with
  | nil => exact h
  | cons step steps ih => exact ih (level_run_bare h step)

theorem keyPrefix_runAll (c : Cache) (steps : List CacheStep) :
    (c.runAll steps).keyPrefix = c.keyPrefix := by
  induction steps generalizing c with
  | nil => rfl
  | cons step steps ih => exact (ih (c.run step).2).trans (c.keyPrefix_run step)

/-! ## The main result -/

/-- A listing and newer knowledge. After any steps from an empty cache, a listing that is taken leaves
no entry newer than itself and every key open to exactly the puts after it. Hence what was known beyond
the listing is kept if and only if there was no such thing. -/
theorem listing_keeps_newer_iff (kind : Kind) (keyPrefix : String) (steps : List CacheStep)
    (keys : List StoredKey) (revision : Nat)
    (htaken : (((empty kind keyPrefix).runAll steps).replaceAll keys revision).1 = true)
    (hlisted : ∀ k ∈ keys, k.modRevision ≤ revision) :
    let before := (empty kind keyPrefix).runAll steps
    let after := (before.replaceAll keys revision).2
    (∀ key entry, after.get? key = some entry → entry.revision ≤ revision) ∧
    (∀ key, key ≠ "" → ∀ value n,
      after.applyPut (keyPrefix ++ key) value n = (false, after) ↔ n ≤ revision) ∧
    (before.KeepsNewer after revision ↔ ∀ key, before.level key ≤ revision) := by
  intro before after
  have hfloor : before.floor ≤ revision := replaceAll_taken_iff.1 htaken
  have hlevel (key : String) : after.level key = revision := level_replaceAll hfloor hlisted key
  have hkeyPrefix : before.keyPrefix = keyPrefix := keyPrefix_runAll (empty kind keyPrefix) steps
  have hbare : before.level "" = before.floor := level_runAll_bare rfl steps
  have hentry : ∀ key entry, after.get? key = some entry → entry.revision ≤ revision := by
    intro key entry hget
    rw [← hlevel key]
    exact revision_le_level hget
  have hrefused : ∀ key, key ≠ "" → ∀ value n,
      after.applyPut (keyPrefix ++ key) value n = (false, after) ↔ n ≤ revision := by
    intro key hne value n
    have hkey : after.resourceKey? (keyPrefix ++ key) = some key := by
      refine resourceKey?_eq_some_iff.2 ⟨?_, hne⟩
      rw [keyPrefix_replaceAll, hkeyPrefix]
    rw [applyPut_refused_iff hkey, hlevel]
  refine ⟨hentry, hrefused, ?_, ?_⟩
  · intro hkeeps key
    apply Nat.le_of_not_lt
    intro hlt
    rcases newer_of_lt_level hfloor hlt with ⟨old, hold, hnewer⟩ | ⟨deleted, htomb, hnewer⟩
    · obtain ⟨new, hnew, hle⟩ := hkeeps.entries key old hold hnewer
      have := hentry key new hnew
      omega
    · have hne : key ≠ "" := by
        rintro rfl
        omega
      have hstill := hkeeps.tombstones key deleted htomb hnewer [] deleted (Nat.le_refl _)
      rw [hkeyPrefix] at hstill
      have := (hrefused key hne [] deleted).1 hstill
      omega
  · intro hle
    constructor
    · intro key deleted htomb hnewer
      have := hle key
      have := tombstone_le_level htomb
      omega
    · intro key old hold hnewer
      have := hle key
      have := revision_le_level hold
      omega

/-- A key is written, another one deleted, and the floor raised past both. -/
def settledSteps : List CacheStep :=
  [.put "/r/y" [1] 4, .delete "/r/x" 5, .advanceFloor 5]

theorem listing_keeps_newer_settled :
    let before := (empty .route "/r/").runAll settledSteps
    let taken := before.replaceAll [⟨"/r/y", [1], 4, 4⟩] 7
    taken.1 = true ∧ before.KeepsNewer taken.2 7 ∧
      taken.2.applyPut "/r/x" [2] 7 = (false, taken.2) ∧
      taken.2.applyPut "/r/x" [2] 8 ≠ (false, taken.2) := by
  intro before taken
  have htaken : taken.1 = true := by decide +kernel
  obtain ⟨-, hrefused, hkeeps⟩ := listing_keeps_newer_iff .route "/r/" settledSteps
    [⟨"/r/y", [1], 4, 4⟩] 7 htaken (by decide)
  refine ⟨htaken, hkeeps.2 ?_, (hrefused "x" (by decide) [2] 7).2 (by decide), ?_⟩
  · intro key
    let events : List Event := [⟨"/r/y", .put [1], 4⟩, ⟨"/r/x", .delete, 5⟩]
    have hbefore : before = (events.foldl take (empty .route "/r/")).advanceFloor 5 := rfl
    have hle : (events.foldl take (empty .route "/r/")).level key ≤ 5 :=
      level_foldl_take_le (by simp [level, entryRevision, empty, get?]) (by simp [events])
    show before.level key ≤ 7
    rw [hbefore, level_advanceFloor]
    omega
  · intro h
    exact absurd ((hrefused "x" (by decide) [2] 8).1 h) (by decide)

/-- A listing that is older than a delete and than a put, both taken above the floor, forgets the
delete and sets the put back. -/
theorem listing_discards_newer :
    let before := (empty .route "/apisix/routes/").runAll
      [.put "/apisix/routes/y" [123, 125] 12, .delete "/apisix/routes/x" 10]
    let taken := before.replaceAll [⟨"/apisix/routes/y", [123, 125], 3, 3⟩] 8
    taken.1 = true ∧ before.tombstones.get? "x" = some 10 ∧
      (taken.2.applyPut "/apisix/routes/x" [123, 125] 9).1 = true ∧
      (before.get? "y").map CacheEntry.revision = some 12 ∧
      (taken.2.get? "y").map CacheEntry.revision = some 3 := by
  decide +kernel

end Cache

end GatewayStore
