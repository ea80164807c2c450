import GatewayStore.Proofs.Cache.Confluence
import GatewayStore.Proofs.Cache.Listing
import GatewayStore.Proofs.Text.Order

/-
  The form of a cache, whatever was done to it. An entry stands under the part of its storage key
  after the prefix and holds what its bytes decode to, no key has both an entry and a tombstone, and
  every tombstone is above the floor (`WellFormed`). Each step restores this by itself
  (`WellFormed.run`): an event that is accepted writes one of the two maps and clears the other, a
  raised floor drops the tombstones that it passes, and a listing leaves none. As all entries have the
  same prefix before their keys, they stand in the order of their storage keys
  (`WellFormed.pairwise_values`).
-/

namespace GatewayStore.Cache

/-- What holds of a cache after any steps. -/
structure WellFormed (c : Cache) : Prop where
  entry : ∀ key entry, c.get? key = some entry →
    key ≠ "" ∧ entry = entryOf (c.keyPrefix ++ key) key entry.value entry.revision
  apart : ∀ key deleted, c.tombstones.get? key = some deleted → c.get? key = none
  above : ∀ key deleted, c.tombstones.get? key = some deleted → c.floor < deleted

variable {c : Cache}

theorem wellFormed_empty (kind : Kind) (keyPrefix : String) : (empty kind keyPrefix).WellFormed := by
  refine ⟨fun key entry h => ?_, fun key deleted h => ?_, fun key deleted h => ?_⟩ <;> cases h

/-! ## Single steps -/

/-- A tombstone was there before or is that of the event, which is then above the floor. -/
theorem tombstone_take {e : Event} {key : String} {deleted : Nat}
    (h : (c.take e).tombstones.get? key = some deleted) :
    c.tombstones.get? key = some deleted ∨ c.floor < deleted ∧ e.revision = deleted := by
  rcases take_cases c e with hsame | ⟨accepted, hacc⟩
  · rw [hsame] at h
    exact .inl h
  · have hfloor : c.floor < e.revision := Nat.lt_of_le_of_lt (floor_le_level c accepted) hacc.2.2
    rcases take_of_accepts hacc with ⟨value, -, htake⟩ | ⟨-, htake⟩ <;> rw [htake] at h
    · rw [KeyMap.get?_erase] at h
      split at h
      · cases h
      · exact .inl h
    · rw [KeyMap.get?_insert] at h
      split at h
      · cases h
        exact .inr ⟨hfloor, rfl⟩
      · exact .inl h

theorem WellFormed.take (h : c.WellFormed) (e : Event) : (c.take e).WellFormed := by
  refine ⟨?_, ?_, fun key deleted hget => ?_⟩
  · intro key entry hget
    rw [keyPrefix_take]
    by_cases hacc : c.Accepts e key
    · obtain ⟨hkey, hne⟩ := resourceKey?_eq_some_iff.1 hacc.1
      rw [get?_take_of_accepts hacc] at hget
      unfold Event.entry? at hget
      split at hget
      · cases hget
        exact ⟨hne, by rw [hkey]; rfl⟩
      · cases hget
      · cases hget
    · rw [get?_take_of_not_accepts hacc] at hget
      exact h.entry key entry hget
  · intro key deleted hget
    rcases take_cases c e with hsame | ⟨accepted, hacc⟩
    · rw [hsame] at hget ⊢
      exact h.apart key deleted hget
    · -- an accepted put clears the tombstone of its key, an accepted delete the entry
      rcases take_of_accepts hacc with ⟨value, -, htake⟩ | ⟨-, htake⟩ <;> rw [htake] at hget ⊢
      · rw [KeyMap.get?_erase] at hget
        split at hget
        · cases hget
        · next hother =>
          rw [get?, KeyMap.get?_insert, if_neg hother]
          exact h.apart key deleted hget
      · rw [KeyMap.get?_insert] at hget
        rw [get?, KeyMap.get?_erase]
        split
        · rfl
        · next hother =>
          rw [if_neg hother] at hget
          exact h.apart key deleted hget
  · rw [floor_take]
    rcases tombstone_take hget with hold | ⟨hfloor, -⟩
    · exact h.above key deleted hold
    · exact hfloor

theorem WellFormed.advanceFloor (h : c.WellFormed) (revision : Nat) :
    (c.advanceFloor revision).WellFormed := by
  unfold Cache.advanceFloor
  split
  · exact h
  · have hkept : ∀ key deleted,
        (c.tombstones.filter fun _ r => revision < r).get? key = some deleted →
          c.tombstones.get? key = some deleted ∧ revision < deleted := by
      intro key deleted hget
      rw [KeyMap.get?_filter, Option.filter_eq_some_iff] at hget
      exact ⟨hget.1, of_decide_eq_true hget.2⟩
    exact ⟨h.entry, fun key deleted hget => h.apart key deleted (hkept key deleted hget).1,
      fun key deleted hget => (hkept key deleted hget).2⟩

theorem WellFormed.replaceAll (h : c.WellFormed) (keys : List StoredKey) (revision : Nat) :
    (c.replaceAll keys revision).2.WellFormed := by
  rcases Nat.lt_or_ge revision c.floor with hlt | hge
  · rw [replaceAll_of_lt c hlt]
    exact h
  · rw [replaceAll_of_le c hge]
    refine ⟨fun key entry hget => ?_, fun key deleted hget => ?_, fun key deleted hget => ?_⟩
    · obtain ⟨k, -, hkey, rfl⟩ := exists_of_get?_entriesOf hget
      obtain ⟨heq, hne⟩ := resourceKey?_eq_some_iff.1 hkey
      exact ⟨hne, by rw [heq]; rfl⟩
    · cases hget
    · cases hget

theorem WellFormed.run (h : c.WellFormed) (step : CacheStep) : (c.run step).2.WellFormed := by
  cases step with
  | put storageKey value revision => exact h.take ⟨storageKey, .put value, revision⟩
  | delete storageKey revision => exact h.take ⟨storageKey, .delete, revision⟩
  | advanceFloor revision => exact h.advanceFloor revision
  | replaceAll keys revision => exact h.replaceAll keys revision

/-- No step lowers the floor or the highest revision. -/
theorem le_run (c : Cache) (step : CacheStep) :
    c.floor ≤ (c.run step).2.floor ∧ c.revision ≤ (c.run step).2.revision := by
  have htake (e : Event) : c.floor ≤ (c.take e).floor ∧ c.revision ≤ (c.take e).revision :=
    ⟨Nat.le_of_eq (floor_take c e).symm, revision_le_revision_take c e⟩
  cases step with
  | put storageKey value revision => exact htake ⟨storageKey, .put value, revision⟩
  | delete storageKey revision => exact htake ⟨storageKey, .delete, revision⟩
  | advanceFloor revision =>
    refine ⟨?_, ?_⟩
    · show c.floor ≤ (c.advanceFloor revision).floor
      rw [floor_advanceFloor]
      exact Nat.le_max_left _ _
    · show c.revision ≤ (c.advanceFloor revision).revision
      unfold Cache.advanceFloor
      split <;> exact Nat.le_refl _
  | replaceAll keys revision =>
    show c.floor ≤ (c.replaceAll keys revision).2.floor ∧
      c.revision ≤ (c.replaceAll keys revision).2.revision
    rcases Nat.lt_or_ge revision c.floor with hlt | hge
    · rw [replaceAll_of_lt c hlt]
      exact ⟨Nat.le_refl _, Nat.le_refl _⟩
    · rw [replaceAll_of_le c hge]
      exact ⟨hge, Nat.le_max_left _ _⟩

/-! ## Runs -/

theorem WellFormed.runAll (h : c.WellFormed) (steps : List CacheStep) :
    (c.runAll steps).WellFormed := by
  induction steps generalizing c with
  | nil => exact h
  | cons step steps ih => exact ih (h.run step)

theorem le_runAll (c : Cache) (steps : List CacheStep) :
    c.floor ≤ (c.runAll steps).floor ∧ c.revision ≤ (c.runAll steps).revision := by
  induction steps generalizing c with
  | nil => exact ⟨Nat.le_refl _, Nat.le_refl _⟩
  | cons step steps ih =>
    obtain ⟨hfloor, hrevision⟩ := c.le_run step
    obtain ⟨hfloor', hrevision'⟩ := ih (c.run step).2
    exact ⟨Nat.le_trans hfloor hfloor', Nat.le_trans hrevision hrevision'⟩

/-! ## The entries in order -/

theorem mem_values {entry : CacheEntry} :
    entry ∈ c.entries.values ↔ ∃ key, c.get? key = some entry := by
  rw [KeyMap.values, List.mem_map]
  constructor
  · rintro ⟨e, he, rfl⟩
    exact ⟨e.1, KeyMap.get?_eq_some_iff.2 he⟩
  · rintro ⟨key, hget⟩
    exact ⟨(key, entry), KeyMap.get?_eq_some_iff.1 hget, rfl⟩

/-- The order of the keys is the order of the storage keys, which all start with the prefix. -/
theorem WellFormed.pairwise_values (h : c.WellFormed) :
    c.entries.values.Pairwise fun a b => a.storageKey < b.storageKey := by
  have hstored : ∀ e ∈ c.entries.entries, e.2.storageKey = c.keyPrefix ++ e.1 := by
    intro e he
    rw [(h.entry e.1 e.2 (KeyMap.get?_eq_some_iff.2 he)).2]
    rfl
  rw [KeyMap.values, List.pairwise_map]
  refine c.entries.sorted.imp_of_mem fun {a b} ha hb hlt => ?_
  rw [hstored a ha, hstored b hb, String.lt_iff, String.toList_append, String.toList_append]
  exact append_lt_append_iff.2 (String.lt_iff.1 hlt)

/-! ## The main result -/

/-- The form of a cache after any steps from an empty one. Every entry stands under the part of its
storage key after the prefix, which is not empty, and its resource is what its bytes decode to; no key
is both an entry and a tombstone; every tombstone is above the floor; later steps lower neither the
floor nor the highest revision; and the entries, in the order in which they are listed, strictly ascend
by storage key. -/
theorem representation_invariant (kind : Kind) (keyPrefix : String) (steps : List CacheStep) :
    let c := (empty kind keyPrefix).runAll steps
    (∀ key entry, c.get? key = some entry →
      key ≠ "" ∧ entry.storageKey = keyPrefix ++ key ∧
        entry.resource = (Resource.decode key entry.value).toOption) ∧
      (∀ key, ¬ (c.entries.contains key = true ∧ c.tombstones.contains key = true)) ∧
      (∀ key deleted, c.tombstones.get? key = some deleted → c.floor < deleted) ∧
      (∀ later, c.floor ≤ (c.runAll later).floor ∧ c.revision ≤ (c.runAll later).revision) ∧
      (∀ entry, entry ∈ c.entries.values ↔ ∃ key, c.get? key = some entry) ∧
      c.entries.values.Pairwise fun a b => a.storageKey < b.storageKey := by
  intro c
  have hform : c.WellFormed := (wellFormed_empty kind keyPrefix).runAll steps
  have hprefix : c.keyPrefix = keyPrefix := keyPrefix_runAll _ steps
  refine ⟨fun key entry hget => ?_, fun key hboth => ?_, hform.above, c.le_runAll, fun _ => mem_values,
    hform.pairwise_values⟩
  · obtain ⟨hne, heq⟩ := hform.entry key entry hget
    refine ⟨hne, ?_, ?_⟩
    · rw [heq, ← hprefix]
      rfl
    · rw [heq]
      rfl
  · obtain ⟨hentry, htombstone⟩ := hboth
    obtain ⟨deleted, hdeleted⟩ := Option.isSome_iff_exists.1 htombstone
    have hnone := hform.apart key deleted hdeleted
    rw [KeyMap.contains, ← Cache.get?, hnone] at hentry
    cases hentry

/-- A listing with a foreign key, the bare prefix, and a key that is listed twice; a delete and a later
put of that key, a put of bytes that do not decode, and a delete beyond the raised floor. -/
def mixedSteps : List CacheStep :=
  [.replaceAll [⟨"/r/b", [1], 2, 2⟩, ⟨"/s/x", [1], 2, 2⟩, ⟨"/r/", [1], 2, 2⟩,
    ⟨"/r/b", [123, 125], 2, 3⟩] 4, .delete "/r/b" 6, .put "/r/a" [2] 7, .put "/r/b" [123, 125] 9,
    .delete "/r/c" 8, .advanceFloor 5]

theorem representation_invariant_mixed :
    let c := (empty .route "/r/").runAll mixedSteps
    (c.get? "b").map CacheEntry.storageKey = some "/r/b" ∧ c.tombstones.get? "c" = some 8 ∧
      c.floor < 8 ∧ c.entries.values.map CacheEntry.storageKey = ["/r/a", "/r/b"] := by
  intro c
  obtain ⟨hentry, -, habove, -⟩ := representation_invariant .route "/r/" mixedSteps
  have hheld : (c.get? "b").isSome = true := by decide +kernel
  have hdeleted : c.tombstones.get? "c" = some 8 := by decide +kernel
  obtain ⟨entry, hget⟩ := Option.isSome_iff_exists.1 hheld
  obtain ⟨-, hstored, -⟩ := hentry "b" entry hget
  refine ⟨?_, hdeleted, habove "c" 8 hdeleted, by decide +kernel⟩
  rw [hget, Option.map_some, hstored]
  decide +kernel

end GatewayStore.Cache
