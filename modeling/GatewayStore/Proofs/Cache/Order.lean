import GatewayStore.Cache.Basic
import GatewayStore.Proofs.KeyMap
import GatewayStore.Proofs.Store.History

/-
  What a cache knows about a key is summed up in one number, its level: the largest of the floor, the
  revision of the entry and the revision of the tombstone. An event is stale exactly up to the level
  (`isStale_iff`), and an event that is taken becomes the level (`level_take`). So levels never fall,
  and each operation has two laws: what it leaves at a key, and how it moves the level.
-/

namespace GatewayStore

/-- The entry that an event leaves in a cache: none after a delete. -/
def Event.entry? (e : Event) (key : String) : Option CacheEntry :=
  match e.change with
  | .put value => some (Cache.entryOf e.key key value e.revision)
  | .blindPut => none
  | .delete => none

namespace Cache

variable (c : Cache) (e : Event) (key : String)

/-- The revision of the entry at a key, or zero. -/
def entryRevision : Nat := ((c.get? key).map CacheEntry.revision).getD 0

/-- The revision up to which changes of a key are reflected. -/
def level : Nat := max c.floor (max (c.entryRevision key) ((c.tombstones.get? key).getD 0))

/-- The cache after an event. -/
def take : Cache := (c.applyEvent e).2

/-- An event that changes the cache at a key: it is of the key, full, and above the level. -/
def Accepts : Prop := c.resourceKey? e.key = some key ∧ e.IsFull ∧ c.level key < e.revision

theorem floor_le_level : c.floor ≤ c.level key := Nat.le_max_left _ _

theorem revision_le_level {c : Cache} {key : String} {entry : CacheEntry}
    (h : c.get? key = some entry) : entry.revision ≤ c.level key := by
  have hr : c.entryRevision key = entry.revision := by simp [entryRevision, h]
  unfold level
  omega

theorem isStale_iff (revision : Nat) :
    c.isStale key revision = true ↔ revision ≤ c.level key := by
  unfold isStale level entryRevision get?
  rw [Bool.or_eq_true, Bool.or_eq_true, decide_eq_true_eq]
  cases c.entries.get? key with
  | none =>
    cases c.tombstones.get? key with
    | none => simp
    | some _ =>
      simp only [Option.any_none, Bool.false_eq_true, or_false, Option.any_some,
        decide_eq_true_eq, Option.map_none, Option.getD_none, Option.getD_some]
      omega
  | some _ =>
    cases c.tombstones.get? key with
    | none =>
      simp only [Option.any_none, Bool.false_eq_true, or_false, Option.any_some,
        decide_eq_true_eq, Option.map_some, Option.getD_none, Option.getD_some]
      omega
    | some _ =>
      simp only [Option.any_some, decide_eq_true_eq, Option.map_some, Option.getD_some]
      omega

theorem isStale_eq_false_iff (revision : Nat) :
    c.isStale key revision = false ↔ c.level key < revision := by
  rw [← Bool.not_eq_true, isStale_iff, Nat.not_le]

/-! ## Taking one event -/

theorem take_of_not_accepts {c : Cache} {e : Event} (h : ∀ key, ¬ c.Accepts e key) :
    c.take e = c := by
  unfold take applyEvent
  match hc : e.change with
  | .blindPut => rfl
  | .put value =>
    simp only [applyPut]
    split
    · rfl
    · next key hk =>
      split
      · rfl
      · next hs =>
        rw [Bool.not_eq_true, isStale_eq_false_iff] at hs
        exact absurd ⟨hk, by simp [Event.IsFull, hc], hs⟩ (h key)
  | .delete =>
    simp only [applyDelete]
    split
    · rfl
    · next key hk =>
      split
      · rfl
      · next hs =>
        rw [Bool.not_eq_true, isStale_eq_false_iff] at hs
        exact absurd ⟨hk, by simp [Event.IsFull, hc], hs⟩ (h key)

/-- What an accepted event does: the entry and the tombstone of its key are set. -/
theorem take_of_accepts {c : Cache} {e : Event} {key : String} (h : c.Accepts e key) :
    (∃ value, e.change = .put value ∧ c.take e = { c with
      entries := c.entries.insert key (entryOf e.key key value e.revision)
      tombstones := c.tombstones.erase key
      revision := max c.revision e.revision }) ∨
    (e.change = .delete ∧ c.take e = { c with
      entries := c.entries.erase key
      tombstones := c.tombstones.insert key e.revision
      revision := max c.revision e.revision }) := by
  obtain ⟨hk, hfull, hl⟩ := h
  have hs : c.isStale key e.revision = false := (isStale_eq_false_iff c key e.revision).2 hl
  unfold take applyEvent
  match hc : e.change with
  | .blindPut => exact absurd hc hfull
  | .put value => exact .inl ⟨value, rfl, by simp [applyPut, hk, hs]⟩
  | .delete => exact .inr ⟨rfl, by simp [applyDelete, hk, hs]⟩

/-- An event is accepted at one key or at none. -/
theorem take_cases : c.take e = c ∨ ∃ key, c.Accepts e key := by
  by_cases h : ∃ key, c.Accepts e key
  · exact .inr h
  · exact .inl (take_of_not_accepts fun key hk => h ⟨key, hk⟩)

@[simp]
theorem floor_take : (c.take e).floor = c.floor := by
  rcases take_cases c e with h | ⟨key, h⟩
  · rw [h]
  · rcases take_of_accepts h with ⟨_, _, h⟩ | ⟨_, h⟩ <;> rw [h]

@[simp]
theorem keyPrefix_take : (c.take e).keyPrefix = c.keyPrefix := by
  rcases take_cases c e with h | ⟨key, h⟩
  · rw [h]
  · rcases take_of_accepts h with ⟨_, _, h⟩ | ⟨_, h⟩ <;> rw [h]

theorem kind_take : (c.take e).kind = c.kind := by
  rcases take_cases c e with h | ⟨key, h⟩
  · rw [h]
  · rcases take_of_accepts h with ⟨_, _, h⟩ | ⟨_, h⟩ <;> rw [h]

theorem get?_take_of_accepts {c : Cache} {e : Event} {key : String} (h : c.Accepts e key) :
    (c.take e).get? key = e.entry? key := by
  rcases take_of_accepts h with ⟨value, hc, h⟩ | ⟨hc, h⟩ <;> simp [h, get?, Event.entry?, hc]

theorem get?_take_of_not_accepts {c : Cache} {e : Event} {key : String}
    (h : ¬ c.Accepts e key) : (c.take e).get? key = c.get? key := by
  rcases take_cases c e with hc | ⟨key', hacc⟩
  · rw [hc]
  · have hne : key ≠ key' := fun he => h (he ▸ hacc)
    rcases take_of_accepts hacc with ⟨_, _, h⟩ | ⟨_, h⟩ <;> simp [h, get?, hne]

theorem level_take_of_accepts {c : Cache} {e : Event} {key : String} (h : c.Accepts e key) :
    (c.take e).level key = e.revision := by
  have hfloor : c.floor < e.revision := Nat.lt_of_le_of_lt (floor_le_level c key) h.2.2
  rcases take_of_accepts h with ⟨_, _, h⟩ | ⟨_, h⟩
  · simp [h, level, entryRevision, get?, entryOf]
    omega
  · simp [h, level, entryRevision, get?]
    omega

theorem level_take_of_not_accepts {c : Cache} {e : Event} {key : String}
    (h : ¬ c.Accepts e key) : (c.take e).level key = c.level key := by
  rcases take_cases c e with hc | ⟨key', hacc⟩
  · rw [hc]
  · have hne : key ≠ key' := fun he => h (he ▸ hacc)
    rcases take_of_accepts hacc with ⟨_, _, h⟩ | ⟨_, h⟩ <;>
      simp [h, level, entryRevision, get?, hne]

theorem level_take_le {bound : Nat} (h : c.level key ≤ bound) (he : e.revision ≤ bound) :
    (c.take e).level key ≤ bound := by
  by_cases ha : c.Accepts e key
  · rw [level_take_of_accepts ha]
    exact he
  · rw [level_take_of_not_accepts ha]
    exact h

/-! ## Taking events in order -/

@[simp]
theorem floor_foldl_take (events : List Event) : (events.foldl take c).floor = c.floor := by
  induction events generalizing c with
  | nil => rfl
  | cons e events ih => exact (ih (c.take e)).trans (floor_take c e)

@[simp]
theorem keyPrefix_foldl_take (events : List Event) :
    (events.foldl take c).keyPrefix = c.keyPrefix := by
  induction events generalizing c with
  | nil => rfl
  | cons e events ih => exact (ih (c.take e)).trans (keyPrefix_take c e)

theorem kind_foldl_take (events : List Event) : (events.foldl take c).kind = c.kind := by
  induction events generalizing c with
  | nil => rfl
  | cons e events ih => exact (ih (c.take e)).trans (kind_take c e)

theorem level_foldl_take_le {c : Cache} {events : List Event} {key : String} {bound : Nat}
    (hc : c.level key ≤ bound) (he : ∀ e ∈ events, e.revision ≤ bound) :
    (events.foldl take c).level key ≤ bound := by
  induction events generalizing c with
  | nil => exact hc
  | cons e events ih =>
    exact ih (level_take_le c e key hc (he e List.mem_cons_self))
      fun x hx => he x (List.mem_cons_of_mem _ hx)

/-! ## Raising the floor and taking a listing -/

@[simp]
theorem get?_advanceFloor (revision : Nat) : (c.advanceFloor revision).get? key = c.get? key := by
  unfold advanceFloor
  split <;> rfl

@[simp]
theorem keyPrefix_advanceFloor (revision : Nat) :
    (c.advanceFloor revision).keyPrefix = c.keyPrefix := by
  unfold advanceFloor
  split <;> rfl

theorem kind_advanceFloor (revision : Nat) : (c.advanceFloor revision).kind = c.kind := by
  unfold advanceFloor
  split <;> rfl

@[simp]
theorem floor_advanceFloor (revision : Nat) :
    (c.advanceFloor revision).floor = max c.floor revision := by
  unfold advanceFloor
  split
  · next h => exact (Nat.max_eq_left h).symm
  · next h => exact (Nat.max_eq_right (Nat.le_of_not_le h)).symm

/-- A floor stands in for the tombstones up to it. -/
theorem max_tombstone_filter (tombstone? : Option Nat) (floor : Nat) :
    max floor ((tombstone?.filter fun r => floor < r).getD 0) =
      max floor (tombstone?.getD 0) := by
  cases tombstone? with
  | none => rfl
  | some r =>
    by_cases hr : floor < r
    · simp [Option.filter, hr]
    · simp [Option.filter, hr]
      omega

/-- Forgetting the tombstones up to the new floor loses nothing. -/
@[simp]
theorem level_advanceFloor (revision : Nat) :
    (c.advanceFloor revision).level key = max (c.level key) revision := by
  unfold advanceFloor
  split
  · next h =>
    have := floor_le_level c key
    omega
  · next h =>
    have htombstone := max_tombstone_filter (c.tombstones.get? key) revision
    dsimp only [level, entryRevision, get?]
    rw [KeyMap.get?_filter]
    omega

theorem replaceAll_of_lt {keys : List StoredKey} {revision : Nat} (h : revision < c.floor) :
    (c.replaceAll keys revision).2 = c := by
  simp [replaceAll, h]

theorem replaceAll_of_le {keys : List StoredKey} {revision : Nat} (h : c.floor ≤ revision) :
    (c.replaceAll keys revision).2 = { c with
      entries := c.entriesOf keys
      tombstones := .empty
      floor := revision
      revision := max c.revision revision } := by
  simp [replaceAll, Nat.not_lt.2 h]

theorem floor_replaceAll (keys : List StoredKey) (revision : Nat) :
    (c.replaceAll keys revision).2.floor = max c.floor revision := by
  rcases Nat.lt_or_ge revision c.floor with h | h
  · rw [replaceAll_of_lt c h, Nat.max_eq_left (Nat.le_of_lt h)]
  · rw [replaceAll_of_le c h, Nat.max_eq_right h]

@[simp]
theorem keyPrefix_replaceAll (keys : List StoredKey) (revision : Nat) :
    (c.replaceAll keys revision).2.keyPrefix = c.keyPrefix := by
  unfold replaceAll
  split <;> rfl

theorem kind_replaceAll (keys : List StoredKey) (revision : Nat) :
    (c.replaceAll keys revision).2.kind = c.kind := by
  unfold replaceAll
  split <;> rfl

/-- An entry of a listing comes from a listed key. -/
theorem exists_of_get?_entriesOf {c : Cache} {keys : List StoredKey} {key : String}
    {entry : CacheEntry} (h : (c.entriesOf keys).get? key = some entry) :
    ∃ k ∈ keys, c.resourceKey? k.key = some key ∧
      entry = entryOf k.key key k.value k.modRevision := by
  obtain ⟨k, hk, hmap⟩ := List.mem_filterMap.1 (Assoc.mem_of_get?_ofPairs h)
  obtain ⟨key', hkey, he⟩ := Option.map_eq_some_iff.1 hmap
  cases he
  exact ⟨k, hk, hkey, rfl⟩

/-- The entries of a listing in which no key stands twice. -/
theorem get?_entriesOf {keys : List StoredKey}
    (huniq : ∀ a ∈ keys, ∀ b ∈ keys, a.key = b.key → a = b) (entry : CacheEntry) :
    (c.entriesOf keys).get? key = some entry ↔
      key ≠ "" ∧ ∃ k ∈ keys, k.key = c.keyPrefix ++ key ∧
        entry = entryOf k.key key k.value k.modRevision := by
  constructor
  · intro h
    obtain ⟨k, hk, hkey, rfl⟩ := exists_of_get?_entriesOf h
    rw [resourceKey?_eq_some_iff] at hkey
    exact ⟨hkey.2, k, hk, hkey.1, rfl⟩
  · rintro ⟨hne, k, hk, hkey, rfl⟩
    have hr : c.resourceKey? k.key = some key := resourceKey?_eq_some_iff.2 ⟨hkey, hne⟩
    refine KeyMap.get?_ofPairs_eq_some ?_ (List.mem_filterMap.2 ⟨k, hk, by simp [hr]⟩)
    intro v hv
    obtain ⟨k', hk', hmap⟩ := List.mem_filterMap.1 hv
    obtain ⟨key', hr', he⟩ := Option.map_eq_some_iff.1 hmap
    cases he
    rw [resourceKey?_eq_some_iff] at hr'
    rw [huniq k' hk' k hk (hr'.1.trans hkey.symm)]

/-- A listing that is taken leaves every key at its revision. -/
theorem level_replaceAll {c : Cache} {keys : List StoredKey} {revision : Nat}
    (h : c.floor ≤ revision) (hlisted : ∀ k ∈ keys, k.modRevision ≤ revision) (key : String) :
    (c.replaceAll keys revision).2.level key = revision := by
  rw [replaceAll_of_le c h]
  have hentry : (((c.entriesOf keys).get? key).map CacheEntry.revision).getD 0 ≤ revision := by
    cases hget : (c.entriesOf keys).get? key with
    | none => exact Nat.zero_le _
    | some entry =>
      obtain ⟨k, hk, -, rfl⟩ := exists_of_get?_entriesOf hget
      exact hlisted k hk
  simp only [level, entryRevision, get?, KeyMap.get?_empty, Option.getD_none, Nat.max_zero]
  exact Nat.max_eq_left hentry

end Cache

end GatewayStore
