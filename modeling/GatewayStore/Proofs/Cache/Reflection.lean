import GatewayStore.Proofs.Cache.Order

/-
  Caches that reflect a store. `Reflects` says that the entries are exactly the keys under a prefix
  that the store holds, each with its value and revision. A listing makes a cache reflect the store
  (`reflects_replaceAll`), and events above the levels keep it so (`Reflects.foldl_take`).
-/

namespace GatewayStore.Cache

/-- The entries are the keys that an index holds under a prefix and beyond it, each with the value
and the revision of its record. -/
def Reflects (c : Cache) (keyPrefix : String) (index : KeyMap Record) : Prop :=
  ∀ key, c.get? key =
    if key = "" then none
    else (index.get? (keyPrefix ++ key)).map fun r =>
      entryOf (keyPrefix ++ key) key r.value r.modRevision

/-- Nothing is known of any key beyond the floor. -/
def Settled (c : Cache) : Prop := ∀ key, c.level key = c.floor

theorem reflects_empty (kind : Kind) (keyPrefix : String) :
    (empty kind keyPrefix).Reflects keyPrefix .empty := by
  intro key
  simp [empty, get?]

theorem settled_empty (kind : Kind) (keyPrefix : String) : (empty kind keyPrefix).Settled := by
  intro key
  simp [empty, level, entryRevision, get?]

/-- A cache whose levels are at most `revision` is settled once the floor is raised to it. -/
theorem settled_advanceFloor {c : Cache} {revision : Nat} (hle : ∀ key, c.level key ≤ revision) :
    (c.advanceFloor revision).Settled := by
  intro key
  rw [level_advanceFloor, floor_advanceFloor]
  have := hle key
  have := floor_le_level c key
  omega

/-! ## Listings -/

variable {c : Cache} {index : KeyMap Record} {revision : Nat}

/-- A listing names no key twice. -/
theorem listedUnder_unique {keyPrefix : String} {a b : StoredKey}
    (ha : a ∈ index.listedUnder keyPrefix) (hb : b ∈ index.listedUnder keyPrefix)
    (h : a.key = b.key) : a = b := by
  have ha' := (KeyMap.mem_listedUnder.1 ha).2
  have hb' := (KeyMap.mem_listedUnder.1 hb).2
  rw [h, hb'] at ha'
  obtain ⟨hv, hc, hm⟩ : b.value = a.value ∧ b.createRevision = a.createRevision ∧
      b.modRevision = a.modRevision := by simpa using ha'
  cases a
  cases b
  simp_all

/-- What a listing says of a key is what the index holds there. -/
theorem exists_listed_iff {keyPrefix key : String} {p : StoredKey → Prop} :
    (∃ k ∈ index.listedUnder keyPrefix, k.key = keyPrefix ++ key ∧ p k) ↔
      ∃ r, index.get? (keyPrefix ++ key) = some r ∧ p (r.listed (keyPrefix ++ key)) := by
  constructor
  · rintro ⟨k, hk, hkey, hp⟩
    have hget := (KeyMap.mem_listedUnder.1 hk).2
    rw [hkey] at hget
    refine ⟨_, hget, ?_⟩
    rw [← hkey]
    exact hp
  · rintro ⟨r, hget, hp⟩
    refine ⟨_, KeyMap.mem_listedUnder.2 ⟨?_, hget⟩, rfl, hp⟩
    exact Text.startsWith_iff.2 ⟨key, rfl⟩

theorem reflects_iff {keyPrefix : String} : c.Reflects keyPrefix index ↔
    ∀ key entry, c.get? key = some entry ↔ key ≠ "" ∧
      ∃ r, index.get? (keyPrefix ++ key) = some r ∧
        entry = entryOf (keyPrefix ++ key) key r.value r.modRevision := by
  unfold Reflects
  refine forall_congr' fun key => ?_
  rw [Option.ext_iff]
  refine forall_congr' fun entry => ?_
  by_cases hne : key = ""
  · simp [hne]
  · rw [if_neg hne, Option.map_eq_some_iff]
    simp only [ne_eq, hne, not_false_eq_true, true_and, @eq_comm _ entry]

/-- The entries are those of the listed keys. -/
theorem reflects_iff_listed {keyPrefix : String} : c.Reflects keyPrefix index ↔
    ∀ key entry, c.get? key = some entry ↔ key ≠ "" ∧
      ∃ k ∈ index.listedUnder keyPrefix, k.key = keyPrefix ++ key ∧
        entry = entryOf k.key key k.value k.modRevision := by
  rw [reflects_iff]
  refine forall_congr' fun key => forall_congr' fun entry => ?_
  rw [exists_listed_iff]
  rfl

theorem get?_replaceAll_listing (h : c.floor ≤ revision) (key : String) (entry : CacheEntry) :
    (c.replaceAll (index.listedUnder c.keyPrefix) revision).2.get? key = some entry ↔
      key ≠ "" ∧ ∃ r, index.get? (c.keyPrefix ++ key) = some r ∧
        entry = entryOf (c.keyPrefix ++ key) key r.value r.modRevision := by
  rw [replaceAll_of_le c h]
  refine (get?_entriesOf c key (fun a ha b hb => listedUnder_unique ha hb) entry).trans ?_
  rw [exists_listed_iff]
  rfl

/-- A cache that takes a listing of a store reflects the store. -/
theorem reflects_replaceAll (h : c.floor ≤ revision) :
    (c.replaceAll (index.listedUnder c.keyPrefix) revision).2.Reflects c.keyPrefix index :=
  reflects_iff.2 (get?_replaceAll_listing h)

theorem level_replaceAll_listing (h : c.floor ≤ revision)
    (hle : ∀ k r, index.get? k = some r → r.modRevision ≤ revision) (key : String) :
    (c.replaceAll (index.listedUnder c.keyPrefix) revision).2.level key = revision :=
  level_replaceAll h (fun k hk => hle k.key _ (KeyMap.mem_listedUnder.1 hk).2) key

theorem settled_replaceAll (h : c.floor ≤ revision)
    (hle : ∀ k r, index.get? k = some r → r.modRevision ≤ revision) :
    (c.replaceAll (index.listedUnder c.keyPrefix) revision).2.Settled := by
  intro key
  rw [level_replaceAll_listing h hle, replaceAll_of_le c h]

/-! ## Events -/

/-- An event above the levels keeps a cache and a store together; events of other prefixes do not
reach the cache. -/
theorem Reflects.take {e : Event} (h : c.Reflects c.keyPrefix index) (hfull : e.IsFull)
    (habove : ∀ key, c.level key < e.revision) :
    (c.take e).Reflects c.keyPrefix (e.applyTo index) := by
  intro key
  by_cases hacc : c.Accepts e key
  · obtain ⟨hkey, hne⟩ := resourceKey?_eq_some_iff.1 hacc.1
    rw [get?_take_of_accepts hacc, if_neg hne, ← hkey]
    match hc : e.change with
    | .put value => simp [Event.get?_applyTo_put index hc, Event.entry?, hc]
    | .delete => simp [Event.get?_applyTo_delete index hc, Event.entry?, hc]
    | .blindPut => exact absurd hc hfull
  · rw [get?_take_of_not_accepts hacc, h key]
    by_cases hne : key = ""
    · simp [hne]
    · have hother : c.keyPrefix ++ key ≠ e.key := fun he =>
        hacc ⟨resourceKey?_eq_some_iff.2 ⟨he.symm, hne⟩, hfull, habove key⟩
      rw [if_neg hne, if_neg hne, Event.get?_applyTo_of_ne index hother]

theorem Reflects.applyTo_of_other {e : Event} {keyPrefix : String}
    (h : c.Reflects keyPrefix index) (hother : e.isUnder keyPrefix = false) :
    c.Reflects keyPrefix (e.applyTo index) := by
  intro key
  have hne : keyPrefix ++ key ≠ e.key := fun he => by
    have : e.isUnder keyPrefix = true := Text.startsWith_iff.2 ⟨key, he.symm⟩
    rw [hother] at this
    cases this
  rw [h key, Event.get?_applyTo_of_ne index hne]

/-- A stretch of a log goes by: the store takes all of it, the cache the part under its prefix. -/
theorem Reflects.foldl_take {log : List Event} (h : c.Reflects c.keyPrefix index)
    (hasc : Ascending log) (hfull : ∀ e ∈ log, e.IsFull)
    (habove : ∀ e ∈ log, ∀ key, c.level key < e.revision) :
    ((log.filter (Event.isUnder c.keyPrefix)).foldl Cache.take c).Reflects
      c.keyPrefix (log.foldl Event.applyTo index) := by
  induction log generalizing c index with
  | nil => exact h
  | cons e log ih =>
    obtain ⟨hlt, hasc'⟩ := List.pairwise_cons.1 hasc
    have hfull' : ∀ x ∈ log, x.IsFull := fun x hx => hfull x (List.mem_cons_of_mem _ hx)
    have habove' : ∀ x ∈ log, ∀ key, c.level key < x.revision :=
      fun x hx => habove x (List.mem_cons_of_mem _ hx)
    rw [List.foldl_cons]
    by_cases hp : e.isUnder c.keyPrefix = true
    · rw [List.filter_cons_of_pos hp, List.foldl_cons]
      have htake : (c.take e).Reflects (c.take e).keyPrefix (e.applyTo index) := by
        rw [keyPrefix_take]
        exact h.take (hfull e List.mem_cons_self) (habove e List.mem_cons_self)
      have := ih htake hasc' hfull' fun x hx key => by
        have hbound := level_take_le c e key
          (Nat.le_of_lt (habove e List.mem_cons_self key)) (Nat.le_refl _)
        exact Nat.lt_of_le_of_lt hbound (hlt x hx)
      rwa [keyPrefix_take] at this
    · rw [List.filter_cons_of_neg hp]
      exact ih (h.applyTo_of_other (Bool.eq_false_iff.2 hp)) hasc' hfull' habove'

end GatewayStore.Cache
