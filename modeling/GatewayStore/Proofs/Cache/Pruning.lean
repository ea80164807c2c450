import GatewayStore.Proofs.Cache.Steps

/-
  Forgetting tombstones cannot be seen. Beside the cache stands one that raises its floor but keeps
  every tombstone (`runKeeping`). The cache is the other one without the tombstones that the floor has
  made redundant: `prune` commutes with every step (`run_prune`). As `prune` changes nothing that a
  caller sees, the two answer alike forever (`pruning_unobservable`).
-/

namespace GatewayStore

namespace Cache

/-- Takes everything up to a revision for reflected and forgets nothing. -/
def raiseFloor (c : Cache) (revision : Nat) : Cache :=
  if revision ≤ c.floor then c else { c with floor := revision }

/-- Does a step without ever forgetting a tombstone because of the floor. -/
def runKeeping (c : Cache) : CacheStep → Bool × Cache
  | .put storageKey value revision => c.applyPut storageKey value revision
  | .delete storageKey revision => c.applyDelete storageKey revision
  | .advanceFloor revision => (false, c.raiseFloor revision)
  | .replaceAll keys revision => c.replaceAll keys revision

/-- What is seen of a cache after a step: the answer, the entries and the two revisions. -/
structure View where
  answer : Bool
  entries : KeyMap CacheEntry
  revision : Nat
  floor : Nat

def viewOf (result : Bool × Cache) : View :=
  ⟨result.1, result.2.entries, result.2.revision, result.2.floor⟩

/-- What is seen after each of some steps. -/
def views (run : Cache → CacheStep → Bool × Cache) (c : Cache) : List CacheStep → List View
  | [] => []
  | step :: steps => viewOf (run c step) :: views run (run c step).2 steps

/-- The cache without the tombstones up to its floor. -/
def prune (c : Cache) : Cache := { c with tombstones := c.tombstones.filter fun _ r => c.floor < r }

variable {c : Cache}

/-! ## What pruning leaves alone -/

theorem prune_empty (kind : Kind) (keyPrefix : String) :
    (empty kind keyPrefix).prune = empty kind keyPrefix := rfl

theorem viewOf_prune (answer : Bool) (c : Cache) : viewOf (answer, c.prune) = viewOf (answer, c) :=
  rfl

/-- The floor stands in for the tombstones that are gone. -/
@[simp]
theorem level_prune (c : Cache) (key : String) : c.prune.level key = c.level key := by
  have htombstone := max_tombstone_filter (c.tombstones.get? key) c.floor
  dsimp only [level, prune, entryRevision, get?]
  rw [KeyMap.get?_filter]
  omega

theorem isStale_prune (c : Cache) (key : String) (revision : Nat) :
    c.prune.isStale key revision = c.isStale key revision := by
  rw [Bool.eq_iff_iff, isStale_iff, isStale_iff, level_prune]

theorem floor_lt_of_isStale {key : String} {revision : Nat} (h : c.isStale key revision = false) :
    c.floor < revision :=
  Nat.lt_of_le_of_lt (c.floor_le_level key) ((c.isStale_eq_false_iff key revision).1 h)

/-! ## Steps -/

theorem applyPut_prune (storageKey : String) (value : Bytes) (revision : Nat) :
    c.prune.applyPut storageKey value revision =
      ((c.applyPut storageKey value revision).1, (c.applyPut storageKey value revision).2.prune) := by
  have hkey : c.prune.resourceKey? storageKey = c.resourceKey? storageKey := rfl
  unfold applyPut
  rw [hkey]
  cases c.resourceKey? storageKey with
  | none => rfl
  | some key =>
    dsimp only
    rw [isStale_prune]
    cases hstale : c.isStale key revision with
    | true => rfl
    | false =>
      have herase : (c.tombstones.filter fun _ r => c.floor < r).erase key =
          (c.tombstones.erase key).filter fun _ r => c.floor < r := by
        ext k : 1
        simp only [KeyMap.get?_erase, KeyMap.get?_filter]
        split <;> rfl
      simp only [prune, herase, Bool.false_eq_true, if_false]

theorem applyDelete_prune (storageKey : String) (revision : Nat) :
    c.prune.applyDelete storageKey revision =
      ((c.applyDelete storageKey revision).1, (c.applyDelete storageKey revision).2.prune) := by
  have hkey : c.prune.resourceKey? storageKey = c.resourceKey? storageKey := rfl
  unfold applyDelete
  rw [hkey]
  cases c.resourceKey? storageKey with
  | none => rfl
  | some key =>
    dsimp only
    rw [isStale_prune]
    cases hstale : c.isStale key revision with
    | true => rfl
    | false =>
      -- the new tombstone is above the floor, so it is not pruned
      have hfloor := floor_lt_of_isStale hstale
      have hinsert : (c.tombstones.filter fun _ r => c.floor < r).insert key revision =
          (c.tombstones.insert key revision).filter fun _ r => c.floor < r := by
        ext k : 1
        simp only [KeyMap.get?_insert, KeyMap.get?_filter]
        split
        · simp [Option.filter, hfloor]
        · rfl
      simp only [prune, hinsert, Bool.false_eq_true, if_false]

theorem advanceFloor_prune (revision : Nat) :
    c.prune.advanceFloor revision = (c.raiseFloor revision).prune := by
  have hfloor : c.prune.floor = c.floor := rfl
  unfold advanceFloor raiseFloor
  rw [hfloor]
  split
  · rfl
  · next hlt =>
    -- what is below the old floor is below the new one
    have hfilter : (c.tombstones.filter fun _ r => c.floor < r).filter (fun _ r => revision < r) =
        c.tombstones.filter fun _ r => revision < r := by
      ext k : 1
      simp only [KeyMap.get?_filter]
      cases c.tombstones.get? k with
      | none => rfl
      | some r =>
        by_cases hr : revision < r
        · have : c.floor < r := by omega
          simp [Option.filter, hr, this]
        · by_cases hc : c.floor < r <;> simp [Option.filter, hr, hc]
    simp only [prune, hfilter]

theorem replaceAll_prune (keys : List StoredKey) (revision : Nat) :
    c.prune.replaceAll keys revision =
      ((c.replaceAll keys revision).1, (c.replaceAll keys revision).2.prune) := by
  have hfloor : c.prune.floor = c.floor := rfl
  unfold replaceAll
  rw [hfloor]
  split <;> rfl

/-- The cache does what the one that keeps its tombstones does. -/
theorem run_prune (c : Cache) (step : CacheStep) :
    c.prune.run step = ((c.runKeeping step).1, (c.runKeeping step).2.prune) := by
  cases step with
  | put storageKey value revision => exact applyPut_prune storageKey value revision
  | delete storageKey revision => exact applyDelete_prune storageKey revision
  | advanceFloor revision => exact congrArg (Prod.mk false) (advanceFloor_prune revision)
  | replaceAll keys revision => exact replaceAll_prune keys revision

/-! ## The main result -/

theorem views_prune (c : Cache) (steps : List CacheStep) :
    views run c.prune steps = views runKeeping c steps := by
  induction steps generalizing c with
  | nil => rfl
  | cons step steps ih =>
    unfold views
    rw [run_prune, viewOf_prune, ih]

/-- Pruning tombstones cannot be seen. Whatever is done to an empty cache, after every step it gives
the answer and has the entries, the revision and the floor of a cache that never forgets a tombstone
when its floor is raised. -/
theorem pruning_unobservable (kind : Kind) (keyPrefix : String) (steps : List CacheStep) :
    views run (empty kind keyPrefix) steps = views runKeeping (empty kind keyPrefix) steps := by
  rw [← views_prune, prune_empty]

/-- The two differ in the tombstones only. -/
example : let deleted := ((empty .route "/r/").run (.delete "/r/x" 3)).2
    (deleted.runKeeping (.advanceFloor 5)).2.tombstones.get? "x" = some 3 ∧
      (deleted.run (.advanceFloor 5)).2.tombstones.get? "x" = none := by
  decide +kernel

end Cache

end GatewayStore
