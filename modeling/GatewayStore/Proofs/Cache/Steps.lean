import GatewayStore.Proofs.Cache.Order
import Mathlib.Data.List.Basic

/-
  Everything that can be done to a cache. A step may speak of keys that are not under the cache's
  prefix; what it says of them has no effect, so a run is the same as the run in which it is left
  out (`runAll_hide`).
-/

namespace GatewayStore

/-- A change of a cache. -/
inductive CacheStep where
  | put (storageKey : String) (value : Bytes) (revision : Nat)
  | delete (storageKey : String) (revision : Nat)
  | advanceFloor (revision : Nat)
  | replaceAll (keys : List StoredKey) (revision : Nat)
deriving DecidableEq

/-- A step without what it says of some keys, if anything is left of it. -/
def CacheStep.hide (hidden : String → Bool) : CacheStep → Option CacheStep
  | .put storageKey value revision =>
    if hidden storageKey then none else some (.put storageKey value revision)
  | .delete storageKey revision =>
    if hidden storageKey then none else some (.delete storageKey revision)
  | .advanceFloor revision => some (.advanceFloor revision)
  | .replaceAll keys revision => some (.replaceAll (keys.filter fun k => !hidden k.key) revision)

namespace Cache

/-- Does a step; tells whether the entries changed. -/
def run (c : Cache) : CacheStep → Bool × Cache
  | .put storageKey value revision => c.applyPut storageKey value revision
  | .delete storageKey revision => c.applyDelete storageKey revision
  | .advanceFloor revision => (false, c.advanceFloor revision)
  | .replaceAll keys revision => c.replaceAll keys revision

/-- Does steps in order. -/
def runAll (c : Cache) (steps : List CacheStep) : Cache := steps.foldl (fun c step => (c.run step).2) c

variable {c : Cache} {storageKey : String}

theorem resourceKey?_eq_none (h : Text.startsWith c.keyPrefix storageKey = false) :
    c.resourceKey? storageKey = none := by
  have hnone : Text.drop? c.keyPrefix storageKey = none := by
    simpa [Text.startsWith] using h
  rw [resourceKey?, hnone, Option.filter_none]

theorem applyPut_of_not_under (h : Text.startsWith c.keyPrefix storageKey = false) (value : Bytes)
    (revision : Nat) : c.applyPut storageKey value revision = (false, c) := by
  rw [applyPut, resourceKey?_eq_none h]

theorem applyDelete_of_not_under (h : Text.startsWith c.keyPrefix storageKey = false)
    (revision : Nat) : c.applyDelete storageKey revision = (false, c) := by
  rw [applyDelete, resourceKey?_eq_none h]

@[simp]
theorem keyPrefix_run (c : Cache) (step : CacheStep) : (c.run step).2.keyPrefix = c.keyPrefix := by
  cases step with
  | put storageKey value revision => exact c.keyPrefix_take ⟨storageKey, .put value, revision⟩
  | delete storageKey revision => exact c.keyPrefix_take ⟨storageKey, .delete, revision⟩
  | advanceFloor revision => exact c.keyPrefix_advanceFloor revision
  | replaceAll keys revision => exact c.keyPrefix_replaceAll keys revision

/-! ## Keys that are not the cache's -/

variable {hidden : String → Bool}

/-- The keys of a listing that are not under the prefix give no entries. -/
theorem entriesOf_filter (h : ∀ k, hidden k = true → Text.startsWith c.keyPrefix k = false)
    (keys : List StoredKey) : c.entriesOf (keys.filter fun k => !hidden k.key) = c.entriesOf keys := by
  unfold entriesOf
  congr 1
  rw [List.filterMap_filter]
  refine List.filterMap_congr fun k _ => ?_
  cases hk : hidden k.key with
  | true => simp [resourceKey?_eq_none (h k.key hk)]
  | false => simp

theorem run_hide (h : ∀ k, hidden k = true → Text.startsWith c.keyPrefix k = false)
    (step : CacheStep) :
    (c.run step).2 = c.runAll (step.hide hidden).toList := by
  cases step with
  | put storageKey value revision =>
    cases hk : hidden storageKey with
    | true =>
      rw [CacheStep.hide, if_pos hk, run, applyPut_of_not_under (h storageKey hk)]
      rfl
    | false =>
      rw [CacheStep.hide, hk, if_neg (by decide)]
      rfl
  | delete storageKey revision =>
    cases hk : hidden storageKey with
    | true =>
      rw [CacheStep.hide, if_pos hk, run, applyDelete_of_not_under (h storageKey hk)]
      rfl
    | false =>
      rw [CacheStep.hide, hk, if_neg (by decide)]
      rfl
  | advanceFloor revision => rfl
  | replaceAll keys revision =>
    have hsame : c.replaceAll (keys.filter fun k => !hidden k.key) revision =
        c.replaceAll keys revision := by
      rw [replaceAll, replaceAll, entriesOf_filter h]
    exact congrArg Prod.snd hsame.symm

/-- A run is not affected by what its steps say of keys that are not under the prefix. -/
theorem runAll_hide (h : ∀ k, hidden k = true → Text.startsWith c.keyPrefix k = false)
    (steps : List CacheStep) :
    c.runAll steps = c.runAll (steps.filterMap (CacheStep.hide hidden)) := by
  induction steps generalizing c with
  | nil => rfl
  | cons step steps ih =>
    have hsteps : c.runAll (step :: steps) = (c.run step).2.runAll steps := rfl
    have hrest := ih (c := (c.run step).2) (by rw [keyPrefix_run]; exact h)
    rw [hsteps, hrest, run_hide h step, List.filterMap_cons]
    cases step.hide hidden <;> rfl

end Cache

end GatewayStore
