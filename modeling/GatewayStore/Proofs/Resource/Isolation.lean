import GatewayStore.Proofs.Cache.Steps
import GatewayStore.Proofs.Resource.Prefixes
import GatewayStore.Proofs.Store.Scope
import GatewayStore.Store.Client
import Mathlib.Data.List.DropRight

/-
  Kinds do not get in each other's way. No prefix of a kind starts with that of another one, so a key
  of one kind is never under the prefix of another. What follows for a store and its watches comes
  from `Store.keysUnder_run`, `Store.stream?_run` and `Store.Scoped`, and for a cache from
  `Cache.runAll_hide` (`Kind.isolated_of_ne`).
-/

namespace GatewayStore

theorem Text.trimSlashes_trimSlashes (s : String) : trimSlashes (trimSlashes s) = trimSlashes s := by
  simp [trimSlashes, List.dropWhile_idempotent]

namespace Kind

variable {a b : Kind} {root : String}

/-- The root may be trimmed before. -/
theorem keyPrefix_trimSlashes (kind : Kind) (root : String) :
    kind.keyPrefix (Text.trimSlashes root) = kind.keyPrefix root := by
  rw [keyPrefix, keyPrefix, Text.trimSlashes_trimSlashes]

theorem storageKey_injective (kind : Kind) (root : String) :
    Function.Injective (kind.storageKey root) := by
  intro x y h
  rw [storageKey, storageKey, ← String.toList_inj, String.toList_append, String.toList_append] at h
  exact String.toList_inj.1 (List.append_cancel_left h)

theorem startsWith_storageKey (kind : Kind) (root key : String) :
    Text.startsWith (kind.keyPrefix root) (kind.storageKey root key) = true :=
  Text.startsWith_iff.2 ⟨key, rfl⟩

/-- What is under the prefix of one kind is not under that of another one. -/
theorem startsWith_eq_false (hab : a ≠ b) {key : String}
    (h : Text.startsWith (a.keyPrefix root) key = true) :
    Text.startsWith (b.keyPrefix root) key = false :=
  Bool.eq_false_iff.2 fun hb => hab (eq_of_startsWith h hb)

theorem startsWith_keyPrefix (hab : a ≠ b) :
    Text.startsWith (a.keyPrefix root) (b.keyPrefix root) = false := by
  have hself : Text.startsWith (b.keyPrefix root) (b.keyPrefix root) = true :=
    Text.startsWith_iff.2 ⟨"", String.append_empty.symm⟩
  exact startsWith_eq_false hab.symm hself

theorem resourceKey?_storageKey {c : Cache} (hc : c.keyPrefix = a.keyPrefix root) {key : String}
    (hkey : key ≠ "") : c.resourceKey? (a.storageKey root key) = some key := by
  rw [Cache.resourceKey?_eq_some_iff, hc]
  exact ⟨rfl, hkey⟩

/-- What one kind's keys are to another kind. -/
structure Isolated (root : String) (a b : Kind) : Prop where
  /-- neither prefix starts with the other -/
  keyPrefix_apart : Text.startsWith (a.keyPrefix root) (b.keyPrefix root) = false ∧
    Text.startsWith (b.keyPrefix root) (a.keyPrefix root) = false
  storageKey_ne : ∀ x y, a.storageKey root x ≠ b.storageKey root y
  storageKey_injective : Function.Injective (a.storageKey root)
  /-- a client, which trims the root itself, means the same keys -/
  client_storageKey : ∀ timeout x, (Client.ofRoot root timeout).storageKey a x = a.storageKey root x
  /-- the kind's own cache finds the key in the storage key -/
  resourceKey? : ∀ c : Cache, c.keyPrefix = a.keyPrefix root → ∀ x, x ≠ "" →
    c.resourceKey? (a.storageKey root x) = some x
  /-- in every run a put or a delete does not show in the other kind's listing -/
  listing : ∀ retention moves step x, step.written? = some (a.storageKey root x) →
    let s := (Store.withRetention retention).actAll moves
    (s.run step).2.keysUnder (b.keyPrefix root) = s.keysUnder (b.keyPrefix root)
  /-- nor does it reach the other kind's watches -/
  watch : ∀ retention moves step x, step.written? = some (a.storageKey root x) →
    let s := (Store.withRetention retention).actAll moves
    ∀ id stream, s.stream? id = some stream → stream.keyPrefix = b.keyPrefix root →
      (s.run step).2.stream? id = some stream
  /-- which do not hold such a change at any time -/
  queued : ∀ retention moves id stream,
    ((Store.withRetention retention).actAll moves).stream? id = some stream →
    stream.keyPrefix = b.keyPrefix root →
    ∀ e ∈ queuedEvents stream.queue, ∀ x, e.key ≠ a.storageKey root x
  /-- the other kind's cache ignores an event of the kind -/
  event : ∀ c : Cache, c.keyPrefix = b.keyPrefix root → ∀ x value revision,
    c.run (.put (a.storageKey root x) value revision) = (false, c) ∧
    c.run (.delete (a.storageKey root x) revision) = (false, c)
  /-- and it comes out of a run as if the kind's events and listed keys had been left out -/
  cache : ∀ c : Cache, c.keyPrefix = b.keyPrefix root → ∀ steps,
    c.runAll steps =
      c.runAll (steps.filterMap (CacheStep.hide (Text.startsWith (a.keyPrefix root))))

/-- Different kinds are isolated from each other. -/
theorem isolated_of_ne (root : String) (a b : Kind) (hab : a ≠ b) : Isolated root a b where
  keyPrefix_apart := ⟨startsWith_keyPrefix hab, startsWith_keyPrefix hab.symm⟩
  storageKey_ne x y h := by
    have hb := startsWith_eq_false hab (a.startsWith_storageKey root x)
    rw [h, startsWith_storageKey] at hb
    cases hb
  storageKey_injective := a.storageKey_injective root
  client_storageKey timeout x := congrArg (· ++ x) (a.keyPrefix_trimSlashes root)
  resourceKey? c hc x hx := resourceKey?_storageKey hc hx
  listing retention moves step x hstep :=
    Store.keysUnder_run hstep (startsWith_eq_false hab (a.startsWith_storageKey root x))
  watch retention moves step x hstep := by
    intro s id stream hs hstarts
    refine Store.stream?_run hstep hs ?_
    rw [hstarts]
    exact startsWith_eq_false hab (a.startsWith_storageKey root x)
  queued retention moves id stream hs hstarts e he x hkey := by
    have hscoped := (Store.scoped_withRetention retention).actAll moves
    have hunder : e.isUnder stream.keyPrefix = true := hscoped _ (Store.mem_streams hs) e he
    have hb := startsWith_eq_false hab (a.startsWith_storageKey root x)
    rw [Event.isUnder, hstarts, hkey, hb] at hunder
    cases hunder
  event c hc x value revision := by
    have hb := startsWith_eq_false hab (a.startsWith_storageKey root x)
    rw [← hc] at hb
    exact ⟨Cache.applyPut_of_not_under hb value revision, Cache.applyDelete_of_not_under hb revision⟩
  cache c hc steps := by
    refine Cache.runAll_hide (fun k hk => ?_) steps
    rw [hc]
    exact startsWith_eq_false hab hk

/-- A stream route is stored and the stream routes are watched. -/
def streamRouteRun : List StoreMove :=
  [.operate (.put "/r/stream_routes/1" [1] none), .subscribe "/r/stream_routes/" 0]

theorem isolated_of_ne_routes :
    let s := (Store.withRetention 4).actAll streamRouteRun
    let put := StoreStep.put (route.storageKey "/r//" "stream_routes/\u00e9") [2] none
    (s.run put).2.keysUnder "/r/stream_routes/" = [⟨"/r/stream_routes/1", [1], 1, 1⟩] ∧
      (s.run put).2.stream? 0 = some ⟨"/r/stream_routes/", [], true⟩ := by
  intro s put
  have hisolated := isolated_of_ne "/r//" .route .streamRoute (by decide)
  have hlisting := hisolated.listing 4 streamRouteRun put _ rfl
  have hwatch := hisolated.watch 4 streamRouteRun put _ rfl 0 ⟨"/r/stream_routes/", [], true⟩
    (by decide +kernel) (by decide +kernel)
  exact ⟨hlisting.trans (by decide +kernel), hwatch⟩

end Kind

end GatewayStore
