import GatewayStore.Proofs.Store.Moves

/-
  The state of a store, at any point of any run. The history holds one event for every revision from
  the floor on, and never more of them than the store retains. The live keys are what the whole log
  leaves, each created by the put that found it absent (`CreatedAt`). So the state at a revision and
  the history after it give the present state (`Follows.replay_history`), for every revision from which
  a listing may be followed by a watch.
-/

namespace GatewayStore

/-! ## The creation of a key -/

/-- The key was absent when it was put at the revision, and was not deleted since. -/
def CreatedAt (log : List Event) (key : String) (revision : Nat) : Prop :=
  ∃ before value after, log = before ++ ⟨key, .put value, revision⟩ :: after ∧
    (contentsAfter before).get? key = none ∧ ∀ e ∈ after, e.key = key → e.change ≠ .delete

theorem CreatedAt.concat {log : List Event} {key : String} {revision : Nat}
    (h : CreatedAt log key revision) {e : Event} (he : e.key = key → e.change ≠ .delete) :
    CreatedAt (log ++ [e]) key revision := by
  obtain ⟨before, value, after, rfl, habsent, hkept⟩ := h
  refine ⟨before, value, after ++ [e], by simp, habsent, ?_⟩
  intro x hx
  rcases List.mem_append.1 hx with hx | hx
  · exact hkept x hx
  · rw [List.mem_singleton.1 hx]
    exact he

/-- The revision of creation in a record is that of the put that created the key. -/
theorem createdAt_of_get? {log : List Event} {key : String} {r : Record}
    (h : (contentsAfter log).get? key = some r) : CreatedAt log key r.createRevision := by
  induction log using List.reverseRecOn generalizing r with
  | nil => simp [contentsAfter_nil] at h
  | append_singleton log e ih =>
    rw [contentsAfter_append] at h
    by_cases hkey : key = e.key
    · subst hkey
      match hc : e.change with
      | .put value =>
        rw [Event.get?_applyTo_put _ hc] at h
        cases h
        cases hold : (contentsAfter log).get? e.key with
        | none =>
          refine ⟨log, value, [], ?_, hold, by simp⟩
          show log ++ [e] = log ++ [⟨e.key, .put value, e.revision⟩]
          rw [← hc]
        | some old => exact (ih hold).concat fun _ => by simp [hc]
      | .delete =>
        rw [Event.get?_applyTo_delete _ hc] at h
        cases h
      | .blindPut =>
        rw [Event.applyTo, hc] at h
        exact (ih h).concat fun _ => by simp [hc]
    · rw [Event.get?_applyTo_of_ne _ hkey] at h
      exact (ih h).concat fun he => absurd he.symm hkey

namespace Store

/-! ## Retention -/

theorem floor_compact (s : Store) (revision : Nat) :
    (s.compact revision).floor = max s.floor (min revision s.revision) := by
  unfold compact
  dsimp only
  split
  · omega
  · show min revision s.revision = max s.floor (min revision s.revision)
    omega

theorem retention_compact (s : Store) (revision : Nat) :
    (s.compact revision).retention = s.retention := by
  unfold compact
  dsimp only
  split <;> rfl

/-- The store keeps no more than it retains, of the revisions that there have been. -/
structure Pruned (s : Store) (retention : Nat) : Prop where
  retention_eq : s.retention = retention
  revision_lt : s.revision < max 1 s.floor + retention

theorem pruned_withRetention (retention : Nat) :
    (withRetention retention).Pruned (max retention 1) := by
  refine ⟨rfl, ?_⟩
  show 0 < max 1 0 + max retention 1
  omega

namespace Pruned

variable {s : Store} {retention : Nat}

/-- Whatever leaves the revision, the floor and the retention alone matters nothing. -/
theorem of_same (h : s.Pruned retention) {s' : Store} (hrevision : s'.revision = s.revision)
    (hfloor : s'.floor = s.floor) (hretention : s'.retention = s.retention) :
    s'.Pruned retention := by
  refine ⟨hretention.trans h.retention_eq, ?_⟩
  rw [hrevision, hfloor]
  exact h.revision_lt

theorem mapStreams (h : s.Pruned retention) (f : Stream → Stream) :
    (s.mapStreams f).Pruned retention :=
  h.of_same rfl rfl rfl

theorem compact (h : s.Pruned retention) (revision : Nat) : (s.compact revision).Pruned retention := by
  refine ⟨(s.retention_compact revision).trans h.retention_eq, ?_⟩
  have hlt := h.revision_lt
  rw [revision_compact, floor_compact]
  omega

/-- One more revision is pruned away at the other end. -/
theorem recorded (h : s.Pruned retention) (hpos : 0 < retention) (key : String) (change : Change) :
    (s.recorded key change).Pruned retention := by
  have hlt := h.revision_lt
  have hprune {t : Store} (hrevision : t.revision = s.revision + 1) (hfloor : t.floor = s.floor)
      (hretention : t.retention = retention) : t.prune.Pruned retention := by
    unfold prune
    split
    · refine ⟨(t.retention_compact _).trans hretention, ?_⟩
      rw [revision_compact, floor_compact]
      omega
    · exact ⟨hretention, by omega⟩
  unfold Store.recorded Store.record
  refine mapStreams ?_ _
  exact hprune rfl rfl h.retention_eq

theorem run (h : s.Pruned retention) (hpos : 0 < retention) (step : StoreStep) :
    (s.run step).2.Pruned retention := by
  rcases s.run_cases step with ⟨hs, -⟩ | ⟨key, change, -, -, hs, -⟩ | ⟨revision, hs, -⟩ |
    ⟨a, b, hs, -⟩ | ⟨a, b, cause, hs, -⟩
  · rw [hs]
    exact h
  · rw [hs]
    exact h.recorded hpos key change
  · rw [hs]
    exact h.compact revision
  · rw [hs]
    exact h.of_same rfl rfl rfl
  · rw [hs]
    exact h.of_same rfl rfl rfl

theorem act (h : s.Pruned retention) (hpos : 0 < retention) (m : StoreMove) :
    (s.act m).Pruned retention := by
  cases m with
  | operate step => exact h.run hpos step
  | subscribe keyPrefix start =>
    rw [Store.act]
    rcases s.served_watch keyPrefix start with hs | ⟨-, hs⟩
    · rw [hs]
      exact h
    · rw [hs]
      exact h.of_same rfl rfl rfl
  | take id =>
    show (s.receive id).2.Pruned retention
    unfold Store.receive
    split
    · exact h
    · exact h.of_same rfl rfl rfl
  | abandon id => exact h.of_same rfl rfl rfl

theorem actAll (h : s.Pruned retention) (hpos : 0 < retention) (moves : List StoreMove) :
    (s.actAll moves).Pruned retention := by
  induction moves generalizing s with
  | nil => exact h
  | cons m moves ih => exact ih (h.act hpos m)

end Pruned

/-! ## The history -/

variable {s : Store} {log : List Event}

/-- The numbers up to one, from another one on. -/
theorem filter_range' {floor last : Nat} (hle : floor ≤ last) :
    (List.range' 1 last).filter (floor ≤ ·) =
      List.range' (max 1 floor) (last + 1 - max 1 floor) := by
  have hsplit : List.range' 1 last =
      List.range' 1 (floor - 1) ++ List.range' (max 1 floor) (last + 1 - max 1 floor) := by
    rw [show max 1 floor = 1 + 1 * (floor - 1) by omega, List.range'_append]
    congr 1
    omega
  have hbelow : (List.range' 1 (floor - 1)).filter (floor ≤ ·) = [] := by
    refine List.filter_eq_nil_iff.2 fun n hn => ?_
    have := List.mem_range'_1.1 hn
    rw [decide_eq_true_eq]
    omega
  have habove : (List.range' (max 1 floor) (last + 1 - max 1 floor)).filter (floor ≤ ·) =
      List.range' (max 1 floor) (last + 1 - max 1 floor) := by
    refine List.filter_eq_self.2 fun n hn => ?_
    have := List.mem_range'_1.1 hn
    rw [decide_eq_true_eq]
    omega
  rw [hsplit, List.filter_append, hbelow, habove, List.nil_append]

/-- The history holds one event for every revision from the floor on. -/
theorem Follows.map_revision_history (h : s.Follows log) : s.history.map Event.revision =
    List.range' (max 1 s.floor) (s.revision + 1 - max 1 s.floor) := by
  rw [← filter_range' h.floor_le, ← h.numbered, h.history_eq, List.filter_map]
  rfl

/-- Of a record whose last change is in the history, the history has the put. -/
theorem Follows.eq_put_of_mem_history (h : s.Follows log) {key : String} {r : Record}
    (hr : s.index.get? key = some r) {e : Event} (he : e ∈ s.history)
    (hrevision : e.revision = r.modRevision) : e = ⟨key, .put r.value, r.modRevision⟩ := by
  rw [h.index_eq] at hr
  rw [h.history_eq] at he
  exact h.ascending.eq_of_revision_eq (List.mem_filter.1 he).1 (mem_of_get?_contentsAfter hr)
    hrevision

/-- The state at a revision and the history after it give the present state, unless the first change
after the revision is gone. -/
theorem Follows.replay_history {s' : Store} {later : List Event} (h : s'.Follows log)
    (h' : s.Follows (log ++ later)) (hfloor : s.floor ≤ s'.revision + 1) :
    (s.history.filter fun e => s'.revision < e.revision).foldl Event.applyTo s'.index = s.index := by
  have hpast : log.filter (fun e => s'.revision < e.revision && s.floor ≤ e.revision) = [] := by
    refine List.filter_eq_nil_iff.2 fun e he => ?_
    have := (h.revision_bounds he).2
    simp only [Bool.and_eq_true, decide_eq_true_eq]
    omega
  have hnew : later.filter (fun e => s'.revision < e.revision && s.floor ≤ e.revision) = later := by
    refine List.filter_eq_self.2 fun e he => ?_
    have := h.revision_lt h' he
    simp only [Bool.and_eq_true, decide_eq_true_eq]
    omega
  rw [h'.history_eq, List.filter_filter, List.filter_append, hpast, hnew, List.nil_append,
    h.index_eq, h'.index_eq]
  exact List.foldl_append.symm

/-- A run went through every revision up to its last one. -/
theorem exists_prefix_of_le (retention : Nat) (moves : List StoreMove) {revision : Nat}
    (hle : revision ≤ ((withRetention retention).actAll moves).revision) :
    ∃ before, before <+: moves ∧ ((withRetention retention).actAll before).revision = revision := by
  induction moves using List.reverseRecOn with
  | nil => exact ⟨[], List.nil_prefix, (Nat.le_zero.1 hle).symm⟩
  | append_singleton moves m ih =>
    have hfollows := (follows_withRetention retention).actAll moves
    -- a move makes one change at most
    have hstep : ((withRetention retention).actAll (moves ++ [m])).revision ≤
        ((withRetention retention).actAll moves).revision + 1 := by
      have hlength := (hfollows.act m).length_eq
      rw [List.length_append, hfollows.length_eq] at hlength
      rw [actAll_append]
      show (((withRetention retention).actAll moves).act m).revision ≤ _
      have hone : (((withRetention retention).actAll moves).change? m).toList.length ≤ 1 := by
        cases ((withRetention retention).actAll moves).change? m <;> simp
      omega
    rcases Nat.lt_or_ge ((withRetention retention).actAll moves).revision revision with hlt | hge
    · exact ⟨moves ++ [m], List.prefix_refl _, by omega⟩
    · obtain ⟨before, hbefore, hrevision⟩ := ih hge
      exact ⟨before, hbefore.trans (List.prefix_append _ _), hrevision⟩

/-! ## The main result -/

/-- What holds of a store with the log of its changes. -/
structure Consistent (s : Store) (log : List Event) : Prop where
  floor_le : s.floor ≤ s.revision
  /-- the history has the revisions from the floor on -/
  revisions : s.history.map Event.revision =
    List.range' (max 1 s.floor) (s.revision + 1 - max 1 s.floor)
  /-- it has at each of them the change that was made -/
  changes : s.history = log.filter fun e => s.floor ≤ e.revision
  bounded : s.history.length ≤ s.retention
  ordered : ∀ key r, s.index.get? key = some r →
    1 ≤ r.createRevision ∧ r.createRevision ≤ r.modRevision ∧ r.modRevision ≤ s.revision
  distinct : ∀ key key' r r', s.index.get? key = some r → s.index.get? key' = some r' →
    r.modRevision = r'.modRevision → key = key'
  /-- the last change of a live key is a put of what it holds -/
  retained : ∀ key r e, s.index.get? key = some r → e ∈ s.history →
    e.revision = r.modRevision → e = ⟨key, .put r.value, r.modRevision⟩
  /-- the live keys are what the log leaves -/
  replayed : s.index = contentsAfter log
  created : ∀ key r, s.index.get? key = some r → CreatedAt log key r.createRevision

theorem Follows.consistent (h : s.Follows log) (hpruned : s.Pruned s.retention) :
    s.Consistent log where
  floor_le := h.floor_le
  revisions := h.map_revision_history
  changes := h.history_eq
  bounded := by
    have hlt := hpruned.revision_lt
    rw [← List.length_map Event.revision, h.map_revision_history, List.length_range']
    omega
  ordered key r hr := by
    rw [h.index_eq] at hr
    have hlast := mem_of_get?_contentsAfter hr
    obtain ⟨before, value, after, hlog, -, -⟩ := createdAt_of_get? hr
    have hfirst : ⟨key, .put value, r.createRevision⟩ ∈ log := by
      rw [hlog]
      simp
    exact ⟨(h.revision_bounds hfirst).1,
      h.ascending.revision_le_modRevision hr hfirst rfl (h.full _ hfirst),
      (h.revision_bounds hlast).2⟩
  distinct key key' r r' hr hr' hrevision := by
    rw [h.index_eq] at hr hr'
    have heq := h.ascending.eq_of_revision_eq (mem_of_get?_contentsAfter hr)
      (mem_of_get?_contentsAfter hr') hrevision
    exact congrArg Event.key heq
  retained key r e hr he hrevision := h.eq_put_of_mem_history hr he hrevision
  replayed := h.index_eq
  created key r hr := by
    rw [h.index_eq] at hr
    exact createdAt_of_get? hr

/-- Consistency of a store. After any moves the revisions, the history and the live keys agree with the
log of the changes that were made, and the history is no longer than the retention. For every revision
from the one before the floor on, the store once had it, and the state that it had then and the history
after it give the state of the store. -/
theorem state_consistent (retention : Nat) (moves : List StoreMove) :
    let start := withRetention retention
    let s := start.actAll moves
    s.Consistent (start.changes moves) ∧ s.retention = max retention 1 ∧
    ∀ revision, s.floor ≤ revision + 1 → revision ≤ s.revision →
      (∃ before, before <+: moves ∧ (start.actAll before).revision = revision) ∧
      ∀ before, before <+: moves → (start.actAll before).revision = revision →
        (s.history.filter fun e => revision < e.revision).foldl Event.applyTo
          (start.actAll before).index = s.index := by
  intro start s
  have hfollows : s.Follows (start.changes moves) :=
    (follows_withRetention retention).actAll moves
  have hpruned : s.Pruned (max retention 1) :=
    (pruned_withRetention retention).actAll (by omega) moves
  have hretention := hpruned.retention_eq
  refine ⟨hfollows.consistent (hretention ▸ hpruned), hretention, ?_⟩
  intro revision hfloor hle
  refine ⟨exists_prefix_of_le retention moves hle, ?_⟩
  rintro before ⟨after, rfl⟩ rfl
  have hbefore : (start.actAll before).Follows (start.changes before) :=
    (follows_withRetention retention).actAll before
  have hafter : s.Follows (start.changes before ++ (start.actAll before).changes after) := by
    have := hbefore.actAll after
    rwa [← actAll_append] at this
  exact hbefore.replay_history hafter hfloor

/-- A key is deleted and created again while the history is pruned. One put is refused, the store goes
offline for a while, and a compaction asks for more than there is. -/
def recreatedRun : List StoreMove :=
  [.operate (.put "/a" [1] none), .operate (.put "/b" [2] (some .absent)), .subscribe "/" 1,
    .operate (.delete "/a"), .operate (.setAvailable false), .operate (.put "/c" [3] none),
    .operate (.setAvailable true), .operate (.put "/b" [4] (some (.unchanged 1))),
    .operate (.put "/a" [5] (some .absent)), .take 0, .operate (.put "/a" [6] (some (.unchanged 4))),
    .operate (.compact 0)]

theorem state_consistent_recreated :
    let start := withRetention 2
    let s := start.actAll recreatedRun
    s.history.length ≤ 2 ∧ CreatedAt (start.changes recreatedRun) "/a" 4 ∧
      (start.actAll (recreatedRun.take 4)).revision = 3 ∧
      (s.history.filter fun e => 3 < e.revision).foldl Event.applyTo
        (start.actAll (recreatedRun.take 4)).index = s.index := by
  intro start s
  obtain ⟨hconsistent, hretention, hreplay⟩ := state_consistent 2 recreatedRun
  have hheld : s.index.get? "/a" = some ⟨[6], 4, 5⟩ := by decide +kernel
  have hthen : (start.actAll (recreatedRun.take 4)).revision = 3 := by decide +kernel
  obtain ⟨-, hreplayed⟩ := hreplay 3 (by decide +kernel) (by decide +kernel)
  refine ⟨?_, hconsistent.created "/a" _ hheld, hthen, ?_⟩
  · exact Nat.le_trans hconsistent.bounded (Nat.le_of_eq hretention)
  · exact hreplayed _ (List.take_prefix 4 recreatedRun) hthen

end Store

end GatewayStore
