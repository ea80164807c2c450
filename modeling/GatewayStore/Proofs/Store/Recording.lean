import GatewayStore.Proofs.Store.Calls

/-
  A store and the log of its changes. `Follows` says that the log holds one event for every revision,
  that replaying it gives the live keys, and that the history is the part from the floor on. A change
  that is recorded lengthens the log by one event, and all else that operations do leaves it.
-/

namespace GatewayStore

namespace Store

/-! ## Keys over time -/

/-- One store is a later state of another: the revision does not fall, and a record that was not
there before is newer than everything that was. -/
structure Precedes (s s' : Store) : Prop where
  revision_le : s.revision ≤ s'.revision
  kept_or_new : ∀ key record, s'.index.get? key = some record →
    s.index.get? key = some record ∨ s.revision < record.modRevision ∧ record.modRevision ≤ s'.revision

theorem Precedes.of_same {s s' : Store} (hrevision : s'.revision = s.revision)
    (hindex : s'.index = s.index) : s.Precedes s' :=
  ⟨Nat.le_of_eq hrevision.symm, fun _ _ h => .inl (hindex ▸ h)⟩

theorem Precedes.refl (s : Store) : s.Precedes s := .of_same rfl rfl

theorem Precedes.trans {s s' s'' : Store} (h : s.Precedes s') (h' : s'.Precedes s'') :
    s.Precedes s'' := by
  refine ⟨Nat.le_trans h.revision_le h'.revision_le, fun key record hrecord => ?_⟩
  rcases h'.kept_or_new key record hrecord with hkept | ⟨hnew, hle⟩
  · exact (h.kept_or_new key record hkept).imp_right fun ⟨hnew, hle⟩ =>
      ⟨hnew, Nat.le_trans hle h'.revision_le⟩
  · exact .inr ⟨Nat.lt_of_le_of_lt h.revision_le hnew, hle⟩

theorem precedes_recorded (s : Store) (key : String) {change : Change} (hc : change ≠ .blindPut) :
    s.Precedes (s.recorded key change) := by
  have hrevision := s.revision_recorded key change
  refine ⟨by omega, fun k record hk => ?_⟩
  by_cases hkey : k = key
  · subst hkey
    cases change with
    | put value =>
      rw [get?_recorded_put] at hk
      cases hk
      exact .inr ⟨Nat.lt_succ_self _, Nat.le_of_eq hrevision.symm⟩
    | delete =>
      rw [get?_recorded_delete] at hk
      cases hk
    | blindPut => exact absurd rfl hc
  · rw [get?_recorded_of_ne s change hkey] at hk
    exact .inl hk

/-- A call leaves what is stored alone, or records the change that it asks for. -/
theorem served_cases (s : Store) (r : Request) :
    ((s.served r).revision = s.revision ∧ (s.served r).index = s.index) ∨
    ∃ key change, change ≠ .blindPut ∧ s.served r = s.recorded key change ∧
      ∀ value, change = .put value → ∃ condition, r = .put key value condition := by
  cases r with
  | put key value condition =>
    rcases s.served_put key value condition with h | ⟨-, h⟩
    · exact .inl ⟨by rw [h], by rw [h]⟩
    · refine .inr ⟨key, .put value, by simp, h, fun value' heq => ?_⟩
      cases heq
      exact ⟨condition, rfl⟩
  | delete key =>
    rcases s.served_delete key with h | h
    · exact .inl ⟨by rw [h], by rw [h]⟩
    · exact .inr ⟨key, .delete, by simp, h, fun value heq => by cases heq⟩
  | get key => exact .inl ⟨by rw [served_get], by rw [served_get]⟩
  | range keyPrefix => exact .inl ⟨by rw [served_range], by rw [served_range]⟩
  | watch keyPrefix start =>
    left
    rcases s.served_watch keyPrefix start with h | ⟨-, h⟩
    · exact ⟨by rw [h], by rw [h]⟩
    · rw [h]
      exact ⟨rfl, rfl⟩
  | close => exact .inl ⟨rfl, rfl⟩

theorem precedes_served (s : Store) (r : Request) : s.Precedes (s.served r) := by
  rcases s.served_cases r with ⟨hrevision, hindex⟩ | ⟨key, change, hc, h, -⟩
  · exact .of_same hrevision hindex
  · rw [h]
    exact s.precedes_recorded key hc

theorem precedes_run (s : Store) (step : StoreStep) : s.Precedes (s.run step).2 := by
  rcases s.run_cases step with ⟨h, -⟩ | ⟨key, change, -, hc, h, -⟩ | ⟨revision, h, -⟩ |
    ⟨a, b, h, -⟩ | ⟨a, b, cause, h, -⟩
  · rw [h]
    exact .refl s
  · rw [h]
    exact s.precedes_recorded key hc
  · rw [h]
    exact .of_same (s.revision_compact revision) (s.index_compact revision)
  · rw [h]
    exact .of_same rfl rfl
  · rw [h]
    exact .of_same rfl rfl

/-- An operation leaves every key alone but the one that it writes. -/
theorem get?_run_of_ne (s : Store) {step : StoreStep} {key : String}
    (h : step.written? ≠ some key) : (s.run step).2.index.get? key = s.index.get? key := by
  rcases s.run_cases step with ⟨hs, -⟩ | ⟨written, change, hw, -, hs, -⟩ | ⟨revision, hs, -⟩ |
    ⟨a, b, hs, -⟩ | ⟨a, b, cause, hs, -⟩
  · rw [hs]
  · have hne : key ≠ written := fun he => h (he ▸ hw)
    rw [hs, get?_recorded_of_ne s change hne]
  · rw [hs, index_compact]
  · rw [hs]
  · rw [hs]
    rfl

/-- A record was there before a change, or the change has put its value. -/
theorem record_of_recorded {s : Store} {written key : String} {change : Change}
    (hc : change ≠ .blindPut) {record : Record}
    (h : (s.recorded written change).index.get? key = some record) :
    s.index.get? key = some record ∨ written = key ∧ change = .put record.value := by
  by_cases hkey : key = written
  · subst hkey
    right
    cases change with
    | put value =>
      rw [get?_recorded_put] at h
      cases h
      exact ⟨rfl, rfl⟩
    | delete =>
      rw [get?_recorded_delete] at h
      cases h
    | blindPut => exact absurd rfl hc
  · rw [get?_recorded_of_ne s change hkey] at h
    exact .inl h

theorem record_of_run {s : Store} {step : StoreStep} {key : String} {record : Record}
    (h : (s.run step).2.index.get? key = some record) :
    s.index.get? key = some record ∨ ∃ condition, step = .put key record.value condition := by
  rcases s.run_cases step with ⟨hs, -⟩ | ⟨written, change, -, hc, hs, hm, -⟩ | ⟨revision, hs, -⟩ |
    ⟨a, b, hs, -⟩ | ⟨a, b, cause, hs, -⟩
  · rw [hs] at h
    exact .inl h
  · rw [hs] at h
    refine (record_of_recorded hc h).imp_right ?_
    rintro ⟨rfl, rfl⟩
    cases step with
    | put key value condition =>
      obtain ⟨s', -, heq⟩ := Option.map_eq_some_iff.1 hm
      obtain ⟨rfl, hchange, -⟩ := Event.mk.inj heq
      cases hchange
      exact ⟨condition, rfl⟩
    | delete key =>
      obtain ⟨s', -, heq⟩ := Option.map_eq_some_iff.1 hm
      obtain ⟨-, hchange, -⟩ := Event.mk.inj heq
      cases hchange
    | _ => cases hm
  · rw [hs, index_compact] at h
    exact .inl h
  · rw [hs] at h
    exact .inl h
  · rw [hs] at h
    exact .inl h

theorem record_of_served {s : Store} {r : Request} {key : String} {record : Record}
    (h : (s.served r).index.get? key = some record) :
    s.index.get? key = some record ∨ ∃ condition, r = .put key record.value condition := by
  rcases s.served_cases r with ⟨-, hindex⟩ | ⟨written, change, hc, hs, hput⟩
  · rw [hindex] at h
    exact .inl h
  · rw [hs] at h
    refine (record_of_recorded hc h).imp_right ?_
    rintro ⟨rfl, hchange⟩
    exact hput record.value hchange

/-! ## The log of a store -/

/-- The store went through the changes of the log, from revision one on. -/
structure Follows (s : Store) (log : List Event) : Prop where
  numbered : log.map Event.revision = List.range' 1 s.revision
  full : ∀ e ∈ log, e.IsFull
  index_eq : s.index = contentsAfter log
  history_eq : s.history = log.filter fun e => s.floor ≤ e.revision
  floor_le : s.floor ≤ s.revision

theorem follows_withRetention (retention : Nat) : (withRetention retention).Follows [] :=
  ⟨rfl, by simp, rfl, rfl, Nat.le_refl _⟩

variable {s : Store} {log : List Event}

namespace Follows

theorem length_eq (h : s.Follows log) : log.length = s.revision := by
  rw [← List.length_map Event.revision, h.numbered, List.length_range']

theorem ascending (h : s.Follows log) : Ascending log := by
  have hlt : (log.map Event.revision).Pairwise (· < ·) := by
    rw [h.numbered]
    exact List.pairwise_lt_range'
  exact List.pairwise_map.1 hlt

theorem revision_bounds (h : s.Follows log) {e : Event} (he : e ∈ log) :
    0 < e.revision ∧ e.revision ≤ s.revision := by
  have hmem : e.revision ∈ List.range' 1 s.revision := by
    rw [← h.numbered]
    exact List.mem_map_of_mem he
  obtain ⟨i, hi, hr⟩ := List.mem_range'.1 hmem
  omega

/-- The events that come later are above the revision. -/
theorem revision_lt (h : s.Follows log) {s' : Store} {added : List Event}
    (h' : s'.Follows (log ++ added)) {e : Event} (he : e ∈ added) : s.revision < e.revision := by
  obtain ⟨i, hi, rfl⟩ := List.mem_iff_getElem.1 he
  have hat : ((log ++ added).map Event.revision)[log.length + i]? = some added[i].revision := by
    rw [List.map_append, List.getElem?_append_right (by simp)]
    simp [List.getElem?_eq_getElem hi]
  rw [h'.numbered, List.getElem?_range' (by
    have := h'.length_eq
    rw [List.length_append] at this
    omega)] at hat
  have hrev := Option.some.inj hat
  have hlen := h.length_eq
  omega

theorem revision_le (h : s.Follows log) {s' : Store} {added : List Event}
    (h' : s'.Follows (log ++ added)) : s.revision ≤ s'.revision := by
  rw [← h.length_eq, ← h'.length_eq, List.length_append]
  exact Nat.le_add_right _ _

/-- What happened up to a revision is settled once the store has it. -/
theorem eventsUpTo_append (h : s.Follows log) {s' : Store} {added : List Event}
    (h' : s'.Follows (log ++ added)) {revision : Nat} (hle : revision ≤ s.revision) :
    eventsUpTo (log ++ added) revision = eventsUpTo log revision := by
  have hnone : added.filter (fun e => e.revision ≤ revision) = [] := by
    refine List.filter_eq_nil_iff.2 fun e he => ?_
    have hlt := h.revision_lt h' he
    rw [decide_eq_true_eq]
    omega
  unfold eventsUpTo
  rw [List.filter_append, hnone, List.append_nil]

theorem eventsUpTo_revision (h : s.Follows log) : eventsUpTo log s.revision = log :=
  List.filter_eq_self.2 fun _ he => decide_eq_true (h.revision_bounds he).2

/-- The history of changes of the store. -/
def toHistory (h : s.Follows log) : History :=
  ⟨log, h.ascending, fun _ he => (h.revision_bounds he).1, h.full⟩

/-! Whatever leaves the revision, the live keys, the history and the floor alone keeps the log. -/

theorem mapStreams (h : s.Follows log) (f : Stream → Stream) : (s.mapStreams f).Follows log :=
  ⟨h.numbered, h.full, h.index_eq, h.history_eq, h.floor_le⟩

theorem withOutages (h : s.Follows log) (offline watchOffline : Bool) :
    Follows { s with isOffline := offline, isWatchOffline := watchOffline } log :=
  ⟨h.numbered, h.full, h.index_eq, h.history_eq, h.floor_le⟩

theorem addStream (h : s.Follows log) (stream : Stream) : (s.addStream stream).Follows log :=
  ⟨h.numbered, h.full, h.index_eq, h.history_eq, h.floor_le⟩

theorem release (h : s.Follows log) (id : Nat) : (s.release id).Follows log :=
  ⟨h.numbered, h.full, h.index_eq, h.history_eq, h.floor_le⟩

theorem receive (h : s.Follows log) (id : Nat) : (s.receive id).2.Follows log := by
  unfold Store.receive
  split
  · exact h
  · exact ⟨h.numbered, h.full, h.index_eq, h.history_eq, h.floor_le⟩

theorem compact (h : s.Follows log) (revision : Nat) : (s.compact revision).Follows log := by
  unfold Store.compact
  dsimp only
  split
  · exact h
  · next hlt =>
    refine ⟨h.numbered, h.full, h.index_eq, ?_, Nat.min_le_right _ _⟩
    dsimp only
    rw [h.history_eq, List.filter_filter]
    refine List.filter_congr fun e _ => ?_
    rw [← Bool.decide_and]
    exact decide_eq_decide.2 (by omega)

theorem prune (h : s.Follows log) : s.prune.Follows log := by
  unfold Store.prune
  split
  · exact h.compact _
  · exact h

/-- A recorded change lengthens the log by its event. -/
theorem recorded (h : s.Follows log) (key : String) {change : Change} (hc : change ≠ .blindPut) :
    (s.recorded key change).Follows (log ++ [⟨key, change, s.revision + 1⟩]) := by
  unfold Store.recorded
  refine Follows.mapStreams (Follows.prune ?_) _
  refine ⟨?_, ?_, ?_, ?_, Nat.le_succ_of_le h.floor_le⟩
  · have hone : List.range' 1 (s.revision + 1) = List.range' 1 s.revision ++ [s.revision + 1] := by
      rw [List.range'_concat]
      simp [Nat.add_comm]
    simp only [List.map_append, List.map_cons, List.map_nil, h.numbered, hone]
  · intro e he
    rcases List.mem_append.1 he with he | he
    · exact h.full e he
    · rw [List.mem_singleton.1 he]
      exact hc
  · rw [contentsAfter_append, ← h.index_eq]
  · have hle : s.floor ≤ s.revision + 1 := Nat.le_succ_of_le h.floor_le
    simp only [List.filter_append, h.history_eq]
    simp [hle]

/-- Every operation lengthens the log by the change that it makes, if any. -/
theorem run (h : s.Follows log) (step : StoreStep) :
    (s.run step).2.Follows (log ++ (s.mutation? step).toList) := by
  rcases s.run_cases step with ⟨hs, hm, -⟩ | ⟨key, change, -, hc, hs, hm, -⟩ | ⟨revision, hs, hm, -⟩ |
    ⟨a, b, hs, hm, -⟩ | ⟨a, b, cause, hs, hm, -⟩
  · rw [hs, hm, Option.toList_none, List.append_nil]
    exact h
  · rw [hs, hm]
    exact h.recorded key hc
  · rw [hs, hm, Option.toList_none, List.append_nil]
    exact h.compact revision
  · rw [hs, hm, Option.toList_none, List.append_nil]
    exact h.withOutages a b
  · rw [hs, hm, Option.toList_none, List.append_nil]
    exact (h.withOutages a b).mapStreams _

/-- What the store lists is the listing of its history at the revision. -/
theorem listing_eq (h : s.Follows log) {keyPrefix : String} {listing : Listing}
    (hrange : s.range keyPrefix = .ok listing) :
    listing = h.toHistory.listing keyPrefix s.revision := by
  obtain ⟨-, rfl⟩ := range_eq_ok.1 hrange
  have hcontents : h.toHistory.contentsAt s.revision = s.index := by
    rw [h.index_eq]
    exact congrArg contentsAfter h.eventsUpTo_revision
  rw [History.listing, hcontents]

end Follows

/-- Every store that operations lead to has a history. -/
theorem exists_history (retention : Nat) (steps : List StoreStep) :
    ∃ h : History, ((withRetention retention).runAll steps).Follows h.events := by
  have hlog : ∃ log, ((withRetention retention).runAll steps).Follows log := by
    induction steps using List.reverseRecOn with
    | nil => exact ⟨[], follows_withRetention retention⟩
    | append_singleton steps step ih =>
      obtain ⟨log, hlog⟩ := ih
      exact ⟨_, by simpa [runAll] using hlog.run step⟩
  obtain ⟨log, hlog⟩ := hlog
  exact ⟨hlog.toHistory, hlog⟩

end Store

end GatewayStore
