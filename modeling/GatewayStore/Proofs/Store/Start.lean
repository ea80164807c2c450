import GatewayStore.Proofs.Store.Delivery
import Mathlib.Data.List.TakeWhile

/-
  Where a watch starts. What is replayed is from the start on, but what is sent later is chosen by its
  key alone (`Yields.queuedEvents_delivered`). So a watch from a revision up to the next one has nothing
  from before its start. One from beyond the next revision has the changes in between as well, each of
  them until something breaks the streams, and then its start is not kept (`watch_start_kept_iff`).
-/

namespace GatewayStore

namespace Store

variable {s : Store} {log : List Event} {id : Nat} {keyPrefix : String} {items : List Delivery}
  {moves : List StoreMove}

/-- The moves up to the first one that breaks the streams. -/
def unbroken (moves : List StoreMove) : List StoreMove := moves.takeWhile fun m => m.outage?.isNone

theorem unbroken_subset (moves : List StoreMove) : ∀ m ∈ unbroken moves, m ∈ moves :=
  fun _ hm => (List.takeWhile_prefix _).subset hm

theorem outage?_of_mem_unbroken {m : StoreMove} (h : m ∈ unbroken moves) : m.outage? = none := by
  have hnone := List.mem_takeWhile_imp h
  exact Option.isNone_iff_eq_none.1 hnone

/-- Either nothing breaks the streams, or the moves go on with one that does. -/
theorem unbroken_cases (moves : List StoreMove) : unbroken moves = moves ∨
    ∃ m cause rest, moves = unbroken moves ++ m :: rest ∧ m.outage? = some cause := by
  have hsplit : unbroken moves ++ moves.dropWhile (fun m => m.outage?.isNone) = moves :=
    List.takeWhile_append_dropWhile
  cases hrest : moves.dropWhile fun m => m.outage?.isNone with
  | nil =>
    rw [hrest, List.append_nil] at hsplit
    exact .inl hsplit
  | cons m rest =>
    have hm : m.outage?.isNone = false := by
      have hhead := List.head?_dropWhile_not (fun m : StoreMove => m.outage?.isNone) moves
      rwa [hrest, List.head?_cons] at hhead
    obtain ⟨cause, hcause⟩ := Option.isSome_iff_exists.1 (Option.isNone_eq_false_iff.1 hm)
    rw [hrest] at hsplit
    exact .inr ⟨m, cause, rest, hsplit.symm, hcause⟩

/-- On an open stream come the changes under its prefix, up to the first break. -/
theorem Yields.queuedEvents_delivered (h : s.Yields id [] keyPrefix true items) (hn : s.NumbersBelow)
    (hstays : ∀ m ∈ moves, m ≠ .abandon id) :
    queuedEvents (s.delivered id moves) =
      queuedEvents items ++ (s.changes (unbroken moves)).filter (Event.isUnder keyPrefix) := by
  have hlive := Yields.quiet h hn (fun m hm => hstays m (unbroken_subset moves m hm))
    fun m hm => outage?_of_mem_unbroken hm
  rw [List.nil_append] at hlive
  have hsent := queuedEvents_map_batch ((s.changes (unbroken moves)).filter (Event.isUnder keyPrefix))
  rcases unbroken_cases moves with hall | ⟨m, cause, rest, hsplit, hm⟩
  · rw [hall] at hlive hsent ⊢
    rw [hlive.delivered_eq.1, queuedEvents_append, hsent]
  · have hrest : ∀ m ∈ rest, m ≠ .abandon id := fun x hx => hstays x (by rw [hsplit]; simp [hx])
    have hbroken := hlive.broken (hn.actAll _) hm hrest
    rw [← collect_append, ← actAll_append, ← hsplit] at hbroken
    rw [hbroken.delivered_eq.1, queuedEvents_append, queuedEvents_append, hsent]
    exact List.append_nil _

/-- A change that is made while the stream is open comes next, if it is under the prefix. -/
theorem Yields.delivered_concat (h : s.Yields id [] keyPrefix true items) (hn : s.NumbersBelow)
    (hstays : ∀ m ∈ moves, m ≠ .abandon id) (hquiet : ∀ m ∈ moves, m.outage? = none)
    {step : StoreStep} {e : Event} (hchange : (s.actAll moves).mutation? step = some e) :
    s.delivered id (moves ++ [.operate step]) =
      s.delivered id moves ++ if e.isUnder keyPrefix then [.batch [e]] else [] := by
  have houtage : step.outage? = none := by
    cases step with
    | put | delete => rfl
    | _ => cases hchange
  have hstays' : ∀ m ∈ moves ++ [.operate step], m ≠ .abandon id :=
    List.forall_mem_append.2 ⟨hstays, by simp⟩
  have hquiet' : ∀ m ∈ moves ++ [.operate step], m.outage? = none :=
    List.forall_mem_append.2 ⟨hquiet, by simpa [StoreMove.outage?] using houtage⟩
  have hchanges : s.changes (moves ++ [.operate step]) = s.changes moves ++ [e] := by
    rw [changes, collect_append, collect, collect, change?, hchange]
    rfl
  rw [((Yields.quiet h hn hstays' hquiet').delivered_eq).1,
    ((Yields.quiet h hn hstays hquiet).delivered_eq).1, hchanges, List.filter_append, List.map_append,
    List.append_assoc]
  cases he : e.isUnder keyPrefix <;> simp [he]

/-- Nothing comes on a stream that has ended. -/
theorem Yields.queuedEvents_ended (h : s.Yields id [] keyPrefix false items) (hn : s.NumbersBelow)
    (hstays : ∀ m ∈ moves, m ≠ .abandon id) :
    queuedEvents (s.delivered id moves) = queuedEvents items := by
  have hends := Yields.ended h hn hstays
  rw [List.nil_append] at hends
  rw [hends.delivered_eq.1]

/-- The changes of a run come after the revision from which it starts. -/
theorem Follows.revision_lt_changes (h : s.Follows log) {e : Event} (he : e ∈ s.changes moves) :
    s.revision < e.revision :=
  h.revision_lt (h.actAll moves) he

/-! ## Early events -/

variable {start : Nat}

/-- What is replayed is from the start on. -/
theorem start_le_of_mem_replay {e : Event} (he : e ∈ queuedEvents (s.replay keyPrefix start)) :
    start ≤ e.revision := by
  rw [queuedEvents_replay, List.mem_filter, Bool.and_eq_true] at he
  exact of_decide_eq_true he.2.1

/-- A watch that does not come too late has what is replayed and then the changes under its prefix. -/
theorem queuedEvents_watched (hn : s.NumbersBelow) (hpos : 0 < start)
    (hstays : ∀ m ∈ moves, m ≠ .abandon s.nextStream) :
    queuedEvents ((s.addStream (s.watchStream keyPrefix start)).delivered s.nextStream moves) =
      if start < s.floor then []
      else queuedEvents (s.replay keyPrefix start) ++
        ((s.addStream (s.watchStream keyPrefix start)).changes (unbroken moves)).filter
          (Event.isUnder keyPrefix) := by
  split
  · next hfloor =>
    have hn' := hn.addStream (s.watchStream keyPrefix start)
    have hyields := Yields.of_watch hn keyPrefix start
    rw [s.watchStream_compacted keyPrefix hpos hfloor] at hyields hn' ⊢
    exact hyields.queuedEvents_ended hn' hstays
  · next hfloor =>
    have hlive := Yields.of_live hn keyPrefix (if_neg (Nat.ne_of_gt hpos)).symm (Nat.not_lt.1 hfloor)
    exact hlive.queuedEvents_delivered (hn.addStream _) hstays

theorem changes_put (honline : s.isOffline = false) (key : String) (value : Bytes) :
    s.changes [.operate (.put key value none)] = [⟨key, .put value, s.revision + 1⟩] := by
  have hput : s.put key value none = .ok (s.recorded key (.put value)) :=
    put_eq_ok.2 ⟨honline, rfl, rfl⟩
  simp [changes, collect, change?, mutation?, hput, Except.toOption, revision_recorded]

/-- Of what a watch has from before its start, all is sent later. -/
theorem Follows.early_events (h : s.Follows log) (hn : s.NumbersBelow) (keyPrefix : String)
    (hpos : 0 < start) (hstays : ∀ m ∈ moves, m ≠ .abandon s.nextStream) :
    let opened := s.addStream (s.watchStream keyPrefix start)
    let events := queuedEvents (opened.delivered s.nextStream moves)
    events.filter (fun e => e.revision < start) = (opened.changes (unbroken moves)).filter
        (fun e => e.revision < start && e.isUnder keyPrefix) ∧
      ∀ e ∈ events, min start (s.revision + 1) ≤ e.revision := by
  intro opened events
  have hevents : events = _ := queuedEvents_watched hn hpos hstays
  have hlater {e : Event} (he : e ∈ opened.changes (unbroken moves)) : s.revision < e.revision :=
    (h.addStream _).revision_lt_changes he
  rw [hevents]
  split
  · next hfloor =>
    have hnone : (opened.changes (unbroken moves)).filter
        (fun e => e.revision < start && e.isUnder keyPrefix) = [] := by
      refine List.filter_eq_nil_iff.2 fun e he => ?_
      have hlt := hlater he
      have hle := h.floor_le
      rw [Bool.and_eq_true, decide_eq_true_eq]
      omega
    exact ⟨hnone.symm, by simp⟩
  · constructor
    · have hreplayed : (queuedEvents (s.replay keyPrefix start)).filter
          (fun e => e.revision < start) = [] := by
        refine List.filter_eq_nil_iff.2 fun e he => ?_
        have hle := start_le_of_mem_replay he
        rw [decide_eq_true_eq]
        omega
      rw [List.filter_append, hreplayed, List.nil_append, List.filter_filter]
    · intro e he
      rcases List.mem_append.1 he with he | he
      · exact Nat.le_trans (Nat.min_le_left _ _) (start_le_of_mem_replay he)
      · exact Nat.le_trans (Nat.min_le_right _ _) (hlater (List.mem_filter.1 he).1)

/-- The early events of a watch. Those that reach its stream from before its start are the changes under
its prefix that are made later, until something breaks the streams, at revisions below the start; so
none is from before the start or the next revision, whichever is first. Hence a watch keeps to its
start, whatever happens, exactly if it starts no later than at the next revision. -/
theorem watch_start_kept_iff (retention : Nat) (before : List StoreMove) (keyPrefix : String)
    {start : Nat} (hpos : 0 < start) {opened : Store}
    (hopened : ((withRetention retention).actAll before).watch keyPrefix start = .ok opened) :
    let s := (withRetention retention).actAll before
    let id := s.nextStream
    (∀ moves, (∀ m ∈ moves, m ≠ .abandon id) →
      let events := queuedEvents (opened.delivered id moves)
      events.filter (fun e => e.revision < start) = (opened.changes (unbroken moves)).filter
          (fun e => e.revision < start && e.isUnder keyPrefix) ∧
        ∀ e ∈ events, min start (s.revision + 1) ≤ e.revision) ∧
    ((∀ moves, (∀ m ∈ moves, m ≠ .abandon id) →
        ∀ e ∈ queuedEvents (opened.delivered id moves), start ≤ e.revision) ↔
      start ≤ s.revision + 1) := by
  intro s id
  have hs : s.Follows ((withRetention retention).changes before) :=
    (follows_withRetention retention).actAll before
  have hn : s.NumbersBelow := (numbersBelow_withRetention retention).actAll before
  obtain ⟨honline, -, rfl⟩ := watch_eq_ok.1 hopened
  have hearly {moves : List StoreMove} (hstays : ∀ m ∈ moves, m ≠ .abandon id) :=
    hs.early_events hn keyPrefix hpos hstays
  refine ⟨fun moves hstays => hearly hstays, fun hkept => ?_, fun hnext moves hstays e he => ?_⟩
  · -- a put of the bare prefix makes the next change
    let m : StoreMove := .operate (.put keyPrefix [] none)
    let e : Event := ⟨keyPrefix, .put [], s.revision + 1⟩
    have hstays : ∀ m' ∈ [m], m' ≠ .abandon id := by simp [m]
    refine Nat.le_of_not_lt fun hbeyond => ?_
    have hchanges : (s.addStream (s.watchStream keyPrefix start)).changes (unbroken [m]) = [e] :=
      changes_put (s := s.addStream _) honline keyPrefix []
    have hunder : e.isUnder keyPrefix = true := Text.startsWith_iff.2 ⟨"", by simp [e]⟩
    have hmem : e ∈ [e].filter fun e => e.revision < start && e.isUnder keyPrefix := by
      simp [hunder, e, hbeyond]
    rw [← hchanges, ← (hearly hstays).1] at hmem
    exact absurd (hkept [m] hstays e (List.mem_filter.1 hmem).1) (Nat.not_le.2 hbeyond)
  · have hmin := (hearly hstays).2 e he
    omega

/-- A watch from a revision that is yet to come, on a store with one change. -/
def writtenOnce : List StoreMove := [.operate (.put "/p/a" [1] none)]

theorem watch_start_kept_iff_beyond :
    let s := (withRetention 2).actAll writtenOnce
    let opened := s.addStream (s.watchStream "/p/" 4)
    let moves : List StoreMove := [.operate (.put "/p/a" [2] none), .operate (.delete "/q"),
      .operate (.put "/q" [3] none), .operate (.delete "/p/a"), .operate .disconnect,
      .operate (.put "/p/b" [4] none)]
    (queuedEvents (opened.delivered 0 moves)).filter (fun e => e.revision < 4) =
        [⟨"/p/a", .put [2], 2⟩] ∧
      ¬ ∀ moves, (∀ m ∈ moves, m ≠ .abandon 0) →
        ∀ e ∈ queuedEvents (opened.delivered 0 moves), 4 ≤ e.revision := by
  intro s opened moves
  obtain ⟨hearly, hkept⟩ :=
    watch_start_kept_iff 2 writtenOnce "/p/" (by decide) (rfl : s.watch "/p/" 4 = .ok opened)
  refine ⟨?_, fun h => ?_⟩
  · exact (hearly moves (by decide +kernel)).1.trans (by decide +kernel)
  · have hle : 4 ≤ s.revision + 1 := hkept.1 h
    have hrevision : s.revision = 1 := by decide +kernel
    omega

/-- On an empty store a watch from revision 5 gets the first change. -/
theorem watch_early :
    empty.watch "/p/" 5 = .ok (empty.addStream (empty.watchStream "/p/" 5)) ∧
      (empty.addStream (empty.watchStream "/p/" 5)).delivered 0 [.operate (.put "/p/a" [118] none)] =
        [.batch [⟨"/p/a", .put [118], 1⟩]] :=
  ⟨rfl, by decide +kernel⟩

end Store

end GatewayStore
