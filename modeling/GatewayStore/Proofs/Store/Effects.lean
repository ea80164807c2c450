import GatewayStore.Proofs.Store.Delivery

/-
  What a call leaves behind. A call runs step by step, and its failure undoes nothing. Still a call that
  is refused leaves the store as it was (`call_of_refuses`), as nothing has changed by then, or only to
  what it was. A change that is made takes the next revision, concerns its own key alone, and is queued
  once on every open stream under whose prefix it is (`changesBy_recorded`).
-/

namespace GatewayStore

theorem Stream.offer_eq (stream : Stream) (e : Event) : stream.offer e =
    if stream.isOpen && Text.startsWith stream.keyPrefix e.key then
      { stream with queue := stream.queue ++ [.batch [e]] }
    else stream := by
  unfold offer send
  cases stream.isOpen <;> cases Text.startsWith stream.keyPrefix e.key <;> rfl

namespace Store

variable {s : Store}

/-! ## Calls that fail -/

/-- Why a store refuses a call. -/
inductive Refuses (s : Store) : Request → Failure → Prop where
  | offline {r : Request} (hr : r ≠ .close) (hoffline : s.isOffline = true) :
    Refuses s r (.storeUnavailable .offline)
  | watchOffline {keyPrefix : String} {start : Nat} (honline : s.isOffline = false)
    (hwatch : s.isWatchOffline = true) :
    Refuses s (.watch keyPrefix start) (.storeUnavailable .watchOffline)
  | condition {key : String} {value : Bytes} {condition : Condition} (honline : s.isOffline = false)
    (hcondition : condition.holds (s.index.get? key) = false) :
    Refuses s (.put key value (some condition)) (.preconditionFailed key)
  | missing {key : String} (honline : s.isOffline = false) (habsent : s.index.get? key = none) :
    Refuses s (.delete key) (.notFound key)

/-- A call that is refused changes nothing. -/
theorem call_of_refuses {r : Request} {cause : Failure} (h : s.Refuses r cause) :
    s.call r = (.error cause, s) := by
  cases h with
  | offline hr hoffline =>
    have hcheck : s.checkOnline = .error (.storeUnavailable .offline) := if_pos hoffline
    exact call_of_offline hcheck hr
  | watchOffline honline hwatch => rw [call_watch (checkOnline_eq_ok.2 honline), if_pos hwatch]
  | condition honline hcondition =>
    rw [call_put (checkOnline_eq_ok.2 honline)]
    simp [hcondition]
  | missing honline habsent =>
    rw [call_delete (checkOnline_eq_ok.2 honline)]
    simp [KeyMap.contains, habsent]

/-- Nothing else makes a call fail. -/
theorem refuses_of_call {r : Request} {cause : Failure} (h : (s.call r).1 = .error cause) :
    s.Refuses r cause := by
  cases hoffline : s.isOffline with
  | true =>
    by_cases hr : r = .close
    · subst hr
      cases h
    · have hrefuses : s.Refuses r (.storeUnavailable .offline) := .offline hr hoffline
      rw [call_of_refuses hrefuses] at h
      cases h
      exact hrefuses
  | false =>
    have honline := checkOnline_eq_ok (u := ()).2 hoffline
    cases r with
    | range keyPrefix => rw [call_range honline] at h; cases h
    | get key => rw [call_get honline] at h; cases h
    | put key value condition =>
      rw [call_put honline] at h
      split at h
      · cases h
      · next hc =>
        cases h
        cases condition with
        | none => exact absurd rfl hc
        | some condition => exact .condition hoffline (Bool.eq_false_iff.2 hc)
    | delete key =>
      rw [call_delete honline] at h
      split at h
      · cases h
      · next hc =>
        cases h
        exact .missing hoffline (Option.not_isSome_iff_eq_none.1 hc)
    | watch keyPrefix start =>
      rw [call_watch honline] at h
      split at h
      · next hw =>
        cases h
        exact .watchOffline hoffline hw
      · cases h
    | close => cases h

theorem fst_call_eq_error_iff {r : Request} {cause : Failure} :
    (s.call r).1 = .error cause ↔ s.Refuses r cause :=
  ⟨refuses_of_call, fun h => congrArg Prod.fst (call_of_refuses h)⟩

/-! ## Calls that change something -/

/-- A store is left by one change: at the next revision, which is that of the change, with the key as
the change makes it and every other key as it was, and with the change at the end of the queue of each
open stream under whose prefix it is, and of no other. -/
structure ChangesBy (s : Store) (e : Event) (left : Store) : Prop where
  revision_eq : left.revision = s.revision + 1
  current : e.revision = left.revision
  written : ∀ value, e.change = .put value → left.index.get? e.key = some ⟨value,
    ((s.index.get? e.key).map Record.createRevision).getD e.revision, e.revision⟩
  removed : e.change = .delete → left.index.get? e.key = none
  others : ∀ key, key ≠ e.key → left.index.get? key = s.index.get? key
  streams_eq : left.streams = s.streams.map fun (id, stream) =>
    (id, if stream.isOpen && Text.startsWith stream.keyPrefix e.key then
      { stream with queue := stream.queue ++ [.batch [e]] } else stream)

theorem changesBy_recorded (s : Store) (key : String) (change : Change) :
    s.ChangesBy ⟨key, change, s.revision + 1⟩ (s.recorded key change) where
  revision_eq := s.revision_recorded key change
  current := (s.revision_recorded key change).symm
  written := by
    rintro value rfl
    exact s.get?_recorded_put key value
  removed := by
    rintro rfl
    exact s.get?_recorded_delete key
  others k hk := s.get?_recorded_of_ne change hk
  streams_eq := by
    rw [streams_recorded]
    simp only [Stream.offer_eq]

theorem changesBy_put {key : String} {value : Bytes} {condition : Option Condition} {revision : Nat}
    (h : (s.call (.put key value condition)).1 = .ok revision) :
    s.ChangesBy ⟨key, .put value, revision⟩ (s.call (.put key value condition)).2 := by
  cases honline : s.checkOnline with
  | error cause =>
    rw [call_of_offline honline (by simp)] at h
    cases h
  | ok _ =>
    rw [call_put honline] at h ⊢
    split at h
    · next hc =>
      cases h
      rw [if_pos hc]
      exact s.changesBy_recorded key _
    · cases h

theorem changesBy_delete {key : String} {revision : Nat}
    (h : (s.call (.delete key)).1 = .ok revision) :
    s.ChangesBy ⟨key, .delete, revision⟩ (s.call (.delete key)).2 := by
  cases honline : s.checkOnline with
  | error cause =>
    rw [call_of_offline honline (by simp)] at h
    cases h
  | ok _ =>
    rw [call_delete honline] at h ⊢
    split at h
    · next hc =>
      cases h
      rw [if_pos hc]
      exact s.changesBy_recorded key _
    · cases h

/-! ## Watches that come too late -/

/-- The open streams, with what is queued on them. -/
def openStreams (s : Store) : List (Nat × Stream) := s.streams.filter fun e => e.2.isOpen

/-- What a watch leaves as it was that comes too late. -/
structure Keeps (s left : Store) : Prop where
  revision_eq : left.revision = s.revision
  index_eq : left.index = s.index
  history_eq : left.history = s.history
  floor_eq : left.floor = s.floor
  openStreams_eq : left.openStreams = s.openStreams

theorem keeps_addStream (s : Store) {stream : Stream} (h : stream.isOpen = false) :
    s.Keeps (s.addStream stream) := by
  refine ⟨rfl, rfl, rfl, rfl, ?_⟩
  unfold openStreams addStream
  simp [h]

theorem call_watch_eq_ok {keyPrefix : String} {start id : Nat}
    (h : (s.call (.watch keyPrefix start)).1 = .ok id) : id = s.nextStream ∧
      (s.call (.watch keyPrefix start)).2 = s.addStream (s.watchStream keyPrefix start) := by
  cases honline : s.checkOnline with
  | error cause =>
    rw [call_of_offline honline (by simp)] at h
    cases h
  | ok _ =>
    rw [call_watch honline] at h ⊢
    split at h
    · cases h
    · next hw =>
      cases h
      rw [if_neg hw]
      exact ⟨rfl, rfl⟩

/-- Only a watch from below the floor starts with a failure, and it consists of it. -/
theorem watchStream_of_failed {keyPrefix : String} {start : Nat} {cause : Failure}
    (hfloor : s.floor ≤ s.revision)
    (h : (s.watchStream keyPrefix start).queue.head? = some (.failed cause)) :
    s.watchStream keyPrefix start = ⟨keyPrefix, [.failed (.streamCompacted start s.floor)], false⟩ := by
  have hlive {first : Nat} (hfirst : first = if start = 0 then s.revision + 1 else start)
      (hle : s.floor ≤ first) : False := by
    rw [s.watchStream_live keyPrefix hfirst hle] at h
    exact s.not_failed_replay keyPrefix first cause (List.mem_of_head? h)
  rcases Nat.eq_zero_or_pos start with hzero | hpos
  · exact (hlive (if_pos hzero).symm (by omega)).elim
  · refine s.watchStream_compacted keyPrefix hpos (Nat.lt_of_not_le fun hle => ?_)
    exact hlive (if_neg (Nat.ne_of_gt hpos)).symm hle

/-! ## The main result -/

/-- The effects of calls, at any point of any run. A call fails exactly for the causes of `Refuses`, and
then the store is left as it was. A watch that is answered with a compaction failure keeps the revision,
the keys, the history, the floor and the open streams, and its own stream has ended. A put or a delete
that succeeds changes the store by its own change alone. -/
theorem calls_traceless (retention : Nat) (moves : List StoreMove) :
    let s := (withRetention retention).actAll moves
    (∀ r cause, ((s.call r).1 = .error cause ↔ s.Refuses r cause) ∧
      ((s.call r).1 = .error cause → (s.call r).2 = s)) ∧
    (∀ keyPrefix start id stream requested oldest,
      (s.call (.watch keyPrefix start)).1 = .ok id →
      (s.call (.watch keyPrefix start)).2.stream? id = some stream →
      stream.queue.head? = some (.failed (.streamCompacted requested oldest)) →
        s.Keeps (s.call (.watch keyPrefix start)).2 ∧
          stream = ⟨keyPrefix, [.failed (.streamCompacted start s.floor)], false⟩) ∧
    (∀ key value condition revision, (s.call (.put key value condition)).1 = .ok revision →
      s.ChangesBy ⟨key, .put value, revision⟩ (s.call (.put key value condition)).2) ∧
    ∀ key revision, (s.call (.delete key)).1 = .ok revision →
      s.ChangesBy ⟨key, .delete, revision⟩ (s.call (.delete key)).2 := by
  intro s
  have hs : s.Follows ((withRetention retention).changes moves) :=
    (follows_withRetention retention).actAll moves
  have hn : s.NumbersBelow := (numbersBelow_withRetention retention).actAll moves
  refine ⟨fun r cause => ⟨fst_call_eq_error_iff, fun h => ?_⟩, ?_, fun _ _ _ _ => changesBy_put,
    fun _ _ => changesBy_delete⟩
  · exact congrArg Prod.snd (call_of_refuses (refuses_of_call h))
  · intro keyPrefix start id stream requested oldest hok hstream hhead
    obtain ⟨rfl, hleft⟩ := call_watch_eq_ok hok
    rw [hleft, stream?_addStream hn, if_pos rfl] at hstream
    cases hstream
    have hended := watchStream_of_failed hs.floor_le hhead
    rw [hleft, hended]
    exact ⟨s.keeps_addStream rfl, rfl⟩

/-- Three changes of which the history keeps two, and a watcher under each of two prefixes. -/
def watchedRun : List StoreMove :=
  [.operate (.put "/p/a" [1] none), .operate (.put "/q/a" [2] none), .operate (.put "/p/b" [3] none),
    .subscribe "/p/" 2, .subscribe "/q/" 0]

theorem calls_traceless_watched :
    let s := (withRetention 2).actAll watchedRun
    (s.call (.delete "/p/c")).2 = s ∧
      (s.call (.put "/p/a" [4] (some (.unchanged 2)))).2 = s ∧
      s.Keeps (s.call (.watch "/p/" 1)).2 ∧
      s.ChangesBy ⟨"/p/a", .put [5], 4⟩ (s.call (.put "/p/a" [5] (some (.unchanged 1)))).2 ∧
      s.ChangesBy ⟨"/p/a", .delete, 4⟩ (s.call (.delete "/p/a")).2 := by
  intro s
  obtain ⟨hrefused, hlate, hput, hdeleted⟩ := calls_traceless 2 watchedRun
  refine ⟨?_, ?_, ?_, ?_, ?_⟩
  · exact (hrefused (.delete "/p/c") (.notFound "/p/c")).2 rfl
  · exact (hrefused (.put "/p/a" [4] (some (.unchanged 2))) (.preconditionFailed "/p/a")).2 rfl
  · exact (hlate "/p/" 1 2 _ 1 2 rfl rfl rfl).1
  · exact hput "/p/a" [5] (some (.unchanged 1)) 4 rfl
  · exact hdeleted "/p/a" 4 rfl

end Store

end GatewayStore
