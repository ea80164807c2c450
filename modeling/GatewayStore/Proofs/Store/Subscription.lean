import GatewayStore.Proofs.Store.Recording

/-
  What a subscription carries. From a log and the revision up to which its reader is current, `Carries`
  says that the queue holds the later events under the prefix, in order and without a gap, and that an
  open stream holds all of them. A watch from the next revision on starts so (`carries_watchStream`),
  recorded changes and failures keep it, and so does the reader who takes a batch and is current up to
  the batch's last revision (`Carries.receive_batch`).
-/

namespace GatewayStore

/-- The events in a queue. -/
def queuedEvents (queue : List Delivery) : List Event :=
  queue.flatMap fun
    | .batch events => events
    | .failed _ => []

theorem queuedEvents_append (queue more : List Delivery) :
    queuedEvents (queue ++ more) = queuedEvents queue ++ queuedEvents more :=
  List.flatMap_append

theorem queuedEvents_map_batch (events : List Event) :
    queuedEvents (events.map fun e => .batch [e]) = events := by
  simp [queuedEvents, List.flatMap_map]

/-- The events of a log under a prefix that are later than a revision. -/
def eventsAfter (log : List Event) (keyPrefix : String) (revision : Nat) : List Event :=
  log.filter fun e => revision < e.revision && e.isUnder keyPrefix

/-- The queue holds the events under the prefix after a revision, up to some point of the log; an open
stream holds all that there are. -/
structure Stream.Carries (stream : Stream) (log : List Event) (keyPrefix : String)
    (revision : Nat) : Prop where
  keyPrefix_eq : stream.keyPrefix = keyPrefix
  queued : ∃ seen unseen, log = seen ++ unseen ∧
    queuedEvents stream.queue = eventsAfter seen keyPrefix revision ∧
    (stream.isOpen = true → unseen = [])

/-! ## Operations on a stream -/

namespace Stream.Carries

variable {stream : Stream} {log : List Event} {keyPrefix : String} {revision : Nat}

theorem offer (h : stream.Carries log keyPrefix revision) {e : Event}
    (he : revision < e.revision) : (stream.offer e).Carries (log ++ [e]) keyPrefix revision := by
  obtain ⟨seen, unseen, hlog, hqueue, hopen⟩ := h.queued
  refine ⟨by rw [keyPrefix_offer]; exact h.keyPrefix_eq, ?_⟩
  rw [isOpen_offer]
  cases hs : stream.isOpen with
  | false =>
    refine ⟨seen, unseen ++ [e], by rw [hlog, List.append_assoc], ?_, by simp⟩
    have hsame : stream.offer e = stream := by
      unfold Stream.offer
      rw [send_of_closed hs, ite_self]
    rw [hsame, hqueue]
  | true =>
    have hall := hopen hs
    subst hall
    rw [List.append_nil] at hlog
    subst hlog
    refine ⟨log ++ [e], [], by simp, ?_, fun _ => rfl⟩
    unfold Stream.offer
    rw [h.keyPrefix_eq]
    cases hp : Text.startsWith keyPrefix e.key with
    | true =>
      rw [if_pos rfl, queue_send hs, queuedEvents_append, hqueue]
      simp [eventsAfter, queuedEvents, he, Event.isUnder, hp]
    | false =>
      rw [if_neg (by simp)]
      simp only [queuedEvents, eventsAfter] at hqueue ⊢
      simp [hqueue, Event.isUnder, hp]

theorem fail (h : stream.Carries log keyPrefix revision) (cause : Failure) :
    (stream.fail cause).Carries log keyPrefix revision := by
  obtain ⟨seen, unseen, hlog, hqueue, -⟩ := h.queued
  refine ⟨by simpa [Stream.fail, Stream.close] using h.keyPrefix_eq, seen, unseen, hlog, ?_,
    by simp [Stream.fail, Stream.close]⟩
  rw [← hqueue]
  cases hs : stream.isOpen with
  | false => simp [Stream.fail, Stream.close, send_of_closed hs]
  | true => simp [Stream.fail, Stream.close, queue_send hs, queuedEvents]

/-- On an open stream with an empty queue the reader is current. -/
theorem eventsAfter_eq_nil (h : stream.Carries log keyPrefix revision)
    (hopen : stream.isOpen = true) (hempty : stream.queue = []) :
    eventsAfter log keyPrefix revision = [] := by
  obtain ⟨seen, unseen, hlog, hqueue, hall⟩ := h.queued
  rw [hall hopen, List.append_nil] at hlog
  rw [hlog, ← hqueue, hempty]
  rfl

theorem receive_failed (h : stream.Carries log keyPrefix revision) {cause : Failure}
    {rest : List Delivery} (hq : stream.queue = .failed cause :: rest) :
    Carries { stream with queue := rest } log keyPrefix revision := by
  obtain ⟨seen, unseen, hlog, hqueue, hopen⟩ := h.queued
  refine ⟨h.keyPrefix_eq, seen, unseen, hlog, ?_, hopen⟩
  rw [← hqueue, hq]
  rfl

/-- The first batch is the next stretch of the log under the prefix, and what is left are the events
after it. -/
theorem receive_batch (h : stream.Carries log keyPrefix revision) (hasc : Ascending log)
    {events : List Event} {rest : List Delivery} (hq : stream.queue = .batch events :: rest) :
    Carries { stream with queue := rest } log keyPrefix (lastRevision revision events) ∧
      events = (log.filter fun e => revision < e.revision &&
        decide (e.revision ≤ lastRevision revision events)).filter (Event.isUnder keyPrefix) := by
  obtain ⟨seen, unseen, rfl, hqueue, hopen⟩ := h.queued
  obtain ⟨hseen, -, hlater⟩ := hasc.append
  have hsplit : events ++ queuedEvents rest = eventsAfter seen keyPrefix revision := by
    rw [← hqueue, hq]
    rfl
  have hascSplit : Ascending (events ++ queuedEvents rest) := hsplit ▸ hseen.filter _
  obtain ⟨-, -, hbefore⟩ := hascSplit.append
  have hevents : ∀ e ∈ events, e ∈ seen ∧ revision < e.revision ∧ e.isUnder keyPrefix = true := by
    intro e he
    have hin : e ∈ eventsAfter seen keyPrefix revision := hsplit ▸ List.mem_append_left _ he
    simpa [eventsAfter] using hin
  have hrest : ∀ e ∈ queuedEvents rest, lastRevision revision events < e.revision := by
    intro e he
    have hin : e ∈ eventsAfter seen keyPrefix revision := hsplit ▸ List.mem_append_right _ he
    rcases lastRevision_eq_or revision events with hr | ⟨x, hx, hr⟩
    · rw [hr]
      exact (by simpa [eventsAfter] using hin : _ ∧ revision < e.revision ∧ _).2.1
    · rw [hr]
      exact hbefore x hx e he
  have hle := le_lastRevision revision events
  have hkeep : (events ++ queuedEvents rest).filter
      (fun e => decide (lastRevision revision events < e.revision)) = queuedEvents rest := by
    rw [List.filter_append, List.filter_eq_nil_iff.2, List.filter_eq_self.2, List.nil_append]
    · exact fun e he => by simpa using hrest e he
    · exact fun e he => by simpa using revision_le_lastRevision he
  have hdrop : (events ++ queuedEvents rest).filter
      (fun e => decide (e.revision ≤ lastRevision revision events)) = events := by
    rw [List.filter_append, List.filter_eq_self.2, List.filter_eq_nil_iff.2, List.append_nil]
    · exact fun e he => by simpa using hrest e he
    · exact fun e he => by simpa using revision_le_lastRevision he
  constructor
  · refine ⟨h.keyPrefix_eq, seen, unseen, rfl, ?_, hopen⟩
    dsimp only
    rw [← hkeep, hsplit]
    unfold eventsAfter
    rw [List.filter_filter]
    refine List.filter_congr fun e _ => ?_
    rw [← Bool.and_assoc, ← Bool.decide_and]
    congr 1
    exact decide_eq_decide.2 (by omega)
  · -- the events not yet seen come after the batch
    have hunseen : unseen.filter (fun e => revision < e.revision &&
        decide (e.revision ≤ lastRevision revision events)) = [] := by
      refine List.filter_eq_nil_iff.2 fun e he => ?_
      rcases lastRevision_eq_or revision events with hr | ⟨x, hx, hr⟩
      · rw [hr, ← Bool.decide_and, decide_eq_true_eq]
        omega
      · have := hlater x (hevents x hx).1 e he
        rw [hr, ← Bool.decide_and, decide_eq_true_eq]
        omega
    rw [List.filter_append, hunseen, List.append_nil]
    conv => lhs; rw [← hdrop, hsplit]
    unfold eventsAfter
    rw [List.filter_filter, List.filter_filter]
    refine List.filter_congr fun e _ => ?_
    cases decide (revision < e.revision) <;>
      cases decide (e.revision ≤ lastRevision revision events) <;>
      cases e.isUnder keyPrefix <;> rfl

end Stream.Carries

/-! ## The streams of a store -/

namespace Store

variable {s : Store} {log : List Event} {keyPrefix : String} {revision : Nat}

/-- No stream has the next number yet. -/
def NumbersBelow (s : Store) : Prop := ∀ e ∈ s.streams, e.1 < s.nextStream

/-- The stream with a number carries the log. -/
def Carries (s : Store) (id : Nat) (log : List Event) (keyPrefix : String) (revision : Nat) : Prop :=
  ∃ stream, s.stream? id = some stream ∧ stream.Carries log keyPrefix revision

theorem lookup_map_snd (l : List (Nat × Stream)) (f : Nat → Stream → Stream) (id : Nat) :
    (l.map fun e => (e.1, f e.1 e.2)).lookup id = (l.lookup id).map (f id) := by
  induction l with
  | nil => rfl
  | cons e l ih =>
    rw [List.map_cons, List.lookup_cons, List.lookup_cons, ih]
    cases hk : id == e.1 with
    | true => rw [beq_iff_eq.1 hk]; rfl
    | false => rfl

theorem lookup_filter_ne (l : List (Nat × Stream)) {id other : Nat} (h : other ≠ id) :
    (l.filter fun e => e.1 ≠ id).lookup other = l.lookup other := by
  induction l with
  | nil => rfl
  | cons e l ih =>
    by_cases hk : e.1 = id
    · have hne : (other == e.1) = false := by rw [hk]; exact beq_false_of_ne h
      rw [List.filter_cons_of_neg (by simpa using hk), List.lookup_cons, hne]
      exact ih
    · rw [List.filter_cons_of_pos (by simpa using hk), List.lookup_cons, List.lookup_cons, ih]

theorem stream?_mapStreams (s : Store) (f : Stream → Stream) (id : Nat) :
    (s.mapStreams f).stream? id = (s.stream? id).map f :=
  lookup_map_snd s.streams (fun _ => f) id

theorem stream?_release (s : Store) {id other : Nat} (h : other ≠ id) :
    (s.release id).stream? other = s.stream? other :=
  lookup_filter_ne s.streams h

/-- The reader of a stream takes its first item and leaves the other streams alone. -/
theorem stream?_receive (s : Store) (id other : Nat) :
    (s.receive id).2.stream? other =
      (s.stream? other).map fun stream => if other = id then stream.receive.2 else stream := by
  unfold Store.receive
  cases hs : s.stream? id with
  | none =>
    by_cases h : other = id
    · rw [h, hs]
      rfl
    · simp only [h, if_false, Option.map_id']
  | some stream =>
    have hmap : (s.streams.map fun e => if e.1 = id then (id, stream.receive.2) else e) =
        s.streams.map fun e => (e.1, if e.1 = id then stream.receive.2 else e.2) := by
      refine List.map_congr_left fun e _ => ?_
      split
      · next h => rw [h]
      · rfl
    unfold stream? at hs ⊢
    dsimp only
    rw [hmap, lookup_map_snd s.streams fun n t => if n = id then stream.receive.2 else t]
    by_cases h : other = id
    · simp [h, hs]
    · simp [h]

theorem receive_fst (s : Store) (id : Nat) :
    (s.receive id).1 = (s.stream? id).bind fun stream => stream.receive.1 := by
  unfold Store.receive
  cases s.stream? id <;> rfl

theorem NumbersBelow.stream?_eq_none (h : s.NumbersBelow) {id : Nat} (hle : s.nextStream ≤ id) :
    s.stream? id = none := by
  refine List.lookup_eq_none_iff.2 fun e he => ?_
  have hlt := h e he
  have hne : id ≠ e.1 := by omega
  simpa using hne

theorem NumbersBelow.lt_nextStream (h : s.NumbersBelow) {id : Nat} {stream : Stream}
    (hs : s.stream? id = some stream) : id < s.nextStream := by
  refine Nat.lt_of_not_le fun hle => ?_
  rw [h.stream?_eq_none hle] at hs
  cases hs

theorem stream?_addStream (h : s.NumbersBelow) (stream : Stream) (id : Nat) :
    (s.addStream stream).stream? id =
      if id = s.nextStream then some stream else s.stream? id := by
  have hadd : (s.addStream stream).stream? id =
      (s.stream? id).or ([(s.nextStream, stream)].lookup id) := List.lookup_append
  rw [hadd]
  split
  · next heq =>
    rw [h.stream?_eq_none (Nat.le_of_eq heq.symm), heq]
    simp
  · next hne => simp [List.lookup_cons, beq_false_of_ne hne]

theorem streams_prune (s : Store) : s.prune.streams = s.streams := by
  unfold prune compact
  split
  · dsimp only
    split <;> rfl
  · rfl

theorem streams_recorded (s : Store) (key : String) (change : Change) :
    (s.recorded key change).streams = s.streams.map fun e =>
      (e.1, e.2.offer ⟨key, change, s.revision + 1⟩) := by
  unfold recorded record mapStreams
  dsimp only
  rw [streams_prune]

theorem nextStream_recorded (s : Store) (key : String) (change : Change) :
    (s.recorded key change).nextStream = s.nextStream := by
  unfold recorded record mapStreams prune compact
  dsimp only
  split
  · split <;> rfl
  · rfl

theorem stream?_recorded (s : Store) (key : String) (change : Change) (id : Nat) :
    (s.recorded key change).stream? id =
      (s.stream? id).map (·.offer ⟨key, change, s.revision + 1⟩) := by
  unfold stream?
  rw [streams_recorded]
  exact lookup_map_snd s.streams (fun _ t => t.offer ⟨key, change, s.revision + 1⟩) id

theorem stream?_compact (s : Store) (revision id : Nat) :
    (s.compact revision).stream? id = s.stream? id := by
  unfold compact
  dsimp only
  split <;> rfl

/-! The numbers stay below the next one. -/

theorem numbersBelow_withRetention (retention : Nat) : (withRetention retention).NumbersBelow := by
  intro e he
  cases he

theorem NumbersBelow.of_map (h : s.NumbersBelow) {s' : Store} (f : Stream → Stream)
    (hstreams : s'.streams = s.streams.map fun e => (e.1, f e.2))
    (hnext : s'.nextStream = s.nextStream) : s'.NumbersBelow := by
  intro e he
  rw [hstreams] at he
  obtain ⟨x, hx, rfl⟩ := List.mem_map.1 he
  rw [hnext]
  exact h x hx

theorem NumbersBelow.addStream (h : s.NumbersBelow) (stream : Stream) :
    (s.addStream stream).NumbersBelow := by
  intro e he
  rcases List.mem_append.1 he with he | he
  · exact Nat.lt_succ_of_lt (h e he)
  · rw [List.mem_singleton.1 he]
    exact Nat.lt_succ_self _

theorem NumbersBelow.compact (h : s.NumbersBelow) (revision : Nat) :
    (s.compact revision).NumbersBelow := by
  unfold Store.compact
  dsimp only
  split
  · exact h
  · exact h

theorem NumbersBelow.release (h : s.NumbersBelow) (id : Nat) : (s.release id).NumbersBelow :=
  fun e he => h e (List.mem_filter.1 he).1

theorem NumbersBelow.receive (h : s.NumbersBelow) (id : Nat) : (s.receive id).2.NumbersBelow := by
  unfold Store.receive
  split
  · exact h
  · intro e he
    obtain ⟨x, hx, rfl⟩ := List.mem_map.1 he
    have hlt := h x hx
    split
    · next heq => exact heq ▸ hlt
    · exact hlt

/-! ## Keeping a subscription -/

theorem queuedEvents_replay (s : Store) (keyPrefix : String) (start : Nat) :
    queuedEvents (s.replay keyPrefix start) =
      s.history.filter fun e => start ≤ e.revision && e.isUnder keyPrefix := by
  unfold replay Event.isUnder
  split
  · next hnil => rw [hnil]; rfl
  · simp [queuedEvents]

/-- A watch from the next revision on carries what follows, whether it is open or came too late. -/
theorem Follows.carries_watchStream (h : s.Follows log) :
    (s.watchStream keyPrefix (revision + 1)).Carries log keyPrefix revision := by
  unfold watchStream
  dsimp only
  rw [if_neg (Nat.succ_ne_zero _)]
  split
  · exact ⟨rfl, [], log, rfl, rfl, by simp⟩
  · next hfloor =>
    refine ⟨rfl, log, [], by simp, ?_, fun _ => rfl⟩
    rw [queuedEvents_replay, h.history_eq, List.filter_filter]
    unfold eventsAfter
    refine List.filter_congr fun e _ => ?_
    rw [Bool.and_right_comm, ← Bool.decide_and]
    congr 1
    exact decide_eq_decide.2 (by omega)

/-- A watch from the next revision on is a new subscription that carries the log. -/
theorem Carries.of_watch (h : s.Follows log) (hn : s.NumbersBelow) :
    (s.addStream (s.watchStream keyPrefix (revision + 1))).Carries s.nextStream log keyPrefix
      revision := by
  refine ⟨_, ?_, h.carries_watchStream⟩
  rw [stream?_addStream hn, if_pos rfl]

variable {id : Nat}

theorem Carries.lt_nextStream (h : s.Carries id log keyPrefix revision) (hn : s.NumbersBelow) :
    id < s.nextStream := by
  obtain ⟨stream, hs, -⟩ := h
  exact hn.lt_nextStream hs

theorem Carries.of_stream?_eq (h : s.Carries id log keyPrefix revision) {s' : Store}
    (heq : s'.stream? id = s.stream? id) : s'.Carries id log keyPrefix revision := by
  obtain ⟨stream, hs, hc⟩ := h
  exact ⟨stream, heq.trans hs, hc⟩

theorem Carries.recorded (h : s.Carries id log keyPrefix revision) (hle : revision ≤ s.revision)
    (key : String) (change : Change) :
    (s.recorded key change).Carries id (log ++ [⟨key, change, s.revision + 1⟩]) keyPrefix
      revision := by
  obtain ⟨stream, hs, hc⟩ := h
  refine ⟨stream.offer ⟨key, change, s.revision + 1⟩, ?_, hc.offer (Nat.lt_succ_of_le hle)⟩
  rw [stream?_recorded, hs]
  rfl

theorem Carries.disconnect (h : s.Carries id log keyPrefix revision) (cause : Outage) :
    (s.disconnect cause).Carries id log keyPrefix revision := by
  obtain ⟨stream, hs, hc⟩ := h
  refine ⟨stream.fail (.storeUnavailable cause), ?_, hc.fail _⟩
  unfold Store.disconnect
  rw [stream?_mapStreams, hs]
  rfl

theorem Carries.compact (h : s.Carries id log keyPrefix revision) (at' : Nat) :
    (s.compact at').Carries id log keyPrefix revision :=
  h.of_stream?_eq (s.stream?_compact at' id)

/-- With every operation goes what the subscriptions carry. -/
theorem Carries.run (h : s.Carries id log keyPrefix revision) (hle : revision ≤ s.revision)
    (step : StoreStep) :
    (s.run step).2.Carries id (log ++ (s.mutation? step).toList) keyPrefix revision := by
  rcases s.run_cases step with ⟨hs, hm, -⟩ | ⟨key, change, -, -, hs, hm, -⟩ | ⟨at', hs, hm, -⟩ |
    ⟨a, b, hs, hm, -⟩ | ⟨a, b, cause, hs, hm, -⟩
  · rw [hs, hm, Option.toList_none, List.append_nil]
    exact h
  · rw [hs, hm]
    exact h.recorded hle key change
  · rw [hs, hm, Option.toList_none, List.append_nil]
    exact h.compact at'
  · rw [hs, hm, Option.toList_none, List.append_nil]
    exact h.of_stream?_eq rfl
  · rw [hs, hm, Option.toList_none, List.append_nil]
    exact (h.of_stream?_eq rfl).disconnect cause

theorem NumbersBelow.run (h : s.NumbersBelow) (step : StoreStep) :
    (s.run step).2.NumbersBelow := by
  rcases s.run_cases step with ⟨hs, -⟩ | ⟨key, change, -, -, hs, -⟩ | ⟨revision, hs, -⟩ |
    ⟨a, b, hs, -⟩ | ⟨a, b, cause, hs, -⟩
  · rw [hs]
    exact h
  · rw [hs]
    exact h.of_map (·.offer ⟨key, change, s.revision + 1⟩) (streams_recorded s key change)
      (nextStream_recorded s key change)
  · rw [hs]
    exact h.compact revision
  · rw [hs]
    exact h
  · rw [hs]
    exact h.of_map (·.fail (.storeUnavailable cause)) rfl rfl

end Store

end GatewayStore
