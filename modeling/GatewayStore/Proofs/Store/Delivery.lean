import GatewayStore.Proofs.Store.Moves

/-
  What a watch delivers. The changes of a run are read off its operations (`Store.changes`), and a
  watcher's items are those that it took and those still queued for it (`Store.delivered`). A move
  does to them what `Yields.act` says: an open stream gets the change that the move makes or the
  failure by which it ends, and an ended one gets nothing. Hence an unbroken stream has the log from
  its start on (`watch_delivers`).
-/

namespace GatewayStore

namespace Store

/-- What the watcher of a stream takes by a move. -/
def taken? (id : Nat) (s : Store) : StoreMove → Option Delivery
  | .take other => if other = id then (s.receive id).1 else none
  | .operate _ | .subscribe _ _ | .abandon _ => none

/-- The items that the watcher of a stream takes in a run, and those that are queued for it then. -/
def delivered (s : Store) (id : Nat) (moves : List StoreMove) : List Delivery :=
  collect (taken? id) s moves ++ (((s.actAll moves).stream? id).map Stream.queue).getD []

/-- What a move puts on every open stream under a prefix. -/
def sent (s : Store) (keyPrefix : String) (m : StoreMove) : List Delivery :=
  match m.outage? with
  | some cause => [.failed (.storeUnavailable cause)]
  | none => ((s.change? m).filter (Event.isUnder keyPrefix)).toList.map fun e => .batch [e]

theorem collect_append {α : Type} (give : Store → StoreMove → Option α) (s : Store)
    (moves more : List StoreMove) :
    collect give s (moves ++ more) = collect give s moves ++ collect give (s.actAll moves) more := by
  induction moves generalizing s with
  | nil => rfl
  | cons m moves ih =>
    simp only [List.cons_append, collect, ih, List.append_assoc]
    rfl

/-! ## The items of a watcher -/

/-- A stream under a prefix is open or not, and the items of its watcher are those that it took and
those still queued. -/
def Yields (s : Store) (id : Nat) (taken : List Delivery) (keyPrefix : String) (isOpen : Bool)
    (items : List Delivery) : Prop :=
  ∃ stream, s.stream? id = some stream ∧ stream.keyPrefix = keyPrefix ∧ stream.isOpen = isOpen ∧
    taken ++ stream.queue = items

variable {s : Store} {m : StoreMove} {id : Nat} {log : List Event} {taken items : List Delivery}
  {keyPrefix : String} {isOpen : Bool}

theorem Yields.of_stream?_eq (h : s.Yields id taken keyPrefix isOpen items) {s' : Store}
    (heq : s'.stream? id = s.stream? id) : s'.Yields id taken keyPrefix isOpen items := by
  obtain ⟨stream, hs, hrest⟩ := h
  exact ⟨stream, heq.trans hs, hrest⟩

/-- An operation appends its change to an open stream of the prefix, or the failure that ends it. -/
theorem Yields.run (h : s.Yields id taken keyPrefix isOpen items) (step : StoreStep) :
    (s.run step).2.Yields id taken keyPrefix (isOpen && step.outage?.isNone)
      (items ++ if isOpen then s.sent keyPrefix (.operate step) else []) := by
  have still {s' : Store} (heq : s'.stream? id = s.stream? id) (hm : s.mutation? step = none)
      (ho : step.outage? = none) : s'.Yields id taken keyPrefix (isOpen && step.outage?.isNone)
        (items ++ if isOpen then s.sent keyPrefix (.operate step) else []) := by
    have hsent : s.sent keyPrefix (.operate step) = [] := by
      simp [sent, StoreMove.outage?, change?, ho, hm]
    rw [ho, hsent, ite_self, List.append_nil, Option.isNone_none, Bool.and_true]
    exact h.of_stream?_eq heq
  rcases s.run_cases step with ⟨hs, hm, ho⟩ | ⟨key, change, -, -, hs, hm, ho⟩ |
    ⟨revision, hs, hm, ho⟩ | ⟨a, b, hs, hm, ho, -⟩ | ⟨a, b, cause, hs, hm, ho, -⟩
  · rw [hs]
    exact still rfl hm ho
  · obtain ⟨stream, hstream, rfl, rfl, rfl⟩ := h
    have hoffered := s.stream?_recorded key change id
    rw [hstream] at hoffered
    rw [hs]
    refine ⟨_, hoffered, by simp, by simp [ho], ?_⟩
    rw [Stream.queue_offer]
    cases stream.isOpen <;> cases hp : Text.startsWith stream.keyPrefix key <;>
      simp [sent, StoreMove.outage?, change?, ho, hm, Option.filter, Event.isUnder, hp]
  · rw [hs]
    exact still (s.stream?_compact revision id) hm ho
  · rw [hs]
    exact still rfl hm ho
  · obtain ⟨stream, hstream, rfl, rfl, rfl⟩ := h
    have hfailed : (s.run step).2.stream? id = some (stream.fail (.storeUnavailable cause)) := by
      rw [hs]
      refine (stream?_mapStreams _ _ id).trans ?_
      exact congrArg (Option.map fun t : Stream => t.fail (.storeUnavailable cause)) hstream
    refine ⟨_, hfailed, by simp, by simp [ho], ?_⟩
    rw [Stream.queue_fail]
    simp [sent, StoreMove.outage?, ho]

/-- The watcher's own taking moves an item from the queue to those taken, and other watchers do not
matter. -/
theorem Yields.act (h : s.Yields id taken keyPrefix isOpen items) (hn : s.NumbersBelow)
    (hm : m ≠ .abandon id) :
    (s.act m).Yields id (taken ++ (s.taken? id m).toList) keyPrefix (isOpen && m.outage?.isNone)
      (items ++ if isOpen then s.sent keyPrefix m else []) := by
  cases hoperation : m.isOperation with
  | true =>
    cases m with
    | operate step =>
      rw [taken?, Option.toList_none, List.append_nil]
      exact h.run step
    | _ => cases hoperation
  | false =>
    have hsent : s.sent keyPrefix m = [] := by
      simp [sent, outage?_eq_none hoperation, s.change?_eq_none hoperation]
    rw [outage?_eq_none hoperation, hsent, ite_self, List.append_nil, Option.isNone_none,
      Bool.and_true]
    by_cases hreader : m.reader? = some id
    · cases m with
      | take other =>
        cases hreader
        obtain ⟨stream, hstream, rfl, rfl, rfl⟩ := h
        refine ⟨stream.receive.2, ?_, ?_⟩
        · rw [Store.act, stream?_receive, hstream]
          simp
        · rw [taken?, if_pos rfl, receive_fst, hstream]
          unfold Stream.receive
          cases hq : stream.queue <;> simp [hq]
      | abandon other => exact absurd (congrArg StoreMove.abandon (Option.some.inj hreader)) hm
      | _ => cases hreader
    · have hnothing : s.taken? id m = none := by
        cases m with
        | take other => exact if_neg fun he => hreader (congrArg some he)
        | _ => rfl
      rw [hnothing, Option.toList_none, List.append_nil]
      have hid : id < s.nextStream := by
        obtain ⟨stream, hstream, -⟩ := h
        exact hn.lt_nextStream hstream
      exact h.of_stream?_eq (stream?_act hn hoperation hreader hid)

/-! ## Runs -/

variable {moves : List StoreMove}

/-- As long as nothing breaks the streams, an open one gets every change under its prefix. -/
theorem Yields.quiet (h : s.Yields id taken keyPrefix true items) (hn : s.NumbersBelow)
    (hstays : ∀ m ∈ moves, m ≠ .abandon id) (hquiet : ∀ m ∈ moves, m.outage? = none) :
    (s.actAll moves).Yields id (taken ++ collect (taken? id) s moves) keyPrefix true
      (items ++ ((s.changes moves).filter (Event.isUnder keyPrefix)).map fun e => .batch [e]) := by
  induction moves generalizing s taken items with
  | nil => simpa [collect, changes, actAll] using h
  | cons m moves ih =>
    have ho := hquiet m List.mem_cons_self
    have hfirst := h.act hn (hstays m List.mem_cons_self)
    rw [ho, if_pos rfl] at hfirst
    have hrest := ih hfirst (hn.act m) (fun m hm => hstays m (List.mem_cons_of_mem _ hm))
      fun m hm => hquiet m (List.mem_cons_of_mem _ hm)
    have hsent : s.sent keyPrefix m =
        ((s.change? m).toList.filter (Event.isUnder keyPrefix)).map fun e => .batch [e] := by
      rw [sent, ho]
      cases s.change? m with
      | none => rfl
      | some e => cases he : Event.isUnder keyPrefix e <;> simp [Option.filter, he]
    rw [hsent, List.append_assoc, List.append_assoc, ← List.map_append, ← List.filter_append] at hrest
    exact hrest

/-- Nothing comes after the end of a stream. -/
theorem Yields.ended (h : s.Yields id taken keyPrefix false items) (hn : s.NumbersBelow)
    (hstays : ∀ m ∈ moves, m ≠ .abandon id) :
    (s.actAll moves).Yields id (taken ++ collect (taken? id) s moves) keyPrefix false items := by
  induction moves generalizing s taken with
  | nil => simpa [collect, actAll] using h
  | cons m moves ih =>
    have hfirst := h.act hn (hstays m List.mem_cons_self)
    rw [Bool.false_and, if_neg (by decide), List.append_nil] at hfirst
    have hrest := ih hfirst (hn.act m) fun m hm => hstays m (List.mem_cons_of_mem _ hm)
    rw [List.append_assoc] at hrest
    exact hrest

/-- A move that breaks the streams ends an open one with a failure, whatever comes then. -/
theorem Yields.broken (h : s.Yields id taken keyPrefix true items) (hn : s.NumbersBelow)
    {cause : Outage} (hm : m.outage? = some cause) (hstays : ∀ m ∈ moves, m ≠ .abandon id) :
    (s.actAll (m :: moves)).Yields id (taken ++ collect (taken? id) s (m :: moves)) keyPrefix false
      (items ++ [.failed (.storeUnavailable cause)]) := by
  have hkeeps : m ≠ .abandon id := by
    rintro rfl
    cases hm
  have hends := h.act hn hkeeps
  have hsent : s.sent keyPrefix m = [.failed (.storeUnavailable cause)] := by rw [sent, hm]
  rw [hm, if_pos rfl, hsent] at hends
  have hrest := Yields.ended hends (hn.act m) hstays
  rw [List.append_assoc] at hrest
  exact hrest

/-- The stream with a number is open or not. -/
def IsStream (s : Store) (id : Nat) (isOpen : Bool) : Prop :=
  (s.stream? id).map Stream.isOpen = some isOpen

theorem Yields.delivered_eq
    (h : (s.actAll moves).Yields id (collect (taken? id) s moves) keyPrefix isOpen items) :
    s.delivered id moves = items ∧ (s.actAll moves).IsStream id isOpen := by
  obtain ⟨stream, hstream, -, hopen, hitems⟩ := h
  rw [delivered, IsStream, hstream, Option.map_some, Option.getD_some, Option.map_some, hopen]
  exact ⟨hitems, rfl⟩

/-! ## Watches -/

variable {start first : Nat}

theorem Yields.of_watch (hn : s.NumbersBelow) (keyPrefix : String) (start : Nat) :
    (s.addStream (s.watchStream keyPrefix start)).Yields s.nextStream [] keyPrefix
      (s.watchStream keyPrefix start).isOpen (s.watchStream keyPrefix start).queue := by
  refine ⟨_, (stream?_addStream hn _ _).trans (if_pos rfl), ?_, rfl, List.nil_append _⟩
  unfold watchStream
  dsimp only
  rw [apply_ite Stream.keyPrefix, ite_self]

theorem watchStream_compacted (s : Store) (keyPrefix : String) (hpos : 0 < start)
    (hfloor : start < s.floor) : s.watchStream keyPrefix start =
      ⟨keyPrefix, [.failed (.streamCompacted start s.floor)], false⟩ := by
  simp [watchStream, Nat.ne_of_gt hpos, hfloor]

theorem watchStream_live (s : Store) (keyPrefix : String)
    (hfirst : first = if start = 0 then s.revision + 1 else start) (hfloor : s.floor ≤ first) :
    s.watchStream keyPrefix start = ⟨keyPrefix, s.replay keyPrefix first, true⟩ := by
  unfold watchStream
  dsimp only
  rw [← hfirst, if_neg (Nat.not_lt.2 hfloor)]

/-- The stream of a watch that does not come too late is open, with what is replayed. -/
theorem Yields.of_live (hn : s.NumbersBelow) (keyPrefix : String)
    (hfirst : first = if start = 0 then s.revision + 1 else start) (hfloor : s.floor ≤ first) :
    (s.addStream (s.watchStream keyPrefix start)).Yields s.nextStream [] keyPrefix true
      (s.replay keyPrefix first) := by
  have hyields := Yields.of_watch hn keyPrefix start
  rw [s.watchStream_live keyPrefix hfirst hfloor] at hyields ⊢
  exact hyields

/-- What is replayed and what is sent later are together the log from a revision on, where the next
revision is the latest to start from. -/
theorem Follows.queuedEvents_live (h : s.Follows log) {s' : Store} {added : List Event}
    (h' : s'.Follows (log ++ added)) (hfloor : s.floor ≤ first) (hnext : first ≤ s.revision + 1) :
    queuedEvents (s.replay keyPrefix first ++
        (added.filter (Event.isUnder keyPrefix)).map fun e => .batch [e]) =
      (log ++ added).filter fun e => first ≤ e.revision && e.isUnder keyPrefix := by
  have hpast : (s.history.filter fun e => first ≤ e.revision && e.isUnder keyPrefix) =
      log.filter fun e => first ≤ e.revision && e.isUnder keyPrefix := by
    rw [h.history_eq, List.filter_filter]
    refine List.filter_congr fun e _ => ?_
    rw [Bool.and_right_comm, ← Bool.decide_and]
    congr 1
    exact decide_eq_decide.2 (by omega)
  have hlater : added.filter (Event.isUnder keyPrefix) =
      added.filter fun e => first ≤ e.revision && e.isUnder keyPrefix := by
    refine List.filter_congr fun e he => ?_
    have hlt := h.revision_lt h' he
    rw [decide_eq_true (by omega), Bool.true_and]
  rw [queuedEvents_append, queuedEvents_replay, queuedEvents_map_batch, hpast, hlater,
    List.filter_append]

theorem not_failed_replay (s : Store) (keyPrefix : String) (first : Nat) (cause : Failure) :
    .failed cause ∉ s.replay keyPrefix first := by
  unfold replay
  split <;> simp

/-- A watch delivers the log. Its stream starts at a revision from the floor up to the next one. As
long as nothing breaks the streams, the events that its watcher took and those still queued are all
changes of the store from that revision on under the prefix, in order, also those that were compacted
meanwhile; and the first move that breaks the streams adds one failure, after which nothing comes. A
watch that starts below the floor has only the failure that says so. -/
theorem watch_delivers (retention : Nat) (before : List StoreMove) (keyPrefix : String) (start : Nat)
    {opened : Store}
    (hopened : ((withRetention retention).actAll before).watch keyPrefix start = .ok opened) :
    let s := (withRetention retention).actAll before
    let id := s.nextStream
    let first := if start = 0 then s.revision + 1 else start
    (start = 0 ∨ s.floor ≤ start ∧ start ≤ s.revision + 1 →
      ∀ quiet, (∀ m ∈ quiet, m ≠ .abandon id) → (∀ m ∈ quiet, m.outage? = none) →
        let due := ((withRetention retention).changes before ++ opened.changes quiet).filter
          fun e => first ≤ e.revision && e.isUnder keyPrefix
        (queuedEvents (opened.delivered id quiet) = due ∧ Ascending due ∧
          (∀ cause, .failed cause ∉ opened.delivered id quiet) ∧
          (opened.actAll quiet).IsStream id true) ∧
        ∀ m cause rest, m.outage? = some cause → (∀ m ∈ rest, m ≠ .abandon id) →
          opened.delivered id (quiet ++ m :: rest) =
              opened.delivered id quiet ++ [.failed (.storeUnavailable cause)] ∧
            (opened.actAll (quiet ++ m :: rest)).IsStream id false) ∧
    (0 < start → start < s.floor → ∀ rest, (∀ m ∈ rest, m ≠ .abandon id) →
      opened.delivered id rest = [.failed (.streamCompacted start s.floor)] ∧
        (opened.actAll rest).IsStream id false) := by
  intro s id first
  have hs : s.Follows ((withRetention retention).changes before) :=
    (follows_withRetention retention).actAll before
  have hn : s.NumbersBelow := (numbersBelow_withRetention retention).actAll before
  obtain ⟨-, -, rfl⟩ := watch_eq_ok.1 hopened
  have hn' : (s.addStream (s.watchStream keyPrefix start)).NumbersBelow := hn.addStream _
  have hyields := Yields.of_watch hn keyPrefix start
  constructor
  · intro hstart
    have hbounds : s.floor ≤ first ∧ first ≤ s.revision + 1 := by
      have hle := hs.floor_le
      change s.floor ≤ (if start = 0 then s.revision + 1 else start) ∧
        (if start = 0 then s.revision + 1 else start) ≤ s.revision + 1
      split <;> omega
    rw [s.watchStream_live keyPrefix rfl hbounds.1] at hyields hn' ⊢
    intro quiet hstays hquiet due
    have hend := (hs.addStream ⟨keyPrefix, s.replay keyPrefix first, true⟩).actAll quiet
    have hlive := Yields.quiet hyields hn' hstays hquiet
    obtain ⟨hitems, hopen⟩ := hlive.delivered_eq
    constructor
    · rw [hitems]
      refine ⟨hs.queuedEvents_live hend hbounds.1 hbounds.2, hend.ascending.filter _, ?_, hopen⟩
      intro cause hmem
      rcases List.mem_append.1 hmem with hmem | hmem
      · exact s.not_failed_replay keyPrefix first cause hmem
      · simp at hmem
    · intro m cause rest hm hrest
      have hbroken := hlive.broken (hn'.actAll quiet) hm hrest
      rw [List.nil_append, ← collect_append, ← actAll_append] at hbroken
      rw [hitems]
      exact hbroken.delivered_eq
  · intro hpos hfloor rest hrest
    rw [s.watchStream_compacted keyPrefix hpos hfloor] at hyields hn' ⊢
    exact (Yields.ended hyields hn' hrest).delivered_eq

/-- Three changes of which the history keeps two. -/
def prunedRun : List StoreMove :=
  [.operate (.put "/p/a" [1] none), .operate (.put "/q/a" [2] none), .operate (.put "/p/b" [3] none)]

/-- More changes, one of them refused, that are compacted away before the watcher takes the second
item; another watcher comes, takes an item and goes. -/
def pendingRun : List StoreMove :=
  [.operate (.put "/p/a" [4] (some .present)), .take 0, .subscribe "/" 0, .operate (.delete "/p/b"),
    .operate (.put "/p/a" [5] (some .absent)), .take 1, .abandon 1, .operate (.put "/q/b" [6] none),
    .operate (.compact 7), .take 0]

theorem watch_delivers_pruned :
    let s := (withRetention 2).actAll prunedRun
    let opened := s.addStream (s.watchStream "/p/" 2)
    let late := s.addStream (s.watchStream "/p/" 1)
    queuedEvents (opened.delivered 0 pendingRun) =
        [⟨"/p/b", .put [3], 3⟩, ⟨"/p/a", .put [4], 4⟩, ⟨"/p/b", .delete, 5⟩] ∧
      opened.delivered 0 (pendingRun ++ [.operate .close, .operate (.put "/p/c" [7] none)]) =
        opened.delivered 0 pendingRun ++ [.failed (.storeUnavailable .storeClosed)] ∧
      late.delivered 0 pendingRun = [.failed (.streamCompacted 1 2)] := by
  intro s opened late
  have hfloor : s.floor = 2 := by decide +kernel
  have hrevision : s.revision = 3 := by decide +kernel
  obtain ⟨hlive, -⟩ := watch_delivers 2 prunedRun "/p/" 2 (rfl : s.watch "/p/" 2 = .ok opened)
  obtain ⟨⟨hdue, -⟩, hbroken⟩ :=
    hlive (.inr ⟨Nat.le_of_eq hfloor, by rw [hrevision]; decide⟩) pendingRun
    (by decide +kernel) (by decide +kernel)
  obtain ⟨-, hcompacted⟩ := watch_delivers 2 prunedRun "/p/" 1 (rfl : s.watch "/p/" 1 = .ok late)
  refine ⟨hdue.trans (by decide +kernel), ?_, ?_⟩
  · exact (hbroken (.operate .close) .storeClosed [.operate (.put "/p/c" [7] none)] rfl
      (by decide +kernel)).1
  · have hlate := hcompacted (by decide) (by rw [hfloor]; decide) pendingRun (by decide +kernel)
    rw [hfloor] at hlate
    exact hlate.1

end Store

end GatewayStore
