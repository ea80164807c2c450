import GatewayStore.Proofs.Store.Subscription

/-
  What can happen to a store. Anyone operates on it, and watchers come, take items and go. A move
  lengthens the log by the change that it makes (`Follows.act`), leaves every stream alone that is not
  its own (`stream?_act`), and keeps the streams of a store closed that is offline
  (`OfflineClosed.act`).
-/

namespace GatewayStore

/-- What can happen to a store and its watchers. -/
inductive StoreMove where
  /-- anyone's operation on the store -/
  | operate (step : StoreStep)
  /-- a watcher opens a stream -/
  | subscribe (keyPrefix : String) (start : Nat)
  /-- the watcher of a stream takes an item -/
  | take (id : Nat)
  /-- the watcher of a stream goes away -/
  | abandon (id : Nat)
deriving DecidableEq

/-- The failure with which a move ends every open stream, if it does. -/
def StoreMove.outage? : StoreMove → Option Outage
  | .operate step => step.outage?
  | .subscribe _ _ | .take _ | .abandon _ => none

/-- Whether a move is an operation on the store, and not one of a watcher. -/
def StoreMove.isOperation : StoreMove → Bool
  | .operate _ => true
  | .subscribe _ _ | .take _ | .abandon _ => false

/-- The stream from which a move takes or which it leaves. -/
def StoreMove.reader? : StoreMove → Option Nat
  | .take id | .abandon id => some id
  | .operate _ | .subscribe _ _ => none

namespace Store

/-- The store after a move. -/
def act (s : Store) : StoreMove → Store
  | .operate step => (s.run step).2
  | .subscribe keyPrefix start => s.served (.watch keyPrefix start)
  | .take id => (s.receive id).2
  | .abandon id => s.release id

/-- The store after some moves. -/
def actAll (s : Store) (moves : List StoreMove) : Store := moves.foldl act s

/-- The change that a move makes. -/
def change? (s : Store) : StoreMove → Option Event
  | .operate step => s.mutation? step
  | .subscribe _ _ | .take _ | .abandon _ => none

/-- What the moves of a run give, each to the store before it. -/
def collect {α : Type} (give : Store → StoreMove → Option α) (s : Store) : List StoreMove → List α
  | [] => []
  | m :: rest => (give s m).toList ++ collect give (s.act m) rest

/-- The changes of a run. -/
def changes (s : Store) (moves : List StoreMove) : List Event := collect change? s moves

theorem actAll_append (s : Store) (moves more : List StoreMove) :
    s.actAll (moves ++ more) = (s.actAll moves).actAll more := List.foldl_append

/-! ## Moves -/

variable {s : Store} {log : List Event} {m : StoreMove} {id : Nat} {keyPrefix : String}

theorem change?_eq_none (s : Store) (h : m.isOperation = false) : s.change? m = none := by
  cases m with
  | operate step => cases h
  | _ => rfl

theorem outage?_eq_none (h : m.isOperation = false) : m.outage? = none := by
  cases m with
  | operate step => cases h
  | _ => rfl

/-- What a watcher does concerns no other stream. -/
theorem stream?_act (hn : s.NumbersBelow) (hm : m.isOperation = false) (hreader : m.reader? ≠ some id)
    (hid : id < s.nextStream) : (s.act m).stream? id = s.stream? id := by
  cases m with
  | operate step => cases hm
  | subscribe other start =>
    rw [act]
    rcases s.served_watch other start with hs | ⟨-, hs⟩
    · rw [hs]
    · rw [hs, stream?_addStream hn, if_neg (Nat.ne_of_lt hid)]
  | take other =>
    have hne : id ≠ other := fun he => hreader (congrArg some he.symm)
    rw [act, stream?_receive]
    simp [hne]
  | abandon other =>
    have hne : id ≠ other := fun he => hreader (congrArg some he.symm)
    exact s.stream?_release hne

theorem Follows.act (h : s.Follows log) (m : StoreMove) :
    (s.act m).Follows (log ++ (s.change? m).toList) := by
  cases m with
  | operate step => exact h.run step
  | subscribe keyPrefix start =>
    rw [change?, Option.toList_none, List.append_nil, Store.act]
    rcases s.served_watch keyPrefix start with hs | ⟨-, hs⟩
    · rw [hs]
      exact h
    · rw [hs]
      exact h.addStream _
  | take id =>
    rw [change?, Option.toList_none, List.append_nil]
    exact h.receive id
  | abandon id =>
    rw [change?, Option.toList_none, List.append_nil]
    exact h.release id

theorem NumbersBelow.act (h : s.NumbersBelow) (m : StoreMove) : (s.act m).NumbersBelow := by
  cases m with
  | operate step => exact h.run step
  | subscribe keyPrefix start =>
    rw [Store.act]
    rcases s.served_watch keyPrefix start with hs | ⟨-, hs⟩
    · rw [hs]
      exact h
    · rw [hs]
      exact h.addStream _
  | take id => exact h.receive id
  | abandon id => exact h.release id

/-- A stream carries the log on as long as nobody else reads it. -/
theorem Carries.act {revision : Nat} (h : s.Carries id log keyPrefix revision) (hn : s.NumbersBelow)
    (hle : revision ≤ s.revision) (hreader : m.reader? ≠ some id) :
    (s.act m).Carries id (log ++ (s.change? m).toList) keyPrefix revision := by
  cases hm : m.isOperation with
  | false =>
    rw [s.change?_eq_none hm, Option.toList_none, List.append_nil]
    exact h.of_stream?_eq (stream?_act hn hm hreader (h.lt_nextStream hn))
  | true =>
    cases m with
    | operate step => exact h.run hle step
    | _ => cases hm

/-- While the store is offline, no stream is open. -/
def OfflineClosed (s : Store) : Prop :=
  s.isOffline = true → ∀ id stream, s.stream? id = some stream → stream.isOpen = false

theorem offlineClosed_withRetention (retention : Nat) : (withRetention retention).OfflineClosed := by
  intro h
  cases h

theorem OfflineClosed.of_map (h : s.OfflineClosed) {s' : Store} {f : Stream → Stream}
    (hoffline : s'.isOffline = true → s.isOffline = true)
    (hstream : ∀ id, s'.stream? id = (s.stream? id).map f)
    (hf : ∀ stream, (f stream).isOpen = stream.isOpen) :
    s'.OfflineClosed := by
  intro hoff id stream hs
  rw [hstream] at hs
  obtain ⟨old, hold, rfl⟩ := Option.map_eq_some_iff.1 hs
  rw [hf]
  exact h (hoffline hoff) id old hold

theorem OfflineClosed.run (h : s.OfflineClosed) (step : StoreStep) :
    (s.run step).2.OfflineClosed := by
  rcases s.run_cases step with ⟨hs, -⟩ | ⟨key, change, -, -, hs, -⟩ | ⟨revision, hs, -⟩ |
    ⟨a, b, hs, -, -, ha⟩ | ⟨a, b, cause, hs, -⟩
  · rw [hs]
    exact h
  · rw [hs]
    exact h.of_map (by rw [isOffline_recorded]; exact fun h => h) (s.stream?_recorded key change)
      fun stream => stream.isOpen_offer _
  · rw [hs]
    exact h.of_map (f := fun stream => stream) (by rw [isOffline_compact]; exact fun h => h)
      (fun id => by rw [stream?_compact, Option.map_id']) fun _ => rfl
  · rw [hs]
    exact fun hoff => h (ha hoff)
  · rw [hs]
    intro _ id stream hstream
    rw [disconnect, stream?_mapStreams] at hstream
    obtain ⟨old, -, rfl⟩ := Option.map_eq_some_iff.1 hstream
    rfl

theorem OfflineClosed.act (h : s.OfflineClosed) (m : StoreMove) : (s.act m).OfflineClosed := by
  cases m with
  | operate step => exact h.run step
  | subscribe keyPrefix start =>
    rw [Store.act]
    rcases s.served_watch keyPrefix start with hs | ⟨honline, hs⟩
    · rw [hs]
      exact h
    · rw [hs]
      intro hoff
      cases honline.symm.trans hoff
  | take id =>
    have hoffline : (s.receive id).2.isOffline = s.isOffline := by
      unfold receive
      split <;> rfl
    intro hoff other stream hs
    rw [Store.act, stream?_receive] at hs
    obtain ⟨old, hold, rfl⟩ := Option.map_eq_some_iff.1 hs
    have hclosed := h (hoffline.symm.trans hoff) other old hold
    split
    · rw [← hclosed]
      unfold Stream.receive
      split <;> rfl
    · exact hclosed
  | abandon id =>
    intro hoff other stream hs
    by_cases hother : other = id
    · have hnone : (s.release id).stream? id = none := by
        refine List.lookup_eq_none_iff.2 fun e he => ?_
        have hne : e.1 ≠ id := of_decide_eq_true (List.mem_filter.1 he).2
        simpa using hne.symm
      rw [Store.act, hother, hnone] at hs
      cases hs
    · rw [Store.act, s.stream?_release hother] at hs
      exact h hoff other stream hs

/-- Only an outage takes a store offline. -/
theorem isOffline_act (h : (s.act m).isOffline = true) :
    s.isOffline = true ∨ m = .operate (.setAvailable false) := by
  cases m with
  | operate step =>
    rw [act] at h
    rcases s.run_cases step with ⟨hs, -⟩ | ⟨key, change, -, -, hs, -⟩ | ⟨revision, hs, -⟩ |
      ⟨a, b, hs, -, -, ha⟩ | ⟨a, b, cause, hs, -, -, ha⟩
    · rw [hs] at h
      exact .inl h
    · rw [hs, isOffline_recorded] at h
      exact .inl h
    · rw [hs, isOffline_compact] at h
      exact .inl h
    · rw [hs] at h
      exact .inl (ha h)
    · rw [hs] at h
      exact (ha h).imp_right (congrArg _)
  | subscribe keyPrefix start =>
    rw [act] at h
    rcases s.served_watch keyPrefix start with hs | ⟨-, hs⟩
    · rw [hs] at h
      exact .inl h
    · rw [hs] at h
      exact .inl h
  | take id =>
    left
    rw [← h, act]
    unfold receive
    split <;> rfl
  | abandon id => exact .inl h

theorem isOffline_actAll {moves : List StoreMove} (h : (s.actAll moves).isOffline = true) :
    s.isOffline = true ∨ .operate (.setAvailable false) ∈ moves := by
  induction moves generalizing s with
  | nil => exact .inl h
  | cons m moves ih =>
    rcases ih h with h | h
    · refine (isOffline_act h).imp_right fun hm => ?_
      rw [hm]
      exact List.mem_cons_self
    · exact .inr (List.mem_cons_of_mem _ h)

theorem Follows.actAll (h : s.Follows log) (moves : List StoreMove) :
    (s.actAll moves).Follows (log ++ s.changes moves) := by
  induction moves generalizing s log with
  | nil =>
    rw [changes, collect, List.append_nil]
    exact h
  | cons m moves ih =>
    have hrest := ih (h.act m)
    rw [List.append_assoc] at hrest
    exact hrest

/-- Watchers change nothing. -/
theorem changes_eq_nil (s : Store) {moves : List StoreMove} (h : ∀ m ∈ moves, m.isOperation = false) :
    s.changes moves = [] := by
  induction moves generalizing s with
  | nil => rfl
  | cons m moves ih =>
    rw [changes, collect, s.change?_eq_none (h m List.mem_cons_self)]
    exact ih (s.act m) fun m hm => h m (List.mem_cons_of_mem _ hm)

theorem OfflineClosed.actAll (h : s.OfflineClosed) (moves : List StoreMove) :
    (s.actAll moves).OfflineClosed := by
  induction moves generalizing s with
  | nil => exact h
  | cons m moves ih => exact ih (h.act m)

theorem NumbersBelow.actAll (h : s.NumbersBelow) (moves : List StoreMove) :
    (s.actAll moves).NumbersBelow := by
  induction moves generalizing s with
  | nil => exact h
  | cons m moves ih => exact ih (h.act m)

end Store

end GatewayStore
