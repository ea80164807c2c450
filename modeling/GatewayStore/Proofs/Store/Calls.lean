import GatewayStore.Proofs.Store.History
import GatewayStore.Store.Step

/-
  What calls and operations come to. A call that fails leaves the store as it was, though it runs step by
  step (`call_eq`). So every operation is one of three things: a change that is recorded, a compaction,
  or what concerns streams and outages alone (`run_cases`).
-/

namespace GatewayStore

/-- The key that an operation writes or removes. -/
def StoreStep.written? : StoreStep → Option String
  | .put key _ _ | .delete key => some key
  | _ => none

/-- The failure with which an operation ends every open stream, if it does. -/
def StoreStep.outage? : StoreStep → Option Outage
  | .setAvailable false => some .wentOffline
  | .setWatchAvailable false => some .watchWentOffline
  | .disconnect => some .streamReset
  | .close => some .storeClosed
  | _ => none

namespace Store

/-! ## Operations -/

/-- The store after one more change of a key. -/
def recorded (s : Store) (key : String) (change : Change) : Store :=
  let e : Event := ⟨key, change, s.revision + 1⟩
  { s with revision := s.revision + 1, index := e.applyTo s.index }.record e

theorem written_eq (s : Store) (key : String) (value : Bytes) :
    s.written key value = s.recorded key (.put value) := rfl

theorem deleted_eq (s : Store) (key : String) : s.deleted key = s.recorded key .delete := rfl

theorem index_recorded (s : Store) (key : String) (change : Change) :
    (s.recorded key change).index = Event.applyTo s.index ⟨key, change, s.revision + 1⟩ := by
  unfold recorded record mapStreams prune compact
  dsimp only
  split
  · split <;> rfl
  · rfl

theorem revision_compact (s : Store) (revision : Nat) : (s.compact revision).revision = s.revision := by
  unfold compact
  dsimp only
  split <;> rfl

theorem index_compact (s : Store) (revision : Nat) : (s.compact revision).index = s.index := by
  unfold compact
  dsimp only
  split <;> rfl

theorem isOffline_compact (s : Store) (revision : Nat) :
    (s.compact revision).isOffline = s.isOffline := by
  unfold compact
  dsimp only
  split <;> rfl

theorem revision_recorded (s : Store) (key : String) (change : Change) :
    (s.recorded key change).revision = s.revision + 1 := by
  unfold recorded record mapStreams prune
  dsimp only
  split
  · exact revision_compact _ _
  · rfl

theorem isOffline_recorded (s : Store) (key : String) (change : Change) :
    (s.recorded key change).isOffline = s.isOffline := by
  unfold recorded record mapStreams prune
  dsimp only
  split
  · exact isOffline_compact _ _
  · rfl

theorem get?_recorded_of_ne (s : Store) {key k : String} (change : Change) (h : k ≠ key) :
    (s.recorded key change).index.get? k = s.index.get? k := by
  rw [index_recorded]
  exact Event.get?_applyTo_of_ne s.index (e := ⟨key, change, s.revision + 1⟩) h

theorem get?_recorded_put (s : Store) (key : String) (value : Bytes) :
    (s.recorded key (.put value)).index.get? key = some ⟨value,
      ((s.index.get? key).map Record.createRevision).getD (s.revision + 1), s.revision + 1⟩ := by
  rw [index_recorded]
  exact Event.get?_applyTo_put s.index (e := ⟨key, .put value, s.revision + 1⟩) rfl

theorem get?_recorded_delete (s : Store) (key : String) :
    (s.recorded key .delete).index.get? key = none := by
  rw [index_recorded]
  exact Event.get?_applyTo_delete s.index (e := ⟨key, .delete, s.revision + 1⟩) rfl

theorem put_eq_ok {s s' : Store} {key : String} {value : Bytes} {condition : Option Condition} :
    s.put key value condition = .ok s' ↔
      s.isOffline = false ∧ condition.all (·.holds (s.index.get? key)) = true ∧
        s' = s.recorded key (.put value) := by
  unfold put checkOnline
  cases hoff : s.isOffline with
  | true => simp [bind, Except.bind]
  | false =>
    cases hc : condition.all (·.holds (s.index.get? key)) with
    | true => simp [bind, Except.bind, pure, Except.pure, written_eq, eq_comm]
    | false => simp [bind, Except.bind, throw, throwThe, MonadExceptOf.throw]

theorem delete_eq_ok {s s' : Store} {key : String} :
    s.delete key = .ok s' ↔
      s.isOffline = false ∧ s.index.contains key = true ∧ s' = s.recorded key .delete := by
  unfold delete checkOnline
  cases hoff : s.isOffline with
  | true => simp [bind, Except.bind]
  | false =>
    cases hc : s.index.contains key with
    | true => simp [bind, Except.bind, pure, Except.pure, deleted_eq, eq_comm]
    | false => simp [bind, Except.bind, throw, throwThe, MonadExceptOf.throw]

theorem watch_eq_ok {s s' : Store} {keyPrefix : String} {start : Nat} :
    s.watch keyPrefix start = .ok s' ↔
      s.isOffline = false ∧ s.isWatchOffline = false ∧
        s' = s.addStream (s.watchStream keyPrefix start) := by
  unfold watch checkOnline
  cases hoff : s.isOffline with
  | true => simp [bind, Except.bind]
  | false =>
    cases hw : s.isWatchOffline with
    | true => simp [bind, Except.bind, throw, throwThe, MonadExceptOf.throw]
    | false => simp [bind, Except.bind, pure, Except.pure, eq_comm]

theorem range_eq_ok {s : Store} {keyPrefix : String} {listing : Listing} :
    s.range keyPrefix = .ok listing ↔
      s.isOffline = false ∧ listing = ⟨s.index.listedUnder keyPrefix, s.revision⟩ := by
  unfold range checkOnline
  cases hoff : s.isOffline with
  | true => simp [bind, Except.bind]
  | false => simp [bind, Except.bind, pure, Except.pure, keysUnder_eq, eq_comm]

/-! Calls of clients: a read changes nothing, and a put or a delete that is refused does not either. -/

theorem perform_get_eq_ok {s s' : Store} {key : String} {found : Option StoredKey} :
    s.perform (.get key) = .ok (found, s') ↔
      s.isOffline = false ∧ found = (s.index.get? key).map (Record.listed key) ∧ s' = s := by
  unfold perform get checkOnline
  cases hoff : s.isOffline with
  | true => simp [bind, Except.bind]
  | false => simp [bind, Except.bind, pure, Except.pure, eq_comm]

theorem perform_put_eq_ok {s s' : Store} {key : String} {value : Bytes}
    {condition : Option Condition} {revision : Nat} :
    s.perform (.put key value condition) = .ok (revision, s') ↔
      s.put key value condition = .ok s' ∧ revision = s'.revision := by
  simp only [perform]
  cases hp : s.put key value condition with
  | error cause => simp [bind, Except.bind]
  | ok store =>
    simp only [bind, Except.bind, pure, Except.pure, Except.ok.injEq, Prod.mk.injEq]
    constructor
    · rintro ⟨rfl, rfl⟩
      exact ⟨rfl, rfl⟩
    · rintro ⟨rfl, rfl⟩
      exact ⟨rfl, rfl⟩

theorem perform_delete_eq_ok {s s' : Store} {key : String} {revision : Nat} :
    s.perform (.delete key) = .ok (revision, s') ↔
      s.delete key = .ok s' ∧ revision = s'.revision := by
  simp only [perform]
  cases hp : s.delete key with
  | error cause => simp [bind, Except.bind]
  | ok store =>
    simp only [bind, Except.bind, pure, Except.pure, Except.ok.injEq, Prod.mk.injEq]
    constructor
    · rintro ⟨rfl, rfl⟩
      exact ⟨rfl, rfl⟩
    · rintro ⟨rfl, rfl⟩
      exact ⟨rfl, rfl⟩

/-- A store that is online refuses a put only for its condition. -/
theorem put_eq_error {s : Store} {key : String} {value : Bytes} {condition : Option Condition}
    {cause : Failure} (honline : s.isOffline = false)
    (h : s.put key value condition = .error cause) :
    condition.all (·.holds (s.index.get? key)) = false ∧ cause = .preconditionFailed key := by
  unfold put checkOnline at h
  rw [honline] at h
  cases hc : condition.all (·.holds (s.index.get? key)) with
  | true => simp [hc, bind, Except.bind, pure, Except.pure] at h
  | false =>
    simp [hc, bind, Except.bind, throw, throwThe, MonadExceptOf.throw] at h
    exact ⟨rfl, h.symm⟩

theorem perform_put_eq_error {s : Store} {key : String} {value : Bytes}
    {condition : Option Condition} {cause : Failure} :
    s.perform (.put key value condition) = .error cause ↔
      s.put key value condition = .error cause := by
  simp only [perform]
  cases s.put key value condition <;> simp [bind, Except.bind, pure, Except.pure]

/-- The store after a call that it may refuse. -/
def served (s : Store) (r : Request) : Store :=
  match s.perform r with
  | .ok (_, store) => store
  | .error _ => s

theorem served_get (s : Store) (key : String) : s.served (.get key) = s := by
  unfold served
  split
  · next h => exact (perform_get_eq_ok.1 h).2.2
  · rfl

theorem fst_perform_range (s : Store) (keyPrefix : String) :
    (s.perform (.range keyPrefix)).map Prod.fst = s.range keyPrefix := by
  cases h : s.range keyPrefix <;> simp [perform, h, bind, Except.bind, pure, Except.pure, Except.map]

theorem served_range (s : Store) (keyPrefix : String) : s.served (.range keyPrefix) = s := by
  cases h : s.range keyPrefix <;> simp [served, perform, h, bind, Except.bind, pure, Except.pure]

theorem served_put (s : Store) (key : String) (value : Bytes) (condition : Option Condition) :
    s.served (.put key value condition) = s ∨
    condition.all (·.holds (s.index.get? key)) = true ∧
      s.served (.put key value condition) = s.recorded key (.put value) := by
  unfold served
  split
  · next h =>
    obtain ⟨-, hholds, hs⟩ := put_eq_ok.1 (perform_put_eq_ok.1 h).1
    exact .inr ⟨hholds, hs⟩
  · exact .inl rfl

theorem served_delete (s : Store) (key : String) :
    s.served (.delete key) = s ∨ s.served (.delete key) = s.recorded key .delete := by
  unfold served
  split
  · next h => exact .inr (delete_eq_ok.1 (perform_delete_eq_ok.1 h).1).2.2
  · exact .inl rfl

theorem served_watch (s : Store) (keyPrefix : String) (start : Nat) :
    s.served (.watch keyPrefix start) = s ∨ s.isOffline = false ∧
      s.served (.watch keyPrefix start) = s.addStream (s.watchStream keyPrefix start) := by
  cases h : s.watch keyPrefix start with
  | error cause => simp [served, perform, h, bind, Except.bind]
  | ok store =>
    obtain ⟨honline, -, rfl⟩ := watch_eq_ok.1 h
    right
    exact ⟨honline, by simp [served, perform, h, bind, Except.bind, pure, Except.pure]⟩

/-! ## Calls step by step -/

theorem checkOnline_eq_ok {s : Store} {u : Unit} : s.checkOnline = .ok u ↔ s.isOffline = false := by
  unfold checkOnline
  cases s.isOffline <;> simp

/-- In an outage every call fails that is not a closing one. -/
theorem perform_of_offline {s : Store} {r : Request} {cause : Failure}
    (hoffline : s.checkOnline = .error cause) (hr : r ≠ .close) : s.perform r = .error cause := by
  cases r <;> first
    | exact absurd rfl hr
    | simp [perform, range, get, put, delete, watch, hoffline, bind, Except.bind]

theorem call_of_offline {s : Store} {r : Request} {cause : Failure}
    (hoffline : s.checkOnline = .error cause) (hr : r ≠ .close) : s.call r = (.error cause, s) := by
  cases r <;> first
    | exact absurd rfl hr
    | simp [call, Procedure.ofRequest, Procedure.listKeys, Procedure.readKey, Procedure.writeKey,
        Procedure.removeKey, Procedure.openStream, hoffline]

section Online

variable {s : Store} (honline : s.checkOnline = .ok ())

include honline

theorem call_range (keyPrefix : String) :
    s.call (.range keyPrefix) = (.ok ⟨s.keysUnder keyPrefix, s.revision⟩, s) := by
  simp [call, Procedure.ofRequest, Procedure.listKeys, honline, Except.map]

theorem call_get (key : String) :
    s.call (.get key) = (.ok ((s.index.get? key).map (Record.listed key)), s) := by
  simp [call, Procedure.ofRequest, Procedure.readKey, honline, Except.map]

theorem call_put (key : String) (value : Bytes) (condition : Option Condition) :
    s.call (.put key value condition) =
      if condition.all (·.holds (s.index.get? key)) then
        (.ok (s.revision + 1), s.recorded key (.put value))
      else (.error (.preconditionFailed key), s) := by
  unfold call Procedure.ofRequest Procedure.writeKey
  cases hc : condition.all (·.holds (s.index.get? key)) <;>
    simp [honline, hc, ← written_eq, written, Except.map]

/-- A key that is taken out of the index without having been there leaves it as it was. -/
theorem call_delete (key : String) : s.call (.delete key) =
    if s.index.contains key then (.ok (s.revision + 1), s.recorded key .delete)
    else (.error (.notFound key), s) := by
  unfold call Procedure.ofRequest Procedure.removeKey KeyMap.contains
  cases hkey : s.index.get? key with
  | none => simp [honline, hkey, KeyMap.erase_eq_self hkey]
  | some r => simp [honline, hkey, ← deleted_eq, deleted, Except.map]

theorem call_watch (keyPrefix : String) (start : Nat) : s.call (.watch keyPrefix start) =
    if s.isWatchOffline then (.error (.storeUnavailable .watchOffline), s)
    else (.ok s.nextStream, s.addStream (s.watchStream keyPrefix start)) := by
  unfold call Procedure.ofRequest Procedure.openStream
  cases hwatch : s.isWatchOffline <;> simp [honline, hwatch, Except.map]

end Online

/-- A call comes to what it is as a whole: one that fails has changed nothing. -/
theorem call_eq (s : Store) (r : Request) : s.call r =
    match s.perform r with
    | .ok (answer, left) => (.ok answer, left)
    | .error cause => (.error cause, s) := by
  cases honline : s.checkOnline with
  | error cause =>
    by_cases hr : r = .close
    · subst hr
      rfl
    · rw [call_of_offline honline hr, perform_of_offline honline hr]
  | ok _ =>
    cases r with
    | range keyPrefix =>
      rw [call_range honline]
      simp [perform, range, honline, bind, Except.bind, pure, Except.pure]
    | get key =>
      rw [call_get honline]
      simp [perform, get, honline, bind, Except.bind, pure, Except.pure]
    | put key value condition =>
      rw [call_put honline]
      cases hc : condition.all (·.holds (s.index.get? key)) <;>
        simp [perform, put, honline, hc, bind, Except.bind, pure, Except.pure, throw, throwThe,
          MonadExceptOf.throw, written_eq, revision_recorded]
    | delete key =>
      rw [call_delete honline]
      cases hc : s.index.contains key <;>
        simp [perform, delete, honline, hc, bind, Except.bind, pure, Except.pure, throw, throwThe,
          MonadExceptOf.throw, deleted_eq, revision_recorded]
    | watch keyPrefix start =>
      rw [call_watch honline]
      cases hw : s.isWatchOffline <;>
        simp [perform, watch, honline, hw, bind, Except.bind, pure, Except.pure, throw, throwThe,
          MonadExceptOf.throw]
    | close => rfl

theorem snd_call (s : Store) (r : Request) : (s.call r).2 = s.served r := by
  rw [call_eq, served]
  cases s.perform r <;> rfl

theorem snd_runCall (s : Store) (r : Request) (result : r.Answer → StepResult) :
    (s.runCall r result).2 = s.served r :=
  s.snd_call r

/-! ## Operations as a whole -/

/-- The change that an operation makes, with the revision that it gives. -/
def mutation? (s : Store) : StoreStep → Option Event
  | .put key value condition =>
    (s.put key value condition).toOption.map fun s' => ⟨key, .put value, s'.revision⟩
  | .delete key => (s.delete key).toOption.map fun s' => ⟨key, .delete, s'.revision⟩
  | _ => none

/-- What an operation on the store may do: nothing, record a change of the key that it writes, compact
the history, or start or end an outage, perhaps with the end of every stream. -/
theorem run_cases (s : Store) (step : StoreStep) :
    ((s.run step).2 = s ∧ s.mutation? step = none ∧ step.outage? = none) ∨
    (∃ key change, step.written? = some key ∧ change ≠ .blindPut ∧
      (s.run step).2 = s.recorded key change ∧
      s.mutation? step = some ⟨key, change, s.revision + 1⟩ ∧ step.outage? = none) ∨
    (∃ revision, (s.run step).2 = s.compact revision ∧ s.mutation? step = none ∧
      step.outage? = none) ∨
    (∃ offline watchOffline,
      (s.run step).2 = { s with isOffline := offline, isWatchOffline := watchOffline } ∧
      s.mutation? step = none ∧ step.outage? = none ∧ (offline = true → s.isOffline = true)) ∨
    (∃ offline watchOffline cause, (s.run step).2 =
      { s with isOffline := offline, isWatchOffline := watchOffline }.disconnect cause ∧
      s.mutation? step = none ∧ step.outage? = some cause ∧
      (offline = true → s.isOffline = true ∨ step = .setAvailable false)) := by
  cases step with
  | put key value condition =>
    cases h : s.put key value condition with
    | error cause =>
      left
      refine ⟨?_, ?_, rfl⟩
      · rw [run, snd_runCall]
        simp [served, perform, h, bind, Except.bind]
      · simp [mutation?, h, Except.toOption]
    | ok s' =>
      obtain ⟨-, -, rfl⟩ := put_eq_ok.1 h
      right; left
      refine ⟨key, .put value, rfl, by simp, ?_, ?_, rfl⟩
      · rw [run, snd_runCall]
        simp [served, perform, h, bind, Except.bind, pure, Except.pure]
      · simp [mutation?, h, Except.toOption, revision_recorded]
  | delete key =>
    cases h : s.delete key with
    | error cause =>
      left
      refine ⟨?_, ?_, rfl⟩
      · rw [run, snd_runCall]
        simp [served, perform, h, bind, Except.bind]
      · simp [mutation?, h, Except.toOption]
    | ok s' =>
      obtain ⟨-, -, rfl⟩ := delete_eq_ok.1 h
      right; left
      refine ⟨key, .delete, rfl, by simp, ?_, ?_, rfl⟩
      · rw [run, snd_runCall]
        simp [served, perform, h, bind, Except.bind, pure, Except.pure]
      · simp [mutation?, h, Except.toOption, revision_recorded]
  | get key => exact .inl ⟨(s.snd_call (.get key)).trans (s.served_get key), rfl, rfl⟩
  | range keyPrefix =>
    exact .inl ⟨(s.snd_call (.range keyPrefix)).trans (s.served_range keyPrefix), rfl, rfl⟩
  | compact revision => exact .inr (.inr (.inl ⟨revision, rfl, rfl, rfl⟩))
  | setAvailable available =>
    right; right; right
    cases available with
    | true => exact .inl ⟨false, s.isWatchOffline, rfl, rfl, rfl, by simp⟩
    | false => exact .inr ⟨true, s.isWatchOffline, .wentOffline, rfl, rfl, rfl, fun _ => .inr rfl⟩
  | setWatchAvailable available =>
    right; right; right
    cases available with
    | true => exact .inl ⟨s.isOffline, false, rfl, rfl, rfl, id⟩
    | false => exact .inr ⟨s.isOffline, true, .watchWentOffline, rfl, rfl, rfl, .inl⟩
  | disconnect =>
    right; right; right; right
    exact ⟨s.isOffline, s.isWatchOffline, .streamReset, rfl, rfl, rfl, .inl⟩
  | close =>
    right; right; right; right
    exact ⟨s.isOffline, s.isWatchOffline, .storeClosed, rfl, rfl, rfl, .inl⟩

end Store

end GatewayStore
