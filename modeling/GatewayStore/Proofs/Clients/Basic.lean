import GatewayStore.Proofs.Clients.Conduct
import GatewayStore.Proofs.Store.Recording

/-
  Any number of clients over one store. Each call of a client runs its program by itself; between two
  effects of one call the others may do anything. A call to the store is answered, fails before it
  gets there, or takes effect with its answer lost. The caches that a call sees are arbitrary, and so
  are the clock and new ids.
-/

namespace GatewayStore

/-- What a client asks of a collection. -/
inductive Command where
  | create (r : Resource)
  | update (key : String) (r : Resource)
  | upsert (key : String) (r : Resource)
  | delete (key : String)

/-- What a command does; a delete gives no resource. -/
def Command.program (c : Collection) : Command → Program (Option Resource)
  | .create r => do return some (← c.create r)
  | .update key r => do return some (← c.update key r)
  | .upsert key r => do return some (← c.upsert key r)
  | .delete key => do
    c.delete key
    return none

/-- A call under way or over: what it has observed, and what is left of it. -/
structure Call where
  collection : Collection
  command : Command
  past : List Observation
  rest : Program (Option Resource)

namespace Call

/-- A call that has just begun. -/
def begun (c : Collection) (command : Command) : Call := ⟨c, command, [], command.program c⟩

/-- The call after it observed something that it waits for. -/
def observe (c : Call) (o : Observation) : Call :=
  match c.rest.resume? o with
  | none => c
  | some rest => { c with past := c.past ++ [o], rest := rest }

/-- What the call returned, if it is over and did not fail. -/
def returned? (c : Call) : Option (Option Resource) :=
  match c.rest with
  | .done result => some result
  | _ => none

end Call

/-- A store and the calls that its clients ever made. -/
structure Clients where
  store : Store
  calls : List Call

/-- What can happen among the clients of a store. -/
inductive ClientMove where
  /-- anyone's operation on the store -/
  | operate (step : StoreStep)
  /-- a new call -/
  | begin (c : Collection) (command : Command)
  /-- the store answers a call -/
  | perform (i : Nat)
  /-- a call fails on its way back from the store -/
  | lose (i : Nat) (cause : Failure)
  /-- a call fails on its way to the store -/
  | fail (i : Nat) (cause : Failure)
  | readClock (i : Nat) (now : WallTime)
  | drawId (i : Nat) (text : String)
  | readCaches (i : Nat) (caches : Caches)

namespace Clients

/-- An empty store without clients. -/
def initial (retention : Nat) : Clients := ⟨.withRetention retention, []⟩

/-- The store call that a call waits for. -/
def request? (s : Clients) (i : Nat) : Option Request :=
  s.calls[i]?.bind fun c => c.rest.request?

/-- What a move shows to which call. -/
def seen? (s : Clients) : ClientMove → Option (Nat × Observation)
  | .operate _ | .begin _ _ => none
  | .perform i =>
    (s.request? i).map fun r => (i, .answered r ((s.store.perform r).map Prod.fst))
  | .lose i cause | .fail i cause =>
    (s.request? i).map fun r => (i, .answered r (.error cause))
  | .readClock i now => some (i, .time now)
  | .drawId i text => some (i, .id text)
  | .readCaches i caches => some (i, .cached caches)

/-- The store after a move. -/
def storeAfter (s : Clients) : ClientMove → Store
  | .operate step => (s.store.run step).2
  | .perform i | .lose i _ => ((s.request? i).map s.store.served).getD s.store
  | _ => s.store

/-- The calls after a move. -/
def callsAfter (s : Clients) (m : ClientMove) : List Call :=
  match m with
  | .begin c command => s.calls ++ [.begun c command]
  | m =>
    match s.seen? m with
    | none => s.calls
    | some (i, o) => s.calls.modify i (·.observe o)

/-- The clients and their store after a move. -/
def move (s : Clients) (m : ClientMove) : Clients := ⟨s.storeAfter m, s.callsAfter m⟩

/-- The clients and their store after some moves. -/
def run (s : Clients) (moves : List ClientMove) : Clients := moves.foldl move s

theorem run_concat (s : Clients) (moves : List ClientMove) (last : ClientMove) :
    s.run (moves ++ [last]) = (s.run moves).move last := by
  simp [run]

theorem run_take_succ (s : Clients) {moves : List ClientMove} {n : Nat} {m : ClientMove}
    (h : moves[n]? = some m) : s.run (moves.take (n + 1)) = (s.run (moves.take n)).move m := by
  rw [List.take_add_one, h, Option.toList_some, run_concat]

/-- From one moment to the next there is one move, or none after the last. -/
theorem run_take_succ_cases (s : Clients) (moves : List ClientMove) (n : Nat) :
    s.run (moves.take (n + 1)) = s.run (moves.take n) ∨
    ∃ m, moves[n]? = some m ∧ s.run (moves.take (n + 1)) = (s.run (moves.take n)).move m := by
  cases hm : moves[n]? with
  | none =>
    left
    rw [List.take_add_one, hm, Option.toList_none, List.append_nil]
  | some m => exact .inr ⟨m, rfl, run_take_succ s hm⟩

/-! ## Single moves -/

variable {s : Clients}

theorem request?_eq_some {i : Nat} {r : Request} (h : s.request? i = some r) :
    ∃ c next, s.calls[i]? = some c ∧ c.rest = .call r next := by
  obtain ⟨c, hc, hr⟩ := Option.bind_eq_some_iff.1 h
  unfold Program.request? at hr
  split at hr
  · next request next hrest =>
    cases hr
    exact ⟨c, next, hc, hrest⟩
  · cases hr

/-- A call after a move has just begun, is as before, or has seen what the move shows. -/
theorem call_move {m : ClientMove} {j : Nat} {c : Call} (h : (s.move m).calls[j]? = some c) :
    (∃ collection command, m = .begin collection command ∧ c = .begun collection command) ∨
    s.calls[j]? = some c ∨
    ∃ before o, s.calls[j]? = some before ∧ s.seen? m = some (j, o) ∧ c = before.observe o := by
  have hcases : (∃ collection command, m = .begin collection command) ∨
      (s.move m).calls = match s.seen? m with
        | none => s.calls
        | some (i, o) => s.calls.modify i (·.observe o) := by
    cases m <;> first | exact .inl ⟨_, _, rfl⟩ | exact .inr rfl
  rcases hcases with ⟨collection, command, rfl⟩ | hcalls
  · have happend : (s.calls ++ [Call.begun collection command])[j]? = some c := h
    rcases Nat.lt_or_ge j s.calls.length with hlt | hge
    · rw [List.getElem?_append_left hlt] at happend
      exact .inr (.inl happend)
    · rw [List.getElem?_append_right hge] at happend
      left
      exact ⟨collection, command, rfl, List.mem_singleton.1 (List.mem_of_getElem? happend)⟩
  · rw [hcalls] at h
    cases hseen : s.seen? m with
    | none =>
      rw [hseen] at h
      exact .inr (.inl h)
    | some seen =>
      obtain ⟨i, o⟩ := seen
      rw [hseen] at h
      rw [List.getElem?_modify] at h
      obtain ⟨before, hbefore, rfl⟩ := Option.map_eq_some_iff.1 h
      right
      split
      · next hij =>
        subst hij
        exact .inr ⟨before, o, hbefore, rfl, rfl⟩
      · exact .inl hbefore

/-- A store call is answered only by the store, which then has served it. -/
theorem served_of_seen {m : ClientMove} {j : Nat} {r : Request} {answer : r.Answer}
    (h : s.seen? m = some (j, .answered r (.ok answer))) :
    s.request? j = some r ∧ ∃ store, s.store.perform r = .ok (answer, store) ∧
      (s.move m).store = store := by
  cases m with
  | perform i =>
    obtain ⟨r', hr', heq⟩ := Option.map_eq_some_iff.1 h
    obtain ⟨rfl, hanswer⟩ := Prod.mk.inj heq
    obtain ⟨rfl, hanswer⟩ := Observation.answered.inj hanswer
    have hanswer := eq_of_heq hanswer
    cases hp : s.store.perform r' with
    | error cause => rw [hp] at hanswer; cases hanswer
    | ok pair =>
      rw [hp] at hanswer
      cases hanswer
      refine ⟨hr', pair.2, rfl, ?_⟩
      simp [move, storeAfter, hr', Store.served, hp]
  | lose i cause =>
    obtain ⟨r', hr', heq⟩ := Option.map_eq_some_iff.1 h
    cases heq
  | fail i cause =>
    obtain ⟨r', hr', heq⟩ := Option.map_eq_some_iff.1 h
    cases heq
  | readClock i now => cases h
  | drawId i text => cases h
  | readCaches i caches => cases h
  | operate step => cases h
  | begin collection command => cases h

theorem perform_of_seen {m : ClientMove} {j : Nat} {r : Request} {answer : r.Answer}
    (h : s.seen? m = some (j, .answered r (.ok answer))) : m = .perform j := by
  cases m with
  | perform i =>
    obtain ⟨r', -, heq⟩ := Option.map_eq_some_iff.1 h
    rw [(Prod.mk.inj heq).1]
  | lose i cause | fail i cause =>
    obtain ⟨r', -, heq⟩ := Option.map_eq_some_iff.1 h
    cases heq
  | _ => cases h

/-- A store call fails in the store, or on its way. -/
theorem failed_of_seen {m : ClientMove} {j : Nat} {r : Request} {cause : Failure}
    (h : s.seen? m = some (j, .answered r (.error cause))) :
    (m = .perform j ∧ s.store.perform r = .error cause) ∨ m = .lose j cause ∨ m = .fail j cause := by
  cases m with
  | perform i =>
    obtain ⟨r', hr', heq⟩ := Option.map_eq_some_iff.1 h
    obtain ⟨rfl, hanswer⟩ := Prod.mk.inj heq
    obtain ⟨rfl, hanswer⟩ := Observation.answered.inj hanswer
    have hanswer := eq_of_heq hanswer
    left
    cases hp : s.store.perform r' with
    | error cause' =>
      rw [hp] at hanswer
      cases hanswer
      exact ⟨rfl, rfl⟩
    | ok pair => rw [hp] at hanswer; cases hanswer
  | lose i cause' =>
    obtain ⟨r', hr', heq⟩ := Option.map_eq_some_iff.1 h
    cases heq
    exact .inr (.inl rfl)
  | fail i cause' =>
    obtain ⟨r', hr', heq⟩ := Option.map_eq_some_iff.1 h
    cases heq
    exact .inr (.inr rfl)
  | readClock i now => cases h
  | drawId i text => cases h
  | readCaches i caches => cases h
  | operate step => cases h
  | begin collection command => cases h

/-- A call remembers what it waited for, and passes over anything else. -/
theorem past_observe (c : Call) (o : Observation) :
    c.observe o = c ∨ (c.observe o).past = c.past ++ [o] := by
  unfold Call.observe
  split
  · exact .inl rfl
  · exact .inr rfl

theorem collection_observe (c : Call) (o : Observation) :
    (c.observe o).collection = c.collection ∧ (c.observe o).command = c.command := by
  unfold Call.observe
  split <;> exact ⟨rfl, rfl⟩

/-- A record was there before a move, or it was put by the move or by the call that it concerns. -/
theorem record_of_move {m : ClientMove} {key : String} {record : Record}
    (h : (s.move m).store.index.get? key = some record) :
    s.store.index.get? key = some record ∨
    (∃ condition, m = .operate (.put key record.value condition)) ∨
    ∃ c ∈ s.calls, ∃ condition next, c.rest = .call (.put key record.value condition) next := by
  have hserved {i : Nat}
      (h : (((s.request? i).map s.store.served).getD s.store).index.get? key = some record) :
      s.store.index.get? key = some record ∨
      ∃ c ∈ s.calls, ∃ condition next, c.rest = .call (.put key record.value condition) next := by
    cases hr : s.request? i with
    | none =>
      rw [hr] at h
      exact .inl h
    | some r =>
      rw [hr] at h
      refine (Store.record_of_served h).imp_right ?_
      rintro ⟨condition, rfl⟩
      obtain ⟨c, next, hc, hrest⟩ := request?_eq_some hr
      exact ⟨c, List.mem_of_getElem? hc, condition, next, hrest⟩
  cases m with
  | operate step =>
    refine (Store.record_of_run h).imp_right fun ⟨condition, hstep⟩ => .inl ⟨condition, ?_⟩
    rw [hstep]
  | perform i => exact (hserved h).imp_right .inr
  | lose i cause => exact (hserved h).imp_right .inr
  | _ => exact .inl h

/-! ## Runs -/

/-- Every call was begun by a move. -/
theorem begin_mem (retention : Nat) {moves : List ClientMove} {c : Call}
    (h : c ∈ ((initial retention).run moves).calls) : .begin c.collection c.command ∈ moves := by
  induction moves using List.reverseRecOn generalizing c with
  | nil => cases h
  | append_singleton moves m ih =>
    rw [run_concat] at h
    obtain ⟨j, hj⟩ := List.getElem?_of_mem h
    rcases call_move hj with ⟨collection, command, rfl, rfl⟩ | hbefore | ⟨before, o, hbefore, -, rfl⟩
    · exact List.mem_append_right _ (List.mem_singleton.2 rfl)
    · exact List.mem_append_left _ (ih (List.mem_of_getElem? hbefore))
    · obtain ⟨hcollection, hcommand⟩ := collection_observe before o
      rw [hcollection, hcommand]
      exact List.mem_append_left _ (ih (List.mem_of_getElem? hbefore))

/-- If every call keeps to something when it begins, it does so for good. -/
theorem keeps_run {calls : Collection → Command → List Observation → Request → Prop}
    {results : Collection → Command → List Observation → Option Resource → Prop}
    (hstart : ∀ c ∈ s.calls,
      c.rest.Keeps (calls c.collection c.command) (results c.collection c.command) c.past)
    (hbegin : ∀ (collection : Collection) (command : Command),
      (command.program collection).Keeps (calls collection command) (results collection command) [])
    (moves : List ClientMove) : ∀ c ∈ (s.run moves).calls,
      c.rest.Keeps (calls c.collection c.command) (results c.collection c.command) c.past := by
  induction moves using List.reverseRecOn with
  | nil => exact hstart
  | append_singleton moves m ih =>
    intro c hc
    rw [run_concat] at hc
    obtain ⟨j, hj⟩ := List.getElem?_of_mem hc
    rcases call_move hj with ⟨collection, command, rfl, rfl⟩ | hbefore | ⟨before, o, hbefore, -, rfl⟩
    · exact hbegin collection command
    · exact ih c (List.mem_of_getElem? hbefore)
    · have hkeeps := ih before (List.mem_of_getElem? hbefore)
      unfold Call.observe
      split
      · exact hkeeps
      · next rest hrest => exact hkeeps.observe hrest

section

variable
  {outcomes : Collection → Command → List Observation → Except Failure (Option Resource) → Prop}

/-- If every call ends in outcomes of some kind when it begins, it does so after a move. -/
theorem ends_move (hcalls : ∀ c ∈ s.calls, c.rest.Ends (outcomes c.collection c.command) c.past)
    (hbegin : ∀ (collection : Collection) (command : Command),
      (command.program collection).Ends (outcomes collection command) [])
    (m : ClientMove) :
    ∀ c ∈ (s.move m).calls, c.rest.Ends (outcomes c.collection c.command) c.past := by
  intro c hc
  obtain ⟨j, hj⟩ := List.getElem?_of_mem hc
  rcases call_move hj with ⟨collection, command, rfl, rfl⟩ | hbefore | ⟨before, o, hbefore, -, rfl⟩
  · exact hbegin collection command
  · exact hcalls c (List.mem_of_getElem? hbefore)
  · have hends := hcalls before (List.mem_of_getElem? hbefore)
    unfold Call.observe
    split
    · exact hends
    · next rest hrest => exact hends.observe hrest

theorem ends_run (hstart : ∀ c ∈ s.calls, c.rest.Ends (outcomes c.collection c.command) c.past)
    (hbegin : ∀ (collection : Collection) (command : Command),
      (command.program collection).Ends (outcomes collection command) [])
    (moves : List ClientMove) :
    ∀ c ∈ (s.run moves).calls, c.rest.Ends (outcomes c.collection c.command) c.past := by
  induction moves using List.reverseRecOn with
  | nil => exact hstart
  | append_singleton moves m ih =>
    rw [run_concat]
    exact ends_move ih hbegin m

end

/-- What a call remembers it has seen at some move, in the order in which it remembers it. -/
theorem seen_of_past (retention : Nat) {moves : List ClientMove} {i : Nat} {c : Call}
    (hc : ((initial retention).run moves).calls[i]? = some c) {before after : List Observation}
    {o : Observation} (hpast : c.past = before ++ o :: after) :
    ∃ n m c', n < moves.length ∧ moves[n]? = some m ∧
      ((initial retention).run (moves.take n)).seen? m = some (i, o) ∧
      ((initial retention).run (moves.take n)).calls[i]? = some c' ∧ c'.past = before := by
  induction moves using List.reverseRecOn generalizing c after with
  | nil => cases hc
  | append_singleton moves m ih =>
    -- what was seen by an earlier move
    have hearlier {c : Call} {after : List Observation}
        (hc : ((initial retention).run moves).calls[i]? = some c)
        (hpast : c.past = before ++ o :: after) :
        ∃ n m' c', n < (moves ++ [m]).length ∧ (moves ++ [m])[n]? = some m' ∧
          ((initial retention).run ((moves ++ [m]).take n)).seen? m' = some (i, o) ∧
          ((initial retention).run ((moves ++ [m]).take n)).calls[i]? = some c' ∧
          c'.past = before := by
      obtain ⟨n, m', c', hlt, hm, hseen, hc', hbefore⟩ := ih hc hpast
      refine ⟨n, m', c', ?_, ?_, ?_⟩
      · rw [List.length_append]
        omega
      · rw [List.getElem?_append_left hlt]
        exact hm
      · rw [List.take_append_of_le_length (Nat.le_of_lt hlt)]
        exact ⟨hseen, hc', hbefore⟩
    rw [run_concat] at hc
    rcases call_move hc with ⟨collection, command, -, rfl⟩ | hsame | ⟨old, seen, hold, hseen, rfl⟩
    · rw [Call.begun] at hpast
      simp at hpast
    · exact hearlier hsame hpast
    · rcases past_observe old seen with hsame | hlonger
      · rw [hsame] at hpast
        exact hearlier hold hpast
      · rw [hlonger] at hpast
        rcases List.eq_nil_or_concat after with rfl | ⟨later, last, rfl⟩
        · obtain ⟨rfl, heq⟩ := List.append_inj' hpast rfl
          cases heq
          refine ⟨moves.length, m, old, by simp, by simp, ?_⟩
          rw [List.take_left]
          exact ⟨hseen, hold, rfl⟩
        · rw [List.concat_eq_append, ← List.cons_append, ← List.append_assoc] at hpast
          exact hearlier hold (List.append_inj' hpast rfl).1

theorem seen_of_mem (retention : Nat) {moves : List ClientMove} {i : Nat} {c : Call}
    (hc : ((initial retention).run moves).calls[i]? = some c) {o : Observation} (ho : o ∈ c.past) :
    ∃ n m, n < moves.length ∧ moves[n]? = some m ∧
      ((initial retention).run (moves.take n)).seen? m = some (i, o) := by
  obtain ⟨before, after, hpast⟩ := List.append_of_mem ho
  obtain ⟨n, m, -, hlt, hm, hseen, -⟩ := seen_of_past retention hc hpast
  exact ⟨n, m, hlt, hm, hseen⟩

theorem calls_of_seen {m : ClientMove} {i : Nat} {o : Observation} {c : Call}
    (hc : s.calls[i]? = some c) (hseen : s.seen? m = some (i, o)) :
    (s.move m).calls[i]? = some (c.observe o) := by
  have hcalls : (s.move m).calls = s.calls.modify i (·.observe o) := by
    cases m with
    | begin collection command => cases hseen
    | _ => simp only [move, callsAfter, hseen]
  rw [hcalls, List.getElem?_modify, hc]
  simp

/-- Some move takes a call further that is not over. -/
theorem goes_on {i : Nat} {c : Call} (hc : s.calls[i]? = some c) (hover : c.rest.isOver = false) :
    ∃ m c', (s.move m).calls[i]? = some c' ∧ c'.past.length = c.past.length + 1 := by
  have hstep {m : ClientMove} {o : Observation} {rest : Program (Option Resource)}
      (hseen : s.seen? m = some (i, o)) (hrest : c.rest.resume? o = some rest) :
      ∃ m c', (s.move m).calls[i]? = some c' ∧ c'.past.length = c.past.length + 1 :=
    ⟨m, _, calls_of_seen hc hseen, by simp [Call.observe, hrest]⟩
  cases hrest : c.rest with
  | done result =>
    rw [hrest] at hover
    cases hover
  | failed cause =>
    rw [hrest] at hover
    cases hover
  | call r next =>
    have hseen : s.seen? (.perform i) =
        some (i, .answered r ((s.store.perform r).map Prod.fst)) := by
      simp [seen?, request?, hc, hrest, Program.request?]
    have hresume : c.rest.resume? (.answered r ((s.store.perform r).map Prod.fst)) =
        some (next ((s.store.perform r).map Prod.fst)) := by
      simp [hrest, Program.resume?]
    exact hstep hseen hresume
  | readClock next =>
    exact hstep (m := .readClock i ⟨0⟩) rfl (by rw [hrest, Program.resume?])
  | drawId next =>
    exact hstep (m := .drawId i "") rfl (by rw [hrest, Program.resume?])
  | readCaches next =>
    exact hstep (m := .readCaches i fun _ => none) rfl (by rw [hrest, Program.resume?])

end Clients

end GatewayStore
