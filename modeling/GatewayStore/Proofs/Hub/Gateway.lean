import GatewayStore.Proofs.Clients.Atomicity
import GatewayStore.Proofs.Hub.Fleet

/-
  The whole system: one store, the clients that write to it, and the watch loops that follow it. To the
  loops a client is someone outside who operates on the store (`fleet_client`), and to the clients the
  loops only add what the store carries besides its keys. `Exact` says that the loops are exact for the
  log of all changes and that every put a call was told of is in the log.
-/

namespace GatewayStore

/-! ## Calls as moves of the store -/

/-- What a call is for the store. -/
def Request.asMove : Request → StoreMove
  | .range keyPrefix => .operate (.range keyPrefix)
  | .get key => .operate (.get key)
  | .put key value condition => .operate (.put key value condition)
  | .delete key => .operate (.delete key)
  | .watch keyPrefix start => .subscribe keyPrefix start
  | .close => .operate .close

theorem Request.reader?_asMove (r : Request) : r.asMove.reader? = none := by
  cases r <;> rfl

theorem Store.act_asMove (s : Store) (r : Request) : s.act r.asMove = s.served r := by
  cases r with
  | range keyPrefix => exact s.snd_call (.range keyPrefix)
  | get key => exact s.snd_call (.get key)
  | put key value condition => exact s.snd_call (.put key value condition)
  | delete key => exact s.snd_call (.delete key)
  | watch keyPrefix start => rfl
  | close => rfl

/-- What a move among clients is for the store, if it gets there. -/
def ClientMove.asMove? (s : Clients) : ClientMove → Option StoreMove
  | .operate step => some (.operate step)
  | .perform i | .lose i _ => (s.request? i).map Request.asMove
  | _ => none

theorem ClientMove.reader?_of_asMove? {s : Clients} {m : ClientMove} {move : StoreMove}
    (h : m.asMove? s = some move) : move.reader? = none := by
  cases m with
  | operate step =>
    cases h
    rfl
  | perform i | lose i cause =>
    obtain ⟨r, -, rfl⟩ := Option.map_eq_some_iff.1 h
    exact r.reader?_asMove
  | _ => cases h

theorem Clients.store_move (s : Clients) (m : ClientMove) :
    (s.move m).store = (m.asMove? s).elim s.store s.store.act := by
  have hserved (i : Nat) : ((s.request? i).map s.store.served).getD s.store =
      ((s.request? i).map Request.asMove).elim s.store s.store.act := by
    cases s.request? i with
    | none => rfl
    | some r => exact (s.store.act_asMove r).symm
  cases m with
  | perform i => exact hserved i
  | lose i cause => exact hserved i
  | _ => rfl

/-! ## The system -/

/-- A store, the watch loops of a hub over it, and the calls that its clients ever made. -/
structure Gateway where
  store : Store
  followers : List Follower
  calls : List Call

/-- What can happen in the system. -/
inductive GatewayMove where
  | client (m : ClientMove)
  | fleet (m : FleetMove)

namespace Gateway

/-- An empty store, a hub of some kinds that has done nothing yet, and no clients. -/
def initial (retention : Nat) (settings : WatchSettings) (client : Client) (kinds : List Kind) :
    Gateway :=
  let fleet := Fleet.initial retention settings client kinds
  ⟨fleet.store, fleet.followers, []⟩

def fleet (g : Gateway) : Fleet := ⟨g.store, g.followers⟩

def clients (g : Gateway) : Clients := ⟨g.store, g.calls⟩

/-- The system after a move. -/
def move (g : Gateway) : GatewayMove → Gateway
  | .client m =>
    let moved := g.clients.move m
    { g with store := moved.store, calls := moved.calls }
  | .fleet m =>
    let moved := g.fleet.move m
    { g with store := moved.store, followers := moved.followers }

/-- The system after some moves. -/
def run (g : Gateway) (moves : List GatewayMove) : Gateway := moves.foldl move g

/-- The change that a move makes. -/
def change? (g : Gateway) : GatewayMove → Option Event
  | .client m => (m.asMove? g.clients).bind g.store.change?
  | .fleet m => g.fleet.change? m

/-- The changes of a run. -/
def changes (g : Gateway) : List GatewayMove → List Event
  | [] => []
  | m :: rest => (g.change? m).toList ++ changes (g.move m) rest

variable {g : Gateway} {client : Client} {log : List Event}

/-- To the loops a client is someone outside. -/
theorem fleet_client (g : Gateway) (m : ClientMove) : (g.move (.client m)).fleet =
    (m.asMove? g.clients).elim g.fleet fun move => g.fleet.move (.outside move) := by
  show (⟨(g.clients.move m).store, g.followers⟩ : Fleet) = _
  rw [g.clients.store_move]
  cases h : m.asMove? g.clients with
  | none => rfl
  | some move => simp [Fleet.move, ClientMove.reader?_of_asMove? h, fleet, clients]

/-! ## The invariant -/

/-- Every put that a call was told of is an event of the log. -/
def Recorded (log : List Event) (c : Call) : Prop :=
  ∀ key value condition revision,
    .answered (.put key value condition) (.ok revision) ∈ c.past →
      ⟨key, .put value, revision⟩ ∈ log

theorem Recorded.append {c : Call} (h : Recorded log c) (added : List Event) :
    Recorded (log ++ added) c := fun key value condition revision ho =>
  List.mem_append_left _ (h key value condition revision ho)

/-- A put of which a call is told is the change of the move. -/
theorem change?_of_seen {m : ClientMove} {i : Nat} {key : String} {value : Bytes}
    {condition : Option Condition} {revision : Nat}
    (h : g.clients.seen? m = some (i, .answered (.put key value condition) (.ok revision))) :
    g.change? (.client m) = some ⟨key, .put value, revision⟩ := by
  obtain ⟨hrequest, store, hperform, -⟩ := Clients.served_of_seen h
  obtain rfl := Clients.perform_of_seen h
  obtain ⟨hput, rfl⟩ := Store.perform_put_eq_ok.1 hperform
  have hmove : ClientMove.asMove? g.clients (.perform i) =
      some (.operate (.put key value condition)) := by
    rw [ClientMove.asMove?, hrequest]
    rfl
  have hput' : g.store.put key value condition = .ok store := hput
  show (ClientMove.asMove? g.clients (.perform i)).bind g.store.change? = _
  rw [hmove]
  show (g.store.put key value condition).toOption.map _ = _
  rw [hput']
  rfl

/-- The loops are exact for the log, and what calls were told is in it. -/
structure Exact (g : Gateway) (client : Client) (log : List Event) : Prop where
  fleet : g.fleet.Exact client log
  recorded : ∀ c ∈ g.calls, Recorded log c
  completes : ∀ c ∈ g.calls, c.rest.Ends (c.collection.Completes c.command) c.past

theorem exact_initial (retention : Nat) (settings : WatchSettings) (client : Client)
    (kinds : List Kind) : (initial retention settings client kinds).Exact client [] where
  fleet := Fleet.exact_initial retention settings client kinds
  recorded c hc := by cases hc
  completes c hc := by cases hc

theorem Exact.clientMove (h : g.Exact client log) (m : ClientMove) :
    (g.move (.client m)).Exact client (log ++ (g.change? (.client m)).toList) where
  fleet := by
    rw [fleet_client]
    show Fleet.Exact _ client (log ++ ((m.asMove? g.clients).bind g.store.change?).toList)
    cases m.asMove? g.clients with
    | none =>
      rw [Option.bind_none, Option.toList_none, List.append_nil]
      exact h.fleet
    | some move => exact h.fleet.outside move
  recorded c hc := by
    obtain ⟨j, hj⟩ := List.getElem?_of_mem hc
    rcases Clients.call_move (s := g.clients) hj with
      ⟨collection, command, -, rfl⟩ | hbefore | ⟨before, o, hbefore, hseen, rfl⟩
    · intro key value condition revision ho
      cases ho
    · exact (h.recorded c (List.mem_of_getElem? hbefore)).append _
    · have hold := (h.recorded before (List.mem_of_getElem? hbefore)).append
        (g.change? (.client m)).toList
      rcases Clients.past_observe before o with hsame | hlonger
      · rw [hsame]
        exact hold
      · intro key value condition revision ho
        rw [hlonger] at ho
        rcases List.mem_append.1 ho with ho | ho
        · exact hold key value condition revision ho
        · obtain rfl := List.mem_singleton.1 ho
          rw [change?_of_seen hseen]
          simp
  completes := by
    have hcalls : ∀ c ∈ g.clients.calls,
        c.rest.Ends (c.collection.Completes c.command) c.past := h.completes
    exact Clients.ends_move hcalls
      (fun collection command => collection.completes_program command) m

/-- Every move keeps the system exact, and the log grows by the change that it makes. -/
theorem Exact.move (h : g.Exact client log) (m : GatewayMove) :
    (g.move m).Exact client (log ++ (g.change? m).toList) := by
  cases m with
  | client m => exact h.clientMove m
  | fleet m => exact ⟨h.fleet.move m, fun c hc => (h.recorded c hc).append _, h.completes⟩

theorem Exact.run (h : g.Exact client log) (moves : List GatewayMove) :
    (g.run moves).Exact client (log ++ g.changes moves) := by
  induction moves generalizing g log with
  | nil =>
    rw [changes, List.append_nil]
    exact h
  | cons m moves ih =>
    have hrest := ih (h.move m)
    rw [List.append_assoc] at hrest
    exact hrest

end Gateway

end GatewayStore
