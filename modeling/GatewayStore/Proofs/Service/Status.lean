import GatewayStore.Proofs.Resource.Validation
import GatewayStore.Proofs.Simulation.Loops
import GatewayStore.Service.Basic

/-
  What the status of a service tells. Its health, its running flag, its hub and its client change one
  after the other, with returns in between; they agree all the same. A start that is refused leaves the
  hub and the flag as they were and marks what failed (`openStore_cases`, `openHub_cases`,
  `startWith_cases`); with valid settings there is no refusal that marks nothing, since their kinds are
  known (`parsedKinds_of_check`). So the calls that have returned, and the last of them, can be read off
  the status (`IsTruthful`), along with loops that a shutdown can close (`Tells`); every move keeps this
  (`Tells.move`), and a stop leaves nothing behind (`Tells.stopsAll`).
-/

namespace GatewayStore

/-! ## Moves -/

/-- A call on a service, or what happens to it between two calls. -/
inductive ServiceMove where
  /-- a start, with what comes of connecting to the store -/
  | start (connected : Except Failure Script)
  | requestStop
  | stop
  /-- the store changes, with the failures that it has ready -/
  | alter (script : Script)
  | sleep (milliseconds : Nat)
  | serve (program : Program Unit)

/-- What a start or a stop returned. -/
inductive Returned where
  | started
  | refused (fault : StartFault)
  | stopped
deriving DecidableEq

namespace Service

/-- The service after a move. -/
def move (s : Service) : ServiceMove → Service
  | .start connected => (s.startWith connected).2
  | .requestStop => s.requestStop
  | .stop => s.stop
  | .alter script => { s with world := { s.world with script := script } }
  | .sleep milliseconds => { s with world := s.world.sleep milliseconds }
  | .serve program => { s with world := (s.world.run program).2 }

/-- The service after some moves. -/
def moves (s : Service) (l : List ServiceMove) : Service := l.foldl move s

/-- What a move returns, if it is a start or a stop. -/
def returned? (s : Service) : ServiceMove → Option Returned
  | .start connected =>
    match (s.startWith connected).1 with
    | .ok _ => some .started
    | .error fault => some (.refused fault)
  | .stop => some .stopped
  | _ => none

/-- What some moves return, the latest first. -/
def log (s : Service) : List ServiceMove → List Returned
  | [] => []
  | m :: later => (s.move m).log later ++ (s.returned? m).toList

/-- What was returned since the last stop. -/
def sinceStop (log : List Returned) : List Returned := log.takeWhile fun r => r ≠ .stopped

/-- The status of a service tells what its calls returned. -/
structure IsTruthful (s : Service) (log : List Returned) : Prop where
  /-- It is ready if the latest start or stop was a start that succeeded. -/
  ready_iff : s.isReady = true ↔ log.head? = some .started
  /-- It is running if a start succeeded since the last stop. -/
  running_iff : s.isRunning = true ↔ .started ∈ sinceStop log
  /-- It has a hub while it is running. -/
  hub_isSome : s.world.hub.isSome = s.isRunning

/-- A stop of the service leaves nothing behind. -/
structure StopsAll (s : Service) : Prop where
  disconnects : s.stop.isConnected = false
  hub_eq : s.stop.world.hub = none
  health_eq : s.stop.health = ⟨.stopped, .stopped⟩
  /-- The hub is dropped in the world in which its loops have stopped. -/
  dropped : s.closeHub.world = { s.world.stopLoops with hub := none }
  /-- Every loop of the hub is stopped, in its place. -/
  loops_eq : s.world.stopLoops.loops = s.world.loops.map fun l => l.react .shutdown
  /-- A loop that has stopped is closed. -/
  closed : ∀ l ∈ s.world.stopLoops.loops, l.session.phase = .closed

variable {s : Service}

/-! ## Starts -/

/-- Valid settings name no unknown kind. -/
theorem parsedKinds_of_check {settings : Settings} (h : settings.check = .ok ()) :
    ∃ kinds, settings.parsedKinds = .ok kinds := by
  unfold Settings.check at h
  rw [Except.bind_eq_ok_iff, Except.bind_eq_ok_iff] at h
  obtain ⟨-, -, h⟩ := h
  cases hkinds : settings.parsedKinds with
  | ok kinds => exact ⟨kinds, rfl⟩
  | error fault =>
    rw [hkinds] at h
    cases h

/-- A refused start: something is marked as failed, and what runs goes on. -/
structure Refuses (s s' : Service) : Prop where
  settings_eq : s'.settings = s.settings
  isReady_eq : s'.isReady = false
  isRunning_eq : s'.isRunning = s.isRunning
  continues : s.world.Continues s'.world

/-- A store that was opened: nothing else is touched. -/
structure OpensStore (s s' : Service) : Prop where
  settings_eq : s'.settings = s.settings
  store_eq : s'.health.store = .healthy
  isRunning_eq : s'.isRunning = s.isRunning
  hub_eq : s'.world.hub = s.world.hub

/-- A hub that was opened: its loops run. -/
structure OpensHub (s s' : Service) : Prop where
  settings_eq : s'.settings = s.settings
  health_eq : s'.health = { s.health with hub := .healthy }
  hub_isSome : s'.world.hub.isSome = true
  runs : ∀ l ∈ s'.world.loops, l.Runs

/-- A start that succeeded. -/
structure Starts (s s' : Service) : Prop where
  settings_eq : s'.settings = s.settings
  isReady_eq : s'.isReady = true
  isRunning_eq : s'.isRunning = true
  hub_isSome : s'.world.hub.isSome = true
  runs : ∀ l ∈ s'.world.loops, l.Runs

theorem openStore_cases (s : Service) (connected : Except Failure Script) :
    (∃ fault s', s.openStore connected = (.error fault, s') ∧ s.Refuses s') ∨
      ∃ s', s.openStore connected = (.ok (), s') ∧ s.OpensStore s' := by
  unfold openStore
  split
  · exact .inr ⟨_, rfl, rfl, rfl, rfl, rfl⟩
  · split
    · exact .inl ⟨_, _, rfl, rfl, rfl, rfl, .refl _⟩
    · exact .inr ⟨_, rfl, rfl, rfl, rfl, rfl⟩

theorem openHub_cases (hvalid : s.settings.check = .ok ()) :
    (∃ fault s', s.openHub = (.error fault, s') ∧ s.Refuses s') ∨
      ∃ s', s.openHub = (.ok (), s') ∧ s.OpensHub s' := by
  obtain ⟨kinds, hkinds⟩ := parsedKinds_of_check hvalid
  unfold openHub
  rw [hkinds]
  dsimp only
  split
  · next hopen =>
    refine .inl ⟨_, _, rfl, rfl, ?_, rfl, World.continues_openHub hopen⟩
    exact Bool.and_false _
  · next hopen =>
    obtain ⟨hhub, hruns⟩ := World.hub_openHub hopen
    exact .inr ⟨_, rfl, rfl, rfl, hhub, hruns⟩

/-- A start is refused or succeeds; it is refused by the store before the hub is touched. -/
theorem startWith_cases (hvalid : s.settings.check = .ok ()) (connected : Except Failure Script) :
    (∃ fault s', s.startWith connected = (.error fault, s') ∧ s.Refuses s') ∨
      ∃ s', s.startWith connected = (.ok (), s') ∧ s.Starts s' := by
  unfold startWith
  rcases s.openStore_cases connected with ⟨fault, s', hstore, hrefuses⟩ | ⟨s', hstore, hopens⟩
  · rw [hstore]
    exact .inl ⟨fault, s', rfl, hrefuses⟩
  · rw [hstore]
    dsimp only
    have hvalid' : s'.settings.check = .ok () := hopens.settings_eq ▸ hvalid
    rcases openHub_cases hvalid' with ⟨fault, s'', hhub, hrefuses⟩ | ⟨s'', hhub, hhas⟩
    · rw [hhub]
      refine .inl ⟨fault, s'', rfl, ?_, hrefuses.isReady_eq, ?_, ?_⟩
      · exact hrefuses.settings_eq.trans hopens.settings_eq
      · exact hrefuses.isRunning_eq.trans hopens.isRunning_eq
      · exact hrefuses.continues.after_outside hopens.hub_eq
    · rw [hhub]
      refine .inr ⟨_, rfl, ?_, ?_, rfl, hhas.hub_isSome, hhas.runs⟩
      · exact hhas.settings_eq.trans hopens.settings_eq
      · show s''.health.isReady = true
        rw [hhas.health_eq, Health.isReady, hopens.store_eq]
        rfl

/-! ## Stops -/

theorem continues_closeStore (s : Service) : s.world.Continues s.closeStore.world := by
  unfold closeStore
  dsimp only
  split
  · exact s.world.continues_perform _ _
  · exact .refl _

/-- Once it is dropped, a hub does not come back while the connection is closed. -/
theorem hub_stop (s : Service) : s.stop.world.hub = none := by
  have h : s.stop.world.hub.isSome = false := (continues_closeStore _).hub_isSome
  exact Option.isNone_iff_eq_none.1 (Option.isSome_eq_false_iff.1 h)

/-! ## What every move keeps -/

/-- The status of a service tells what its calls returned, its settings are valid, and its loops run. -/
structure Tells (s : Service) (log : List Returned) : Prop extends s.IsTruthful log where
  valid : s.settings.check = .ok ()
  runs : ∀ l ∈ s.world.loops, l.Runs

namespace Tells

variable {log : List Returned}

/-- A service whose hub goes on and whose status stays. -/
theorem of_continues {s' : Service} (h : s.Tells log) (hsettings : s'.settings = s.settings)
    (hhealth : s'.health = s.health) (hrunning : s'.isRunning = s.isRunning)
    (hworld : s.world.Continues s'.world) : s'.Tells log where
  ready_iff := by
    rw [isReady, hhealth]
    exact h.ready_iff
  running_iff := by
    rw [hrunning]
    exact h.running_iff
  hub_isSome := by rw [hworld.hub_isSome, hrunning, h.hub_isSome]
  valid := by rw [hsettings, h.valid]
  runs := hworld.forall_loops (fun _ signals hl => hl.after signals) h.runs

theorem refuses {s' : Service} (h : s.Tells log) (hrefuses : s.Refuses s') (fault : StartFault) :
    s'.Tells (.refused fault :: log) where
  ready_iff := by simp [hrefuses.isReady_eq]
  running_iff := by
    rw [hrefuses.isRunning_eq, h.running_iff]
    simp [sinceStop]
  hub_isSome := by rw [hrefuses.continues.hub_isSome, hrefuses.isRunning_eq, h.hub_isSome]
  valid := by rw [hrefuses.settings_eq, h.valid]
  runs := hrefuses.continues.forall_loops (fun _ signals hl => hl.after signals) h.runs

theorem starts {s' : Service} (h : s.Tells log) (hstarts : s.Starts s') :
    s'.Tells (.started :: log) where
  ready_iff := by simp [hstarts.isReady_eq]
  running_iff := by simp [hstarts.isRunning_eq, sinceStop]
  hub_isSome := by rw [hstarts.hub_isSome, hstarts.isRunning_eq]
  valid := by rw [hstarts.settings_eq, h.valid]
  runs := hstarts.runs

theorem stop (h : s.Tells log) : s.stop.Tells (.stopped :: log) where
  ready_iff := by simp [isReady, Service.stop, closeStore, Health.isReady]
  running_iff := by simp [Service.stop, closeStore, closeHub, sinceStop]
  hub_isSome := by
    rw [hub_stop]
    rfl
  valid := h.valid
  runs := by
    rw [World.loops, World.workers, hub_stop]
    exact List.forall_mem_nil _

/-- Every move keeps the status true. -/
theorem move (h : s.Tells log) (m : ServiceMove) :
    (s.move m).Tells ((s.returned? m).toList ++ log) := by
  cases m with
  | start connected =>
    rcases startWith_cases h.valid connected with ⟨fault, s', hstart, hrefuses⟩ | ⟨s', hstart, hstarts⟩
    · simp only [Service.move, returned?, hstart]
      exact h.refuses hrefuses fault
    · simp only [Service.move, returned?, hstart]
      exact h.starts hstarts
  | stop => exact h.stop
  | requestStop => exact h.of_continues rfl rfl rfl (.refl _)
  | alter script => exact h.of_continues rfl rfl rfl (.of_hub_eq rfl)
  | sleep milliseconds => exact h.of_continues rfl rfl rfl (s.world.continues_sleep milliseconds)
  | serve program => exact h.of_continues rfl rfl rfl (s.world.continues_run program)

theorem moves (h : s.Tells log) (l : List ServiceMove) : (s.moves l).Tells (s.log l ++ log) := by
  induction l generalizing s log with
  | nil => exact h
  | cons m later ih =>
    have hlater := ih (h.move m)
    rwa [← List.append_assoc] at hlater

theorem stopsAll (h : s.Tells log) : s.StopsAll where
  disconnects := rfl
  hub_eq := s.hub_stop
  health_eq := rfl
  dropped := rfl
  loops_eq := s.world.loops_stopLoops
  closed := World.closed_of_stopLoops h.runs

end Tells

/-- A service that was never started. -/
theorem tells_nil (hvalid : s.settings.check = .ok ()) (hhealth : s.health = .initial)
    (hrunning : s.isRunning = false) (hhub : s.world.hub = none) : s.Tells [] where
  ready_iff := by simp [isReady, hhealth, Health.initial, Health.isReady]
  running_iff := by simp [hrunning, sinceStop]
  hub_isSome := by rw [hhub, hrunning]; rfl
  valid := hvalid
  runs := by
    rw [World.loops, World.workers, hhub]
    exact List.forall_mem_nil _

/-! ## The main result -/

/-- With valid settings a service can be made, with or without a client, and whatever is done with it,
its status tells what its calls returned, and a stop leaves nothing behind. -/
theorem status_truthful (settings : Settings) (hvalid : settings.check = .ok ()) (script : Script)
    (client own : Client) (wall : WallTime) :
    ∀ create ∈ [ofSettings settings, fun world => withClient settings world own],
      ∃ s, create (.ofScript script client wall) = .ok s ∧
        ∀ l, (s.moves l).IsTruthful (s.log l) ∧ (s.moves l).StopsAll := by
  have hmade (s : Service) (h : s.Tells []) (l : List ServiceMove) :
      (s.moves l).IsTruthful (s.log l) ∧ (s.moves l).StopsAll := by
    have hmoves := h.moves l
    rw [List.append_nil] at hmoves
    exact ⟨hmoves.toIsTruthful, hmoves.stopsAll⟩
  have hof : ofSettings settings (.ofScript script client wall) =
      .ok ⟨settings, false, .initial, false, false, .ofScript script client wall, none⟩ := by
    rw [ofSettings, hvalid]
  have hwith : withClient settings (.ofScript script client wall) own =
      .ok ⟨settings, true, .initial, false, false, .ofScript script own wall, none⟩ := by
    rw [withClient, hof]
    rfl
  intro create hcreate
  rw [List.mem_cons, List.mem_singleton] at hcreate
  rcases hcreate with rfl | rfl
  · exact ⟨_, hof, hmade _ (tells_nil hvalid rfl rfl rfl)⟩
  · exact ⟨_, hwith, hmade _ (tells_nil hvalid rfl rfl rfl)⟩

/-- A store whose first listing fails after a while. -/
def fragile : Script :=
  (Script.ofStore .empty).plan
    [⟨"range", some "/apisix/routes/", ⟨5, some (.storeUnavailable .offline)⟩⟩]

/-- The store is not reached, then its listing fails, then the service starts; a start after that
fails while the service runs. -/
def restless : List ServiceMove :=
  [.start (.error (.storeUnavailable .offline)), .start (.ok fragile), .start (.ok fragile),
    .sleep 10, .alter fragile, .start (.ok fragile), .requestStop]

/-- What these moves return, the latest first. -/
def restlessLog : List Returned :=
  [.refused (.hub (.storeUnavailable .offline)), .started,
    .refused (.hub (.storeUnavailable .offline)),
    .refused (.connection (.storeUnavailable .offline))]

theorem status_truthful_restless :
    let settings := { Settings.inMemory with kinds := ["routes"] }
    ∃ s, ofSettings settings (.ofScript .embedded settings.store.client ⟨0⟩) = .ok s ∧
      s.log restless = restlessLog ∧
      (s.moves restless).isReady = false ∧ (s.moves restless).isRunning = true ∧
      (s.moves restless).world.loops.map (fun l => l.session.phase) = [.streaming] ∧
      (s.moves restless).StopsAll := by
  intro settings
  have hvalid : settings.check = .ok () := by decide +kernel
  obtain ⟨s, hs, htells⟩ := status_truthful settings hvalid .embedded settings.store.client
    settings.store.client ⟨0⟩ _ List.mem_cons_self
  have hrun : s.log restless = restlessLog ∧
      (s.moves restless).world.loops.map (fun l => l.session.phase) = [.streaming] := by
    rw [ofSettings, hvalid] at hs
    cases hs
    decide +kernel
  obtain ⟨hlog, hphases⟩ := hrun
  obtain ⟨htrue, hstops⟩ := htells restless
  refine ⟨s, hs, hlog, ?_, ?_, hphases, hstops⟩
  · rw [Bool.eq_false_iff, Ne, htrue.ready_iff, hlog]
    decide
  · rw [htrue.running_iff, hlog]
    decide

end Service

end GatewayStore
