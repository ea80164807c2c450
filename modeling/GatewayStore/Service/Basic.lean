/-
  The life of the service: it connects to the store, opens the hub, and takes both down in reverse.
-/
import GatewayStore.Config.Check
import GatewayStore.Etcd.Endpoint
import GatewayStore.Etcd.Exchange
import GatewayStore.Service.Health
import GatewayStore.Simulation.World

namespace GatewayStore

/-- Why the service does not start. -/
inductive StartFault where
  | settings (fault : SettingsFault)
  | connection (cause : Failure)
  | kinds (fault : SettingsFault)
  | hub (cause : Failure)
deriving DecidableEq

def StartFault.message : StartFault → String
  | .settings fault => "invalid configuration: " ++ fault.message
  | .connection cause => "failed to connect to store: " ++ cause.message
  | .kinds fault => fault.message
  | .hub cause => "failed to initialize store hub: " ++ cause.message

/-- The store behind the settings. There is no server to reach from here, so the calls to one are
refused. -/
def connect (s : StoreSettings) : Except Failure Script :=
  if s.backend = "memory" then .ok .embedded
  else if s.backend = "etcd" then
    match Etcd.checkEndpoints s.endpoints with
    | .error cause => .error (.storeUnavailable cause)
    | .ok _ => .ok (.unreachable Etcd.Status.refused.failure)
  else .error (.storeUnavailable (.unknownBackend s.backend))

/-- The client that the settings ask for. -/
def StoreSettings.client (s : StoreSettings) : Client := .ofRoot s.root s.requestTimeout

/-- A service in its world. `isConnected` tells whether it has a store client, and `isRunning` whether
it was started. A store that the service was given is kept in `aside` once it has connected to
another. -/
structure Service where
  settings : Settings
  isConnected : Bool
  health : Health
  isRunning : Bool
  isStopRequested : Bool
  world : World
  aside : Option Script

namespace Service

/-- A service that has to connect by itself. -/
def ofSettings (settings : Settings) (world : World) : Except StartFault Service :=
  match settings.check with
  | .error fault => .error (.settings fault)
  | .ok _ => .ok ⟨settings, false, .initial, false, false, world, none⟩

/-- A service over a client that is there already. -/
def withClient (settings : Settings) (world : World) (client : Client) :
    Except StartFault Service := do
  let s ← ofSettings settings world
  return { s with isConnected := true, world := { s.world with client := client } }

/-- A service over a store that is there already, with the client that the settings ask for. -/
def withStore (settings : Settings) (world : World) : Except StartFault Service :=
  withClient settings world settings.store.client

def isReady (s : Service) : Bool := s.health.isReady

/-- Takes what comes of connecting to the store, if that has not been done. -/
def openStore (s : Service) (connected : Except Failure Script) : Except StartFault Unit × Service :=
  if s.isConnected then (.ok (), { s with health := { s.health with store := .healthy } })
  else match connected with
    | .error cause =>
      (.error (.connection cause), { s with health := { s.health with store := .failed } })
    | .ok script =>
      (.ok (), { s with
        isConnected := true
        health := { s.health with store := .healthy }
        aside := some (s.aside.getD s.world.script)
        world := { s.world with script := script, client := s.settings.store.client } })

/-- Opens the hub. -/
def openHub (s : Service) : Except StartFault Unit × Service :=
  match s.settings.parsedKinds with
  | .error fault => (.error (.kinds fault), s)
  | .ok kinds =>
    match s.world.openHub s.settings.watch kinds s.settings.store.node with
    | (.error cause, world) =>
      (.error (.hub cause), { s with world := world, health := { s.health with hub := .failed } })
    | (.ok _, world) =>
      (.ok (), { s with world := world, health := { s.health with hub := .healthy } })

/-- Starts the service, given what comes of connecting to the store: first the store, then the hub. -/
def startWith (s : Service) (connected : Except Failure Script) : Except StartFault Unit × Service :=
  match s.openStore connected with
  | (.error fault, s) => (.error fault, s)
  | (.ok _, s) =>
    match s.openHub with
    | (.error fault, s) => (.error fault, s)
    | (.ok _, s) => (.ok (), { s with isRunning := true })

/-- Starts the service over the store that its settings name. -/
def start (s : Service) : Except StartFault Unit × Service := s.startWith (connect s.settings.store)

/-- Asks a running service to stop. -/
def requestStop (s : Service) : Service := { s with isStopRequested := true }

/-- Closes the hub. -/
def closeHub (s : Service) : Service :=
  { s with
    world := { s.world.stopLoops with hub := none }
    health := { s.health with hub := .stopped } }

/-- Closes the connection to the store. -/
def closeStore (s : Service) : Service :=
  let world := if s.isConnected then (s.world.perform .close []).2 else s.world
  { s with world := world, isConnected := false, health := { s.health with store := .stopped } }

/-- Stops the service: first the hub, then the store. -/
def stop (s : Service) : Service :=
  { s with isRunning := false, isStopRequested := true }.closeHub.closeStore

/-- Starts the service, and stops it when that is asked for. -/
def run (s : Service) : Except StartFault Unit × Service :=
  match s.start with
  | (.error fault, s) => (.error fault, s)
  | (.ok _, s) => (.ok (), s.stop)

/-- The store that the service was given, or found at first. -/
def given (s : Service) : Script := s.aside.getD s.world.script

/-- Changes the store that the service was given. -/
def setGiven (s : Service) (script : Script) : Service :=
  match s.aside with
  | some _ => { s with aside := some script }
  | none => { s with world := { s.world with script := script } }

end Service

end GatewayStore
