/-
  A hub: the collections of several kinds, each with its watch loop. The loops run in the order in
  which the kinds were registered; answers give the kinds in their own order.
-/
import GatewayStore.Clock.FlakeId
import GatewayStore.Hub.Collection
import GatewayStore.Hub.Verification
import GatewayStore.Watch.Loop

namespace GatewayStore

/-- What a watch loop is blocked on besides its stream: a moment, and its place among the things due
then. -/
structure Timer where
  due : Nat
  order : Nat
deriving DecidableEq

/-- What becomes of a call when it is due. -/
inductive Outcome where
  | perform
  | fail (cause : Failure)
deriving DecidableEq

/-- A watch loop at work. `timer` is set while a call or a pause is under way. -/
structure Worker where
  loop : WatchLoop
  timer : Option Timer
  outcome : Outcome

/-- The watch loops of the registered kinds and the generator of their ids. -/
structure Hub where
  workers : List Worker
  ids : FlakeIds

namespace Hub

/-- The caches of the registered kinds. -/
def caches (h : Hub) : Caches := fun kind =>
  (h.workers.find? fun w => w.loop.cache.kind = kind).map fun w => w.loop.cache

/-- The watch loop of a kind. -/
def loop? (h : Hub) (kind : Kind) : Option WatchLoop :=
  (h.workers.find? fun w => w.loop.cache.kind = kind).map Worker.loop

/-- The registered kinds in their order. -/
def kinds (h : Hub) : List Kind := Kind.all.filter fun kind => (h.loop? kind).isSome

/-- The cache of a kind, which must be registered. -/
def cacheOf (h : Hub) (kind : Kind) : Except Failure Cache :=
  match h.caches kind with
  | none => .error (.unknownKind kind.name)
  | some cache => .ok cache

end Hub

/-- The kind with a name. -/
def Kind.parse (name : String) : Except Failure Kind :=
  match ofName? name with
  | none => .error (.unknownKind name)
  | some kind => .ok kind

end GatewayStore
