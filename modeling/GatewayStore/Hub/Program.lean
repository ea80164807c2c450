/-
  What a request to the hub does, as a tree of the effects that it needs: calls to the store, the
  clock, new ids and the caches. The one who runs a program decides how the calls of several programs
  interleave.
-/
import GatewayStore.Cache.Basic
import GatewayStore.Clock.Time
import GatewayStore.Store.Request

namespace GatewayStore

/-- A computation over the store. -/
inductive Program (α : Type) where
  | done (result : α)
  | failed (cause : Failure)
  | call (request : Request) (next : Except Failure request.Answer → Program α)
  | readClock (next : WallTime → Program α)
  | drawId (next : String → Program α)
  | readCaches (next : Caches → Program α)

namespace Program

variable {α β : Type}

/-- Goes on with the result of a program. A failure ends everything. -/
def bind : Program α → (α → Program β) → Program β
  | .done a, f => f a
  | .failed cause, _ => .failed cause
  | .call request next, f => .call request fun answer => (next answer).bind f
  | .readClock next, f => .readClock fun now => (next now).bind f
  | .drawId next, f => .drawId fun id => (next id).bind f
  | .readCaches next, f => .readCaches fun caches => (next caches).bind f

instance : Monad Program where
  pure := .done
  bind := bind

/-- A call with its answer or failure. -/
def attempt (request : Request) : Program (Except Failure request.Answer) := .call request .done

def ofExcept : Except Failure α → Program α
  | .ok a => .done a
  | .error cause => .failed cause

/-- A call whose failure ends the program. -/
def request (request : Request) : Program request.Answer := .call request ofExcept

def clock : Program WallTime := .readClock .done

def freshId : Program String := .drawId .done

def caches : Program Caches := .readCaches .done

@[simp]
theorem pure_bind (a : α) (f : α → Program β) : (pure a : Program α) >>= f = f a := rfl

@[simp]
theorem failed_bind (cause : Failure) (f : α → Program β) :
    (Program.failed cause : Program α) >>= f = .failed cause := rfl

end Program

end GatewayStore
