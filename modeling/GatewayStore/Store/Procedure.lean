/-
  Calls as they run: step by step on one store. A failure ends a call where it is, and what the call has
  changed by then stays changed.
-/
import GatewayStore.Store.Request

namespace GatewayStore

/-- A run on a store that gives something or fails. -/
abbrev Procedure (α : Type) := ExceptT Failure (StateM Store) α

namespace Procedure

variable {α β : Type}

/-- What a run gives, and the store that it leaves. -/
def on (p : Procedure α) (s : Store) : Except Failure α × Store := (p.run.run s).run

/-- Fails in an outage. -/
def requireOnline : Procedure Unit := do
  if (← get).isOffline then throw (.storeUnavailable .offline)

/-- Goes on to the next revision. -/
def nextRevision : Procedure Nat := do
  modify fun s => { s with revision := s.revision + 1 }
  return (← get).revision

def listKeys (keyPrefix : String) : Procedure Listing := do
  requireOnline
  let s ← get
  return ⟨s.keysUnder keyPrefix, s.revision⟩

def readKey (key : String) : Procedure (Option StoredKey) := do
  requireOnline
  return ((← get).index.get? key).map (Record.listed key)

/-- Writes a key. The condition is checked before anything changes. -/
def writeKey (key : String) (value : Bytes) (condition : Option Condition) : Procedure Nat := do
  requireOnline
  let existing := (← get).index.get? key
  if !condition.all (·.holds existing) then throw (.preconditionFailed key)
  let revision ← nextRevision
  let created := (existing.map Record.createRevision).getD revision
  modify fun s => { s with index := s.index.insert key ⟨value, created, revision⟩ }
  modify (·.record ⟨key, .put value, revision⟩)
  return revision

/-- Removes a key. It is taken out of the index before it is known whether it was there. -/
def removeKey (key : String) : Procedure Nat := do
  requireOnline
  let removed := (← get).index.get? key
  modify fun s => { s with index := s.index.erase key }
  if removed.isNone then throw (.notFound key)
  let revision ← nextRevision
  modify (·.record ⟨key, .delete, revision⟩)
  return revision

/-- Opens a stream and gives its number. -/
def openStream (keyPrefix : String) (start : Nat) : Procedure Nat := do
  requireOnline
  let s ← get
  if s.isWatchOffline then throw (.storeUnavailable .watchOffline)
  set (s.addStream (s.watchStream keyPrefix start))
  return s.nextStream

/-- What is done for a call. -/
def ofRequest : (r : Request) → Procedure r.Answer
  | .range keyPrefix => listKeys keyPrefix
  | .get key => readKey key
  | .put key value condition => writeKey key value condition
  | .delete key => removeKey key
  | .watch keyPrefix start => openStream keyPrefix start
  | .close => modify Store.close

@[simp]
theorem on_pure (a : α) (s : Store) : (pure a : Procedure α).on s = (.ok a, s) := rfl

@[simp]
theorem on_throw (cause : Failure) (s : Store) :
    (throw cause : Procedure α).on s = (.error cause, s) := rfl

@[simp]
theorem on_get (s : Store) : (get : Procedure Store).on s = (.ok s, s) := rfl

@[simp]
theorem on_set (s s' : Store) : (set s' : Procedure PUnit).on s = (.ok ⟨⟩, s') := rfl

@[simp]
theorem on_modify (f : Store → Store) (s : Store) :
    (modify f : Procedure PUnit).on s = (.ok ⟨⟩, f s) := rfl

/-- After a failure nothing more is done. -/
@[simp]
theorem on_bind (p : Procedure α) (next : α → Procedure β) (s : Store) : (p >>= next).on s =
    match p.on s with
    | (.ok a, left) => (next a).on left
    | (.error cause, left) => (.error cause, left) := by
  show (ExceptT.bindCont next (p.on s).1) (p.on s).2 = _
  rcases p.on s with ⟨a | cause, left⟩ <;> rfl

@[simp]
theorem on_map (f : α → β) (p : Procedure α) (s : Store) :
    (f <$> p).on s = ((p.on s).1.map f, (p.on s).2) := by
  rw [← bind_pure_comp, on_bind]
  rcases p.on s with ⟨a | cause, left⟩ <;> rfl

@[simp]
theorem on_requireOnline (s : Store) : requireOnline.on s = (s.checkOnline, s) := by
  unfold requireOnline Store.checkOnline
  rw [on_bind, on_get]
  dsimp only
  split <;> simp

@[simp]
theorem on_nextRevision (s : Store) :
    nextRevision.on s = (.ok (s.revision + 1), { s with revision := s.revision + 1 }) := rfl

end Procedure

/-- Runs a call: what it answers, and the store that it leaves. -/
def Store.call (s : Store) (r : Request) : Except Failure r.Answer × Store :=
  (Procedure.ofRequest r).on s

end GatewayStore
