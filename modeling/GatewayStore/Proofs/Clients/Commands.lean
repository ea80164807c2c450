import GatewayStore.Proofs.Clients.Basic
import GatewayStore.Proofs.Resource.Stored
import GatewayStore.Proofs.Resource.Validation

/-
  What each command does at the store. A create puts a document stamped with the time under the
  condition that its key is absent. A replacement puts either such a document or an update of what it
  has read, under the condition that the key did not change since; a delete only deletes.
  `keeps_program` says so of all commands, together with what they return.
-/

namespace GatewayStore

namespace Collection

/-- Where a resource of the collection is stored. -/
def storageKey (c : Collection) (key : String) : String := c.client.storageKey c.kind key

/-- The calls of a create, given what it has observed. -/
def Creating (c : Collection) (r : Resource) (past : List Observation) (request : Request) : Prop :=
  ∃ (r' : Resource) (now : WallTime) (key : String), r'.payload = r.payload ∧ .time now ∈ past ∧ r'.key? c.kind = some key ∧
    request = .put (c.storageKey key) (r'.stampCreated now).encode (some .absent)

/-- The calls of a replacement: it reads, creates what it did not find or updates what it read. -/
inductive Replacing (c : Collection) (key : String) (r : Resource) (past : List Observation) :
    Request → Prop
  | read : Replacing c key r past (.get (c.storageKey key))
  | created (now : WallTime) (htime : .time now ∈ past) :
    Replacing c key r past
      (.put (c.storageKey key) (r.stampCreated now).encode (some .absent))
  | updated (now : WallTime) (found : StoredKey) (previous : Resource) (htime : .time now ∈ past)
    (hread : .answered (.get (c.storageKey key)) (.ok (some found)) ∈ past)
    (hdecode : Resource.decode key found.value = .ok previous) :
    Replacing c key r past
      (.put (c.storageKey key) (r.stampUpdated now previous).encode
        (some (.unchanged found.modRevision)))

/-- A resource is returned right after the put that wrote it. -/
def Wrote (c : Collection) (key : String) (r : Resource) (condition : Condition)
    (past : List Observation) : Prop :=
  ∃ revision, past.getLast? =
    some (.answered (.put (c.storageKey key) r.encode (some condition)) (.ok revision))

/-- The calls of a command. -/
def Issues (c : Collection) : Command → List Observation → Request → Prop
  | .create r, past, request => c.Creating r past request
  | .update key r, past, request | .upsert key r, past, request =>
    ∃ r', r.bindKey c.kind key = .ok r' ∧ c.Replacing key r' past request
  | .delete key, _, request => request = .delete (c.storageKey key)

/-- The results of a command. -/
def Returns (c : Collection) : Command → List Observation → Option Resource → Prop
  | .create _, past, result =>
    ∃ r key, result = some r ∧ r.key? c.kind = some key ∧ c.Wrote key r .absent past
  | .update key _, past, result | .upsert key _, past, result =>
    ∃ r condition, result = some r ∧ c.Wrote key r condition past
  | .delete _, _, result => result = none

variable {c : Collection} {past : List Observation}

/-! ## Create -/

theorem mapError_eq_ok {ε ε' α : Type} {e : Except ε α} {f : ε → ε'} {a : α} :
    e.mapError f = .ok a ↔ e = .ok a := by
  cases e <;> simp [Except.mapError]

theorem key?_of_validate {r : Resource} {kind : Kind} {live : LiveKeys} {key : String}
    (h : r.validate kind live = .ok key) : r.key? kind = some key :=
  (Resource.validate_eq_ok_iff.1 h).key_eq

theorem validate_of_createCheck {caches : Caches} {r : Resource} {key : String}
    (h : c.createCheck caches r = .ok key) : r.validate c.kind caches.live = .ok key := by
  unfold createCheck at h
  cases hw : c.kind.checkWritable with
  | error cause => rw [hw] at h; cases h
  | ok _ =>
    cases hk : r.checkedKey c.kind caches with
    | error cause => rw [hw, hk] at h; cases h
    | ok found =>
      rw [hw, hk] at h
      simp only [bind, Except.bind] at h
      split at h
      · cases h
      · cases h
        exact mapError_eq_ok.1 hk

theorem key?_of_createCheck {caches : Caches} {r : Resource} {key : String}
    (h : c.createCheck caches r = .ok key) : r.key? c.kind = some key :=
  key?_of_validate (validate_of_createCheck h)

/-- A new resource gets an id at once or draws one; its id is missing only if its key is. -/
theorem withId_cases (c : Collection) (r : Resource) :
    (∃ d, c.withId r = .done d ∧ d.payload = r.payload ∧ (d.id = "" → d.key? c.kind = none)) ∨
    c.kind.isKeyedById = true ∧ c.withId r = .drawId fun id => .done { r with id := id } := by
  unfold withId
  split
  · next hid => exact .inl ⟨r, rfl, rfl, fun hempty => absurd hempty hid⟩
  · split
    · next hgenerates => exact .inr ⟨hgenerates, rfl⟩
    · next hgiven =>
      refine .inl ⟨_, rfl, rfl, fun hempty => ?_⟩
      have hfield : c.kind.isKeyedById = false := by simpa [Kind.generatesKeys] using hgiven
      have hsame (id : String) : Resource.key? { r with id := id } c.kind = r.key? c.kind := by
        simp [Resource.key?, Resource.field?, hfield]
      rw [hsame]
      cases hkey : r.key? c.kind with
      | none => rfl
      | some key =>
        rw [hkey] at hempty
        exact absurd hempty (Resource.ne_of_key? hkey)

theorem keeps_withId {calls : List Observation → Request → Prop}
    {results : List Observation → Resource → Prop} {r : Resource}
    (h : ∀ past d, d.payload = r.payload → (d.id = "" → d.key? c.kind = none) → results past d) :
    (c.withId r).Keeps calls results past := by
  rcases c.withId_cases r with ⟨d, heq, hpayload, hid⟩ | ⟨hkeyed, heq⟩
  · rw [heq]
    exact h past d hpayload hid
  · rw [heq]
    exact fun text => h _ _ rfl (Resource.key?_eq_none hkeyed)

theorem writeFailure_of_ne {key : String} {condition : Condition} {cause : Failure}
    (h : ∀ name, cause ≠ .preconditionFailed name) : writeFailure key condition cause = cause := by
  unfold writeFailure
  split
  · next name => exact absurd rfl (h name)
  · next name => exact absurd rfl (h name)
  · rfl

theorem keeps_create (r : Resource) :
    (c.create r).Keeps (c.Creating r)
      (fun past r => ∃ key, r.key? c.kind = some key ∧ c.Wrote key r .absent past) past := by
  unfold create
  refine Program.keeps_bind (Program.keeps_ofExcept fun _ _ => ?_)
  refine Program.keeps_bind (keeps_withId fun past r' hpayload _ => ?_)
  refine Program.keeps_bind fun now => ?_
  refine Program.keeps_bind fun caches => ?_
  refine Program.keeps_bind (Program.keeps_ofExcept fun key hkey => ?_)
  have hkey' := key?_of_createCheck hkey
  refine Program.keeps_bind ⟨⟨r', now, key, hpayload, by simp, hkey', rfl⟩, fun answer => ?_⟩
  refine Program.keeps_bind (Program.keeps_ofExcept fun revision hrevision => ?_)
  cases answer with
  | error cause => cases hrevision
  | ok revision => exact ⟨key, hkey', revision, by simp [storageKey]⟩

/-! ## Replacement -/

theorem keeps_write {calls : List Observation → Request → Prop}
    {results : List Observation → Except Failure Nat → Prop} {key : String} {r : Resource}
    {condition : Condition}
    (hcall : calls past (.put (c.storageKey key) r.encode (some condition)))
    (hresult : ∀ answer, results
      (past ++ [.answered (.put (c.storageKey key) r.encode (some condition)) answer])
      (answer.mapError (writeFailure key condition))) :
    (c.write key r condition).Keeps calls results past :=
  ⟨hcall, hresult⟩

theorem keeps_replace (key : String) (r : Resource) (creates : Bool) (attempts : Nat) :
    (c.replace key r creates attempts).Keeps (c.Replacing key r)
      (fun past r => ∃ condition, c.Wrote key r condition past) past := by
  induction attempts generalizing past with
  | zero => trivial
  | succ attempts ih =>
    unfold replace
    refine Program.keeps_bind ⟨.read, fun answer => Program.keeps_ofExcept fun found hfound => ?_⟩
    subst hfound
    cases found with
    | none =>
      dsimp only
      split
      · refine Program.keeps_bind fun now => ?_
        refine Program.keeps_bind (keeps_write (.created now (by simp)) fun answer => ?_)
        refine Program.keeps_bind (Program.keeps_ofExcept fun revision hrevision => ?_)
        cases answer with
        | error cause => cases hrevision
        | ok revision => exact ⟨.absent, revision, by simp⟩
      · trivial
    | some found =>
      refine Program.keeps_bind (Program.keeps_ofExcept fun previous hprevious => ?_)
      have hdecode : Resource.decode key found.value = .ok previous := mapError_eq_ok.1 hprevious
      refine Program.keeps_bind fun now => ?_
      refine Program.keeps_bind (keeps_write
        (.updated now found previous (by simp) (by simp [storageKey]) hdecode) fun answer => ?_)
      cases answer with
      | ok revision => exact ⟨.unchanged found.modRevision, revision, by simp⟩
      | error cause =>
        dsimp only [Except.mapError]
        split
        · next h => cases h
        · exact ih
        · trivial

theorem keeps_store (key : String) (r : Resource) (creates : Bool) :
    (c.store key r creates).Keeps
      (fun past request => ∃ r', r.bindKey c.kind key = .ok r' ∧ c.Replacing key r' past request)
      (fun past r => ∃ condition, c.Wrote key r condition past) past := by
  unfold store
  refine Program.keeps_bind (Program.keeps_ofExcept fun _ _ => ?_)
  refine Program.keeps_bind (Program.keeps_ofExcept fun r' hr' => ?_)
  refine Program.keeps_bind fun caches => ?_
  refine Program.keeps_bind (Program.keeps_ofExcept fun _ _ => ?_)
  exact (keeps_replace key r' creates updateAttempts).imp
    (fun past request h => ⟨r', hr', h⟩) fun past r h => h

/-! ## Delete -/

theorem keeps_delete (key : String) :
    (c.delete key).Keeps (fun _ request => request = .delete (c.storageKey key)) (fun _ _ => True)
      past := by
  unfold delete
  refine Program.keeps_bind (Program.keeps_ofExcept fun _ _ => ?_)
  refine Program.keeps_bind (Program.keeps_ofExcept fun _ _ => ?_)
  refine Program.keeps_bind ⟨rfl, fun answer => ?_⟩
  exact Program.keeps_bind (Program.keeps_ofExcept fun _ _ => trivial)

/-! ## All commands -/

/-- Every command makes only the calls and gives only the results that are said of it. -/
theorem keeps_program (c : Collection) (command : Command) :
    (command.program c).Keeps (c.Issues command) (c.Returns command) [] := by
  cases command with
  | create r =>
    refine Program.keeps_bind ((keeps_create r).imp (fun _ _ h => h) fun past r h => ?_)
    obtain ⟨key, hkey, hwrote⟩ := h
    exact ⟨r, key, rfl, hkey, hwrote⟩
  | update key r =>
    refine Program.keeps_bind ((keeps_store key r false).imp (fun _ _ h => h) fun past r h => ?_)
    obtain ⟨condition, hwrote⟩ := h
    exact ⟨r, condition, rfl, hwrote⟩
  | upsert key r =>
    refine Program.keeps_bind ((keeps_store key r true).imp (fun _ _ h => h) fun past r h => ?_)
    obtain ⟨condition, hwrote⟩ := h
    exact ⟨r, condition, rfl, hwrote⟩
  | delete key =>
    exact Program.keeps_bind ((keeps_delete key).imp (fun _ _ h => h) fun _ _ _ => rfl)

end Collection

namespace Clients

/-- In every run, every call keeps to what is said of its command. -/
theorem keeps_calls (retention : Nat) (moves : List ClientMove) :
    ∀ c ∈ ((initial retention).run moves).calls,
      c.rest.Keeps (c.collection.Issues c.command) (c.collection.Returns c.command) c.past :=
  keeps_run (fun c hc => by cases hc) (fun collection command => collection.keeps_program command)
    moves

end Clients

end GatewayStore
