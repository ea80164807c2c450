import GatewayStore.Proofs.Clients.Commands
import GatewayStore.Proofs.Hub.Execution

/-
  A creation and its check. Before it checks a resource, a create gives it an id and stamps it with the
  time. Neither changes what the check says: a time is not looked at (`validate_stampCreated`), and the
  id of a consumer is then its key, which has been checked already (`validate_withKey`). So a create
  does what the check of the given resource says, or of the resource with the id that was drawn for it
  (`create_heeds_check`).
-/

namespace GatewayStore

/-! ## What is checked -/

namespace Resource

variable {r : Resource} {kind : Kind} {live : LiveKeys}

theorem validate_stampCreated (now : WallTime) :
    (r.stampCreated now).validate kind live = r.validate kind live :=
  validate_congr rfl fun _ _ => rfl

/-- The key of a consumer may be its id as well, for it is checked the same way. -/
theorem validate_withKey (hkeyed : kind.isKeyedById = false) :
    (r.withKey ((r.key? kind).getD "")).validate kind live = r.validate kind live := by
  by_cases hid : r.id = ""
  · cases hkey : r.key? kind with
    | none => rw [Option.getD_none, withKey_of_eq hid, ← hid]
    | some key =>
      rw [Option.getD_some, validate_eq hkey, validate_eq ((key?_withKey hkeyed key).trans hkey),
        withKey_of_eq hid]
      cases checkKey key with
      | error fault => rfl
      | ok _ =>
        rw [ite_self, if_neg fun h => h.1 hid]
        rfl
  · rw [withKey_of_ne hid]

end Resource

namespace Collection

variable {σ : Type} {around : Surroundings σ} {c : Collection} {r d : Resource} {s left : σ}

theorem createCheck_congr {caches : Caches} {r' : Resource}
    (h : r'.validate c.kind caches.live = r.validate c.kind caches.live) :
    c.createCheck caches r' = c.createCheck caches r := by
  unfold createCheck Resource.checkedKey
  rw [h]

/-! ## Runs of a create -/

/-- The call with which a create stores a document. -/
def createPut (c : Collection) (key : String) (document : Resource) : Request :=
  .put (c.storageKey key) document.encode (some .absent)

/-- A create makes one call, which stores a document where nothing may be yet. It returns the document
or fails as the call does, except that a key that is taken is named. -/
structure CreatesOnce (c : Collection) (around : Surroundings σ) (key : String) (document : Resource)
    (s : σ) (run : Execution σ Resource) : Prop where
  key_eq : document.key? c.kind = some key
  calls : run.calls = [c.createPut key document]
  left : run.left = (around.serve s (c.createPut key document)).2
  stored : ∀ revision, (around.serve s (c.createPut key document)).1 = .ok revision →
    run.outcome = .ok document
  taken : ∀ name, (around.serve s (c.createPut key document)).1 = .error (.preconditionFailed name) →
    run.outcome = .error (.alreadyExists key)
  failed : ∀ cause, (∀ name, cause ≠ .preconditionFailed name) →
    (around.serve s (c.createPut key document)).1 = .error cause → run.outcome = .error cause

/-- A create does as a check says: it fails like the check, without a call, or stores the resource under
the key that the check gives. -/
structure Heeds (c : Collection) (around : Surroundings σ) (r : Resource) (s : σ)
    (check : Except Failure String) (run : Execution σ Resource) : Prop where
  refused : ∀ cause, check = .error cause → run = ⟨.error cause, [], s⟩
  accepted : ∀ key, check = .ok key →
    c.CreatesOnce around key ((r.withKey key).stampCreated (around.clock s)) s run
  calls_iff : run.calls ≠ [] ↔ ∃ key, check = .ok key

theorem execute_write_bind (key : String) (f : Except Failure Nat → Program Resource) :
    (c.write key d .absent >>= f).execute around s =
      ((f ((around.serve s (c.createPut key d)).1.mapError (writeFailure key .absent))).execute around
        (around.serve s (c.createPut key d)).2).after [c.createPut key d] := rfl

/-- After the id nothing but the check decides. -/
theorem execute_create (hwritable : c.kind.checkWritable = .ok ())
    (hid : (c.withId r).execute around s = ⟨.ok d, [], left⟩) :
    (c.create r).execute around s =
      let document := d.stampCreated (around.clock left)
      match c.createCheck (around.caches left) document with
      | .error cause => ⟨.error cause, [], left⟩
      | .ok key =>
        let answer := around.serve left (c.createPut key document)
        ⟨(answer.1.mapError (writeFailure key .absent)).map fun _ => document,
          [c.createPut key document], answer.2⟩ := by
  unfold create
  rw [hwritable, Program.execute_ofExcept_bind]
  dsimp only
  rw [Program.execute_bind, hid]
  dsimp only
  rw [Execution.after_nil, Program.execute_clock_bind, Program.execute_caches_bind,
    Program.execute_ofExcept_bind]
  cases c.createCheck (around.caches left) (d.stampCreated (around.clock left)) with
  | error cause => rfl
  | ok key =>
    dsimp only
    rw [execute_write_bind, Program.execute_ofExcept_bind]
    cases (around.serve left _).1 <;> rfl

/-- A create heeds the check of the resource with its id, if that is the id which the check's key gives
it. -/
theorem heeds_of_withId (hwritable : c.kind.checkWritable = .ok ())
    (hid : (c.withId r).execute around s = ⟨.ok d, [], left⟩)
    (hd : ∀ key, d.key? c.kind = some key → d = r.withKey key) :
    c.Heeds around r left (c.createCheck (around.caches left) d) ((c.create r).execute around s) := by
  have hstamped : c.createCheck (around.caches left) (d.stampCreated (around.clock left)) =
      c.createCheck (around.caches left) d := createCheck_congr (Resource.validate_stampCreated _)
  rw [execute_create hwritable hid]
  dsimp only
  rw [hstamped]
  cases hcheck : c.createCheck (around.caches left) d with
  | error cause => exact ⟨fun _ h => by cases h; rfl, nofun, by simp⟩
  | ok key =>
    have hkey : d.key? c.kind = some key := key?_of_createCheck hcheck
    refine ⟨nofun, fun _ h => ?_, by simp⟩
    cases h
    rw [← hd key hkey]
    have houtcome {answer : Except Failure Nat}
        (h : (around.serve left (c.createPut key (d.stampCreated (around.clock left)))).1 = answer) :=
      congrArg (fun answer : Except Failure Nat =>
        (answer.mapError (writeFailure key .absent)).map fun _ => d.stampCreated (around.clock left)) h
    exact {
      key_eq := hkey
      calls := rfl
      left := rfl
      stored revision h := houtcome h
      taken name h := houtcome h
      failed cause hcause h := (houtcome h).trans (congrArg Except.error (writeFailure_of_ne hcause)) }

theorem execute_withId_of_ne (hid : r.id ≠ "") : (c.withId r).execute around s = ⟨.ok r, [], s⟩ := by
  unfold withId
  rw [if_pos hid]
  rfl

theorem execute_withId_of_keyed (hid : r.id = "") (hkeyed : c.kind.isKeyedById = true) :
    (c.withId r).execute around s =
      ⟨.ok { r with id := (around.draw s).1 }, [], (around.draw s).2⟩ := by
  unfold withId
  rw [if_neg (not_not_intro hid), if_pos (show c.kind.generatesKeys = true from hkeyed)]
  rfl

theorem execute_withId_of_not_keyed (hkeyed : c.kind.isKeyedById = false) :
    (c.withId r).execute around s = ⟨.ok (r.withKey ((r.key? c.kind).getD "")), [], s⟩ := by
  unfold withId Resource.withKey Kind.generatesKeys
  rw [hkeyed]
  by_cases hid : r.id = ""
  · rw [if_neg (not_not_intro hid), if_pos hid]
    rfl
  · rw [if_pos hid, if_neg hid]
    rfl

/-! ## The main result -/

/-- A create heeds its check. If the resource has an id or is a consumer, that is the check of the
resource as it is given; if it gets an id, the check of the resource with that id. -/
theorem create_heeds_check (c : Collection) (around : Surroundings σ) (r : Resource) (s : σ) :
    (r.id ≠ "" ∨ c.kind = .consumer →
      c.Heeds around r s (c.createCheck (around.caches s) r) ((c.create r).execute around s)) ∧
    (r.id = "" → c.kind.isKeyedById = true → c.kind.isWritable = true →
      c.Heeds around r (around.draw s).2
        (c.createCheck (around.caches s) { r with id := (around.draw s).1 })
        ((c.create r).execute around s)) := by
  constructor
  · intro hgiven
    cases hwritable : c.kind.checkWritable with
    | error cause =>
      have hcheck : c.createCheck (around.caches s) r = .error cause := by
        unfold createCheck
        rw [hwritable]
        rfl
      have hrun : (c.create r).execute around s = ⟨.error cause, [], s⟩ := by
        unfold create
        rw [hwritable, Program.execute_ofExcept_bind]
      rw [hcheck, hrun]
      exact ⟨fun _ h => by cases h; rfl, nofun, by simp⟩
    | ok _ =>
      by_cases hid : r.id = ""
      · have hkeyed : c.kind.isKeyedById = false :=
          Kind.isKeyedById_eq_false_iff.2 (hgiven.resolve_left (not_not_intro hid))
        rw [← createCheck_congr (Resource.validate_withKey hkeyed)]
        refine heeds_of_withId hwritable (execute_withId_of_not_keyed hkeyed) fun key hkey => ?_
        rw [Resource.key?_withKey hkeyed] at hkey
        rw [hkey, Option.getD_some]
      · exact heeds_of_withId hwritable (execute_withId_of_ne hid)
          fun key _ => (Resource.withKey_of_ne hid).symm
  · intro hid hkeyed hwritable
    have hchecked : c.kind.checkWritable = .ok () := if_pos hwritable
    rw [← around.caches_draw s]
    refine heeds_of_withId hchecked (execute_withId_of_keyed hid hkeyed) fun key hkey => ?_
    rw [Resource.withKey_of_eq hid, ← Resource.id_eq_of_key? hkeyed hkey]

/-- A consumer that has no id but a name. -/
def namedConsumer : Resource := ⟨"", 0, 0, .ofPairs [("username", .string "jack")]⟩

/-- A consumer is created under its name, a service under the id that it draws, and a route that leads
nowhere is refused. -/
theorem create_heeds_check_unnumbered :
    let client : Client := ⟨"/apisix", 1000⟩
    let around := Store.alone ⟨5000⟩ "7" fun _ => none
    let create (kind : Kind) (r : Resource) :=
      (Collection.create ⟨kind, client⟩ r).execute around .empty
    (create .consumer namedConsumer).outcome = .ok ⟨"jack", 5, 5, namedConsumer.payload⟩ ∧
      (create .service ⟨"", 0, 0, .empty⟩).calls =
        [createPut ⟨.service, client⟩ "7" ⟨"7", 5, 5, .empty⟩] ∧
      create .route ⟨"r1", 0, 0, .empty⟩ =
        ⟨.error (.validation (.needsOneOf "route" "uri" "uris")), [], .empty⟩ := by
  intro client around create
  have hconsumer := (create_heeds_check ⟨.consumer, client⟩ around namedConsumer .empty).1 (.inr rfl)
  have hservice :=
    (create_heeds_check ⟨.service, client⟩ around ⟨"", 0, 0, .empty⟩ .empty).2 rfl rfl rfl
  have hroute :=
    (create_heeds_check ⟨.route, client⟩ around ⟨"r1", 0, 0, .empty⟩ .empty).1 (.inl (by decide))
  exact ⟨(hconsumer.accepted "jack" rfl).stored (show Nat from 1) rfl,
    (hservice.accepted "7" (by decide)).calls, hroute.refused _ rfl⟩

end Collection

end GatewayStore
