import GatewayStore.Proofs.Clients.Commands

/-
  The rounds of a replacement. In a round the key and the clock are read, and what was read is updated
  under the condition that its key did not change. A round whose put is refused for its condition is
  followed by another one, as long as there are attempts left. `replaces_replace` says of every way in
  which a replacement ends what it has observed, from the first round to the last.
-/

namespace GatewayStore

/-- What a command replaces: the key, the document that is given for it, and whether an absent key is
created. -/
def Command.replacement? : Command → Option (String × Resource × Bool)
  | .update key r => some (key, r, false)
  | .upsert key r => some (key, r, true)
  | .create _ | .delete _ => none

namespace Collection

/-- What is observed in a round of an update: what was read, the time, and the answer to the put. -/
def round (c : Collection) (key : String) (found : StoredKey) (now : WallTime) (document : Resource)
    (answer : Except Failure Nat) : List Observation :=
  [.answered (.get (c.storageKey key)) (.ok (some found)), .time now,
    .answered (.put (c.storageKey key) document.encode (some (.unchanged found.modRevision))) answer]

/-- What is observed in the round of a creation. -/
def creation (c : Collection) (key : String) (now : WallTime) (document : Resource)
    (answer : Except Failure Nat) : List Observation :=
  [.answered (.get (c.storageKey key)) (.ok none), .time now,
    .answered (.put (c.storageKey key) document.encode (some .absent)) answer]

/-- What has been observed after a number of rounds that were refused. -/
inductive Refused (c : Collection) (key : String) (r : Resource) (start : List Observation) :
    Nat → List Observation → Prop
  | start : Refused c key r start 0 start
  | again {n : Nat} {past : List Observation} (h : Refused c key r start n past) (found : StoredKey)
    (now : WallTime) (previous : Resource) (name : String)
    (hdecode : Resource.decode key found.value = .ok previous) :
    Refused c key r start (n + 1)
      (past ++ c.round key found now (r.stampUpdated now previous)
        (.error (.preconditionFailed name)))

/-- How a replacement ends that has a number of attempts, with all that it has observed. -/
inductive Replaces (c : Collection) (key : String) (r : Resource) (creates : Bool)
    (start : List Observation) (attempts : Nat) :
    List Observation → Except Failure Resource → Prop
  | updated {n : Nat} {past : List Observation} (h : c.Refused key r start n past)
    (hn : n < attempts) (found : StoredKey) (now : WallTime) (previous : Resource)
    (hdecode : Resource.decode key found.value = .ok previous) (answer : Except Failure Nat)
    (hanswer : ∀ name, answer ≠ .error (.preconditionFailed name)) :
    Replaces c key r creates start attempts
      (past ++ c.round key found now (r.stampUpdated now previous) answer)
      (answer.map fun _ => r.stampUpdated now previous)
  | created {n : Nat} {past : List Observation} (h : c.Refused key r start n past)
    (hn : n < attempts) (hcreates : creates = true) (now : WallTime)
    (answer : Except Failure Nat) :
    Replaces c key r creates start attempts (past ++ c.creation key now (r.stampCreated now) answer)
      ((answer.mapError (writeFailure key .absent)).map fun _ => r.stampCreated now)
  | missing {n : Nat} {past : List Observation} (h : c.Refused key r start n past)
    (hn : n < attempts) (hcreates : creates = false) :
    Replaces c key r creates start attempts
      (past ++ [.answered (.get (c.storageKey key)) (.ok none)]) (.error (.notFound key))
  | undecodable {n : Nat} {past : List Observation} (h : c.Refused key r start n past)
    (hn : n < attempts) (found : StoredKey) (cause : CodecFault)
    (hdecode : Resource.decode key found.value = .error cause) :
    Replaces c key r creates start attempts
      (past ++ [.answered (.get (c.storageKey key)) (.ok (some found))]) (.error (.codec cause))
  | unread {n : Nat} {past : List Observation} (h : c.Refused key r start n past)
    (hn : n < attempts) (cause : Failure) :
    Replaces c key r creates start attempts
      (past ++ [.answered (.get (c.storageKey key)) (.error cause)]) (.error cause)
  | contended {past : List Observation} (h : c.Refused key r start attempts past) :
    Replaces c key r creates start attempts past
      (.error (.storeUnavailable (.keptChanging c.kind.name key)))

/-- How a document may be turned away without a call to the store. -/
inductive Refuses (c : Collection) (key : String) (r : Resource) (past : List Observation)
    (cause : Failure) : Prop
  | readOnly (h : c.kind.checkWritable = .error cause)
  | unbound (h : r.bindKey c.kind key = .error cause)
  | invalid (bound : Resource) (caches : Caches) (hbind : r.bindKey c.kind key = .ok bound)
    (hcaches : .cached caches ∈ past) (h : bound.checkedKey c.kind caches = .error cause)

/-- How a document ends that is given for a key: it is turned away after one observation at most, or
replaces what is stored there. -/
def Stores (c : Collection) (key : String) (r : Resource) (creates : Bool) (past : List Observation)
    (result : Except Failure Resource) : Prop :=
  (∃ cause, result = .error cause ∧ past.length ≤ 1 ∧ c.Refuses key r past cause) ∨
    ∃ bound caches, r.bindKey c.kind key = .ok bound ∧
      c.Replaces key bound creates [.cached caches] updateAttempts past result

/-- How a command ends that replaces a document. Of the others nothing is said. -/
def Follows (c : Collection) (command : Command) (past : List Observation)
    (result : Except Failure (Option Resource)) : Prop :=
  ∀ key r creates, command.replacement? = some (key, r, creates) →
    ∃ result', result = result'.map some ∧ c.Stores key r creates past result'

variable {c : Collection} {key : String} {r : Resource} {start past : List Observation} {n : Nat}

/-- A round takes three observations. -/
theorem Refused.length_eq (h : c.Refused key r start n past) : past.length = start.length + 3 * n := by
  induction h with
  | start => rfl
  | again _ found now previous name hdecode ih =>
    rw [List.length_append, ih]
    simp [round]
    omega

theorem Replaces.length_le {creates : Bool} {attempts : Nat} {result : Except Failure Resource}
    (h : c.Replaces key r creates start attempts past result) :
    past.length ≤ start.length + 3 * attempts := by
  cases h with
  | contended h => exact Nat.le_of_eq h.length_eq
  | updated h hn | created h hn | missing h hn | undecodable h hn | unread h hn =>
    rw [List.length_append, h.length_eq]
    simp [round, creation]
    omega

/-! ## Programs -/

theorem writeFailure_unchanged (key : String) (revision : Nat) (cause : Failure) :
    writeFailure key (.unchanged revision) cause = cause := by
  cases cause <;> rfl

/-- The put of a creation is the last thing a replacement does. -/
theorem replaces_creation {creates : Bool} {attempts : Nat} (h : c.Refused key r start n past)
    (hn : n < attempts) (hcreates : creates = true) (now : WallTime) :
    (do
      let _ ← Program.ofExcept (← c.write key (r.stampCreated now) .absent)
      return r.stampCreated now : Program Resource).Ends (c.Replaces key r creates start attempts)
        (past ++ [.answered (.get (c.storageKey key)) (.ok none), .time now]) := by
  refine Program.ends_bind fun answer => Program.ends_bind (Program.ends_ofExcept ?_)
  have hends := Replaces.created h hn hcreates now answer
  rw [creation, List.append_cons, List.append_cons, List.append_assoc past] at hends
  cases answer with
  | ok revision => exact hends
  | error cause => exact hends

/-- The put of an update is the last thing a replacement does, unless its condition does not hold. -/
theorem replaces_update {creates : Bool} {attempts : Nat} {again : Program Resource}
    (h : c.Refused key r start n past) (hn : n < attempts) {found : StoredKey} {previous : Resource}
    (hdecode : Resource.decode key found.value = .ok previous) (now : WallTime)
    (hagain : ∀ past, c.Refused key r start (n + 1) past →
      again.Ends (c.Replaces key r creates start attempts) past) :
    (do
      match ← c.write key (r.stampUpdated now previous) (.unchanged found.modRevision) with
      | .ok _ => return r.stampUpdated now previous
      | .error (.preconditionFailed _) => again
      | .error cause => .failed cause : Program Resource).Ends
        (c.Replaces key r creates start attempts)
        (past ++ [.answered (.get (c.storageKey key)) (.ok (some found)), .time now]) := by
  refine Program.ends_bind fun answer => ?_
  have hround : past ++ [.answered (.get (c.storageKey key)) (.ok (some found)), .time now] ++
      [.answered (.put (c.client.storageKey c.kind key) (r.stampUpdated now previous).encode
        (some (.unchanged found.modRevision))) answer] =
      past ++ c.round key found now (r.stampUpdated now previous) answer := by
    simp [round, storageKey]
  rw [hround]
  by_cases hrefused : ∃ name, answer = .error (.preconditionFailed name)
  · obtain ⟨name, rfl⟩ := hrefused
    exact hagain _ (h.again found now previous name hdecode)
  · have hends : c.Replaces key r creates start attempts
        (past ++ c.round key found now (r.stampUpdated now previous) answer)
        (answer.map fun _ => r.stampUpdated now previous) :=
      .updated h hn found now previous hdecode answer fun name heq => hrefused ⟨name, heq⟩
    cases answer with
    | ok revision => exact hends
    | error cause =>
      dsimp only [Program.Ends, Except.mapError]
      rw [writeFailure_unchanged]
      split
      · next heq => cases heq
      · next name heq => exact absurd ⟨name, heq⟩ hrefused
      · next heq =>
        cases heq
        exact hends

/-- After some refused rounds a replacement goes on for as many rounds as it has attempts left. -/
theorem replaces_replace (creates : Bool) {attempts : Nat} (h : c.Refused key r start n past)
    (left : Nat) (hleft : n + left = attempts) :
    (c.replace key r creates left).Ends (c.Replaces key r creates start attempts) past := by
  induction left generalizing n past with
  | zero =>
    rw [Nat.add_zero] at hleft
    exact .contended (hleft ▸ h)
  | succ left ih =>
    unfold replace
    refine Program.ends_bind fun answer => Program.ends_ofExcept ?_
    have hn : n < attempts := by omega
    rcases answer with cause | _ | found
    · exact .unread h hn cause
    · dsimp only
      split
      · next hcreates =>
        refine Program.ends_bind fun now => ?_
        rw [List.append_assoc]
        exact replaces_creation h hn hcreates now
      · next hcreates => exact .missing h hn (by simpa using hcreates)
    · refine Program.ends_bind (Program.ends_ofExcept ?_)
      cases hdecode : Resource.decode key found.value with
      | error cause => exact .undecodable h hn found cause hdecode
      | ok previous =>
        refine Program.ends_bind fun now => ?_
        rw [List.append_assoc]
        exact replaces_update h hn hdecode now fun past hpast => ih hpast (by omega)

/-- Before the first round the document is checked, and the caches are seen. -/
theorem stores_store (c : Collection) (key : String) (r : Resource) (creates : Bool) :
    (c.store key r creates).Ends (c.Stores key r creates) [] := by
  unfold store
  refine Program.ends_bind (Program.ends_ofExcept ?_)
  cases hwritable : c.kind.checkWritable with
  | error cause => exact .inl ⟨cause, rfl, by simp, .readOnly hwritable⟩
  | ok _ =>
    refine Program.ends_bind (Program.ends_ofExcept ?_)
    cases hbind : r.bindKey c.kind key with
    | error cause => exact .inl ⟨cause, rfl, by simp, .unbound hbind⟩
    | ok bound =>
      refine Program.ends_bind fun caches => Program.ends_bind (Program.ends_ofExcept ?_)
      cases hvalid : bound.checkedKey c.kind caches with
      | error cause =>
        exact .inl ⟨cause, rfl, by simp, .invalid bound caches hbind (by simp) hvalid⟩
      | ok _ =>
        exact (replaces_replace creates (.start) updateAttempts (Nat.zero_add _)).imp
          fun past result h => .inr ⟨bound, caches, hbind, h⟩

theorem follows_program (c : Collection) (command : Command) :
    (command.program c).Ends (c.Follows command) [] := by
  have hreplaces (key : String) (r : Resource) (creates : Bool) :
      (do return some (← c.store key r creates) : Program (Option Resource)).Ends
        (fun past result => ∃ result', result = result'.map some ∧
          c.Stores key r creates past result') [] := by
    refine Program.ends_bind ((c.stores_store key r creates).imp fun past result h => ?_)
    cases result with
    | ok document => exact ⟨.ok document, rfl, h⟩
    | error cause => exact ⟨.error cause, rfl, h⟩
  cases command with
  | update given document | upsert given document =>
    refine (hreplaces given document _).imp fun past result h key r creates heq => ?_
    cases heq
    exact h
  | create r | delete key => exact Program.ends_of_forall (fun _ _ _ _ _ heq => nomatch heq) _

end Collection

namespace Clients

theorem follows_calls (retention : Nat) (moves : List ClientMove) :
    ∀ c ∈ ((initial retention).run moves).calls,
      c.rest.Ends (c.collection.Follows c.command) c.past :=
  ends_run (fun c hc => by cases hc) (fun collection command => collection.follows_program command)
    moves

end Clients

end GatewayStore
