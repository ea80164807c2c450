import GatewayStore.Proofs.Clients.Commands

/-
  A key is created once. Whatever the caches say and however the calls of the clients interleave,
  only the put under the condition that the key is absent decides: `create_unique` says that every
  creation finds its key absent, that the key is absent again between any two creations, and that
  a create never touches what is there.
-/

namespace GatewayStore

/-- The storage key that a call created: that of a create that returned, or of an upsert that returned
from its branch for an absent key. -/
def Call.createdKey? (c : Call) : Option String :=
  match c.command, c.rest with
  | .create _, .done (some r) => (r.key? c.collection.kind).map c.collection.storageKey
  | .upsert key _, .done (some _) =>
    match c.past.getLast? with
    | some (.answered (.put _ _ (some .absent)) _) => some (c.collection.storageKey key)
    | _ => none
  | _, _ => none

/-- The call that a move is a step of. -/
def ClientMove.caller? : ClientMove → Option Nat
  | .operate _ | .begin _ _ => none
  | .perform i | .lose i _ | .fail i _ | .readClock i _ | .drawId i _ | .readCaches i _ => some i

namespace Clients

/-- By this move a creation of the key returns. -/
def Creates (s : Clients) (m : ClientMove) (i : Nat) (key : String) : Prop :=
  ∃ before after, s.calls[i]? = some before ∧ (s.move m).calls[i]? = some after ∧
    before.createdKey? = none ∧ after.createdKey? = some key

/-- Every call keeps to what is said of its command. -/
def Conforms (s : Clients) : Prop := ∀ c ∈ s.calls,
  c.rest.Keeps (c.collection.Issues c.command) (c.collection.Returns c.command) c.past

variable {s : Clients} {m : ClientMove} {i : Nat} {key : String}

/-- A creation returns right after its put under the condition that the key is absent. -/
theorem last_of_createdKey? {c : Call}
    (hc : c.rest.Keeps (c.collection.Issues c.command) (c.collection.Returns c.command) c.past)
    (h : c.createdKey? = some key) : ∃ r revision, c.returned? = some (some r) ∧
      c.past.getLast? =
        some (.answered (.put key (Resource.encode r) (some .absent)) (.ok revision)) := by
  unfold Call.createdKey? at h
  split at h
  · next given r hcommand hrest =>
    rw [hcommand, hrest] at hc
    obtain ⟨r', found, heq, hkey, revision, hlast⟩ := hc
    cases heq
    rw [hkey, Option.map_some] at h
    rw [Option.some.inj h] at hlast
    exact ⟨r, revision, by rw [Call.returned?, hrest], hlast⟩
  · next given document r hcommand hrest =>
    rw [hcommand, hrest] at hc
    obtain ⟨r', condition, heq, revision, hlast⟩ := hc
    cases heq
    generalize c.collection.storageKey given = stored at h hlast
    rw [hlast] at h
    split at h
    · next hput =>
      obtain ⟨hrequest, -⟩ := Observation.answered.inj (Option.some.inj hput)
      obtain ⟨-, -, hcondition⟩ := Request.put.inj hrequest
      cases hcondition
      rw [Option.some.inj h] at hlast
      exact ⟨r, revision, by rw [Call.returned?, hrest], hlast⟩
    · cases h
  · cases h

theorem caller?_of_seen? {o : Observation} (h : s.seen? m = some (i, o)) : m.caller? = some i := by
  cases m with
  | operate step => cases h
  | begin collection command => cases h
  | perform j | lose j cause | fail j cause =>
    obtain ⟨r, -, heq⟩ := Option.map_eq_some_iff.1 h
    cases heq
    rfl
  | readClock j now | drawId j text | readCaches j caches =>
    cases h
    rfl

/-- A creation that returns has just written its absent key. -/
theorem Creates.put_ok (h : s.Creates m i key) (hs' : (s.move m).Conforms) :
    m.caller? = some i ∧ s.store.index.get? key = none ∧ ∃ after r, (s.move m).calls[i]? = some after ∧
      after.returned? = some (some r) ∧
      (s.move m).store = s.store.recorded key (.put (Resource.encode r)) := by
  obtain ⟨before, after, hbefore, hafter, hnone, hsome⟩ := h
  obtain ⟨r, revision, hreturned, hlast⟩ :=
    last_of_createdKey? (hs' after (List.mem_of_getElem? hafter)) hsome
  rcases call_move hafter with ⟨collection, command, -, rfl⟩ | hsame | ⟨old, o, hold, hseen, rfl⟩
  · cases hlast
  · rw [hbefore] at hsame
    cases hsame
    rw [hnone] at hsome
    cases hsome
  · rw [hbefore] at hold
    cases hold
    have hobserved : o = .answered (.put key r.encode (some .absent)) (.ok revision) := by
      unfold Call.observe at hlast hsome
      split at hsome
      · rw [hnone] at hsome
        cases hsome
      · next rest hrest =>
        rw [hrest] at hlast
        simpa using hlast
    subst hobserved
    obtain ⟨-, store, hperform, hstore⟩ := served_of_seen hseen
    obtain ⟨-, hholds, rfl⟩ := Store.put_eq_ok.1 (Store.perform_put_eq_ok.1 hperform).1
    refine ⟨caller?_of_seen? hseen, ?_, _, r, hafter, hreturned, hstore⟩
    simpa [Condition.holds] using hholds

/-- No step of a create touches a key that is there. -/
theorem get?_of_create (hs : s.Conforms) {c : Call} {r : Resource} (hcaller : m.caller? = some i)
    (hc : s.calls[i]? = some c) (hcreate : c.command = .create r) {record : Record}
    (hrecord : s.store.index.get? key = some record) :
    (s.move m).store.index.get? key = some record := by
  have hserved : (((s.request? i).map s.store.served).getD s.store).index.get? key =
      some record := by
    cases hreq : s.request? i with
    | none => exact hrecord
    | some request =>
      obtain ⟨c', next, hc', hrest⟩ := request?_eq_some hreq
      rw [hc] at hc'
      cases hc'
      have hkeeps := hs c (List.mem_of_getElem? hc)
      rw [hcreate, hrest] at hkeeps
      obtain ⟨r', now, found, -, -, -, rfl⟩ := hkeeps.1
      rw [Option.map_some, Option.getD_some]
      rcases s.store.served_put (c.collection.storageKey found) (r'.stampCreated now).encode
        (some .absent) with hserved | ⟨hholds, hserved⟩
      · rw [hserved]
        exact hrecord
      · have hne : key ≠ c.collection.storageKey found := by
          rintro rfl
          rw [hrecord] at hholds
          cases hholds
        rw [hserved, Store.get?_recorded_of_ne _ _ hne]
        exact hrecord
  cases m <;> cases hcaller
  all_goals first | exact hserved | exact hrecord

/-! ## The main result -/

/-- Create uniqueness. Every creation that returns found its key absent and left there what it
returned. If the key is never absent between two creations of it, they are the same. And no step of a
create changes a key that is there. -/
theorem create_unique (retention : Nat) (moves : List ClientMove) (key : String) :
    let after (n : Nat) := (initial retention).run (moves.take n)
    let held (n : Nat) := (after n).store.index.get? key
    (∀ n m i, moves[n]? = some m → (after n).Creates m i key →
      held n = none ∧ ∃ c r record, (after (n + 1)).calls[i]? = some c ∧
        c.returned? = some (some r) ∧ held (n + 1) = some record ∧
        record.value = Resource.encode r) ∧
    (∀ a b m m' i j, moves[a]? = some m → moves[b]? = some m' → (after a).Creates m i key →
      (after b).Creates m' j key → a ≤ b → (∀ n, a < n → n ≤ b → held n ≠ none) →
      a = b ∧ i = j) ∧
    ∀ n m i c r record, moves[n]? = some m → m.caller? = some i →
      (after n).calls[i]? = some c → c.command = .create r → held n = some record →
      held (n + 1) = some record := by
  intro after held
  have hconforms (n : Nat) : (after n).Conforms := keeps_calls retention (moves.take n)
  have hnext {n : Nat} {m : ClientMove} (hm : moves[n]? = some m) :
      after (n + 1) = (after n).move m := run_take_succ _ hm
  have hcreates {n : Nat} {m : ClientMove} {i : Nat} (hm : moves[n]? = some m)
      (h : (after n).Creates m i key) := h.put_ok (hnext hm ▸ hconforms (n + 1))
  refine ⟨?_, ?_, ?_⟩
  · intro n m i hm h
    obtain ⟨-, hnone, c, r, hc, hreturned, hstore⟩ := hcreates hm h
    refine ⟨hnone, c, r, ?_⟩
    have hget := (after n).store.get?_recorded_put key r.encode
    rw [← hstore, ← hnext hm] at hget
    rw [← hnext hm] at hc
    exact ⟨_, hc, hreturned, hget, rfl⟩
  · intro a b m m' i j hm hm' h h' hle hpresent
    obtain ⟨hcaller', hnone, -⟩ := hcreates hm' h'
    have heq : a = b := by
      by_contra hne
      exact hpresent b (by omega) (Nat.le_refl b) hnone
    subst heq
    rw [hm] at hm'
    cases hm'
    -- one move is a step of one call
    obtain ⟨hcaller, -⟩ := hcreates hm h
    rw [hcaller] at hcaller'
    exact ⟨rfl, Option.some.inj hcaller'⟩
  · intro n m i c r record hm hcaller hc hcreate hrecord
    have hkept := get?_of_create (hconforms n) hcaller hc hcreate hrecord
    rwa [← hnext hm] at hkept

/-- Two clients whose caches know nothing create the same route. -/
def racingCreates : List ClientMove :=
  let c : Collection := ⟨.route, ⟨"/apisix", 1000⟩⟩
  let r : Resource := ⟨"r1", 0, 0, .ofPairs [("uri", .string "/a")]⟩
  [.begin c (.create r), .begin c (.create r), .readClock 0 ⟨5000⟩, .readCaches 0 fun _ => none,
    .readClock 1 ⟨6000⟩, .readCaches 1 fun _ => none, .perform 0, .perform 1]

theorem create_unique_raced :
    let after (n : Nat) := (initial 4).run (racingCreates.take n)
    (after 6).Creates (.perform 0) 0 "/apisix/routes/r1" ∧
      ∃ record, (after 7).store.index.get? "/apisix/routes/r1" = some record ∧
        (after 8).store.index.get? "/apisix/routes/r1" = some record := by
  intro after
  have hbefore : ((after 6).calls[0]?).map Call.createdKey? = some none := by decide +kernel
  have hafter : ((after 7).calls[0]?).map Call.createdKey? = some (some "/apisix/routes/r1") := by
    decide +kernel
  obtain ⟨before, hb, hbnone⟩ := Option.map_eq_some_iff.1 hbefore
  obtain ⟨first, hf, hfsome⟩ := Option.map_eq_some_iff.1 hafter
  have hcreates : (after 6).Creates (.perform 0) 0 "/apisix/routes/r1" :=
    ⟨before, first, hb, hf, hbnone, hfsome⟩
  obtain ⟨hwrites, -, hkeeps⟩ := create_unique 4 racingCreates "/apisix/routes/r1"
  obtain ⟨-, -, -, record, -, -, hrecord, -⟩ := hwrites 6 _ 0 rfl hcreates
  exact ⟨hcreates, record, hrecord, hkeeps 7 _ 1 _ _ record rfl rfl rfl rfl hrecord⟩

end Clients

end GatewayStore
