import GatewayStore.Proofs.Hub.Execution
import GatewayStore.Proofs.Clients.Commands
import GatewayStore.Proofs.Resource.Isolation
import GatewayStore.Proofs.Resource.Keys
import GatewayStore.Proofs.Store.Calls

/-
  Deletes in a row. Each one judges its id by the store that the ones before it left, so an id that
  comes again is missing the second time. In terms of the store at the start, the first id that is
  malformed, not stored or a repetition stops the row (`Collection.Stops`), and what is gone then are
  the keys before it (`deleteAll_stops_at_first`).
-/

namespace GatewayStore

/-! ## Stores that lose keys -/

namespace Store

/-- A store loses some keys, all of which it had, one by one, and nothing else. -/
structure Loses (s : Store) (keys : List String) (left : Store) : Prop where
  had : ∀ key ∈ keys, (s.index.get? key).isSome = true
  gone : ∀ key ∈ keys, left.index.get? key = none
  others : ∀ key, key ∉ keys → left.index.get? key = s.index.get? key
  revision_eq : left.revision = s.revision + keys.length

variable {s left : Store} {key : String} {keys : List String}

theorem loses_nil (s : Store) : s.Loses [] s where
  had := by simp
  gone := by simp
  others _ _ := rfl
  revision_eq := rfl

/-- A key that was deleted cannot be lost once more. -/
theorem Loses.cons (h : (s.recorded key .delete).Loses keys left)
    (hkey : (s.index.get? key).isSome = true) : s.Loses (key :: keys) left := by
  have hne : ∀ k ∈ keys, k ≠ key := by
    rintro k hk rfl
    have hhad := h.had k hk
    rw [get?_recorded_delete] at hhad
    cases hhad
  refine ⟨fun k hk => ?_, fun k hk => ?_, fun k hk => ?_, ?_⟩
  · rcases List.mem_cons.1 hk with rfl | hk
    · exact hkey
    · rw [← get?_recorded_of_ne s .delete (hne k hk)]
      exact h.had k hk
  · rcases List.mem_cons.1 hk with rfl | hk
    · rw [h.others k fun hk => hne k hk rfl, get?_recorded_delete]
    · exact h.gone k hk
  · rw [List.mem_cons, not_or] at hk
    obtain ⟨hk, hkeys⟩ := hk
    rw [h.others k hkeys, get?_recorded_of_ne s .delete hk]
  · rw [h.revision_eq, revision_recorded, List.length_cons]
    omega

end Store

namespace Collection

variable {σ : Type} {c : Collection} {s : Store}

theorem storageKey_injective (c : Collection) : Function.Injective c.storageKey :=
  c.kind.storageKey_injective c.client.root

/-! ## One delete -/

theorem execute_delete (hwritable : c.kind.isWritable = true) (around : Surroundings σ) (left : σ)
    (id : String) :
    (c.delete id).execute around left =
      match checkKey id with
      | .error rejection => ⟨.error (.validation rejection), [], left⟩
      | .ok _ =>
        let answer := around.serve left (.delete (c.storageKey id))
        ⟨(answer.1.mapError (deleteFailure id)).map fun _ => (), [.delete (c.storageKey id)],
          answer.2⟩ := by
  have hchecked : c.kind.checkWritable = .ok () := if_pos hwritable
  unfold delete
  rw [hchecked, Program.execute_ofExcept_bind]
  dsimp only
  rw [Program.execute_ofExcept_bind]
  cases checkKey id with
  | error rejection => rfl
  | ok _ =>
    dsimp only [Except.mapError]
    rw [Program.execute_attempt_bind]
    dsimp only [storageKey]
    cases (around.serve left (.delete (c.client.storageKey c.kind id))).1 <;> rfl

/-- The failure of a delete of an id that is malformed or else missing. -/
def refusal (id : String) : Failure :=
  match checkKey id with
  | .error rejection => .validation rejection
  | .ok _ => .notFound id

/-! ## Deletes in a row -/

/-- The id at a place stops a row of deletes: it is malformed, not stored, or there before. -/
def Stops (c : Collection) (s : Store) (ids : List String) (i : Nat) (id : String) : Prop :=
  ids[i]? = some id ∧
    (¬ IsKey id ∨ s.index.get? (c.storageKey id) = none ∨ id ∈ ids.take i)

/-- Once the first id is deleted, the others are stopped as before: those that are missing now were
missing before or are the first id again. -/
theorem stops_succ_iff {i : Nat} {id id' : String} :
    c.Stops s (id :: ids) (i + 1) id' ↔
      c.Stops (s.recorded (c.storageKey id) .delete) ids i id' := by
  unfold Stops
  rw [List.getElem?_cons_succ, List.take_succ_cons, List.mem_cons]
  by_cases heq : id' = id
  · subst heq
    simp [Store.get?_recorded_delete]
  · have hne : c.storageKey id' ≠ c.storageKey id := fun h => heq (c.storageKey_injective h)
    rw [Store.get?_recorded_of_ne s .delete hne]
    simp [heq]

section Alone

variable (now : WallTime) (fresh : String) (caches : Caches)

/-- Nobody else being there, a delete is refused or removes its key. -/
theorem execute_delete_alone (hwritable : c.kind.isWritable = true) (honline : s.isOffline = false)
    (id : String) :
    (¬ IsKey id ∨ s.index.get? (c.storageKey id) = none) ∧
      (∃ calls, (c.delete id).execute (Store.alone now fresh caches) s =
        ⟨.error (refusal id), calls, s⟩) ∨
    IsKey id ∧ (s.index.get? (c.storageKey id)).isSome = true ∧
      ∃ calls, (c.delete id).execute (Store.alone now fresh caches) s =
        ⟨.ok (), calls, s.recorded (c.storageKey id) .delete⟩ := by
  have hserved : (Store.alone now fresh caches).serve s (.delete (c.storageKey id)) = _ :=
    Store.call_delete (Store.checkOnline_eq_ok.2 honline) (c.storageKey id)
  rw [execute_delete hwritable, refusal]
  cases hkey : checkKey id with
  | error rejection =>
    left
    refine ⟨.inl fun h => ?_, [], rfl⟩
    rw [checkKey_eq_ok_iff.2 h] at hkey
    cases hkey
  | ok _ =>
    dsimp only
    rw [hserved]
    cases hstored : s.index.get? (c.storageKey id) with
    | none =>
      left
      rw [if_neg (by simp [KeyMap.contains, hstored])]
      exact ⟨.inr rfl, _, rfl⟩
    | some r =>
      right
      rw [if_pos (by simp [KeyMap.contains, hstored])]
      exact ⟨checkKey_eq_ok_iff.1 hkey, rfl, _, rfl⟩

/-- Deletes in a row remove the ids up to the first that stops them. -/
theorem execute_deleteAll (hwritable : c.kind.isWritable = true) (honline : s.isOffline = false)
    (ids : List String) :
    let run := (c.deleteAll ids).execute (Store.alone now fresh caches) s
    ∃ n ≤ ids.length, (∀ j < n, ∀ id, ¬ c.Stops s ids j id) ∧
      s.Loses ((ids.take n).map c.storageKey) run.left ∧
      (n = ids.length ∧ run.outcome = .ok () ∨
        ∃ id, c.Stops s ids n id ∧ run.outcome = .error (refusal id)) := by
  induction ids generalizing s with
  | nil => exact ⟨0, Nat.le_refl 0, nofun, s.loses_nil, .inl ⟨rfl, rfl⟩⟩
  | cons id rest ih =>
    dsimp only
    rw [deleteAll, Program.execute_bind]
    rcases execute_delete_alone now fresh caches hwritable honline id with
      ⟨hstops, calls, hrun⟩ | ⟨hkey, hstored, calls, hrun⟩
    · rw [hrun]
      have hfirst : c.Stops s (id :: rest) 0 id := ⟨rfl, hstops.imp_right .inl⟩
      exact ⟨0, Nat.zero_le _, nofun, s.loses_nil, .inr ⟨id, hfirst, rfl⟩⟩
    · rw [hrun]
      have honline' : (s.recorded (c.storageKey id) .delete).isOffline = false :=
        (s.isOffline_recorded _ _).trans honline
      obtain ⟨n, hn, hbefore, hloses, hend⟩ := ih honline'
      refine ⟨n + 1, Nat.succ_le_succ hn, fun j hj id' => ?_, hloses.cons hstored, ?_⟩
      · cases j with
        | zero =>
          rintro ⟨hget, hcause⟩
          cases hget
          rcases hcause with hmalformed | hmissing | hrepeated
          · exact hmalformed hkey
          · rw [hmissing] at hstored
            cases hstored
          · cases hrepeated
        | succ j =>
          rw [stops_succ_iff]
          exact hbefore j (Nat.lt_of_succ_lt_succ hj) id'
      · rcases hend with ⟨hall, hok⟩ | ⟨id', hstops, herror⟩
        · exact .inl ⟨congrArg (· + 1) hall, hok⟩
        · exact .inr ⟨id', stops_succ_iff.2 hstops, herror⟩

end Alone

/-! ## The main result -/

/-- Deletes in a row remove exactly the ids before the first one that is malformed, not stored or a
repetition, and fail for it; without such an id they remove all. Nothing else changes. -/
theorem deleteAll_stops_at_first (c : Collection) (s : Store) (ids : List String) (now : WallTime)
    (fresh : String) (caches : Caches) :
    c.kind.isWritable = true → s.isOffline = false →
    let run := (c.deleteAll ids).execute (Store.alone now fresh caches) s
    (∀ i id, c.Stops s ids i id → (∀ j < i, ∀ id', ¬ c.Stops s ids j id') →
      run.outcome = .error (refusal id) ∧ run.left.revision = s.revision + i ∧
        s.Loses ((ids.take i).map c.storageKey) run.left) ∧
    ((∀ i id, ¬ c.Stops s ids i id) →
      run.outcome = .ok () ∧ s.Loses (ids.map c.storageKey) run.left) := by
  intro hwritable honline run
  obtain ⟨n, hn, hbefore, hloses, hend⟩ :=
    execute_deleteAll now fresh caches hwritable honline ids
  constructor
  · intro i id hstops hfirst
    have hi : i < ids.length := (List.getElem?_eq_some_iff.1 hstops.1).1
    have hle : n ≤ i := Nat.not_lt.1 fun h => hbefore i h id hstops
    rcases hend with ⟨hall, -⟩ | ⟨id', hstops', herror⟩
    · omega
    · obtain rfl : n = i := Nat.le_antisymm hle (Nat.not_lt.1 fun h => hfirst n h id' hstops')
      obtain rfl : id' = id := Option.some.inj (hstops'.1.symm.trans hstops.1)
      refine ⟨herror, ?_, hloses⟩
      rw [hloses.revision_eq, List.length_map, List.length_take_of_le hn]
  · intro hnone
    rcases hend with ⟨hall, hok⟩ | ⟨id, hstops, -⟩
    · rw [hall, List.take_length] at hloses
      exact ⟨hok, hloses⟩
    · exact absurd hstops (hnone n id)

/-- Two services are stored, and one of them is to be deleted twice. -/
theorem deleteAll_stops_at_first_repeated :
    let c : Collection := ⟨.service, ⟨"/apisix", 1000⟩⟩
    let s := (Store.empty.recorded (c.storageKey "a") (.put [])).recorded (c.storageKey "b") (.put [])
    let run := (c.deleteAll ["a", "b", "a", "c"]).execute (Store.alone ⟨0⟩ "" fun _ => none) s
    run.outcome = .error (.notFound "a") ∧ run.left.revision = 4 ∧
      s.Loses [c.storageKey "a", c.storageKey "b"] run.left := by
  intro c s run
  have honline : s.isOffline = false := by
    rw [Store.isOffline_recorded, Store.isOffline_recorded]
    rfl
  have hrevision : s.revision = 2 := by
    rw [Store.revision_recorded, Store.revision_recorded]
    rfl
  have hstored : ∀ id ∈ ["a", "b"], s.index.get? (c.storageKey id) ≠ none := by decide +kernel
  have hkeys : ∀ id ∈ ["a", "b"], checkKey id = .ok () := by decide
  have hfirst : ∀ j < 2, ∀ id, ¬ c.Stops s ["a", "b", "a", "c"] j id := by
    rintro j hj id ⟨hget, hcause⟩
    rw [← List.getElem?_take_of_lt hj] at hget
    have hid : id ∈ ["a", "b"] := List.mem_of_getElem? hget
    rcases hcause with hmalformed | hmissing | hrepeated
    · exact hmalformed (checkKey_eq_ok_iff.1 (hkeys id hid))
    · exact hstored id hid hmissing
    · obtain rfl | rfl : j = 0 ∨ j = 1 := by omega
      · cases hrepeated
      · cases hget
        exact absurd hrepeated (by decide)
  obtain ⟨houtcome, hleft, hloses⟩ :=
    (deleteAll_stops_at_first c s ["a", "b", "a", "c"] ⟨0⟩ "" (fun _ => none) rfl honline).1 2 "a"
      ⟨rfl, .inr (.inr (by simp))⟩ hfirst
  exact ⟨houtcome, by rw [hleft, hrevision], hloses⟩

end Collection

end GatewayStore
