import GatewayStore.Proofs.Clients.Atomicity
import GatewayStore.Proofs.Clients.Lifetimes

/-
  What a replacement has replaced. Along a run the store only moves on (`precedes_take`), so that a
  key with the same revision at two moments has the same record at both (`record_eq`). Hence an update
  whose condition held at its put has replaced the very document that it read (`replaced_of_returned`).
-/

namespace GatewayStore

section

variable {kind : Kind} {command : Command} {document given : Resource} {key : String}
  {change : Change}

/-- A document that is stored was given, or was bound to its key. -/
theorem Command.Writes.document_eq (h : command.Writes kind (some document) key change)
    (hgiven : command.document? = some given) : change = .put document.encode ∧
      ∃ bound, (bound = given ∨ given.bindKey kind key = .ok bound) ∧
        document.IsFiled kind key bound.payload := by
  cases command with
  | create r =>
    cases hgiven
    exact ⟨h.2, given, .inl rfl, h.1⟩
  | update path r | upsert path r =>
    cases hgiven
    obtain ⟨rfl, ⟨bound, hbind, hfiled⟩, hchange⟩ := h
    exact ⟨hchange, bound, .inr hbind, hfiled⟩
  | delete path => cases hgiven

theorem Command.Writes.exists_given (h : command.Writes kind (some document) key change) :
    ∃ given, command.document? = some given := by
  cases command with
  | create r | update path r | upsert path r => exact ⟨r, rfl⟩
  | delete path => exact h.elim

end

namespace Clients

variable {moves : List ClientMove} {a b : Nat}

/-! ## Moments of a run -/

theorem precedes_take (s : Clients) (moves : List ClientMove) (hle : a ≤ b) :
    (s.run (moves.take a)).store.Precedes (s.run (moves.take b)).store := by
  induction hle with
  | refl => exact .refl _
  | @step b _ ih =>
    rcases run_take_succ_cases s moves b with hsame | ⟨m, -, hnext⟩
    · rwa [hsame]
    · rw [hnext]
      exact ih.trans (precedes_move _ m)

section

variable {retention : Nat} {key : String} {old new : Record}

/-- No record is newer than the store. -/
theorem modRevision_le (h : ((initial retention).run (moves.take a)).store.index.get? key =
    some old) : old.modRevision ≤ ((initial retention).run (moves.take a)).store.revision := by
  have hprecedes := precedes_take (initial retention) moves (Nat.zero_le a)
  rcases hprecedes.kept_or_new key old h with hbefore | ⟨-, hle⟩
  · cases hbefore
  · exact hle

/-- A key with the same revision has the same record. -/
theorem record_eq (hle : a ≤ b)
    (hold : ((initial retention).run (moves.take a)).store.index.get? key = some old)
    (hnew : ((initial retention).run (moves.take b)).store.index.get? key = some new)
    (hrevision : new.modRevision = old.modRevision) : new = old := by
  rcases (precedes_take (initial retention) moves hle).kept_or_new key new hnew with hkept | ⟨hlt, -⟩
  · rw [hold] at hkept
    exact (Option.some.inj hkept).symm
  · have hbound := modRevision_le hold
    omega

end

/-! ## What a call has seen, and when -/

section

variable {retention : Nat} {i n : Nat} {c : Call} {before after : List Observation}

/-- What a call remembers at a moment it has seen by an earlier move. -/
theorem seen_earlier (hc : ((initial retention).run (moves.take n)).calls[i]? = some c)
    {o : Observation} (hpast : c.past = before ++ o :: after) :
    ∃ k m c', k < n ∧ moves[k]? = some m ∧
      ((initial retention).run (moves.take k)).seen? m = some (i, o) ∧
      ((initial retention).run (moves.take k)).calls[i]? = some c' ∧ c'.past = before := by
  obtain ⟨k, m, c', hlt, hm, hseen, hc', hbefore⟩ := seen_of_past retention hc hpast
  rw [List.length_take] at hlt
  have hkn : k < n := by omega
  rw [List.getElem?_take_of_lt hkn] at hm
  rw [List.take_take, Nat.min_eq_left (Nat.le_of_lt hkn)] at hseen hc'
  exact ⟨k, m, c', hkn, hm, hseen, hc', hbefore⟩

/-- A key that a call remembers to have read was so when it was read. -/
theorem read_earlier (hc : ((initial retention).run (moves.take n)).calls[i]? = some c)
    {key : String} {found : Option StoredKey}
    (hpast : c.past = before ++ .answered (.get key) (.ok found) :: after) :
    ∃ k c', k < n ∧ moves[k]? = some (.perform i) ∧
      ((initial retention).run (moves.take k)).request? i = some (.get key) ∧
      found = (((initial retention).run (moves.take k)).store.index.get? key).map
        (Record.listed key) ∧
      ((initial retention).run (moves.take k)).calls[i]? = some c' ∧ c'.past = before := by
  obtain ⟨k, m, c', hkn, hm, hseen, hc', hbefore⟩ := seen_earlier hc hpast
  obtain ⟨hrequest, store, hperform, -⟩ := served_of_seen hseen
  rw [perform_of_seen hseen] at hm
  exact ⟨k, c', hkn, hm, hrequest, (Store.perform_get_eq_ok.1 hperform).2.1, hc', hbefore⟩

/-- A put that a call remembers to have gone through found its condition true, and was recorded. -/
theorem put_earlier (hc : ((initial retention).run (moves.take n)).calls[i]? = some c)
    {key : String} {value : Bytes} {condition : Condition} {revision : Nat}
    (hpast : c.past = before ++ .answered (.put key value (some condition)) (.ok revision) :: after) :
    ∃ k c', moves[k]? = some (.perform i) ∧
      condition.holds (((initial retention).run (moves.take k)).store.index.get? key) = true ∧
      ((initial retention).run (moves.take (k + 1))).store =
        ((initial retention).run (moves.take k)).store.recorded key (.put value) ∧
      ((initial retention).run (moves.take k)).calls[i]? = some c' ∧ c'.past = before := by
  obtain ⟨k, m, c', -, hm, hseen, hc', hbefore⟩ := seen_earlier hc hpast
  obtain ⟨-, store, hperform, hstore⟩ := served_of_seen hseen
  obtain ⟨-, hholds, rfl⟩ := Store.put_eq_ok.1 (Store.perform_put_eq_ok.1 hperform).1
  rw [← run_take_succ _ hm] at hstore
  rw [perform_of_seen hseen] at hm
  exact ⟨k, c', hm, hholds, hstore, hc', hbefore⟩

/-! ## Replacements -/

/-- What a replacement that returns has done at a move: it has created its key, or it has replaced
the document that was there. -/
inductive Replaced (creates : Bool) (key : String) (bound document : Resource)
    (before : Option Record) : Prop
  | created (hcreates : creates = true) (habsent : before = none) (now : WallTime)
    (hdocument : document = bound.stampCreated now)
  | updated (old : Record) (previous : Resource) (now : WallTime) (hold : before = some old)
    (hdecode : Resource.decode key old.value = .ok previous)
    (hdocument : document = bound.stampUpdated now previous)

/-- A replacement that returned has put its document by a step of its own, in place of what was
stored at that moment. -/
theorem replaced_of_returned (hc : ((initial retention).run moves).calls[i]? = some c)
    {key : String} {r : Resource} {creates : Bool}
    (hcommand : c.command.replacement? = some (key, r, creates)) {result : Option Resource}
    (hreturned : c.returned? = some result) :
    ∃ bound document k, r.bindKey c.collection.kind key = .ok bound ∧ result = some document ∧
      moves[k]? = some (.perform i) ∧
      Replaced creates key bound document (((initial retention).run (moves.take k)).store.index.get?
        (c.collection.storageKey key)) ∧
      ((initial retention).run (moves.take (k + 1))).store =
        ((initial retention).run (moves.take k)).store.recorded (c.collection.storageKey key)
          (.put document.encode) := by
  have hfollows := follows_calls retention moves c (List.mem_of_getElem? hc)
  rw [Call.rest_of_returned? hreturned] at hfollows
  obtain ⟨result', hresult, hstores⟩ := hfollows key r creates hcommand
  obtain ⟨cause, rfl, -⟩ | ⟨bound, caches, hbind, hreplaces⟩ := hstores
  · cases hresult
  rw [← List.take_length (l := moves)] at hc
  generalize hpast : c.past = past at hreplaces
  cases hreplaces with
  | updated h hn found now previous hdecode answer hanswer =>
    cases answer with
    | error cause => cases hresult
    | ok revision =>
      cases hresult
      rw [Collection.round, List.append_cons, List.append_cons] at hpast
      obtain ⟨k, c', hm, hholds, hstore, hc', hbefore⟩ := put_earlier hc hpast
      rw [List.append_assoc] at hbefore
      obtain ⟨a, -, hak, -, -, hfound, -⟩ := read_earlier hc' hbefore
      obtain ⟨read, hread, rfl⟩ := Option.map_eq_some_iff.1 hfound.symm
      -- the revision at the put is the one that was read
      obtain ⟨old, hold, hrevision⟩ := Condition.holds_unchanged.1 hholds
      obtain rfl := record_eq (Nat.le_of_lt hak) hread hold hrevision
      exact ⟨bound, _, k, hbind, rfl, hm, .updated old previous now hold hdecode rfl, hstore⟩
  | created h hn hcreates now answer =>
    cases answer with
    | error cause => cases hresult
    | ok revision =>
      cases hresult
      rw [Collection.creation, List.append_cons, List.append_cons] at hpast
      obtain ⟨k, c', hm, hholds, hstore, -⟩ := put_earlier hc hpast
      exact ⟨bound, _, k, hbind, rfl, hm,
        .created hcreates (Option.isNone_iff_eq_none.1 hholds) now rfl, hstore⟩
  | missing | undecodable | unread | contended => cases hresult

end

end Clients

end GatewayStore
