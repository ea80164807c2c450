import GatewayStore.Proofs.KeyMap
import GatewayStore.Store.Basic
import Mathlib.Data.List.Induction

/-
  Logs of changes and what they leave in a store. `contentsAfter` applies a log to the empty store. The
  latest event of a key decides what is held at the key: a record was left by its last put
  (`mem_of_get?_contentsAfter`, `Ascending.revision_le_modRevision`), and a key with events that holds
  nothing was deleted after all of them (`Ascending.exists_delete`). A `History` is a log whose
  revisions ascend from one on and whose puts all carry their value.
-/

namespace GatewayStore

/-! ## Replaying a log -/

namespace Event

/-- What an event leaves at its key. A put keeps the revision of the key's creation. -/
def applyTo (index : KeyMap Record) (e : Event) : KeyMap Record :=
  match e.change with
  | .put value =>
    index.insert e.key
      ⟨value, ((index.get? e.key).map Record.createRevision).getD e.revision, e.revision⟩
  | .blindPut => index
  | .delete => index.erase e.key

/-- An event that says all there is to say: a put with its value, or a delete. -/
def IsFull (e : Event) : Prop := e.change ≠ .blindPut

/-- Whether the key of an event starts with a prefix. -/
def isUnder (keyPrefix : String) (e : Event) : Bool := Text.startsWith keyPrefix e.key

theorem get?_applyTo_of_ne (index : KeyMap Record) {e : Event} {k : String} (h : k ≠ e.key) :
    (e.applyTo index).get? k = index.get? k := by
  unfold applyTo
  split <;> simp [h]

theorem get?_applyTo_put (index : KeyMap Record) {e : Event} {value : Bytes}
    (h : e.change = .put value) :
    (e.applyTo index).get? e.key = some ⟨value,
      ((index.get? e.key).map Record.createRevision).getD e.revision, e.revision⟩ := by
  simp [applyTo, h]

theorem get?_applyTo_delete (index : KeyMap Record) {e : Event} (h : e.change = .delete) :
    (e.applyTo index).get? e.key = none := by
  simp [applyTo, h]

end Event

/-- The contents of a store that went through the events of a log. -/
def contentsAfter (log : List Event) : KeyMap Record := log.foldl Event.applyTo .empty

theorem contentsAfter_nil : contentsAfter [] = .empty := rfl

theorem contentsAfter_append (log : List Event) (e : Event) :
    contentsAfter (log ++ [e]) = e.applyTo (contentsAfter log) := by
  simp [contentsAfter]

/-- A record was left by the put of its last change. -/
theorem mem_of_get?_contentsAfter {log : List Event} {k : String} {r : Record}
    (h : (contentsAfter log).get? k = some r) : ⟨k, .put r.value, r.modRevision⟩ ∈ log := by
  induction log using List.reverseRecOn generalizing r with
  | nil => simp [contentsAfter_nil] at h
  | append_singleton log e ih =>
    rw [contentsAfter_append] at h
    rw [List.mem_append]
    by_cases hk : k = e.key
    · subst hk
      match hc : e.change with
      | .put value =>
        rw [Event.get?_applyTo_put _ hc] at h
        cases h
        right
        rw [List.mem_singleton, ← hc]
      | .delete =>
        rw [Event.get?_applyTo_delete _ hc] at h
        cases h
      | .blindPut =>
        left
        apply ih
        simpa [Event.applyTo, hc] using h
    · rw [Event.get?_applyTo_of_ne _ hk] at h
      exact .inl (ih h)

/-! ## Ascending logs -/

/-- The revisions of a log ascend strictly. -/
def Ascending (log : List Event) : Prop := log.Pairwise (·.revision < ·.revision)

theorem Ascending.filter {log : List Event} (h : Ascending log) (p : Event → Bool) :
    Ascending (log.filter p) := List.Pairwise.filter p h

theorem ascending_append_singleton {log : List Event} {e : Event} :
    Ascending (log ++ [e]) ↔ Ascending log ∧ ∀ x ∈ log, x.revision < e.revision := by
  unfold Ascending
  rw [List.pairwise_append]
  simp

theorem Ascending.append {seen unseen : List Event} (h : Ascending (seen ++ unseen)) :
    Ascending seen ∧ Ascending unseen ∧ ∀ a ∈ seen, ∀ b ∈ unseen, a.revision < b.revision :=
  List.pairwise_append.1 h

/-- Events of one revision are one event. -/
theorem Ascending.eq_of_revision_eq {log : List Event} (h : Ascending log) {a b : Event}
    (ha : a ∈ log) (hb : b ∈ log) (hr : a.revision = b.revision) : a = b := by
  induction log with
  | nil => cases ha
  | cons e log ih =>
    obtain ⟨hlt, hlog⟩ := List.pairwise_cons.1 h
    rcases List.mem_cons.1 ha with rfl | ha'
    · rcases List.mem_cons.1 hb with rfl | hb'
      · rfl
      · have := hlt b hb'; omega
    · rcases List.mem_cons.1 hb with rfl | hb'
      · have := hlt a ha'; omega
      · exact ih hlog ha' hb'

/-- No event of a key is later than the record at the key. -/
theorem Ascending.revision_le_modRevision {log : List Event} (h : Ascending log) {k : String}
    {r : Record} (hr : (contentsAfter log).get? k = some r) {e : Event} (he : e ∈ log) (hk : e.key = k)
    (hfull : e.IsFull) : e.revision ≤ r.modRevision := by
  induction log using List.reverseRecOn generalizing r with
  | nil => cases he
  | append_singleton log last ih =>
    obtain ⟨hlog, hlt⟩ := ascending_append_singleton.1 h
    rw [contentsAfter_append] at hr
    rcases List.mem_append.1 he with he' | he'
    · -- an earlier event: the last one is of another key, or is later
      by_cases hl : k = last.key
      · subst hl
        match hc : last.change with
        | .put value =>
          rw [Event.get?_applyTo_put _ hc] at hr
          cases hr
          exact Nat.le_of_lt (hlt e he')
        | .delete => rw [Event.get?_applyTo_delete _ hc] at hr; cases hr
        | .blindPut => exact ih hlog (by simpa [Event.applyTo, hc] using hr) he'
      · rw [Event.get?_applyTo_of_ne _ hl] at hr
        exact ih hlog hr he'
    · have hel : e = last := List.mem_singleton.1 he'
      subst hel
      subst hk
      match hc : e.change with
      | .put value =>
        rw [Event.get?_applyTo_put _ hc] at hr
        cases hr
        exact Nat.le_refl _
      | .delete => rw [Event.get?_applyTo_delete _ hc] at hr; cases hr
      | .blindPut => exact absurd hc hfull

/-- A key that holds nothing was deleted after every event of it, the last of these included. -/
theorem Ascending.exists_delete {log : List Event} (h : Ascending log) {k : String}
    (hn : (contentsAfter log).get? k = none) {e : Event} (he : e ∈ log) (hk : e.key = k)
    (hfull : e.IsFull) : ∃ d ∈ log, d.key = k ∧ d.change = .delete ∧ e.revision ≤ d.revision := by
  induction log using List.reverseRecOn with
  | nil => cases he
  | append_singleton log last ih =>
    obtain ⟨hlog, hlt⟩ := ascending_append_singleton.1 h
    have hlast : last ∈ log ++ [last] := by simp
    have hle : e.revision ≤ last.revision := by
      rcases List.mem_append.1 he with he' | he'
      · exact Nat.le_of_lt (hlt e he')
      · exact Nat.le_of_eq (congrArg Event.revision (List.mem_singleton.1 he'))
    have earlier (he' : e ∈ log) (hn' : (contentsAfter log).get? k = none) :
        ∃ d ∈ log ++ [last], d.key = k ∧ d.change = .delete ∧ e.revision ≤ d.revision := by
      obtain ⟨d, hd, hdk, hdc, hdr⟩ := ih hlog hn' he'
      exact ⟨d, List.mem_append_left _ hd, hdk, hdc, hdr⟩
    rw [contentsAfter_append] at hn
    by_cases hl : k = last.key
    · match hc : last.change with
      | .put value => rw [hl, Event.get?_applyTo_put _ hc] at hn; cases hn
      | .delete => exact ⟨last, hlast, hl.symm, hc, hle⟩
      | .blindPut =>
        rcases List.mem_append.1 he with he' | he'
        · exact earlier he' (by simpa [Event.applyTo, hc] using hn)
        · rw [List.mem_singleton.1 he'] at hfull
          exact absurd hc hfull
    · rw [Event.get?_applyTo_of_ne _ hl] at hn
      rcases List.mem_append.1 he with he' | he'
      · exact earlier he' hn
      · rw [List.mem_singleton.1 he'] at hk
        exact absurd hk.symm hl

/-- The last event of a key, if it is a put, is what the log leaves at the key. -/
theorem Ascending.get?_of_last {log : List Event} (h : Ascending log) {k : String} {value : Bytes}
    {revision : Nat} (he : ⟨k, .put value, revision⟩ ∈ log)
    (hlast : ∀ e ∈ log, e.key = k → e.revision ≤ revision) :
    ∃ r, (contentsAfter log).get? k = some r ∧ r.value = value ∧ r.modRevision = revision := by
  have hfull : (⟨k, .put value, revision⟩ : Event).IsFull := by simp [Event.IsFull]
  cases hr : (contentsAfter log).get? k with
  | none =>
    obtain ⟨d, hd, hkey, hdelete, hle⟩ := h.exists_delete hr he rfl hfull
    have heq := h.eq_of_revision_eq he hd (Nat.le_antisymm hle (hlast d hd hkey))
    rw [← heq] at hdelete
    cases hdelete
  | some r =>
    have hput := mem_of_get?_contentsAfter hr
    have hle := h.revision_le_modRevision hr he rfl hfull
    have heq := h.eq_of_revision_eq he hput (Nat.le_antisymm hle (hlast _ hput rfl))
    cases heq
    exact ⟨r, rfl, rfl, rfl⟩

/-! ## The last revision of a batch -/

/-- The highest revision among one and those of some events. -/
def lastRevision (revision : Nat) (events : List Event) : Nat :=
  events.foldl (fun r e => max r e.revision) revision

theorem lastRevision_cons (revision : Nat) (e : Event) (events : List Event) :
    lastRevision revision (e :: events) = lastRevision (max revision e.revision) events := rfl

theorem le_lastRevision (revision : Nat) (events : List Event) :
    revision ≤ lastRevision revision events := by
  induction events generalizing revision with
  | nil => exact Nat.le_refl _
  | cons e events ih => exact Nat.le_trans (Nat.le_max_left _ _) (ih _)

theorem revision_le_lastRevision {revision : Nat} {events : List Event} {e : Event}
    (h : e ∈ events) : e.revision ≤ lastRevision revision events := by
  induction events generalizing revision with
  | nil => cases h
  | cons x events ih =>
    rw [lastRevision_cons]
    rcases List.mem_cons.1 h with rfl | h
    · exact Nat.le_trans (Nat.le_max_right _ _) (le_lastRevision _ _)
    · exact ih h

theorem lastRevision_eq_or (revision : Nat) (events : List Event) :
    lastRevision revision events = revision ∨
      ∃ e ∈ events, lastRevision revision events = e.revision := by
  induction events generalizing revision with
  | nil => exact .inl rfl
  | cons x events ih =>
    rw [lastRevision_cons]
    rcases ih (max revision x.revision) with h | ⟨e, he, h⟩
    · rcases Nat.le_total revision x.revision with hle | hle
      · exact .inr ⟨x, List.mem_cons_self, by rw [h, Nat.max_eq_right hle]⟩
      · exact .inl (by rw [h, Nat.max_eq_left hle])
    · exact .inr ⟨e, List.mem_cons_of_mem _ he, h⟩

/-! ## Histories -/

/-- The changes that a store went through. -/
structure History where
  events : List Event
  ascending : Ascending events
  positive : ∀ e ∈ events, 0 < e.revision
  full : ∀ e ∈ events, e.IsFull

/-- The events up to a revision. -/
def eventsUpTo (log : List Event) (revision : Nat) : List Event :=
  log.filter fun e => e.revision ≤ revision

theorem mem_eventsUpTo {log : List Event} {revision : Nat} {e : Event} :
    e ∈ eventsUpTo log revision ↔ e ∈ log ∧ e.revision ≤ revision := by
  simp [eventsUpTo]

/-- The events up to a revision are those up to an earlier one and those between. -/
theorem Ascending.eventsUpTo_split {log : List Event} (h : Ascending log) {a b : Nat}
    (hab : a ≤ b) : eventsUpTo log b =
      eventsUpTo log a ++ log.filter fun e => a < e.revision && decide (e.revision ≤ b) := by
  induction log with
  | nil => rfl
  | cons e log ih =>
    obtain ⟨hlt, hlog⟩ := List.pairwise_cons.1 h
    have ih := ih hlog
    by_cases ha : e.revision ≤ a
    · have hb : e.revision ≤ b := Nat.le_trans ha hab
      simp only [eventsUpTo, List.filter_cons, ha, hb, decide_true, if_true] at ih ⊢
      rw [ih]
      simp [Nat.not_lt.2 ha]
    · -- everything after the event is later too
      have hnone : eventsUpTo log a = [] := by
        refine List.filter_eq_nil_iff.2 fun x hx => ?_
        have := hlt x hx
        simp only [decide_eq_true_eq]
        omega
      rw [hnone, List.nil_append] at ih
      have hgt : a < e.revision := by omega
      simp only [eventsUpTo, List.filter_cons, ha, hgt, decide_true, Bool.true_and] at hnone ih ⊢
      rw [ih, hnone]
      simp

/-- The live keys of an index under a prefix. -/
def KeyMap.listedUnder (index : KeyMap Record) (keyPrefix : String) : List StoredKey :=
  (index.entries.filter fun e => Text.startsWith keyPrefix e.1).map fun e => e.2.listed e.1

theorem Store.keysUnder_eq (s : Store) (keyPrefix : String) :
    s.keysUnder keyPrefix = s.index.listedUnder keyPrefix := by
  rw [keysUnder, KeyMap.takeWhile_entriesFrom, KeyMap.listedUnder]

/-- A key is listed with its record. -/
theorem KeyMap.mem_listedUnder {index : KeyMap Record} {keyPrefix : String} {k : StoredKey} :
    k ∈ index.listedUnder keyPrefix ↔
      Text.startsWith keyPrefix k.key = true ∧
        index.get? k.key = some ⟨k.value, k.createRevision, k.modRevision⟩ := by
  unfold KeyMap.listedUnder
  rw [List.mem_map]
  constructor
  · rintro ⟨⟨key, r⟩, hmem, rfl⟩
    obtain ⟨hin, hp⟩ := List.mem_filter.1 hmem
    exact ⟨hp, KeyMap.get?_eq_some_iff.2 hin⟩
  · rintro ⟨hp, hget⟩
    exact ⟨_, List.mem_filter.2 ⟨KeyMap.get?_eq_some_iff.1 hget, hp⟩, rfl⟩

theorem KeyMap.pairwise_listedUnder (index : KeyMap Record) (keyPrefix : String) :
    (index.listedUnder keyPrefix).Pairwise fun a b => a.key < b.key := by
  unfold KeyMap.listedUnder
  rw [List.pairwise_map]
  exact index.sorted.filter _

namespace History

/-- The contents of the store right after a revision. -/
def contentsAt (h : History) (revision : Nat) : KeyMap Record :=
  contentsAfter (eventsUpTo h.events revision)

/-- The listing of the keys under a prefix that the store gave right after a revision. -/
def listing (h : History) (keyPrefix : String) (revision : Nat) : Listing :=
  ⟨(h.contentsAt revision).listedUnder keyPrefix, revision⟩

variable {h : History} {revision : Nat} {k : String}

theorem mem_of_get?_contentsAt {r : Record} (hr : (h.contentsAt revision).get? k = some r) :
    ⟨k, .put r.value, r.modRevision⟩ ∈ h.events ∧ r.modRevision ≤ revision :=
  mem_eventsUpTo.1 (mem_of_get?_contentsAfter hr)

theorem revision_le_of_get?_contentsAt {r : Record}
    (hr : (h.contentsAt revision).get? k = some r) {e : Event} (he : e ∈ h.events)
    (hk : e.key = k) (hle : e.revision ≤ revision) : e.revision ≤ r.modRevision :=
  (h.ascending.filter _).revision_le_modRevision hr (mem_eventsUpTo.2 ⟨he, hle⟩) hk (h.full e he)

theorem exists_delete_of_get?_contentsAt (hn : (h.contentsAt revision).get? k = none) {e : Event}
    (he : e ∈ h.events) (hk : e.key = k) (hle : e.revision ≤ revision) :
    ∃ d ∈ h.events, d.key = k ∧ d.change = .delete ∧ e.revision ≤ d.revision := by
  obtain ⟨d, hd, hdk, hdc, hdr⟩ :=
    (h.ascending.filter _).exists_delete hn (mem_eventsUpTo.2 ⟨he, hle⟩) hk (h.full e he)
  exact ⟨d, (mem_eventsUpTo.1 hd).1, hdk, hdc, hdr⟩

end History

end GatewayStore
