import GatewayStore.Proofs.Clients.Commands
import GatewayStore.Proofs.Resource.Stored

/-
  Times over the lifetime of a key. Only the commands of clients write the keys of a kind. A put that
  creates a key writes the time of the clock twice; a put that updates it is bound to the revision
  that the call has read, so the times that it copies are those of the very document it replaces
  (`Orderly.keyStep`). Hence all documents of a lifetime have one creation time, and their update
  times ascend (`times_over_lifetime`).
-/

namespace GatewayStore

/-! ## The rules of a run -/

/-- The document that a command is given. -/
def Command.document? : Command → Option Resource
  | .create r | .update _ r | .upsert _ r => some r
  | .delete _ => none

/-- Nothing but the commands of clients writes under the prefix of the kind. Their documents are read
from JSON texts, and their clocks stay below a limit. -/
def ClientMove.Abides (kind : Kind) (root : String) (limit : Int) : ClientMove → Prop
  | .operate step =>
    ∀ key, step.written? = some key → Text.startsWith (kind.keyPrefix root) key = false
  | .begin _ command => ∀ r, command.document? = some r →
    ∃ text v, Json.parse? text = some v ∧ Resource.ofJson v = .ok r
  | .readClock _ now => now.unixSeconds.toInt < limit
  | _ => True

/-! ## Times of stored documents -/

/-- The times in a stored document. -/
def Dated (value : Bytes) (created updated : Int64) : Prop :=
  ∀ key, ∃ d, Resource.decode key value = .ok d ∧ d.createTime = created ∧ d.updateTime = updated

theorem dated_encode {r : Resource} (h : r.Storable) : Dated r.encode r.createTime r.updateTime :=
  Resource.decode_encode_times h

theorem Dated.times_of_decode {value : Bytes} {created updated : Int64} {key : String}
    {d : Resource} (h : Dated value created updated) (hd : Resource.decode key value = .ok d) :
    d.createTime = created ∧ d.updateTime = updated := by
  obtain ⟨d', hd', htimes⟩ := h key
  rw [hd] at hd'
  cases hd'
  exact htimes

/-- What a move may do to a key of the kind. -/
inductive KeyStep (limit : Int) : Option Record → Option Record → Prop
  | kept (record : Option Record) : KeyStep limit record record
  | removed (before : Option Record) : KeyStep limit before none
  | created (now : WallTime) (record : Record) (hclock : now.unixSeconds.toInt < limit)
    (hdated : Dated record.value now.unixSeconds now.unixSeconds) : KeyStep limit none (some record)
  | updated (now : WallTime) (old new : Record) (hclock : now.unixSeconds.toInt < limit)
    (hnewer : old.modRevision < new.modRevision)
    (hdated : ∀ created updated, Dated old.value created updated →
      Dated new.value created (nextUpdateTime now updated)) : KeyStep limit (some old) (some new)

/-! ## What calls remember -/

/-- A reading of the clock is below the limit, and of a key that was read the store never had another
value at the same revision. -/
def Observation.Sound (store : Store) (limit : Int) : Observation → Prop
  | .time now => now.unixSeconds.toInt < limit
  | .answered (.get key) (.ok (some found)) => found.modRevision ≤ store.revision ∧
    ∀ record, store.index.get? key = some record → record.modRevision = found.modRevision →
      record.value = found.value
  | _ => True

theorem Observation.Sound.later {store store' : Store} {limit : Int} {o : Observation}
    (h : o.Sound store limit) (hprecedes : store.Precedes store') : o.Sound store' limit := by
  unfold Sound at h ⊢
  split at h
  · exact h
  · next key found =>
    refine ⟨h.1.trans hprecedes.revision_le, fun record hrecord hrevision => ?_⟩
    rcases hprecedes.kept_or_new key record hrecord with hkept | ⟨hnew, -⟩
    · exact h.2 record hkept hrevision
    · have hold := h.1
      omega
  · trivial

/-- A call that keeps to its command, stores a document that can be read, and remembers soundly. -/
structure Call.Orderly (c : Call) (store : Store) (limit : Int) : Prop where
  keeps : c.rest.Keeps (c.collection.Issues c.command) (c.collection.Returns c.command) c.past
  storable : ∀ r, c.command.document? = some r → r.Storable
  sound : ∀ o ∈ c.past, o.Sound store limit

namespace Call.Orderly

variable {c : Call} {store : Store} {limit : Int}

theorem later (h : c.Orderly store limit) {store' : Store}
    (hprecedes : store.Precedes store') : c.Orderly store' limit :=
  ⟨h.keeps, h.storable, fun o ho => (h.sound o ho).later hprecedes⟩

theorem begun (store : Store) {kind : Kind} {root : String} {collection : Collection}
    {command : Command} (h : (ClientMove.begin collection command).Abides kind root limit) :
    (Call.begun collection command).Orderly store limit := by
  refine ⟨collection.keeps_program command, fun r hr => ?_, fun o ho => by cases ho⟩
  obtain ⟨text, v, hparse, hjson⟩ := h r hr
  exact Resource.storable_of_ofJson (Json.parsed_of_parse? hparse).printable hjson

theorem observe (h : c.Orderly store limit) {o : Observation}
    (ho : o.Sound store limit) : (c.observe o).Orderly store limit := by
  unfold Call.observe
  split
  · exact h
  · next rest hrest =>
    refine ⟨h.keeps.observe hrest, h.storable, fun o' ho' => ?_⟩
    rcases List.mem_append.1 ho' with ho' | ho'
    · exact h.sound o' ho'
    · rw [List.mem_singleton.1 ho']
      exact ho

end Call.Orderly

/-! ## Moves -/

/-- A put under the condition that its key is absent creates the key or changes nothing. -/
theorem keyStep_created {store : Store} {limit : Int} {r : Resource} {now : WallTime}
    (hr : r.Storable) (hclock : now.unixSeconds.toInt < limit) (written key : String) :
    KeyStep limit (store.index.get? key)
      ((store.served (.put written (r.stampCreated now).encode (some .absent))).index.get? key) := by
  rcases store.served_put written (r.stampCreated now).encode (some .absent) with h | ⟨hholds, h⟩
  · rw [h]
    exact .kept _
  rw [h]
  by_cases hkey : key = written
  · subst hkey
    have hnone : store.index.get? key = none := by simpa [Condition.holds] using hholds
    rw [Store.get?_recorded_put, hnone]
    exact .created now _ hclock (dated_encode (hr.of_payload rfl))
  · rw [store.get?_recorded_of_ne _ hkey]
    exact .kept _

theorem Condition.holds_unchanged {revision : Nat} {record : Option Record} :
    (Condition.unchanged revision).holds record = true ↔
      ∃ old, record = some old ∧ old.modRevision = revision := by
  cases record <;> simp [holds]

/-- A put under the condition that its key did not change updates the document that was read, or
changes nothing. -/
theorem keyStep_updated {store : Store} {limit : Int} {r previous : Resource} {now : WallTime}
    {written name : String} {found : StoredKey} (hr : r.Storable)
    (hclock : now.unixSeconds.toInt < limit)
    (hsound : (Observation.answered (.get written) (.ok (some found))).Sound store limit)
    (hdecode : Resource.decode name found.value = .ok previous) (key : String) :
    KeyStep limit (store.index.get? key)
      ((store.served (.put written (r.stampUpdated now previous).encode
        (some (.unchanged found.modRevision)))).index.get? key) := by
  rcases store.served_put written (r.stampUpdated now previous).encode
    (some (.unchanged found.modRevision)) with h | ⟨hholds, h⟩
  · rw [h]
    exact .kept _
  rw [h]
  by_cases hkey : key = written
  · subst hkey
    obtain ⟨hbound, hsame⟩ := hsound
    obtain ⟨old, hold, hrevision⟩ := Condition.holds_unchanged.1 hholds
    rw [Store.get?_recorded_put, hold]
    refine .updated now old _ hclock (by dsimp only; omega) fun created updated hdated => ?_
    -- the document that is replaced is the one that was read
    rw [hsame old hold hrevision] at hdated
    obtain ⟨rfl, rfl⟩ := hdated.times_of_decode hdecode
    exact dated_encode (hr.of_payload rfl)
  · rw [store.get?_recorded_of_ne _ hkey]
    exact .kept _

/-- The call that a call waits for changes a key as the rules allow. -/
theorem Call.Orderly.keyStep {c : Call} {store : Store} {limit : Int} (h : c.Orderly store limit) {r : Request}
    {next : Except Failure r.Answer → Program (Option Resource)} (hrest : c.rest = .call r next)
    (key : String) :
    KeyStep limit (store.index.get? key) ((store.served r).index.get? key) := by
  have hissues : c.collection.Issues c.command c.past r := by
    have hkeeps := h.keeps
    rw [hrest] at hkeeps
    exact hkeeps.1
  have hclock {now : WallTime} (hnow : .time now ∈ c.past) : now.unixSeconds.toInt < limit :=
    h.sound (.time now) hnow
  have hreplacing {name : String} {document document' : Resource}
      (hdocument : c.command.document? = some document)
      (hbind : document.bindKey c.collection.kind name = .ok document')
      (hr : c.collection.Replacing name document' c.past r) :
      KeyStep limit (store.index.get? key) ((store.served r).index.get? key) := by
    have hstorable := (h.storable document hdocument).bindKey hbind
    cases hr with
    | read =>
      rw [Store.served_get]
      exact .kept _
    | created now htime => exact keyStep_created hstorable (hclock htime) _ key
    | updated now found previous htime hread hdecode =>
      exact keyStep_updated hstorable (hclock htime) (h.sound _ hread) hdecode key
  cases hcommand : c.command with
  | create document =>
    rw [hcommand] at hissues
    obtain ⟨r', now, found, hpayload, htime, -, rfl⟩ := hissues
    have hstorable := h.storable document (by rw [hcommand]; rfl)
    exact keyStep_created (hstorable.of_payload hpayload) (hclock htime) _ key
  | update name document =>
    rw [hcommand] at hissues
    obtain ⟨document', hbind, hr⟩ := hissues
    exact hreplacing (by rw [hcommand]; rfl) hbind hr
  | upsert name document =>
    rw [hcommand] at hissues
    obtain ⟨document', hbind, hr⟩ := hissues
    exact hreplacing (by rw [hcommand]; rfl) hbind hr
  | delete name =>
    rw [hcommand] at hissues
    have hdelete : r = .delete (c.collection.storageKey name) := hissues
    generalize c.collection.storageKey name = removed at hdelete
    subst hdelete
    rcases store.served_delete removed with hserved | hserved
    · rw [hserved]
      exact .kept _
    · rw [hserved]
      by_cases hkey : key = removed
      · subst hkey
        rw [Store.get?_recorded_delete]
        exact .removed _
      · rw [store.get?_recorded_of_ne _ hkey]
        exact .kept _

namespace Clients

/-- Clients that abide by the rules. -/
structure Orderly (s : Clients) (limit : Int) : Prop where
  bounded : ∀ key record, s.store.index.get? key = some record →
    record.modRevision ≤ s.store.revision
  calls : ∀ c ∈ s.calls, c.Orderly s.store limit

variable {s : Clients} {kind : Kind} {root : String} {limit : Int} {m : ClientMove}

theorem orderly_initial (retention : Nat) : (initial retention).Orderly limit :=
  ⟨fun _ _ h => (by cases h), fun _ h => (by cases h)⟩

theorem precedes_move (s : Clients) (m : ClientMove) : s.store.Precedes (s.move m).store := by
  have hserved (i : Nat) :
      s.store.Precedes (((s.request? i).map s.store.served).getD s.store) := by
    cases s.request? i with
    | none => exact .refl _
    | some r => exact s.store.precedes_served r
  cases m with
  | operate step => exact s.store.precedes_run step
  | perform i => exact hserved i
  | lose i cause => exact hserved i
  | _ => exact .refl _

namespace Orderly

/-- What a move shows is sound: an answer is the truth about the store. -/
theorem sound_of_seen (h : s.Orderly limit) (hm : m.Abides kind root limit) {i : Nat}
    {o : Observation} (hseen : s.seen? m = some (i, o)) : o.Sound (s.move m).store limit := by
  unfold Observation.Sound
  split
  · next now =>
    cases m with
    | readClock j now' =>
      cases hseen
      exact hm
    | perform j | lose j cause | fail j cause =>
      obtain ⟨r, -, heq⟩ := Option.map_eq_some_iff.1 hseen
      cases heq
    | _ => cases hseen
  · next key found =>
    obtain ⟨-, store, hperform, hstore⟩ := served_of_seen hseen
    obtain ⟨-, hfound, rfl⟩ := Store.perform_get_eq_ok.1 hperform
    rw [hstore]
    obtain ⟨record, hrecord, rfl⟩ := Option.map_eq_some_iff.1 hfound.symm
    refine ⟨h.bounded key record hrecord, fun record' hrecord' _ => ?_⟩
    rw [hrecord] at hrecord'
    cases hrecord'
    rfl
  · trivial

/-- Every move keeps the order. -/
theorem move (h : s.Orderly limit) (hm : m.Abides kind root limit) :
    (s.move m).Orderly limit := by
  have hprecedes := s.precedes_move m
  refine ⟨fun key record hrecord => ?_, fun c hc => ?_⟩
  · rcases hprecedes.kept_or_new key record hrecord with hkept | ⟨-, hle⟩
    · exact (h.bounded key record hkept).trans hprecedes.revision_le
    · exact hle
  · obtain ⟨j, hj⟩ := List.getElem?_of_mem hc
    rcases call_move hj with ⟨collection, command, rfl, rfl⟩ | hbefore |
      ⟨before, o, hbefore, hseen, rfl⟩
    · exact .begun _ hm
    · exact (h.calls c (List.mem_of_getElem? hbefore)).later hprecedes
    · have hlater := (h.calls before (List.mem_of_getElem? hbefore)).later hprecedes
      exact hlater.observe (h.sound_of_seen hm hseen)

/-- A move that changes a key of the kind creates, updates or removes it. -/
theorem keyStep (h : s.Orderly limit) (hm : m.Abides kind root limit) (key : String) :
    KeyStep limit (s.store.index.get? (kind.storageKey root key))
      ((s.move m).store.index.get? (kind.storageKey root key)) := by
  have hserved (i : Nat) : KeyStep limit (s.store.index.get? (kind.storageKey root key))
      ((((s.request? i).map s.store.served).getD s.store).index.get?
        (kind.storageKey root key)) := by
    cases hr : s.request? i with
    | none => exact .kept _
    | some r =>
      obtain ⟨c, next, hc, hrest⟩ := request?_eq_some hr
      exact (h.calls c (List.mem_of_getElem? hc)).keyStep hrest _
  cases m with
  | operate step =>
    have hne : step.written? ≠ some (kind.storageKey root key) := fun hw => by
      have hunder := hm _ hw
      have hstarts : Text.startsWith (kind.keyPrefix root) (kind.storageKey root key) = true :=
        Text.startsWith_iff.2 ⟨key, rfl⟩
      rw [hstarts] at hunder
      cases hunder
    have hsame : (s.move (.operate step)).store = (s.store.run step).2 := rfl
    rw [hsame, s.store.get?_run_of_ne hne]
    exact .kept _
  | perform i => exact hserved i
  | lose i cause => exact hserved i
  | _ => exact .kept _

end Orderly

/-! ## Runs -/

variable {moves : List ClientMove}

theorem orderly_run (retention : Nat) (h : ∀ m ∈ moves, m.Abides kind root limit) :
    ((initial retention).run moves).Orderly limit := by
  induction moves using List.reverseRecOn with
  | nil => exact orderly_initial retention
  | append_singleton moves m ih =>
    rw [run_concat]
    exact (ih fun m' hm' => h m' (List.mem_append_left _ hm')).move (h m (by simp))

/-- A key of the kind after `n` moves. -/
def held (retention : Nat) (kind : Kind) (root : String) (moves : List ClientMove) (key : String)
    (n : Nat) : Option Record :=
  ((initial retention).run (moves.take n)).store.index.get? (kind.storageKey root key)

/-- From one moment to the next a key is created, updated or removed, or nothing happens. -/
theorem keyStep_held (retention : Nat) (h : ∀ m ∈ moves, m.Abides kind root limit) (key : String)
    (n : Nat) : KeyStep limit (held retention kind root moves key n)
      (held retention kind root moves key (n + 1)) := by
  unfold held
  rcases run_take_succ_cases (initial retention) moves n with hsame | ⟨m, hm, hnext⟩
  · rw [hsame]
    exact .kept _
  · have horderly : ((initial retention).run (moves.take n)).Orderly limit :=
      orderly_run retention fun m' hm' => h m' (List.mem_of_mem_take hm')
    rw [hnext]
    exact horderly.keyStep (h m (List.mem_of_getElem? hm)) key

end Clients

/-! ## Times that go on -/

theorem toInt_nextUpdateTime_le (now : WallTime) (previous : Int64) :
    (nextUpdateTime now previous).toInt ≤ max (previous.toInt + 1) now.unixSeconds.toInt := by
  have hlow := previous.le_toInt
  have hs := toInt_seconds (previous.toInt + 1)
  unfold minSeconds maxSeconds at hs
  unfold nextUpdateTime
  dsimp only
  split <;> omega

/-- Whatever is stored leaves its update time room for another second in every later move. -/
def Roomy (room : Nat) (record : Option Record) : Prop :=
  ∀ r, record = some r → ∃ created updated, Dated r.value created updated ∧
    updated.toInt + room < maxSeconds

theorem KeyStep.roomy {limit : Int} {before after : Option Record} {room : Nat}
    (h : KeyStep limit before after) (hbefore : Roomy (room + 1) before)
    (hlimit : limit + room ≤ maxSeconds) : Roomy room after := by
  intro r hr
  cases h with
  | kept =>
    obtain ⟨created, updated, hdated, hroom⟩ := hbefore r hr
    exact ⟨created, updated, hdated, by omega⟩
  | removed => cases hr
  | created now record hclock hdated =>
    cases hr
    exact ⟨_, _, hdated, by omega⟩
  | updated now old new hclock hnewer hdated =>
    cases hr
    obtain ⟨created, updated, hold, hroom⟩ := hbefore old rfl
    have hle := toInt_nextUpdateTime_le now updated
    exact ⟨created, _, hdated created updated hold, by omega⟩

/-- One document goes on from another: it is the same, or it is newer in every respect and was
created at the same time. -/
def GoesOn (old new : Record) : Prop :=
  ∃ created updated updated', Dated old.value created updated ∧ Dated new.value created updated' ∧
    (old = new ∨ old.modRevision < new.modRevision ∧ updated < updated')

theorem GoesOn.step {limit : Int} {first old new : Record} (h : GoesOn first old) {room : Nat}
    (hstep : KeyStep limit (some old) (some new)) (hroomy : Roomy room (some old)) :
    GoesOn first new := by
  cases hstep with
  | kept => exact h
  | updated now _ _ hclock hnewer hdated =>
    obtain ⟨created, updated, updated', hfirst, hold, hor⟩ := h
    have hlt : updated' < nextUpdateTime now updated' := by
      obtain ⟨_, later, hlater, hroom⟩ := hroomy old rfl
      obtain ⟨d, hd, -, rfl⟩ := hlater ""
      rw [(hold.times_of_decode hd).2] at hroom
      exact Int64.lt_iff_toInt_lt.2 (previous_lt_nextUpdateTime (by omega))
    refine ⟨created, updated, _, hfirst, hdated created updated' hold, .inr ?_⟩
    rcases hor with rfl | ⟨hrevision, hupdated⟩
    · obtain ⟨d, hd, -, rfl⟩ := hfirst ""
      rw [(hold.times_of_decode hd).2]
      exact ⟨hnewer, hlt⟩
    · exact ⟨hrevision.trans hnewer, Int64.lt_trans hupdated hlt⟩

/-! ## The main result -/

namespace Clients

variable {kind : Kind} {root : String} {moves : List ClientMove}

theorem held_succ_of_le (retention : Nat) (key : String) {n : Nat} (h : moves.length ≤ n) :
    held retention kind root moves key (n + 1) = held retention kind root moves key n := by
  unfold held
  rw [List.take_of_length_le h, List.take_of_length_le (by omega)]

theorem roomy_held (retention : Nat)
    (h : ∀ m ∈ moves, m.Abides kind root (maxSeconds - moves.length)) (key : String) (n : Nat) :
    Roomy (moves.length - n) (held retention kind root moves key n) := by
  induction n with
  | zero =>
    intro r hr
    cases hr
  | succ n ih =>
    rcases Nat.lt_or_ge n moves.length with hlt | hge
    · refine (keyStep_held retention h key n).roomy ?_ (by omega)
      rwa [show moves.length - n = moves.length - (n + 1) + 1 by omega] at ih
    · rw [held_succ_of_le retention key hge]
      rwa [show moves.length - n = moves.length - (n + 1) by omega] at ih

/-- As long as a key is there, what it holds goes on from what it held. -/
theorem goesOn_held (retention : Nat)
    (h : ∀ m ∈ moves, m.Abides kind root (maxSeconds - moves.length)) (key : String)
    {first last : Nat} (hle : first ≤ last)
    (hthere : ∀ n, first ≤ n → n ≤ last → held retention kind root moves key n ≠ none) :
    ∃ old new, held retention kind root moves key first = some old ∧
      held retention kind root moves key last = some new ∧ GoesOn old new := by
  obtain ⟨old, hold⟩ := Option.ne_none_iff_exists'.1 (hthere first (Nat.le_refl _) hle)
  induction last, hle using Nat.le_induction with
  | base =>
    obtain ⟨created, updated, hdated, -⟩ := roomy_held retention h key first old hold
    exact ⟨old, old, hold, hold, created, updated, updated, hdated, hdated, .inl rfl⟩
  | succ n hn ih =>
    obtain ⟨old', new, hold', hnew, hgoes⟩ := ih fun i hi hin => hthere i hi (Nat.le_succ_of_le hin)
    obtain ⟨next, hnext⟩ := Option.ne_none_iff_exists'.1
      (hthere (n + 1) (Nat.le_succ_of_le hn) (Nat.le_refl _))
    have hstep := keyStep_held retention h key n
    have hroomy := roomy_held retention h key n
    rw [hnew] at hstep hroomy
    rw [hnext] at hstep
    exact ⟨old', next, hold', hnext, hgoes.step hstep hroomy⟩

/-- Times over a key's lifetime. From one moment to a later one, with the key there all the while,
its documents can be decoded and were created at the same time; and the later document is the same or
has the later update time. -/
theorem times_over_lifetime (retention : Nat) (kind : Kind) (root : String)
    (moves : List ClientMove)
    (hmoves : ∀ m ∈ moves, m.Abides kind root (maxSeconds - moves.length)) (key : String)
    {first last : Nat} (hle : first ≤ last)
    (hthere : ∀ n, first ≤ n → n ≤ last → held retention kind root moves key n ≠ none) :
    ∃ old new d d', held retention kind root moves key first = some old ∧
      held retention kind root moves key last = some new ∧
      Resource.decode key old.value = .ok d ∧ Resource.decode key new.value = .ok d' ∧
      d.createTime = d'.createTime ∧
      (old = new ∨ old.modRevision < new.modRevision ∧ d.updateTime < d'.updateTime) := by
  obtain ⟨old, new, hold, hnew, created, updated, updated', hdated, hdated', hor⟩ :=
    goesOn_held retention hmoves key hle hthere
  obtain ⟨d, hd, hcreated, rfl⟩ := hdated key
  obtain ⟨d', hd', hcreated', rfl⟩ := hdated' key
  exact ⟨old, new, d, d', hold, hnew, hd, hd', hcreated.trans hcreated'.symm, hor⟩

/-- Two clients store the same service at the same time, and a third one whose clock is behind
replaces it. -/
def replacedService : List ClientMove :=
  let c : Collection := ⟨.service, ⟨"/apisix", 1000⟩⟩
  let r : Resource := ⟨"", 0, 0, .empty⟩
  [.begin c (.upsert "s1" r), .begin c (.upsert "s1" r), .readCaches 0 fun _ => none,
    .readCaches 1 fun _ => none, .perform 0, .perform 1, .readClock 0 ⟨5000⟩, .readClock 1 ⟨6000⟩,
    .perform 0, .perform 1, .begin c (.update "s1" r), .readCaches 2 fun _ => none, .perform 2,
    .readClock 2 ⟨3000⟩, .perform 2]

theorem times_over_lifetime_replaced :
    (∀ m ∈ replacedService, m.Abides .service "/apisix" (maxSeconds - replacedService.length)) ∧
    ∃ old new d d', held 4 .service "/apisix" replacedService "s1" 9 = some old ∧
      held 4 .service "/apisix" replacedService "s1" 15 = some new ∧
      Resource.decode "s1" old.value = .ok d ∧ Resource.decode "s1" new.value = .ok d' ∧
      d.createTime = d'.createTime ∧ d.updateTime < d'.updateTime := by
  have hdocument : ∃ text v, Json.parse? text = some v ∧
      Resource.ofJson v = .ok ⟨"", 0, 0, .empty⟩ := ⟨"\x7b\x7d", .object [], rfl, rfl⟩
  have hmoves : ∀ m ∈ replacedService,
      m.Abides .service "/apisix" (maxSeconds - replacedService.length) := by
    simp only [replacedService, List.forall_mem_cons]
    refine ⟨?_, ?_, trivial, trivial, trivial, trivial, ?_, ?_, trivial, trivial, ?_, trivial,
      trivial, ?_, trivial, fun _ h => nomatch h⟩
    · exact fun r hr => Option.some.inj hr ▸ hdocument
    · exact fun r hr => Option.some.inj hr ▸ hdocument
    · exact (by decide +kernel : (WallTime.mk 5000).unixSeconds.toInt < maxSeconds - (15 : Nat))
    · exact (by decide +kernel : (WallTime.mk 6000).unixSeconds.toInt < maxSeconds - (15 : Nat))
    · exact fun r hr => Option.some.inj hr ▸ hdocument
    · exact (by decide +kernel : (WallTime.mk 3000).unixSeconds.toInt < maxSeconds - (15 : Nat))
  have hthere : ∀ n < 16, 9 ≤ n →
      held 4 .service "/apisix" replacedService "s1" n ≠ none := by decide +kernel
  have hrevision : (held 4 .service "/apisix" replacedService "s1" 9).map Record.modRevision ≠
      (held 4 .service "/apisix" replacedService "s1" 15).map Record.modRevision := by
    decide +kernel
  obtain ⟨old, new, d, d', hold, hnew, hd, hd', hcreated, hor⟩ :=
    times_over_lifetime 4 .service "/apisix" replacedService hmoves "s1" (by decide : 9 ≤ 15)
      fun n hfirst hlast => hthere n (by omega) hfirst
  rw [hold, hnew] at hrevision
  refine ⟨hmoves, old, new, d, d', hold, hnew, hd, hd', hcreated, ?_⟩
  rcases hor with rfl | ⟨-, hupdated⟩
  · exact absurd rfl hrevision
  · exact hupdated

end Clients

end GatewayStore
