import GatewayStore.Proofs.Clients.Replacement
import GatewayStore.Proofs.Resource.Metadata

/-
  Update times of documents that calls replace. An update gets a later time than the one that is
  stored, whatever the clock shows and whoever stored it, unless that is the last time that there is
  (`lt_nextUpdateTime_iff`). A call that returns has taken the stored time from the very document that
  it replaced (`advances_of_returned`). So along a chain of calls, each of which replaces what the one
  before has put, the times that are stored ascend as far as there are times
  (`update_times_ascend`).
-/

namespace GatewayStore

/-! ## Times -/

/-- An update time is later than the one before by a second at least, as far as there are times. -/
theorem le_toInt_nextUpdateTime (now : WallTime) (previous : Int64) :
    min maxSeconds (previous.toInt + 1) ≤ (nextUpdateTime now previous).toInt := by
  have hlow := previous.le_toInt
  have hs := toInt_seconds (previous.toInt + 1)
  unfold minSeconds at hs
  unfold nextUpdateTime
  dsimp only
  split
  · omega
  · next hlater =>
    rw [Int64.le_iff_toInt_le] at hlater
    omega

theorem toInt_maxValue : Int64.maxValue.toInt = maxSeconds := by decide

theorem toInt_le_maxSeconds (t : Int64) : t.toInt ≤ maxSeconds := by
  have hle := t.toInt_le
  rwa [toInt_maxValue] at hle

theorem ne_maxValue_iff {t : Int64} : t ≠ Int64.maxValue ↔ t.toInt < maxSeconds := by
  have hle := toInt_le_maxSeconds t
  rw [ne_eq, ← Int64.toInt_inj, toInt_maxValue]
  omega

/-- The next update time is a later one, unless there is none. -/
theorem lt_nextUpdateTime_iff (now : WallTime) (previous : Int64) :
    previous < nextUpdateTime now previous ↔ previous ≠ Int64.maxValue := by
  rw [Int64.lt_iff_toInt_lt, ne_maxValue_iff]
  have hle := toInt_le_maxSeconds (nextUpdateTime now previous)
  have hnext := le_toInt_nextUpdateTime now previous
  omega

/-! ## Documents -/

/-- A document is an update of another one: it was created at the same time, and it was updated
later, if there is a later time. -/
structure Resource.Advances (old new : Resource) : Prop where
  createTime_eq : new.createTime = old.createTime
  updateTime_lt_iff : old.updateTime < new.updateTime ↔ old.updateTime ≠ Int64.maxValue
  le_updateTime : min maxSeconds (old.updateTime.toInt + 1) ≤ new.updateTime.toInt

theorem Resource.advances_stampUpdated (r previous : Resource) (now : WallTime) :
    previous.Advances (r.stampUpdated now previous) :=
  ⟨rfl, lt_nextUpdateTime_iff now _, le_toInt_nextUpdateTime now _⟩

theorem Resource.Advances.congr {old new new' : Resource} (h : old.Advances new)
    (hsame : new'.SameMetadata new) : old.Advances new' := by
  obtain ⟨hcreated, hiff, hle⟩ := h
  rw [← hsame.updateTime_eq] at hiff hle
  exact ⟨hsame.createTime_eq.trans hcreated, hiff, hle⟩

/-- Along a chain of updates the update time has moved on by a second for each of them, as far as
there are times. -/
theorem Resource.le_updateTime_of_isChain {first : Resource} {later : List Resource}
    (h : (first :: later).IsChain Resource.Advances) {n : Nat} {last : Resource}
    (hlast : (first :: later)[n]? = some last) :
    min maxSeconds (first.updateTime.toInt + n) ≤ last.updateTime.toInt := by
  induction n generalizing first later with
  | zero =>
    cases hlast
    omega
  | succ n ih =>
    cases later with
    | nil => cases hlast
    | cons next later =>
      obtain ⟨hadvances, hchain⟩ := List.isChain_cons_cons.1 h
      have hstep := hadvances.le_updateTime
      have hrest := ih hchain hlast
      omega

namespace Clients

variable {retention : Nat} {moves : List ClientMove} {path key : String}

/-! ## One call -/

/-- A call that returned has put a document whose times advance those of the document that it
replaced, if it has replaced one. -/
theorem advances_of_returned {i : Nat} {c : Call}
    (hc : ((initial retention).run moves).calls[i]? = some c) {r : Resource} {creates : Bool}
    (hcommand : c.command.replacement? = some (key, r, creates)) {result : Option Resource}
    (hreturned : c.returned? = some result) :
    ∃ document n new, result = some document ∧
      moves[n]? = some (.perform i) ∧ ChangedBy retention moves i n ∧
      ((initial retention).run (moves.take (n + 1))).store.index.get?
        (c.collection.storageKey key) = some new ∧ new.value = document.encode ∧
      ∀ old, ((initial retention).run (moves.take n)).store.index.get?
        (c.collection.storageKey key) = some old →
        ∃ previous, Resource.decode key old.value = .ok previous ∧ previous.Advances document := by
  obtain ⟨bound, document, n, -, rfl, hm, hreplaced, hstore⟩ :=
    replaced_of_returned hc hcommand hreturned
  have hnew := Store.get?_recorded_put ((initial retention).run (moves.take n)).store
    (c.collection.storageKey key) document.encode
  rw [← hstore] at hnew
  refine ⟨document, n, _, rfl, hm, changedBy_of_recorded hm hstore, hnew, rfl,
    fun old hold => ?_⟩
  cases hreplaced with
  | created hcreates habsent => cases habsent.symm.trans hold
  | updated old' previous now hold' hdecode hdocument =>
    obtain rfl := Option.some.inj (hold'.symm.trans hold)
    exact ⟨previous, hdecode, hdocument ▸ Resource.advances_stampUpdated bound previous now⟩

/-- A document that a call returned has an id. -/
theorem id_ne_of_returned {i : Nat} {c : Call} {document : Resource}
    (hc : ((initial retention).run moves).calls[i]? = some c)
    (hreturned : c.returned? = some (some document)) : document.id ≠ "" := by
  obtain ⟨-, written, change, -, hwrites, -⟩ := changedBy_of_returned hc hreturned
  obtain ⟨given, hgiven⟩ := hwrites.exists_given
  obtain ⟨-, bound, -, hfiled⟩ := hwrites.document_eq hgiven
  exact hfiled.id_ne

/-! ## Chains of calls -/

/-- A call that returned `document` has replaced what was stored under its key by a step of its own. -/
structure Rewrote (retention : Nat) (moves : List ClientMove) (path key : String)
    (document : Resource) (old new : Record) (i n : Nat) (c : Call) : Prop where
  call : ((initial retention).run moves).calls[i]? = some c
  command : ∃ r creates, c.command.replacement? = some (key, r, creates)
  stored : c.collection.storageKey key = path
  returned : c.returned? = some (some document)
  performed : moves[n]? = some (.perform i)
  changed : ChangedBy retention moves i n
  before : ((initial retention).run (moves.take n)).store.index.get? path = some old
  after : ((initial retention).run (moves.take (n + 1))).store.index.get? path = some new

/-- One record has been replaced by another one, with a document whose payload does not dispute its
managed fields. -/
def Rewritten (retention : Nat) (moves : List ClientMove) (path key : String) (old new : Record) :
    Prop :=
  ∃ document i n c, Rewrote retention moves path key document old new i n c ∧
    document.Undisputed key ∧
    (Json.object document.payload.entries).EachNumber Json.Number.Finite

theorem Rewritten.advances {old new : Record} (h : Rewritten retention moves path key old new) :
    ∃ d d', Resource.decode key old.value = .ok d ∧ Resource.decode key new.value = .ok d' ∧
      d.Advances d' := by
  obtain ⟨document, i, n, c, hrewrote, hundisputed, hnumbers⟩ := h
  obtain ⟨r, creates, hcommand⟩ := hrewrote.command
  obtain ⟨document', n', new', hsame, hm, hchanged, hafter, hvalue, hbefore⟩ :=
    advances_of_returned hrewrote.call hcommand hrewrote.returned
  -- the call has changed the store once
  obtain rfl := hrewrote.changed.unique_of_answered hchanged
    (fun cause hlost => by cases hrewrote.performed.symm.trans hlost)
    fun cause hlost => by cases hm.symm.trans hlost
  obtain rfl := Option.some.inj hsame
  rw [hrewrote.stored] at hafter hbefore
  obtain rfl := Option.some.inj (hrewrote.after.symm.trans hafter)
  obtain ⟨previous, hdecode, hadvances⟩ := hbefore old hrewrote.before
  have hid := id_ne_of_returned hrewrote.call hrewrote.returned
  obtain ⟨d, hd, hmetadata⟩ := (Resource.decode_encode_iff hid hnumbers key).2 hundisputed
  exact ⟨previous, d, hdecode, hvalue ▸ hd, hadvances.congr hmetadata⟩

/-- What a chain of records decodes to. -/
theorem advances_of_isChain {first : Record} {later : List Record}
    (h : (first :: later).IsChain (Rewritten retention moves path key)) {d : Resource}
    (hd : Resource.decode key first.value = .ok d) :
    ∃ ds, List.Forall₂ (fun record d => Resource.decode key record.value = .ok d) later ds ∧
      (d :: ds).IsChain Resource.Advances := by
  induction later generalizing first d with
  | nil => exact ⟨[], .nil, .singleton d⟩
  | cons next later ih =>
    obtain ⟨hrewritten, hchain⟩ := List.isChain_cons_cons.1 h
    obtain ⟨d₀, d', hd₀, hd', hadvances⟩ := hrewritten.advances
    obtain rfl := Except.ok.inj (hd.symm.trans hd₀)
    obtain ⟨ds, hall, hascends⟩ := ih hchain hd'
    exact ⟨d' :: ds, .cons hd' hall, List.isChain_cons_cons.2 ⟨hadvances, hascends⟩⟩

/-! ## The main result -/

/-- Update times. The next update time is a later one unless the time before was the last one. Let a
call return that replaces a key. It has put its document by one step of its own, and if there was
another one, then that could be decoded, was created at the same time, and was updated earlier, unless
at the last time. Let calls replace one after another what the one before has put, with documents that
do not dispute their managed fields. Then all that is stored decodes, with times that advance from each
document to the next, by a second for each call as far as there are times. -/
theorem update_times_ascend (retention : Nat) (moves : List ClientMove) :
    (∀ now previous, previous < nextUpdateTime now previous ↔ previous ≠ Int64.maxValue) ∧
    (∀ i c key r creates result, ((initial retention).run moves).calls[i]? = some c →
      c.command.replacement? = some (key, r, creates) → c.returned? = some result →
      ∃ document n new, result = some document ∧
        moves[n]? = some (.perform i) ∧ ChangedBy retention moves i n ∧
        ((initial retention).run (moves.take (n + 1))).store.index.get?
          (c.collection.storageKey key) = some new ∧ new.value = document.encode ∧
        ∀ old, ((initial retention).run (moves.take n)).store.index.get?
          (c.collection.storageKey key) = some old →
          ∃ previous, Resource.decode key old.value = .ok previous ∧
            previous.Advances document) ∧
    ∀ path key first later d, Resource.decode key first.value = .ok d →
      (first :: later).IsChain (Rewritten retention moves path key) →
      ∃ ds, List.Forall₂ (fun record d => Resource.decode key record.value = .ok d) later ds ∧
        (d :: ds).IsChain Resource.Advances ∧
        ∀ (n : Nat) last, (d :: ds)[n]? = some last →
          min maxSeconds (d.updateTime.toInt + n) ≤ last.updateTime.toInt := by
  refine ⟨lt_nextUpdateTime_iff, fun i c key r creates result hc hcommand hreturned =>
    advances_of_returned hc hcommand hreturned, fun path key first later d hd hchain => ?_⟩
  obtain ⟨ds, hall, hascends⟩ := advances_of_isChain hchain hd
  exact ⟨ds, hall, hascends, fun n last hlast => Resource.le_updateTime_of_isChain hascends hlast⟩

/-- A service is stored with an update time of its own. Two clients replace it, one after the other;
their clocks show second 5. -/
def renewals (updated : Int64) : List ClientMove :=
  let c : Collection := ⟨.service, ⟨"/apisix", 1000⟩⟩
  let r : Resource := ⟨"", 0, 0, .empty⟩
  [.operate (.put "/apisix/services/s1" (Resource.encode ⟨"s1", 3, updated, .empty⟩) none),
    .begin c (.update "s1" r), .readCaches 0 fun _ => none, .perform 0, .readClock 0 ⟨5000⟩,
    .perform 0, .begin c (.upsert "s1" r), .readCaches 1 fun _ => none, .perform 1,
    .readClock 1 ⟨5000⟩, .perform 1]

/-- The clocks are behind what is stored. -/
theorem update_times_ascend_behind :
    let held (n : Nat) :=
      ((initial 4).run ((renewals 9).take n)).store.index.get? "/apisix/services/s1"
    ∃ first second third d d', held 5 = some first ∧ held 6 = some second ∧ held 11 = some third ∧
      Resource.decode "s1" second.value = .ok d ∧ Resource.decode "s1" third.value = .ok d' ∧
      9 < d.updateTime ∧ 11 ≤ d'.updateTime.toInt := by
  intro held
  have hrewritten (i n : Nat) (creates : Bool) {old new : Record}
      (hcall : (((initial 4).run (renewals 9)).calls[i]?).map
        (fun c => (c.collection, c.command.replacement?)) =
          some (⟨.service, ⟨"/apisix", 1000⟩⟩, some ("s1", ⟨"", 0, 0, .empty⟩, creates)))
      (hover : ∃ document, (((initial 4).run (renewals 9)).calls[i]?).bind Call.returned? =
        some (some document) ∧ document.payload = .empty)
      (hm : (renewals 9)[n]? = some (.perform i)) (hold : held n = some old)
      (hnew : held (n + 1) = some new) (hne : held n ≠ held (n + 1)) :
      Rewritten 4 (renewals 9) "/apisix/services/s1" "s1" old new := by
    obtain ⟨c, hc, hgiven⟩ := Option.map_eq_some_iff.1 hcall
    obtain ⟨hcollection, hcommand⟩ := Prod.mk.inj hgiven
    obtain ⟨document, hreturned, hpayload⟩ := hover
    rw [hc, Option.bind_some] at hreturned
    have hnone {name : String} {v : Json} : document.field? name ≠ some v := by
      rw [Resource.field?, hpayload]
      intro hsome
      cases hsome
    refine ⟨document, i, n, c, ⟨hc, ⟨_, creates, hcommand⟩, ?_, hreturned, hm,
      ⟨⟨_, hm, rfl⟩, fun hsame => ?_⟩, hold, hnew⟩, ⟨?_, fun v hv => absurd hv hnone,
      fun v hv => absurd hv hnone, fun v hv => absurd hv hnone⟩, ?_⟩
    · rw [hcollection]
      rfl
    · exact hne (congrArg (fun store : Store => store.index.get? "/apisix/services/s1") hsame.symm)
    · rw [hpayload]
      decide
    · rw [hpayload]
      trivial
  have hrevisions : (held 5).map Record.modRevision ≠ (held 6).map Record.modRevision ∧
      (held 10).map Record.modRevision ≠ (held 11).map Record.modRevision := by decide +kernel
  have hdated : (held 5).map (fun record =>
      (Resource.decode "s1" record.value).toOption.map Resource.updateTime) = some (some 9) := by
    decide +kernel
  obtain ⟨first, hfirst, hdated⟩ := Option.map_eq_some_iff.1 hdated
  obtain ⟨before, hbefore, hupdated⟩ := Option.map_eq_some_iff.1 hdated
  obtain ⟨second, hsecond⟩ : ∃ second, held 6 = some second := ⟨_, rfl⟩
  obtain ⟨third, hthird⟩ : ∃ third, held 11 = some third := ⟨_, rfl⟩
  have hkept : held 10 = held 6 := rfl
  have hchain : [first, second, third].IsChain
      (Rewritten 4 (renewals 9) "/apisix/services/s1" "s1") :=
    List.isChain_cons_cons.2 ⟨hrewritten 0 5 false rfl ⟨_, rfl, rfl⟩ rfl
      hfirst hsecond fun hsame => hrevisions.1 (congrArg _ hsame), List.isChain_cons_cons.2
      ⟨hrewritten 1 10 true rfl ⟨_, rfl, rfl⟩ rfl (hkept.trans hsecond)
        hthird fun hsame => hrevisions.2 (congrArg _ hsame), .singleton third⟩⟩
  have hdecode : Resource.decode "s1" first.value = .ok before := by
    cases hd : Resource.decode "s1" first.value with
    | ok d =>
      rw [hd] at hbefore
      exact congrArg _ (Option.some.inj hbefore)
    | error cause =>
      rw [hd] at hbefore
      cases hbefore
  obtain ⟨-, -, hchains⟩ := update_times_ascend 4 (renewals 9)
  obtain ⟨ds, hall, hascends, hbound⟩ := hchains _ _ first [second, third] before hdecode hchain
  obtain ⟨d, ds', hd, hall', rfl⟩ := List.forall₂_cons_left_iff.1 hall
  obtain ⟨d', ds, hd', -, rfl⟩ := List.forall₂_cons_left_iff.1 hall'
  have hlater := (List.isChain_cons_cons.1 hascends).1.updateTime_lt_iff
  have hlast := hbound 2 d' rfl
  rw [hupdated] at hlater hlast
  exact ⟨first, second, third, d, d', hfirst, hsecond, hthird, hd, hd', hlater.2 (by decide), hlast⟩

/-- The last update time is not followed by another one. Two calls return that replace a service which
was last updated then, and leave this time as it is. -/
theorem update_times_exhausted :
    let s := (initial 4).run (renewals Int64.maxValue)
    (s.calls.map fun c => (c.returned?).map fun result => result.map Resource.updateTime) =
        [some (some Int64.maxValue), some (some Int64.maxValue)] ∧
      (s.store.index.get? "/apisix/services/s1").map (fun record =>
        (Resource.decode "s1" record.value).toOption.map Resource.updateTime) =
          some (some Int64.maxValue) := by
  decide +kernel

end Clients

end GatewayStore
