import GatewayStore.Proofs.Clients.Replacement
import GatewayStore.Proofs.Resource.Metadata

/-
  Managed fields of what clients store. The commands set the id and the times of a document and leave
  its payload as it is. What they store therefore decodes to these fields whenever the payload does
  not dispute them, and only then (`stored_metadata_iff`). The payload of a document that was read
  from a text never does; one that was built otherwise may (`metadata_disputed`).
-/

namespace GatewayStore.Clients

/-- What a call stores. A call that returned a document has put it under the document's key by a step
of its own. The bytes decode to the id and the times of the document if and only if its payload does
not dispute them, as is the case if the call was given what was read from a text. -/
theorem stored_metadata_iff (retention : Nat) (moves : List ClientMove) (i : Nat) (c : Call)
    (document : Resource) (hc : ((initial retention).run moves).calls[i]? = some c)
    (hreturned : c.returned? = some (some document))
    (hnumbers : (Json.object document.payload.entries).EachNumber Json.Number.Finite) :
    ∃ n key record, ChangedBy retention moves i n ∧
      document.key? c.collection.kind = some key ∧
      ((initial retention).run (moves.take (n + 1))).store.index.get?
        (c.collection.storageKey key) = some record ∧ record.value = document.encode ∧
      ((∃ d, Resource.decode key record.value = .ok d ∧ d.SameMetadata document) ↔
        document.Undisputed key) ∧
      ((∀ given, c.command.document? = some given → ∃ text v, Json.parse? text = some v ∧
        Resource.ofJson v = .ok given) → document.Undisputed key) := by
  obtain ⟨n, key, change, hchanged, hwrites, hstore⟩ := changedBy_of_returned hc hreturned
  obtain ⟨given, hgiven⟩ := hwrites.exists_given
  obtain ⟨rfl, bound, hbound, hfiled⟩ := hwrites.document_eq hgiven
  have hrecord := Store.get?_recorded_put ((initial retention).run (moves.take n)).store
    (c.collection.storageKey key) document.encode
  rw [← hstore] at hrecord
  refine ⟨n, key, _, hchanged, hfiled.key_eq, hrecord, rfl,
    Resource.decode_encode_iff hfiled.id_ne hnumbers key, fun hread => ?_⟩
  obtain ⟨text, v, hparse, hjson⟩ := hread given hgiven
  have hstorable := Resource.storable_of_ofJson (Json.parsed_of_parse? hparse).printable hjson
  rcases hbound with rfl | hbind
  · exact (hstorable.of_payload hfiled.payload_eq).undisputed key
  · exact ((hstorable.bindKey hbind).of_payload hfiled.payload_eq).undisputed key

/-- A client creates a service at second 5. -/
def creationAtFive (payload : KeyMap Json) : List ClientMove :=
  [.begin ⟨.service, ⟨"/apisix", 1000⟩⟩ (.create ⟨"s1", 0, 0, payload⟩), .readClock 0 ⟨5000⟩,
    .readCaches 0 fun _ => none, .perform 0]

/-- The payload has the same creation time, and null for the id. -/
theorem stored_metadata_iff_agreed :
    let moves := creationAtFive (.ofPairs [("create_time", .ofInt64 5), ("id", .null)])
    ∃ c document n record d, ((initial 4).run moves).calls[0]? = some c ∧
      c.returned? = some (some document) ∧
      ((initial 4).run (moves.take (n + 1))).store.index.get? "/apisix/services/s1" = some record ∧
      Resource.decode "s1" record.value = .ok d ∧ d.SameMetadata document := by
  intro moves
  have hcall : (((initial 4).run moves).calls[0]?).map (fun c => (c.collection, c.command)) =
      some (⟨.service, ⟨"/apisix", 1000⟩⟩, .create ⟨"s1", 0, 0,
        .ofPairs [("create_time", .ofInt64 5), ("id", .null)]⟩) := rfl
  have hover : (((initial 4).run moves).calls[0]?).map
      (fun c => (c.returned?).map fun result => result.map fun document =>
        (document.id, document.createTime)) = some (some (some ("s1", 5))) := by decide +kernel
  obtain ⟨c, hc, hgiven⟩ := Option.map_eq_some_iff.1 hcall
  obtain ⟨hcollection, hcommand⟩ := Prod.mk.inj hgiven
  rw [hc, Option.map_some, Option.some.injEq] at hover
  obtain ⟨result, hresult, hdocument⟩ := Option.map_eq_some_iff.1 hover
  obtain ⟨document, rfl, hfields⟩ := Option.map_eq_some_iff.1 hdocument
  obtain ⟨hid, hcreated⟩ := Prod.mk.inj hfields
  have hpayload : document.payload =
      .ofPairs [("create_time", .ofInt64 5), ("id", .null)] := by
    obtain ⟨-, key, change, -, hwrites, -⟩ := changedBy_of_returned hc hresult
    rw [hcommand] at hwrites
    exact hwrites.1.payload_eq
  have hnumbers : (Json.object document.payload.entries).EachNumber Json.Number.Finite := by
    rw [hpayload]
    exact ⟨trivial, trivial, trivial⟩
  obtain ⟨n, key, record, -, hkey, hrecord, -, hiff, -⟩ :=
    stored_metadata_iff 4 moves 0 c document hc hresult hnumbers
  rw [hcollection] at hkey hrecord
  have hkeyed : document.key? .service = some "s1" := by
    rw [Resource.key?, hid]
    rfl
  obtain rfl := Option.some.inj (hkey.symm.trans hkeyed)
  have hundisputed : document.Undisputed "s1" := by
    refine ⟨?_, fun v hv => ?_, fun v hv => ?_, fun v hv => ?_⟩
    · rw [hpayload]
      decide +kernel
    · rw [Resource.field?, hpayload] at hv
      cases hv
      rw [hcreated]
      rfl
    · rw [Resource.field?, hpayload] at hv
      cases hv
      exact ⟨"", rfl, hid.symm⟩
    · rw [Resource.field?, hpayload] at hv
      cases hv
  obtain ⟨d, hdecode, hsame⟩ := hiff.2 hundisputed
  exact ⟨c, document, n, record, d, hc, hresult, hrecord, hdecode, hsame⟩

/-- A service whose payload has another creation time is created at second 5, and what is stored
decodes to one that was created at second 7. -/
theorem metadata_disputed :
    let s := (initial 4).run (creationAtFive (.ofPairs [("create_time", .ofInt64 7)]))
    (s.calls.map fun c => (c.returned?).map fun result => result.map Resource.createTime) =
        [some (some 5)] ∧
      (s.store.index.get? "/apisix/services/s1").map (fun record =>
        (Resource.decode "s1" record.value).toOption.map Resource.createTime) = some (some 7) := by
  decide +kernel

end GatewayStore.Clients
