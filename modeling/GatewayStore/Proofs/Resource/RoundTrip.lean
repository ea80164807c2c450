import GatewayStore.Proofs.Json.Canonical
import GatewayStore.Proofs.Resource.Stored

/-
  Encoding as a canonical form. A resource whose payload has no managed name, no float and no more
  containers than can be read is `Plain`. It decodes to itself (`Plain.decode_encode`), so that plain
  resources with the same bytes are the same; and what decodes without a float is plain
  (`plain_of_decode`), so that decoding what one encodes again changes nothing (`canonical_encoding`).
-/

namespace GatewayStore.Resource

/-- A resource that its stored text gives back. -/
structure Plain (r : Resource) : Prop where
  unreserved : ∀ e ∈ r.payload.entries, isReserved e.1 = false
  ordered : (Json.object r.payload.entries).Ordered
  floatFree : (Json.object r.payload.entries).FloatFree
  depth_le : (Json.object r.payload.entries).depth ≤ Json.Reading.maxDepth

variable {r : Resource}

theorem withKey_withKey (r : Resource) (key : String) :
    (r.withKey key).withKey key = r.withKey key := by
  simp only [withKey_eq]
  split <;> simp

theorem payload_withKey (r : Resource) (key : String) : (r.withKey key).payload = r.payload := by
  rw [withKey_eq]

theorem Plain.storable (h : r.Plain) : r.Storable :=
  ⟨(Json.printable_object (Json.Reading.maxDepth - 1)).1 (h.floatFree.printable h.depth_le),
    h.unreserved⟩

theorem Plain.of_payload {r' : Resource} (h : r.Plain) (heq : r'.payload = r.payload) :
    r'.Plain :=
  ⟨heq ▸ h.unreserved, heq ▸ h.ordered, heq ▸ h.floatFree, heq ▸ h.depth_le⟩

theorem Storable.plain (h : r.Storable) (hordered : ∀ e ∈ r.payload.entries, e.2.Ordered)
    (hfloat : (Json.object r.payload.entries).FloatFree) : r.Plain :=
  ⟨h.unreserved, ⟨r.payload.sorted, Json.orderedMembers_iff.2 hordered⟩, hfloat,
    ((Json.printable_object (Json.Reading.maxDepth - 1)).2 h.printable).depth_le⟩

/-- The key's field is a string. -/
theorem Plain.bindKey {kind : Kind} {key : String} {r' : Resource} (h : r.Plain)
    (hbind : r.bindKey kind key = .ok r') : r'.Plain := by
  have hstorable := h.storable.bindKey hbind
  rcases bindKey_eq_ok hbind with ⟨-, rfl⟩ | ⟨-, -, rfl⟩ | ⟨-, rfl⟩
  · exact h.of_payload rfl
  · exact h.of_payload (payload_withKey r key)
  · refine hstorable.plain (fun e he => ?_) (Json.floatFreeMembers_iff.2 fun e he => ?_)
    · rcases Assoc.mem_insert he with rfl | he
      · trivial
      · exact Json.orderedMembers_iff.1 h.ordered.2 e he
    · rcases Assoc.mem_insert he with rfl | he
      · trivial
      · exact Json.floatFreeMembers_iff.1 h.floatFree e he

theorem Plain.decode_encode (h : r.Plain) (key : String) :
    decode key r.encode = .ok (r.withKey key) := by
  have hmembers := Json.rereadMembers_eq_self r.payload.entries h.ordered.2 h.floatFree
  rw [h.storable.decode_encode, hmembers, KeyMap.ofPairs_entries]

/-- Plain resources are the same if they are stored as the same bytes. -/
theorem Plain.eq_of_encode_eq (h : r.Plain) {r' : Resource} (h' : r'.Plain)
    (heq : r.encode = r'.encode) : r = r' := by
  have hself (s : Resource) : s.withKey "" = s := by
    unfold withKey
    split
    · next hid => rw [← hid]
    · rfl
  have hdecoded := h.decode_encode ""
  rw [heq, h'.decode_encode, hself, hself] at hdecoded
  exact (Except.ok.inj hdecoded).symm

theorem decode_eq_ok {key : String} {bytes : Bytes} (h : decode key bytes = .ok r) :
    ∃ v r', Json.ofBytes? bytes = some v ∧ ofJson v = .ok r' ∧ r = r'.withKey key := by
  unfold decode at h
  split at h
  · cases h
  · next v hparse =>
    split at h
    · cases h
    · next r' hjson =>
      cases h
      exact ⟨v, r', hparse, hjson, rfl⟩

/-- A resource that comes from a value such as the reader gives is plain if it has no float. -/
theorem plain_of_ofJson {v : Json} (hread : v.Parsed Json.Reading.maxDepth)
    (hjson : ofJson v = .ok r) (hfloat : (Json.object r.payload.entries).FloatFree) : r.Plain := by
  obtain ⟨members, rfl, hentry⟩ := mem_of_ofJson hjson
  have hstorable := storable_of_ofJson hread.printable hjson
  have hordered := Json.orderedMembers_iff.1 hread.ordered.2
  exact hstorable.plain (fun e he => hordered e (hentry e he).1) hfloat

/-- A resource that was decoded is plain if it has no float. -/
theorem plain_of_decode {key : String} {bytes : Bytes} (h : decode key bytes = .ok r)
    (hfloat : (Json.object r.payload.entries).FloatFree) : r.Plain := by
  obtain ⟨v, r', hparse, hjson, rfl⟩ := decode_eq_ok h
  obtain ⟨text, -, hparse⟩ := Option.bind_eq_some_iff.1 hparse
  rw [payload_withKey] at hfloat
  have hread := Json.parsed_of_parse? hparse
  exact (plain_of_ofJson hread hjson hfloat).of_payload (payload_withKey r' key)

/-- The stored form is canonical. A plain resource decodes to itself, with the key for a missing id;
two of them have the same bytes exactly when they are the same; and whatever bytes a resource without
floats was decoded from, its own bytes decode to it. -/
theorem canonical_encoding :
    (∀ key (r : Resource), r.Plain →
      decode key r.encode = .ok { r with id := if r.id = "" then key else r.id }) ∧
    (∀ r r' : Resource, r.Plain → r'.Plain → (r.encode = r'.encode ↔ r = r')) ∧
    ∀ key bytes r, decode key bytes = .ok r → (Json.object r.payload.entries).FloatFree →
      decode key r.encode = .ok r := by
  refine ⟨fun key r hr => ?_, fun r r' hr hr' => ⟨hr.eq_of_encode_eq hr', congrArg encode⟩,
    fun key bytes r hdecode hfloat => ?_⟩
  · rw [hr.decode_encode, withKey_eq]
  · obtain ⟨v, r', -, -, hkey⟩ := decode_eq_ok hdecode
    rw [(plain_of_decode hdecode hfloat).decode_encode, hkey, withKey_withKey]

/-- A resource without an id that has the ends of the integers and text that needs escapes. -/
def escaped : Resource :=
  ⟨"", 1700000000, 0, .ofPairs [
    ("limits", .array [.number (.integer (-2 ^ 63) (by decide)), .object [],
      .number (.integer (2 ^ 64 - 1) (by decide))]),
    ("name", .string "a\"b\\c\n\u0001é")]⟩

/-- A document with blanks, an escape, a number as its id and a member twice. -/
def loose : String := " \x7b \"uri\" : \"/a\" ,\n\"id\":7,\"uri\":\"\\u002fb\"\x7d "

theorem canonical_encoding_loose :
    decode "k" escaped.encode = .ok { escaped with id := "k" } ∧
      ∃ r, decode "k" (Text.utf8 loose) = .ok r ∧ r.id = "7" ∧ decode "k" r.encode = .ok r := by
  obtain ⟨hplain, -, hdecoded⟩ := canonical_encoding
  have hescaped : escaped.Plain :=
    ⟨by decide +kernel,
      ⟨escaped.payload.sorted, ⟨trivial, ⟨Assoc.sorted_nil, trivial⟩, trivial, trivial⟩, trivial,
        trivial⟩,
      ⟨⟨trivial, trivial, trivial, trivial⟩, trivial, trivial⟩, by decide +kernel⟩
  have hscan : Json.Token.scan loose.toList = some [.openObject, .string "uri", .colon, .string "/a",
      .comma, .string "id", .colon, .number (.integer 7 (by decide)), .comma, .string "uri", .colon,
      .string "/b", .closeObject] := by decide +kernel
  have hparse : Json.parse? loose =
      some (.object [("id", .number (.integer 7 (by decide))), ("uri", .string "/b")]) := by
    unfold Json.parse?
    rw [hscan]
    rfl
  have hdecode : decode "k" (Text.utf8 loose) = .ok ⟨"7", 0, 0, .ofPairs [("uri", .string "/b")]⟩ := by
    unfold decode
    rw [Json.ofBytes?, Text.ofUtf8?_utf8, Option.bind_some, hparse]
    rfl
  exact ⟨hplain "k" escaped hescaped, _, hdecode, rfl, hdecoded "k" _ _ hdecode ⟨trivial, trivial⟩⟩

end GatewayStore.Resource
