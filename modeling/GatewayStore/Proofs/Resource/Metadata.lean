import GatewayStore.Proofs.Json.Canonical
import GatewayStore.Proofs.Json.Depth
import GatewayStore.Proofs.Resource.Stored

/-
  Managed fields in the stored text. They are written first, and the payload follows. Of two members
  with one name the later one counts when the text is read, so a payload that has a member with a
  managed name decides what is read for it. `decode_encode_iff` says when what is stored decodes to
  the managed fields of the resource: the payload must not be too deep, and must say of the managed
  fields what the resource says, if it says anything.
-/

namespace GatewayStore.Resource

/-- One resource has the managed fields of another one. -/
structure SameMetadata (r r' : Resource) : Prop where
  id_eq : r.id = r'.id
  createTime_eq : r.createTime = r'.createTime
  updateTime_eq : r.updateTime = r'.updateTime

/-- The payload can be read, and what it says under a managed name is what the resource says; an
empty id stands for the key. -/
structure Undisputed (r : Resource) (key : String) : Prop where
  depth_le : (Json.object r.payload.entries).depth ≤ Json.Reading.maxDepth
  createTime : ∀ v, r.field? "create_time" = some v → timeOf v.reread = .ok r.createTime
  id : ∀ v, r.field? "id" = some v →
    ∃ id, idOf v.reread = .ok id ∧ (if id = "" then key else id) = r.id
  updateTime : ∀ v, r.field? "update_time" = some v → timeOf v.reread = .ok r.updateTime

variable {r : Resource} {key : String}

/-- A resource from a document says nothing about the managed fields in its payload. -/
theorem Storable.undisputed (h : r.Storable) (key : String) : r.Undisputed key := by
  have hnone {name : String} {v : Json} (hname : isReserved name = true) :
      r.field? name ≠ some v := by
    intro hv
    have hunreserved := h.unreserved _ (Assoc.mem_of_get?_eq_some hv)
    rw [hname] at hunreserved
    cases hunreserved
  exact ⟨((Json.printable_object (Json.Reading.maxDepth - 1)).2 h.printable).depth_le,
    fun v hv => absurd hv (hnone rfl), fun v hv => absurd hv (hnone rfl),
    fun v hv => absurd hv (hnone rfl)⟩

theorem readBack_eq_ok_iff {α : Type} {name : String} {written value : α}
    {read : Json → Except MemberFault α} : r.readBack name written read = .ok value ↔
      (r.field? name = none → written = value) ∧
        ∀ v, r.field? name = some v → read v.reread = .ok value := by
  unfold readBack
  cases r.field? name <;> simp

theorem eachNumber_stored
    (hnumbers : (Json.object r.payload.entries).EachNumber Json.Number.Finite) :
    (Json.object (r.managed ++ r.payload.entries)).EachNumber Json.Number.Finite := by
  refine Json.eachMember_iff.2 fun e he => ?_
  rcases List.mem_append.1 he with he | he
  · exact (r.printable_managed 0 e he).numbers
  · exact Json.eachMember_iff.1 hnumbers e he

/-- Nothing limits the depth of what is stored, but what is too deep does not decode. -/
theorem decode_encode_of_deep
    (hnumbers : (Json.object r.payload.entries).EachNumber Json.Number.Finite)
    (hdeep : Json.Reading.maxDepth < (Json.object r.payload.entries).depth) (key : String) :
    decode key r.encode = .error (.invalidJson key) := by
  have hstored := eachNumber_stored hnumbers
  have hstoredDeep :
      ¬ (Json.object (r.managed ++ r.payload.entries)).depth ≤ Json.Reading.maxDepth := by
    intro hle
    have hprintable := (r.printable_stored (Json.Reading.maxDepth - 1)).1 ⟨hstored, hle⟩
    exact Nat.not_le.2 hdeep hprintable.depth_le
  have hnone : Json.ofBytes? r.encode = none := by
    rw [Json.ofBytes?, encode, Text.ofUtf8?_utf8, Option.bind_some, storedText,
      Json.parse?_render_eq hstored, if_neg hstoredDeep]
  rw [decode, hnone]

/-- What is stored decodes if it is not too deep, and if what is read for the managed fields is of
their form. -/
theorem decode_encode_eq_ok_iff
    (hnumbers : (Json.object r.payload.entries).EachNumber Json.Number.Finite) {d : Resource} :
    decode key r.encode = .ok d ↔
      (Json.object r.payload.entries).depth ≤ Json.Reading.maxDepth ∧
      ∃ createTime id updateTime, r.readBack "create_time" r.createTime timeOf = .ok createTime ∧
        r.readBack "id" r.id idOf = .ok id ∧
        r.readBack "update_time" r.updateTime timeOf = .ok updateTime ∧
        d = ⟨if id = "" then key else id, createTime, updateTime,
          (KeyMap.ofPairs (Json.reread.rereadMembers r.payload.entries)).filter fun name _ =>
            !isReserved name⟩ := by
  by_cases hdepth : (Json.object r.payload.entries).depth ≤ Json.Reading.maxDepth
  · have hmembers := r.ofMembers_stored
    unfold decode
    rw [ofBytes?_encode ⟨hnumbers, hdepth⟩]
    dsimp only [ofJson]
    rw [KeyMap.ofPairs_ofPairs, hmembers]
    cases r.readBack "create_time" r.createTime timeOf with
    | error fault => simp [bind, Except.bind, Except.mapError]
    | ok createTime =>
      cases r.readBack "id" r.id idOf with
      | error fault => simp [bind, Except.bind, Except.mapError]
      | ok id =>
        cases r.readBack "update_time" r.updateTime timeOf with
        | error fault => simp [bind, Except.bind, Except.mapError]
        | ok updateTime =>
          simp [bind, Except.bind, pure, Except.pure, Except.mapError, withKey_eq, hdepth, eq_comm]
  · rw [decode_encode_of_deep hnumbers (Nat.not_le.1 hdepth)]
    simp [hdepth]

/-- The managed fields are read back exactly if the payload does not dispute them. -/
theorem decode_encode_iff (hid : r.id ≠ "")
    (hnumbers : (Json.object r.payload.entries).EachNumber Json.Number.Finite) (key : String) :
    (∃ d, decode key r.encode = .ok d ∧ d.SameMetadata r) ↔ r.Undisputed key := by
  constructor
  · rintro ⟨d, hdecode, hsame⟩
    obtain ⟨hdepth, createTime, id, updateTime, hcreate, hread, hupdate, rfl⟩ :=
      (decode_encode_eq_ok_iff hnumbers).1 hdecode
    obtain ⟨hkeyed, rfl, rfl⟩ := hsame
    exact ⟨hdepth, (readBack_eq_ok_iff.1 hcreate).2,
      fun v hv => ⟨id, (readBack_eq_ok_iff.1 hread).2 v hv, hkeyed⟩,
      (readBack_eq_ok_iff.1 hupdate).2⟩
  · intro h
    obtain ⟨id, hread, hkeyed⟩ : ∃ id, r.readBack "id" r.id idOf = .ok id ∧
        (if id = "" then key else id) = r.id := by
      cases hfield : r.field? "id" with
      | none => exact ⟨r.id, by rw [readBack, hfield], if_neg hid⟩
      | some v =>
        obtain ⟨id, hidOf, hkeyed⟩ := h.id v hfield
        exact ⟨id, by rw [readBack, hfield]; exact hidOf, hkeyed⟩
    exact ⟨_, (decode_encode_eq_ok_iff hnumbers).2 ⟨h.depth_le, r.createTime, id, r.updateTime,
      readBack_eq_ok_iff.2 ⟨fun _ => rfl, h.createTime⟩, hread,
      readBack_eq_ok_iff.2 ⟨fun _ => rfl, h.updateTime⟩, rfl⟩, hkeyed, rfl, rfl⟩

/-! ## A document that is too deep -/

/-- A document with one container more in one another than the reader opens. -/
def deepDocument : Json :=
  .object [("deep", .nested Json.Reading.maxDepth), ("id", .string "r1"), ("uri", .string "/a")]

/-- The resource of the document. -/
def deepRoute : Resource :=
  ⟨"r1", 0, 0, .ofPairs [("deep", .nested Json.Reading.maxDepth), ("uri", .string "/a")]⟩

/-- The resource as it is stored when it is created five seconds into the epoch. -/
def deepCreated : Resource := deepRoute.stampCreated ⟨5000⟩

theorem floatFree_deepDocument : deepDocument.FloatFree :=
  ⟨Json.floatFree_nested _, trivial, trivial, trivial⟩

/-- A reader that opens one container more would give the document. -/
theorem parsed_deepDocument : deepDocument.Parsed (Json.Reading.maxDepth + 1) := by
  refine ⟨floatFree_deepDocument.printable ?_, ?_, Json.ordered_nested _, trivial, trivial, trivial⟩
  · simp [deepDocument, Json.depth, Json.depth.memberDepths, Json.depth_nested]
  · unfold Assoc.Sorted
    decide +kernel

theorem ofJson_deepDocument : ofJson deepDocument = .ok deepRoute := rfl

/-- What is stored of it decodes under no key. -/
theorem decode_deepCreated (key : String) :
    decode key deepCreated.encode = .error (.invalidJson key) := by
  have hfloat : (Json.object deepCreated.payload.entries).FloatFree :=
    ⟨Json.floatFree_nested _, trivial, trivial⟩
  refine decode_encode_of_deep (hfloat.printable (Nat.le_refl _)).numbers ?_ key
  show Json.Reading.maxDepth < (Json.object [("deep", .nested Json.Reading.maxDepth),
    ("uri", .string "/a")]).depth
  simp [Json.depth, Json.depth.memberDepths, Json.depth_nested]

end GatewayStore.Resource
