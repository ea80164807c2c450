import GatewayStore.Hub.Collection
import GatewayStore.Proofs.Json.Parsed
import GatewayStore.Proofs.KeyMap

/-
  Stored documents. A resource read from a JSON document can be stored (`Resource.Storable`), also
  after a command has bound it to its key and set its id and times; and what is stored decodes to the
  resource with its payload as it is read from text (`Storable.decode_encode`), the times among it
  (`decode_encode_times`).
-/

namespace GatewayStore

namespace Json

theorem rereadMembers_eq (l : List (String × Json)) :
    reread.rereadMembers l = l.map fun e => (e.1, e.2.reread) := by
  induction l with
  | nil => rfl
  | cons e l ih =>
    obtain ⟨k, v⟩ := e
    simp [reread.rereadMembers, ih]

end Json

namespace Resource

/-- A resource whose stored text can be read: its payload is printable and has no managed field. -/
structure Storable (r : Resource) : Prop where
  printable : ∀ e ∈ r.payload.entries, e.2.Printable (Json.Reading.maxDepth - 1)
  unreserved : ∀ e ∈ r.payload.entries, isReserved e.1 = false

variable {r : Resource}

theorem withKey_eq (r : Resource) (key : String) :
    r.withKey key = { r with id := if r.id = "" then key else r.id } := by
  unfold withKey
  split <;> rfl

theorem withKey_of_ne {key : String} (h : r.id ≠ "") : r.withKey key = r := if_neg h

theorem withKey_of_eq {key : String} (h : r.id = "") : r.withKey key = { r with id := key } := if_pos h

/-- A key that is not the id stays when an id is filled in. -/
theorem key?_withKey {kind : Kind} (hkeyed : kind.isKeyedById = false) (key : String) :
    (r.withKey key).key? kind = r.key? kind := by
  simp [key?, hkeyed, field?, withKey_eq]

/-! ## Resources from documents -/

theorem Storable.of_payload {r' : Resource} (h : r.Storable) (heq : r'.payload = r.payload) :
    r'.Storable :=
  ⟨heq ▸ h.printable, heq ▸ h.unreserved⟩

/-- The resource of some members, field by field. -/
theorem ofMembers_eq_ok_iff {members : KeyMap Json} : ofMembers members = .ok r ↔
    memberOr members.entries "create_time" 0 timeOf = .ok r.createTime ∧
    memberOr members.entries "id" "" idOf = .ok r.id ∧
    memberOr members.entries "update_time" 0 timeOf = .ok r.updateTime ∧
    r.payload = members.filter fun name _ => !isReserved name := by
  obtain ⟨id, createTime, updateTime, payload⟩ := r
  unfold ofMembers
  cases memberOr members.entries "create_time" 0 timeOf <;>
    cases memberOr members.entries "id" "" idOf <;>
      cases memberOr members.entries "update_time" 0 timeOf <;>
        simp [bind, Except.bind, pure, Except.pure, eq_comm]
  tauto

/-- The payload of a document's resource are the members that are not managed. -/
theorem mem_of_ofJson {v : Json} (h : ofJson v = .ok r) : ∃ members, v = .object members ∧
    ∀ e ∈ r.payload.entries, e ∈ members ∧ isReserved e.1 = false := by
  unfold ofJson at h
  split at h
  · next members =>
    have hpayload : r.payload =
        (KeyMap.ofPairs members).filter fun name _ => !isReserved name := by
      cases hm : ofMembers (.ofPairs members) with
      | error fault => rw [hm] at h; cases h
      | ok r' =>
        rw [hm] at h
        cases h
        exact (ofMembers_eq_ok_iff.1 hm).2.2.2
    refine ⟨members, rfl, fun e he => ?_⟩
    rw [hpayload] at he
    obtain ⟨hmem, hname⟩ := List.mem_filter.1 he
    exact ⟨Assoc.mem_of_mem_ofPairs hmem, by simpa using hname⟩
  · cases h

/-- The resource of a printable document can be stored. -/
theorem storable_of_ofJson {v : Json} (hv : v.Printable Json.Reading.maxDepth)
    (h : ofJson v = .ok r) : r.Storable := by
  obtain ⟨members, rfl, hentry⟩ := mem_of_ofJson h
  refine ⟨fun e he => ?_, fun e he => (hentry e he).2⟩
  exact (Json.printable_object (Json.Reading.maxDepth - 1)).1 hv e (hentry e he).1

theorem isReserved_keyField {kind : Kind} (h : kind.isKeyedById = false) :
    isReserved kind.keyField = false := by
  cases kind <;> first | rfl | cases h

/-- What binding a resource to a key does: it sets the id, or it fills the id in and sees to the key's
field. -/
theorem bindKey_eq_ok {kind : Kind} {key : String} {r' : Resource} (h : r.bindKey kind key = .ok r') :
    (kind.isKeyedById = true ∧ r' = { r with id := key }) ∨
    (kind.isKeyedById = false ∧ (r.withKey key).key? kind = some key ∧ r' = r.withKey key) ∨
    (kind.isKeyedById = false ∧
      r' = { r.withKey key with payload := r.payload.insert kind.keyField (.string key) }) := by
  have hpayload : (r.withKey key).payload = r.payload := by rw [withKey_eq]
  unfold Resource.bindKey at h
  split at h
  · next hkeyed =>
    split at h <;> cases h
    exact .inl ⟨hkeyed, rfl⟩
  · next hkeyed =>
    have hfield : kind.isKeyedById = false := by simpa using hkeyed
    right
    have hwithKey : (if r.id = "" then { r with id := key } else r) = r.withKey key := rfl
    dsimp only at h
    rw [hwithKey] at h
    split at h
    · next found hfound =>
      split at h <;> cases h
      next heq => exact .inl ⟨hfield, heq ▸ hfound, rfl⟩
    · cases h
      exact .inr ⟨hfield, by rw [hpayload]⟩

theorem key?_congr {r' : Resource} (hid : r'.id = r.id) (hpayload : r'.payload = r.payload)
    (kind : Kind) : r'.key? kind = r.key? kind := by
  unfold key? field?
  rw [hid, hpayload]

theorem ne_of_key? {kind : Kind} {key : String} (h : r.key? kind = some key) : key ≠ "" :=
  of_decide_eq_true (Option.filter_eq_some_iff.1 h).2

theorem key?_eq_none {kind : Kind} (hkeyed : kind.isKeyedById = true) (h : r.id = "") :
    r.key? kind = none := by
  simp [key?, hkeyed, h]

theorem id_eq_of_key? {kind : Kind} {key : String} (hkeyed : kind.isKeyedById = true)
    (h : r.key? kind = some key) : r.id = key := by
  simp only [key?, hkeyed, if_true] at h
  exact Option.some.inj (Option.filter_eq_some_iff.1 h).1

/-- A resource that is bound to a key has no other key. -/
theorem key?_of_bindKey {kind : Kind} {key found : String} {r' : Resource}
    (hbind : r.bindKey kind key = .ok r') (hfound : r'.key? kind = some found) : found = key := by
  rcases bindKey_eq_ok hbind with ⟨hkeyed, rfl⟩ | ⟨-, hkey, rfl⟩ | ⟨hfield, rfl⟩
  · exact (id_eq_of_key? hkeyed hfound).symm
  · rw [hkey] at hfound
    exact (Option.some.inj hfound).symm
  · simp only [key?, hfield, field?, KeyMap.get?_insert] at hfound
    simpa [Json.asKey?] using (Option.filter_eq_some_iff.1 hfound).1.symm

theorem id_ne_of_bindKey {kind : Kind} {key : String} {r' : Resource} (hkey : key ≠ "")
    (hbind : r.bindKey kind key = .ok r') : r'.id ≠ "" := by
  have hwithKey : (r.withKey key).id ≠ "" := by
    unfold withKey
    split
    · exact hkey
    · next hid => exact hid
  rcases bindKey_eq_ok hbind with ⟨-, rfl⟩ | ⟨-, -, rfl⟩ | ⟨-, rfl⟩
  · exact hkey
  · exact hwithKey
  · exact hwithKey

/-- Binding a resource to a key keeps it storable. -/
theorem Storable.bindKey {kind : Kind} {key : String} {r' : Resource} (h : r.Storable)
    (hbind : r.bindKey kind key = .ok r') : r'.Storable := by
  have hkeyed : (r.withKey key).Storable := by
    unfold withKey
    split
    · exact h.of_payload rfl
    · exact h
  rcases bindKey_eq_ok hbind with ⟨-, rfl⟩ | ⟨-, -, rfl⟩ | ⟨hfield, rfl⟩
  · exact h.of_payload rfl
  · exact hkeyed
  · refine ⟨fun e he => ?_, fun e he => ?_⟩
    · rcases Assoc.mem_insert he with rfl | he
      · exact Json.printable_string _ _
      · exact h.printable e he
    · rcases Assoc.mem_insert he with rfl | he
      · exact isReserved_keyField hfield
      · exact h.unreserved e he

/-! ## The stored text -/

theorem printable_managed (r : Resource) (room : Nat) : ∀ e ∈ r.managed, e.2.Printable room := by
  intro e he
  simp only [managed, List.mem_append] at he
  rcases he with (he | he) | he
  all_goals
    split at he
    · cases he
    · obtain rfl := List.mem_singleton.1 he
      first | exact Json.printable_string _ _ | exact Json.printable_ofInt64 _ _

/-- The managed members: those that are present, with their values. -/
theorem mem_managed {name : String} {v : Json} : (name, v) ∈ r.managed ↔
    name = "id" ∧ r.id ≠ "" ∧ v = .string r.id ∨
    name = "create_time" ∧ r.createTime ≠ 0 ∧ v = .ofInt64 r.createTime ∨
    name = "update_time" ∧ r.updateTime ≠ 0 ∧ v = .ofInt64 r.updateTime := by
  unfold managed
  split <;> split <;> split <;> simp_all

theorem timeOf_ofInt64 (t : Int64) : timeOf (.ofInt64 t) = .ok t := by
  unfold timeOf Json.ofInt64
  dsimp only
  rw [if_pos t.toInt_lt, Int64.ofInt_toInt]

/-- What is read back for a managed field: what the payload says under its name, or else what was
written for it. -/
def readBack {α : Type} (r : Resource) (name : String) (written : α)
    (read : Json → Except MemberFault α) : Except MemberFault α :=
  match r.field? name with
  | none => .ok written
  | some v => read v.reread

/-- A stored member under a name is the one of the payload, or else the managed one. -/
theorem get?_stored (r : Resource) (name : String) :
    Assoc.get? name (Assoc.ofPairs (Json.reread.rereadMembers (r.managed ++ r.payload.entries))) =
      ((r.field? name).map Json.reread).or
        (Assoc.get? name (Assoc.ofPairs (Json.reread.rereadMembers r.managed))) := by
  have happend := KeyMap.get?_ofPairs_append (Json.reread.rereadMembers r.managed)
    (Json.reread.rereadMembers r.payload.entries) name
  have hpayload : (KeyMap.ofPairs (Json.reread.rereadMembers r.payload.entries)).get? name =
      (r.field? name).map Json.reread := by
    rw [Json.rereadMembers_eq]
    cases hget : r.field? name with
    | none =>
      refine KeyMap.get?_ofPairs_eq_none fun v hv => ?_
      obtain ⟨e, he, heq⟩ := List.mem_map.1 hv
      cases heq
      have hsome := Assoc.get?_eq_some_of_mem r.payload.sorted he
      rw [show Assoc.get? e.1 r.payload.entries = none from hget] at hsome
      cases hsome
    | some v =>
      refine KeyMap.get?_ofPairs_eq_some (fun w hw => ?_)
        (List.mem_map.2 ⟨(name, v), Assoc.mem_of_get?_eq_some hget, rfl⟩)
      obtain ⟨⟨name', v'⟩, he, heq⟩ := List.mem_map.1 hw
      cases heq
      have hsome := Assoc.get?_eq_some_of_mem r.payload.sorted he
      rw [show Assoc.get? _ r.payload.entries = some v from hget] at hsome
      rw [Option.some.inj hsome]
  have hsplit : Json.reread.rereadMembers (r.managed ++ r.payload.entries) =
      Json.reread.rereadMembers r.managed ++ Json.reread.rereadMembers r.payload.entries := by
    rw [Json.rereadMembers_eq, Json.rereadMembers_eq, Json.rereadMembers_eq, List.map_append]
  rw [hsplit, ← hpayload]
  exact happend

/-- The value read for a managed member, if what is written for it reads as the value. -/
theorem memberOr_stored {α : Type} (r : Resource) (name : String) (absent : α) {written : α}
    (read : Json → Except MemberFault α)
    (hsome : ∀ v, (name, v) ∈ r.managed → read v.reread = .ok written)
    (hnone : (∀ v, (name, v) ∉ r.managed) → absent = written) :
    memberOr (Assoc.ofPairs (Json.reread.rereadMembers (r.managed ++ r.payload.entries))) name
      absent read = r.readBack name written read := by
  unfold memberOr readBack
  rw [get?_stored]
  cases r.field? name with
  | some v => rfl
  | none =>
    rw [Option.map_none, Option.none_or]
    cases hget : Assoc.get? name (Assoc.ofPairs (Json.reread.rereadMembers r.managed)) with
    | none =>
      rw [hnone fun v hv => Assoc.not_mem_of_get?_ofPairs hget v.reread ?_]
      rw [Json.rereadMembers_eq]
      exact List.mem_map_of_mem hv
    | some v =>
      have hmem := Assoc.mem_of_get?_ofPairs hget
      rw [Json.rereadMembers_eq] at hmem
      obtain ⟨⟨name', w⟩, hw, heq⟩ := List.mem_map.1 hmem
      cases heq
      exact hsome w hw

theorem isReserved_of_mem_managed {e : String × Json} (h : e ∈ r.managed) :
    isReserved e.1 = true := by
  rcases mem_managed.1 h with ⟨hname, -⟩ | ⟨hname, -⟩ | ⟨hname, -⟩ <;> rw [hname] <;> rfl

/-- The resource of what is stored. -/
theorem ofMembers_stored (r : Resource) :
    ofMembers (.ofPairs (Json.reread.rereadMembers (r.managed ++ r.payload.entries))) = do
      let createTime ← r.readBack "create_time" r.createTime timeOf
      let id ← r.readBack "id" r.id idOf
      let updateTime ← r.readBack "update_time" r.updateTime timeOf
      return ⟨id, createTime, updateTime,
        (KeyMap.ofPairs (Json.reread.rereadMembers r.payload.entries)).filter fun name _ =>
          !isReserved name⟩ := by
  have hcreate := r.memberOr_stored "create_time" 0 timeOf
    (fun v hv => by
      obtain ⟨-, rfl⟩ : r.createTime ≠ 0 ∧ v = .ofInt64 r.createTime := by
        simpa [mem_managed] using hv
      exact timeOf_ofInt64 r.createTime)
    fun hnone => by
      by_contra hne
      exact hnone _ (mem_managed.2 (.inr (.inl ⟨rfl, Ne.symm hne, rfl⟩)))
  have hid := r.memberOr_stored "id" "" idOf
    (fun v hv => by
      obtain ⟨-, rfl⟩ : r.id ≠ "" ∧ v = .string r.id := by
        simpa [mem_managed] using hv
      rfl)
    fun hnone => by
      by_contra hne
      exact hnone _ (mem_managed.2 (.inl ⟨rfl, Ne.symm hne, rfl⟩))
  have hupdate := r.memberOr_stored "update_time" 0 timeOf
    (fun v hv => by
      obtain ⟨-, rfl⟩ : r.updateTime ≠ 0 ∧ v = .ofInt64 r.updateTime := by
        simpa [mem_managed] using hv
      exact timeOf_ofInt64 r.updateTime)
    fun hnone => by
      by_contra hne
      exact hnone _ (mem_managed.2 (.inr (.inr ⟨rfl, Ne.symm hne, rfl⟩)))
  have hpayload : (KeyMap.ofPairs (Json.reread.rereadMembers (r.managed ++ r.payload.entries))).filter
      (fun name _ => !isReserved name) =
        (KeyMap.ofPairs (Json.reread.rereadMembers r.payload.entries)).filter fun name _ =>
          !isReserved name := by
    rw [Json.rereadMembers_eq, Json.rereadMembers_eq, List.map_append]
    refine KeyMap.filter_ofPairs_append (p := fun name => !isReserved name) _ fun e he => ?_
    obtain ⟨w, hw, rfl⟩ := List.mem_map.1 he
    simp [isReserved_of_mem_managed hw]
  unfold ofMembers
  rw [hpayload]
  unfold KeyMap.ofPairs
  dsimp only
  rw [hcreate, hid, hupdate]

/-- The managed fields leave as much room for other containers as the payload does. -/
theorem printable_stored (r : Resource) (room : Nat) :
    (Json.object (r.managed ++ r.payload.entries)).Printable (room + 1) ↔
      (Json.object r.payload.entries).Printable (room + 1) := by
  rw [Json.printable_object, Json.printable_object]
  refine ⟨fun h e he => h e (List.mem_append_right _ he), fun h e he => ?_⟩
  rcases List.mem_append.1 he with he | he
  · exact r.printable_managed room e he
  · exact h e he

/-- The bytes that are stored are read as the resource's document. -/
theorem ofBytes?_encode
    (h : (Json.object r.payload.entries).Printable Json.Reading.maxDepth) :
    Json.ofBytes? r.encode = some (.object (Assoc.ofPairs
      (Json.reread.rereadMembers (r.managed ++ r.payload.entries)))) := by
  have hprintable := (r.printable_stored (Json.Reading.maxDepth - 1)).2 h
  rw [Json.ofBytes?, encode, Text.ofUtf8?_utf8, Option.bind_some, storedText]
  exact hprintable.parse?_render

/-- The payload says nothing about the managed fields. -/
theorem Storable.readBack_eq {α : Type} (h : r.Storable) {name : String}
    (hname : isReserved name = true) (written : α) (read : Json → Except MemberFault α) :
    r.readBack name written read = .ok written := by
  unfold readBack
  split
  · rfl
  · next v hv =>
    have hmem := h.unreserved _ (Assoc.mem_of_get?_eq_some hv)
    rw [hname] at hmem
    cases hmem

/-- What is stored decodes to the resource, with its payload as it is read from text and the key for a
missing id. -/
theorem Storable.decode_encode (h : r.Storable) (key : String) : decode key r.encode =
    .ok (Resource.withKey { r with
      payload := .ofPairs (Json.reread.rereadMembers r.payload.entries) } key) := by
  have hparse := ofBytes?_encode ((Json.printable_object (Json.Reading.maxDepth - 1)).2 h.printable)
  have hpayload : (KeyMap.ofPairs (Json.reread.rereadMembers r.payload.entries)).filter
      (fun name _ => !isReserved name) =
        .ofPairs (Json.reread.rereadMembers r.payload.entries) := by
    refine KeyMap.filter_ofPairs_eq_self (p := fun name => !isReserved name) fun e he => ?_
    rw [Json.rereadMembers_eq] at he
    obtain ⟨w, hw, rfl⟩ := List.mem_map.1 he
    simp [h.unreserved w hw]
  have hmembers := r.ofMembers_stored
  rw [h.readBack_eq rfl, h.readBack_eq rfl, h.readBack_eq rfl, hpayload] at hmembers
  unfold decode
  rw [hparse]
  dsimp only [ofJson]
  rw [KeyMap.ofPairs_ofPairs, hmembers]
  rfl

/-- What is stored decodes to the times that were written. -/
theorem decode_encode_times (h : r.Storable) (key : String) :
    ∃ r', decode key r.encode = .ok r' ∧ r'.createTime = r.createTime ∧
      r'.updateTime = r.updateTime := by
  have hdecode := h.decode_encode key
  rw [withKey_eq] at hdecode
  exact ⟨_, hdecode, rfl, rfl⟩

end Resource

end GatewayStore
