import GatewayStore.Proofs.Clients.Lifetimes
import GatewayStore.Proofs.Resource.Isolation
import GatewayStore.Proofs.Resource.Metadata
import GatewayStore.Proofs.Resource.RoundTrip

/-
  A storage key and its document agree. Both ways of writing check the very document that they put: a
  create takes the key from the document, a replacement makes the document agree with the key that is
  given. So every put of a command stores a document under its own key (`files_program`), and what is
  in the store was put by someone (`record_of_move`). If only commands put under the prefix of a kind,
  each key there is well formed and is the key that its document has (`stored_keys_agree`). For this the
  documents must not be deeper than the reader goes (`stored_keys_agree_fails_deep`).
-/

namespace GatewayStore

/-! ## Keys -/

namespace Resource

variable {r : Resource} {kind : Kind} {key : String}

/-- The key of a resource as one of its kind; it and the id are well formed. -/
structure HasKey (r : Resource) (kind : Kind) (key : String) : Prop where
  key_eq : r.key? kind = some key
  isKey : IsKey key
  isKey_id : IsKey r.id

theorem HasKey.of_same (h : r.HasKey kind key) {r' : Resource} (hid : r'.id = r.id)
    (hpayload : r'.payload = r.payload) : r'.HasKey kind key :=
  ⟨(key?_congr hid hpayload kind).trans h.key_eq, h.isKey, hid ▸ h.isKey_id⟩

theorem HasKey.id_ne (h : r.HasKey kind key) : r.id ≠ "" := by
  intro hid
  have hpos := h.isKey_id.length_pos
  rw [hid] at hpos
  exact absurd hpos (by decide)

theorem hasKey_of_validate {live : LiveKeys} (h : r.validate kind live = .ok key)
    (hid : r.id ≠ "") : r.HasKey kind key := by
  have hvalid := validate_eq_ok_iff.1 h
  refine ⟨hvalid.key_eq, hvalid.isKey, ?_⟩
  cases hkeyed : kind.isKeyedById with
  | true => exact id_eq_of_key? hkeyed hvalid.key_eq ▸ hvalid.isKey
  | false => exact (hvalid.isKey_id (Kind.isKeyedById_eq_false_iff.1 hkeyed)).resolve_left hid

end Resource

/-! ## Programs -/

namespace Collection

variable {c : Collection} {past : List Observation} {given : Resource}

/-- A request puts nothing but a document under its own key. -/
def Files (c : Collection) (given : Option Resource) : Request → Prop
  | .put stored value _ => ∃ (r : Resource) (key : String) (document : Resource),
    given = some r ∧ stored = c.storageKey key ∧ value = document.encode ∧
      document.HasKey c.kind key ∧ (r.Plain → document.Plain)
  | _ => True

theorem files_create :
    (c.create given).Keeps (fun _ => c.Files (some given)) (fun _ _ => True) past := by
  unfold create
  refine Program.keeps_bind (Program.keeps_ofExcept fun _ _ => ?_)
  refine Program.keeps_bind (keeps_withId fun past d hpayload hid => ?_)
  refine Program.keeps_bind fun now => ?_
  refine Program.keeps_bind fun caches => ?_
  refine Program.keeps_bind (Program.keeps_ofExcept fun key hchecked => ?_)
  have hkey : d.key? c.kind = some key := key?_of_createCheck hchecked
  have hne : d.id ≠ "" := by
    intro hempty
    rw [hid hempty] at hkey
    cases hkey
  have hhas := Resource.hasKey_of_validate (validate_of_createCheck hchecked) hne
  refine Program.keeps_bind (keeps_write ?_ fun answer => ?_)
  · exact ⟨given, key, _, rfl, rfl, rfl, hhas, fun hplain => hplain.of_payload hpayload⟩
  · exact Program.keeps_bind (Program.keeps_ofExcept fun _ _ => trivial)

theorem files_store (key : String) (creates : Bool) :
    (c.store key given creates).Keeps (fun _ => c.Files (some given)) (fun _ _ => True) past := by
  unfold store
  refine Program.keeps_bind (Program.keeps_ofExcept fun _ _ => ?_)
  refine Program.keeps_bind (Program.keeps_ofExcept fun bound hbind => ?_)
  refine Program.keeps_bind fun caches => ?_
  refine Program.keeps_bind (Program.keeps_ofExcept fun found hfound => ?_)
  have hvalid : bound.validate c.kind caches.live = .ok found := mapError_eq_ok.1 hfound
  -- the key that is checked is the one that is given
  have hkey := key?_of_validate hvalid
  obtain rfl := Resource.key?_of_bindKey hbind hkey
  have hhas := Resource.hasKey_of_validate hvalid
    (Resource.id_ne_of_bindKey (Resource.ne_of_key? hkey) hbind)
  refine (keeps_replace found bound creates updateAttempts).imp (fun past request h => ?_)
    fun _ _ _ => trivial
  cases h with
  | read => trivial
  | created now htime =>
    exact ⟨given, found, _, rfl, rfl, rfl, hhas.of_same rfl rfl,
      fun hplain => (hplain.bindKey hbind).of_payload rfl⟩
  | updated now old previous htime hread hdecode =>
    exact ⟨given, found, _, rfl, rfl, rfl, hhas.of_same rfl rfl,
      fun hplain => (hplain.bindKey hbind).of_payload rfl⟩

/-- Every command puts only documents under their own keys. -/
theorem files_program (c : Collection) (command : Command) : (command.program c).Keeps
    (fun _ => c.Files command.document?) (fun _ _ => True) [] := by
  cases command with
  | create r => exact Program.keeps_bind (files_create.imp (fun _ _ h => h) fun _ _ _ => trivial)
  | update key r | upsert key r =>
    exact Program.keeps_bind ((files_store key _).imp (fun _ _ h => h) fun _ _ _ => trivial)
  | delete key =>
    refine Program.keeps_bind ((keeps_delete key).imp (fun past request h => ?_) fun _ _ _ => trivial)
    rw [h]
    trivial

end Collection

/-! ## Runs -/

/-- A resource that is read from a document without floats. -/
def Resource.IsRead (r : Resource) : Prop :=
  ∃ v, v.Parsed Json.Reading.maxDepth ∧ Resource.ofJson v = .ok r ∧
    (Json.object r.payload.entries).FloatFree

theorem Resource.IsRead.plain {r : Resource} (h : r.IsRead) : r.Plain := by
  obtain ⟨v, hread, hjson, hfloat⟩ := h
  exact plain_of_ofJson hread hjson hfloat

/-- Nothing but commands on the kind puts under its prefix, and their documents are read. Anyone may
delete there. -/
def ClientMove.Admitted (kind : Kind) (root : String) : ClientMove → Prop
  | .operate (.put key _ _) => Text.startsWith (kind.keyPrefix root) key = false
  | .begin c command =>
    (∀ key, Text.startsWith (kind.keyPrefix root) (c.storageKey key) = false) ∨
    c.kind = kind ∧ kind.keyPrefix c.client.root = kind.keyPrefix root ∧
      ∀ r, command.document? = some r → r.IsRead
  | _ => True

/-- Under the prefix of the kind there are only documents under their own keys. -/
def Store.Filed (s : Store) (kind : Kind) (root : String) : Prop :=
  ∀ stored record, s.index.get? stored = some record →
    Text.startsWith (kind.keyPrefix root) stored = true →
    ∃ (key : String) (document : Resource), stored = kind.storageKey root key ∧
      record.value = document.encode ∧ document.HasKey kind key ∧ document.Plain

namespace Clients

variable {kind : Kind} {root : String} {moves : List ClientMove}

theorem files_calls (retention : Nat) (moves : List ClientMove) :
    ∀ c ∈ ((initial retention).run moves).calls,
      c.rest.Keeps (fun _ => c.collection.Files c.command.document?) (fun _ _ => True) c.past :=
  @keeps_run _ (fun collection command _ => collection.Files command.document?)
    (fun _ _ _ _ => True) (fun c hc => by cases hc) Collection.files_program moves

/-- What an admitted call puts under the prefix is a document under its own key. -/
theorem filed_of_call {c : Call} {stored : String} {value : Bytes} {condition : Option Condition}
    (hadmitted : (ClientMove.begin c.collection c.command).Admitted kind root)
    (hfiles : c.collection.Files c.command.document? (.put stored value condition))
    (hunder : Text.startsWith (kind.keyPrefix root) stored = true) :
    ∃ (key : String) (document : Resource), stored = kind.storageKey root key ∧
      value = document.encode ∧ document.HasKey kind key ∧ document.Plain := by
  obtain ⟨r, key, document, hgiven, rfl, rfl, hhas, hplain⟩ := hfiles
  rcases hadmitted with helsewhere | ⟨hkind, hroot, hread⟩
  · rw [helsewhere key] at hunder
    cases hunder
  · refine ⟨key, document, ?_, rfl, hkind ▸ hhas, hplain (hread r hgiven).plain⟩
    unfold Collection.storageKey Client.storageKey Kind.storageKey
    rw [hkind, hroot]

theorem filed_run (retention : Nat) (h : ∀ m ∈ moves, m.Admitted kind root) :
    ((initial retention).run moves).store.Filed kind root := by
  induction moves using List.reverseRecOn with
  | nil =>
    intro stored record hrecord
    cases hrecord
  | append_singleton moves m ih =>
    have hbefore : ∀ m ∈ moves, m.Admitted kind root := fun m hm => h m (List.mem_append_left _ hm)
    intro stored record hrecord hunder
    rw [run_concat] at hrecord
    rcases record_of_move hrecord with hkept | ⟨condition, rfl⟩ | ⟨c, hc, condition, next, hrest⟩
    · exact ih hbefore stored record hkept hunder
    · have helsewhere : Text.startsWith (kind.keyPrefix root) stored = false :=
        h (.operate (.put stored record.value condition)) (by simp)
      rw [helsewhere] at hunder
      cases hunder
    · have hkeeps := files_calls retention moves c hc
      rw [hrest] at hkeeps
      exact filed_of_call (hbefore _ (begin_mem retention hc)) hkeeps.1 hunder

/-- Storage key and document agree. Let nothing but commands on a kind put under its prefix, with
documents that are read and have no floats. At any time every key there is the prefix followed by a
well-formed key; what is stored decodes to a document that has this very key as one of the kind, and
an id that is well formed as well. -/
theorem stored_keys_agree (retention : Nat) (kind : Kind) (root : String) (moves : List ClientMove)
    (hmoves : ∀ m ∈ moves, m.Admitted kind root) (stored : String) (record : Record) :
    ((initial retention).run moves).store.index.get? stored = some record →
    Text.startsWith (kind.keyPrefix root) stored = true →
    ∃ key d, stored = kind.keyPrefix root ++ key ∧ IsKey key ∧
      Resource.decode key record.value = .ok d ∧ d.key? kind = some key ∧ d.id ≠ "" ∧
      IsKey d.id := by
  intro hrecord hunder
  obtain ⟨key, document, hstored, hvalue, hhas, hplain⟩ :=
    filed_run retention hmoves stored record hrecord hunder
  have hdecode : Resource.decode key record.value = .ok document := by
    rw [hvalue, hplain.decode_encode, Resource.withKey, if_neg hhas.id_ne]
  exact ⟨key, document, hstored, hhas.isKey, hdecode, hhas.key_eq, hhas.id_ne, hhas.isKey_id⟩

/-- A consumer whose name and id are numbers. -/
def numberedConsumer : Resource :=
  ⟨"12", 0, 0, .ofPairs [("username", .number (.integer 7 (by decide)))]⟩

/-- A consumer is created, another one is named by its key alone, and a route draws its id. Someone
else stores a text beside the consumers. -/
def namedConsumers : List ClientMove :=
  let consumers : Collection := ⟨.consumer, ⟨"/apisix", 1000⟩⟩
  let routes : Collection := ⟨.route, ⟨"/apisix", 1000⟩⟩
  let r : Resource := ⟨"", 0, 0, .ofPairs [("uri", .string "/a")]⟩
  [.begin consumers (.create numberedConsumer), .begin consumers (.upsert "bob" ⟨"", 0, 0, .empty⟩),
    .begin routes (.create r), .readClock 0 ⟨5000⟩, .readCaches 0 fun _ => none,
    .readCaches 1 fun _ => none, .perform 0, .drawId 2 "77", .readClock 2 ⟨5000⟩, .perform 1,
    .operate (.put "/apisix/consumer" [123] none), .readCaches 2 fun _ => none, .perform 2,
    .readClock 1 ⟨6000⟩, .perform 1]

theorem stored_keys_agree_numbered :
    (∀ m ∈ namedConsumers, m.Admitted .consumer "/apisix") ∧
    ∀ name ∈ ["7", "bob"], ∃ record d,
      ((initial 4).run namedConsumers).store.index.get? ("/apisix/consumers/" ++ name) = some record ∧
      Resource.decode name record.value = .ok d ∧ d.key? .consumer = some name ∧ IsKey d.id := by
  have hnumbered : numberedConsumer.IsRead := by
    let text := "\x7b\"username\":7,\"id\":12\x7d"
    have hscan : Json.Token.scan text.toList = some [.openObject, .string "username", .colon,
        .number (.integer 7 (by decide)), .comma, .string "id", .colon,
        .number (.integer 12 (by decide)), .closeObject] := by decide +kernel
    have hparse : Json.parse? text = some (.object [("id", .number (.integer 12 (by decide))),
        ("username", .number (.integer 7 (by decide)))]) := by
      unfold Json.parse?
      rw [hscan]
      rfl
    exact ⟨_, Json.parsed_of_parse? hparse, rfl, trivial, trivial⟩
  have hempty : (⟨"", 0, 0, .empty⟩ : Resource).IsRead :=
    have hparse : Json.parse? "\x7b\x7d" = some (.object []) := rfl
    ⟨_, Json.parsed_of_parse? hparse, rfl, trivial⟩
  have hmoves : ∀ m ∈ namedConsumers, m.Admitted .consumer "/apisix" := by
    simp only [namedConsumers, List.forall_mem_cons]
    refine ⟨.inr ⟨rfl, rfl, fun r hr => Option.some.inj hr ▸ hnumbered⟩,
      .inr ⟨rfl, rfl, fun r hr => Option.some.inj hr ▸ hempty⟩, .inl fun key => ?_, trivial, trivial,
      trivial, trivial, trivial, trivial, trivial, ?_, trivial, trivial, trivial, trivial,
      fun _ h => nomatch h⟩
    · exact Kind.startsWith_eq_false (by decide : Kind.route ≠ .consumer)
        (Kind.route.startsWith_storageKey "/apisix" key)
    · exact (by decide +kernel : Text.startsWith (Kind.keyPrefix .consumer "/apisix")
        "/apisix/consumer" = false)
  refine ⟨hmoves, fun name hname => ?_⟩
  have hconsumers : Kind.keyPrefix .consumer "/apisix" = "/apisix/consumers/" := by decide +kernel
  have hthere : ∀ name ∈ ["7", "bob"], (((initial 4).run namedConsumers).store.index.get?
      ("/apisix/consumers/" ++ name)).isSome = true := by decide +kernel
  obtain ⟨record, hrecord⟩ := Option.isSome_iff_exists.1 (hthere name hname)
  have hunder : Text.startsWith (Kind.keyPrefix .consumer "/apisix")
      ("/apisix/consumers/" ++ name) = true := Text.startsWith_iff.2 ⟨name, by rw [hconsumers]⟩
  obtain ⟨key, d, hstored, -, hdecode, hkey, -, hid⟩ :=
    stored_keys_agree 4 .consumer "/apisix" namedConsumers hmoves _ record hrecord hunder
  rw [hconsumers] at hstored
  obtain rfl : name = key := by
    rw [← String.toList_inj, String.toList_append, String.toList_append] at hstored
    exact String.toList_inj.1 (List.append_cancel_left hstored)
  exact ⟨record, d, hrecord, hdecode, hkey, hid⟩

/-- A client creates a route from a document that is too deep. -/
def createdDeep : List ClientMove :=
  [.begin ⟨.route, ⟨"/apisix", 1000⟩⟩ (.create Resource.deepRoute), .readClock 0 ⟨5000⟩,
    .readCaches 0 fun _ => none, .perform 0]

/-- The bound on the depth of documents cannot be dropped: a document with one container more in one
another is created as well, and what is stored decodes under no key. -/
theorem stored_keys_agree_fails_deep :
    let s := (initial 4).run createdDeep
    Resource.deepDocument.Parsed (Json.Reading.maxDepth + 1) ∧ Resource.deepDocument.FloatFree ∧
      Resource.ofJson Resource.deepDocument = .ok Resource.deepRoute ∧
      ∃ record, s.store.index.get? "/apisix/routes/r1" = some record ∧
        Text.startsWith (Kind.keyPrefix .route "/apisix") "/apisix/routes/r1" = true ∧
        ¬ ∃ key d, "/apisix/routes/r1" = Kind.keyPrefix .route "/apisix" ++ key ∧
          Resource.decode key record.value = .ok d := by
  intro s
  have hrecord : s.store.index.get? "/apisix/routes/r1" =
      some ⟨Resource.deepCreated.encode, 1, 1⟩ := rfl
  have hunder : Text.startsWith (Kind.keyPrefix .route "/apisix") "/apisix/routes/r1" = true := by
    decide +kernel
  refine ⟨Resource.parsed_deepDocument, Resource.floatFree_deepDocument,
    Resource.ofJson_deepDocument, _, hrecord, hunder, ?_⟩
  rintro ⟨key, d, -, hdecode⟩
  dsimp only at hdecode
  rw [Resource.decode_deepCreated] at hdecode
  cases hdecode

end Clients

end GatewayStore
