import GatewayStore.Proofs.Clients.Replacement
import GatewayStore.Proofs.Hub.Gateway
import GatewayStore.Proofs.Resource.Metadata
import GatewayStore.Proofs.Resource.RoundTrip

/-
  Reading back what was written. A call that returns a document has put it under the document's key, and
  told so it returns at once. A watch loop that has come as far as the put, with no later change of the
  key on the way, has the very document: it is what the stored bytes decode to (`Plain.decode_encode`),
  since it has an id and no float (`Command.Writes.document_eq`). A document that is deeper than the
  reader goes is written as well, and then not read (`read_back_fails_deep`).
-/

namespace GatewayStore

/-! ## Readers -/

namespace ListQuery

variable {q : ListQuery} {r : Resource} {rows : List Resource}

theorem mem_sorted (hkeeps : q.keeps r = true) (h : r ∈ rows) : r ∈ q.sorted rows :=
  List.mem_mergeSort.2 (List.mem_filter.2 ⟨h, hkeeps⟩)

/-- A row is on one of the pages; without pages it is on the one that there is. -/
theorem exists_page (h : r ∈ rows) : ∃ n, (q.pageSize = 0 → n = q.pageNumber) ∧
    r ∈ ListQuery.pageOf { q with pageNumber := n } rows := by
  by_cases hsize : q.pageSize = 0
  · refine ⟨q.pageNumber, fun _ => rfl, ?_⟩
    rw [pageOf, if_pos hsize]
    exact h
  · obtain ⟨j, hj⟩ := List.getElem?_of_mem h
    refine ⟨j / q.pageSize + 1, fun hzero => absurd hzero hsize, ?_⟩
    rw [pageOf, if_neg hsize, drop_rowsBefore]
    show r ∈ (rows.drop ((max (j / q.pageSize + 1) 1 - 1) * q.pageSize)).take q.pageSize
    rw [Nat.max_eq_left (Nat.le_add_left 1 _), Nat.add_sub_cancel]
    have hdiv := Nat.div_add_mod j q.pageSize
    rw [Nat.mul_comm] at hdiv
    refine List.mem_of_getElem? (i := j % q.pageSize) ?_
    rw [List.getElem?_take_of_lt (Nat.mod_lt j (Nat.pos_of_ne_zero hsize)), List.getElem?_drop, hdiv]
    exact hj

end ListQuery

namespace Cache

/-- The resource is what the readers of a cache get: the one who asks for the key, and everyone who
asks for all resources or for the pages of a listing that keeps it. -/
structure Reads (c : Cache) (key : String) (r : Resource) : Prop where
  found : c.find key = .ok r
  mem_resources : r ∈ c.resources
  listed : ∀ query : ListQuery, query.keeps r = true → ∃ n,
    (query.pageSize = 0 → n = query.pageNumber) ∧ r ∈ (c.list { query with pageNumber := n }).rows

theorem reads_of_get? {c : Cache} {key : String} {entry : CacheEntry} {r : Resource}
    (hentry : c.get? key = some entry) (hr : entry.resource = some r) : c.Reads key r := by
  have hmem : r ∈ c.resources := by
    refine List.mem_filterMap.2 ⟨entry, ?_, hr⟩
    exact List.mem_map.2 ⟨(key, entry), Assoc.mem_of_get?_eq_some hentry, rfl⟩
  refine ⟨?_, hmem, fun query hkeeps => ListQuery.exists_page (ListQuery.mem_sorted hkeeps hmem)⟩
  rw [find, hentry]
  dsimp only
  rw [hr]

/-- An entry that does not decode is a failure for the one who asks for it. -/
theorem find_of_undecodable {c : Cache} {key : String} {entry : CacheEntry}
    (hentry : c.get? key = some entry) (hr : entry.resource = none) :
    c.find key = .error (.codec (.undecodable entry.storageKey)) := by
  rw [find, hentry]
  dsimp only
  rw [hr]

/-- A plain document with an id is read as it was stored. -/
theorem Reflects.reads {c : Cache} {keyPrefix key : String} {index : KeyMap Record}
    (h : c.Reflects keyPrefix index) (hkey : key ≠ "") {document : Resource} (hplain : document.Plain)
    (hid : document.id ≠ "") {record : Record} (hrecord : index.get? (keyPrefix ++ key) = some record)
    (hvalue : record.value = document.encode) : c.Reads key document := by
  have hget := h key
  rw [if_neg hkey, hrecord, Option.map_some] at hget
  refine reads_of_get? hget ?_
  show (Resource.decode key record.value).toOption = some document
  rw [hvalue, hplain.decode_encode, Resource.withKey, if_neg hid]
  rfl

end Cache

/-! ## What a call has stored -/

variable {document : Resource} {key : String}

theorem Observation.eq_of_change?_put {o : Observation} {value : Bytes}
    (h : o.change? = some (key, .put value)) : ∃ condition revision,
      o = .answered (.put key value condition) (.ok revision) := by
  unfold change? at h
  split at h
  · next key' value' condition revision =>
    cases h
    exact ⟨condition, revision, rfl⟩
  · cases h
  · cases h

namespace Gateway

variable {g : Gateway} {client : Client} {log : List Event}

/-- A loop that has come as far as a put reads what was put if nothing else was done to the key. -/
theorem Exact.reads (h : g.Exact client log) {p : Follower} (hp : p ∈ g.followers) (hkey : key ≠ "")
    (hplain : document.Plain) (hid : document.id ≠ "") {revision : Nat}
    (hput : ⟨client.storageKey p.loop.cache.kind key, .put document.encode, revision⟩ ∈ log)
    (happlied : revision ≤ p.loop.session.lastApplied)
    (hlast : ∀ e ∈ log, e.key = client.storageKey p.loop.cache.kind key → revision < e.revision →
      p.loop.session.lastApplied < e.revision) : p.loop.cache.Reads key document := by
  have hexact := h.fleet.loops p hp
  have hascending : Ascending (eventsUpTo log p.loop.session.lastApplied) :=
    h.fleet.follows.ascending.filter _
  obtain ⟨record, hrecord, hvalue, -⟩ :=
    hascending.get?_of_last (mem_eventsUpTo.2 ⟨hput, happlied⟩) fun e he hek => by
      obtain ⟨hmem, hle⟩ := mem_eventsUpTo.1 he
      by_contra hlater
      have := hlast e hmem hek (Nat.lt_of_not_le hlater)
      omega
  exact hexact.reflects.reads hkey hplain hid hrecord hvalue

/-- A write is read back. Let a call return a document, and let what it was given come from a value such
as the reader gives, without floats. Its last observation is the put of that document under its key at
some revision of the log. Every loop of the kind that has come as far, no later change of the key being
among what it has applied, reads this document. -/
theorem read_back (retention : Nat) (settings : WatchSettings) (client : Client) (kinds : List Kind)
    (moves : List GatewayMove) (i : Nat) (c : Call) (given document : Resource) (v : Json) :
    let start := initial retention settings client kinds
    let g := start.run moves
    let log := start.changes moves
    g.calls[i]? = some c → c.collection.client = client → c.command.document? = some given →
    v.Parsed Json.Reading.maxDepth → Resource.ofJson v = .ok given →
    (Json.object given.payload.entries).FloatFree → c.returned? = some (some document) →
    ∃ key condition revision,
      c.command.Writes c.collection.kind (some document) key (.put document.encode) ∧
      c.past.getLast? = some (.answered
        (.put (c.collection.storageKey key) document.encode condition) (.ok revision)) ∧
      ⟨c.collection.storageKey key, .put document.encode, revision⟩ ∈ log ∧
      ∀ p ∈ g.followers, p.loop.cache.kind = c.collection.kind →
        revision ≤ p.loop.session.lastApplied →
        (∀ e ∈ log, e.key = c.collection.storageKey key → revision < e.revision →
          p.loop.session.lastApplied < e.revision) →
        p.loop.cache.Reads key document := by
  intro start g log hc hclient hgiven hread hjson hfloat hreturned
  have hexact : g.Exact client log := (exact_initial retention settings client kinds).run moves
  have hmem := List.mem_of_getElem? hc
  have hcompletes := hexact.completes c hmem
  rw [Call.rest_of_returned? hreturned] at hcompletes
  cases hcompletes with
  | returned result stored change hown hcommitted =>
    obtain ⟨key, hwrites, rfl⟩ := hown
    obtain ⟨before, o, hpast, -, hchange⟩ := hcommitted
    obtain ⟨rfl, bound, hbound, hfiled⟩ := hwrites.document_eq hgiven
    obtain ⟨condition, revision, rfl⟩ := Observation.eq_of_change?_put hchange
    have hput : ⟨c.collection.storageKey key, .put document.encode, revision⟩ ∈ log :=
      hexact.recorded c hmem _ _ condition revision (by rw [hpast]; simp)
    have hplain : document.Plain := by
      have hgivenPlain := Resource.plain_of_ofJson hread hjson hfloat
      rcases hbound with rfl | hbind
      · exact hgivenPlain.of_payload hfiled.payload_eq
      · exact (hgivenPlain.bindKey hbind).of_payload hfiled.payload_eq
    refine ⟨key, condition, revision, hwrites, by rw [hpast]; simp, hput, ?_⟩
    intro p hp hkind happlied hlast
    have hstored : c.collection.storageKey key = client.storageKey p.loop.cache.kind key := by
      rw [hkind, Collection.storageKey, hclient]
    rw [hstored] at hput hlast
    exact hexact.reads hp (Resource.ne_of_key? hfiled.key_eq) hplain hfiled.id_ne hput happlied hlast

/-- A client creates a route, and the stream of the loop breaks. Another route is stored before the
loop resumes and gets both. -/
def resumedAfterCreate : List GatewayMove :=
  let c : Collection := ⟨.route, ⟨"/apisix", 1000⟩⟩
  let r : Resource := ⟨"r1", 0, 0, .ofPairs [("uri", .string "/a")]⟩
  [.fleet (.own 0 .sync), .fleet (.own 0 .perform), .fleet (.own 0 .hear), .fleet (.own 0 .start),
    .fleet (.own 0 .proceed), .fleet (.own 0 .perform), .fleet (.own 0 .hear),
    .client (.begin c (.create r)), .client (.readClock 0 ⟨5000⟩),
    .client (.readCaches 0 fun _ => none), .fleet (.outside (.operate .disconnect)),
    .client (.perform 0), .fleet (.own 0 .receive),
    .client (.operate (.put "/apisix/routes/r2" [123, 125] none)), .fleet (.own 0 .receive),
    .fleet (.own 0 .wake), .fleet (.own 0 .proceed), .fleet (.own 0 .perform),
    .fleet (.own 0 .hear), .fleet (.own 0 .receive)]

theorem read_back_resumed :
    let g := (initial 4 ⟨5000, 100, 10000, 3⟩ ⟨"/apisix", 1000⟩ [.route]).run resumedAfterCreate
    ∃ c document p, g.calls[0]? = some c ∧ c.returned? = some (some document) ∧
      g.followers[0]? = some p ∧ p.loop.cache.Reads "r1" document := by
  intro g
  let given : Resource := ⟨"r1", 0, 0, .ofPairs [("uri", .string "/a")]⟩
  let text := "\x7b\"id\":\"r1\",\"uri\":\"/a\"\x7d"
  have hparse : Json.parse? text = some (.object [("id", .string "r1"), ("uri", .string "/a")]) := by
    have hscan : Json.Token.scan text.toList = some [.openObject, .string "id", .colon,
        .string "r1", .comma, .string "uri", .colon, .string "/a", .closeObject] := by decide +kernel
    unfold Json.parse?
    rw [hscan]
    rfl
  have hcall : (g.calls[0]?).map (fun c => (c.collection, c.command)) =
      some (⟨.route, ⟨"/apisix", 1000⟩⟩, .create given) := rfl
  have hreturned : (g.calls[0]?).map
      (fun c => (c.returned?).map (Option.map fun d => d.key? .route)) =
        some (some (some (some "r1"))) := by decide +kernel
  have hloops : (g.followers[0]?).map
      (fun p => (p.loop.cache.kind, p.loop.session.lastApplied)) = some (.route, 2) := by
    decide +kernel
  have hlog : ((initial 4 ⟨5000, 100, 10000, 3⟩ ⟨"/apisix", 1000⟩ [.route]).changes
      resumedAfterCreate).map (fun e => (e.key, e.revision)) =
        [("/apisix/routes/r1", 1), ("/apisix/routes/r2", 2)] := by decide +kernel
  obtain ⟨c, hc, hgiven⟩ := Option.map_eq_some_iff.1 hcall
  obtain ⟨hcollection, hcommand⟩ := Prod.mk.inj hgiven
  rw [hc, Option.map_some, Option.some.injEq] at hreturned
  obtain ⟨result, hresult, hdocument⟩ := Option.map_eq_some_iff.1 hreturned
  obtain ⟨document, rfl, hkey⟩ := Option.map_eq_some_iff.1 hdocument
  obtain ⟨p, hp, hstate⟩ := Option.map_eq_some_iff.1 hloops
  obtain ⟨hkind, happlied⟩ := Prod.mk.inj hstate
  obtain ⟨key, condition, revision, hwrites, -, hput, hreads⟩ :=
    read_back 4 ⟨5000, 100, 10000, 3⟩ ⟨"/apisix", 1000⟩ [.route] resumedAfterCreate 0 c given
      document _ hc (by rw [hcollection]) (by rw [hcommand]; rfl) (Json.parsed_of_parse? hparse) rfl
      ⟨trivial, trivial⟩ hresult
  rw [hcommand, hcollection] at hwrites
  have hfiled : document.IsFiled .route key given.payload := hwrites.1
  obtain rfl : "r1" = key := Option.some.inj (hkey.symm.trans hfiled.key_eq)
  rw [hcollection] at hput hreads
  have hstored : (⟨.route, ⟨"/apisix", 1000⟩⟩ : Collection).storageKey "r1" = "/apisix/routes/r1" := by
    decide +kernel
  rw [hstored] at hput hreads
  -- the key is in the log once
  have honce {e : Event} (he : e ∈ (initial 4 ⟨5000, 100, 10000, 3⟩ ⟨"/apisix", 1000⟩
      [.route]).changes resumedAfterCreate) (hek : e.key = "/apisix/routes/r1") :
      e.revision = 1 := by
    have hpair := List.mem_map_of_mem (f := fun e => (e.key, e.revision)) he
    rw [hlog, hek] at hpair
    simpa using hpair
  obtain rfl : revision = 1 := honce hput rfl
  refine ⟨c, document, p, hc, hresult, hp, hreads p (List.mem_of_getElem? hp) hkind ?_ ?_⟩
  · rw [happlied]
    exact Nat.le_succ 1
  · intro e he hek hlt
    rw [honce he hek] at hlt
    exact absurd hlt (Nat.lt_irrefl 1)

/-- A client creates a route from a document that is too deep, while the loop follows. -/
def createdDeep : List GatewayMove :=
  [.fleet (.own 0 .sync), .fleet (.own 0 .perform), .fleet (.own 0 .hear), .fleet (.own 0 .start),
    .fleet (.own 0 .proceed), .fleet (.own 0 .perform), .fleet (.own 0 .hear),
    .client (.begin ⟨.route, ⟨"/apisix", 1000⟩⟩ (.create Resource.deepRoute)),
    .client (.readClock 0 ⟨5000⟩), .client (.readCaches 0 fun _ => none), .client (.perform 0),
    .fleet (.own 0 .receive)]

/-- The system after that create. -/
def followedDeep : Gateway :=
  (initial 4 ⟨5000, 100, 10000, 3⟩ ⟨"/apisix", 1000⟩ [.route]).run createdDeep

theorem changes_createdDeep :
    (initial 4 ⟨5000, 100, 10000, 3⟩ ⟨"/apisix", 1000⟩ [.route]).changes createdDeep =
      [⟨"/apisix/routes/r1", .put Resource.deepCreated.encode, 1⟩] := rfl

theorem entries_followedDeep : followedDeep.followers.map (fun p => p.loop.cache.get? "r1") =
    [some (Cache.entryOf "/apisix/routes/r1" "r1" Resource.deepCreated.encode 1)] := rfl

/-- The bound on the depth of documents cannot be dropped: with one container more in one another, the
create returns a document, the loop comes as far as the put, the only change of the log, and who asks
for the key gets a failure. -/
theorem read_back_fails_deep :
    Resource.deepDocument.Parsed (Json.Reading.maxDepth + 1) ∧ Resource.deepDocument.FloatFree ∧
      Resource.ofJson Resource.deepDocument = .ok Resource.deepRoute ∧
      (initial 4 ⟨5000, 100, 10000, 3⟩ ⟨"/apisix", 1000⟩ [.route]).changes createdDeep =
        [⟨"/apisix/routes/r1", .put Resource.deepCreated.encode, 1⟩] ∧
      ∃ c document p, followedDeep.calls = [c] ∧ c.returned? = some (some document) ∧
        followedDeep.followers = [p] ∧ p.loop.cache.kind = .route ∧
        p.loop.session.lastApplied = 1 ∧
        p.loop.cache.find "r1" = .error (.codec (.undecodable "/apisix/routes/r1")) := by
  have hcalls : followedDeep.calls.map (fun c => c.returned?.map Option.isSome) = [some true] := by
    decide +kernel
  have hloops : followedDeep.followers.map
      (fun p => (p.loop.cache.kind, p.loop.session.lastApplied)) = [(.route, 1)] := by decide +kernel
  have hentries := entries_followedDeep
  have hnone : (Cache.entryOf "/apisix/routes/r1" "r1" Resource.deepCreated.encode 1).resource =
      none := by
    rw [Cache.entryOf, Resource.decode_deepCreated]
    rfl
  obtain ⟨c, hc, hreturned⟩ := List.map_eq_singleton_iff.1 hcalls
  obtain ⟨result, hresult, hdocument⟩ := Option.map_eq_some_iff.1 hreturned
  obtain ⟨document, rfl⟩ := Option.isSome_iff_exists.1 hdocument
  obtain ⟨p, hp, hstate⟩ := List.map_eq_singleton_iff.1 hloops
  rw [hp, List.map_singleton, List.singleton_inj] at hentries
  refine ⟨Resource.parsed_deepDocument, Resource.floatFree_deepDocument,
    Resource.ofJson_deepDocument, changes_createdDeep, c, document, p, hc, hresult, hp,
    congrArg Prod.fst hstate, congrArg Prod.snd hstate, ?_⟩
  exact Cache.find_of_undecodable hentries hnone

end Gateway

end GatewayStore
