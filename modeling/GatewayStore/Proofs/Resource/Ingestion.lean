import GatewayStore.Proofs.Resource.RoundTrip

/-
  Ingestion of documents. `IsDocument` says of the members of an object when they make a resource: what
  they say under a managed name, if anything, has the form for it. The resource then holds the members
  and nothing else. Its payload is those that are not managed, and its document is all of them, tidied
  one by one (`Json.tidied`). To see this each managed field is followed from its member
  (`idOf_eq_ok_iff`, `timeOf_eq_ok_iff`) to what is written for it (`get?_managed`).

  Of two members with one name the later one counts; a value that was read from text has no such members
  (`Json.Ordered`).
-/

namespace GatewayStore

namespace Json

/-- The members of an object. -/
def members? : Json → Option (KeyMap Json)
  | .object members => some (.ofPairs members)
  | _ => none

theorem eq_object_of_members? {v : Json} {members : KeyMap Json} (h : v.members? = some members)
    (hordered : v.Ordered) : v = .object members.entries := by
  cases v with
  | object l =>
    cases h
    exact congrArg Json.object (KeyMap.entries_ofPairs hordered.1).symm
  | _ => cases h

def IsId (v : Json) : Prop := v = .null ∨ (∃ s, v = .string s) ∨ ∃ n, v = .number n

/-- A time is an integer that fits a signed word of 64 bits. -/
def IsTime (v : Json) : Prop := ∃ i fits, v = .number (.integer i fits) ∧ -2 ^ 63 ≤ i ∧ i < 2 ^ 63

/-- What is kept of an id: its text, if there is any. -/
def tidyId (v : Json) : Option Json := (v.asKey?.filter (· ≠ "")).map .string

/-- What is kept of a time: zero is none. -/
def tidyTime : Json → Option Json
  | .number (.integer 0 _) => none
  | v => some v

/-- What a resource keeps of a member of its document. -/
def tidied (name : String) (v : Json) : Option Json :=
  if name = "id" then v.tidyId
  else if name = "create_time" ∨ name = "update_time" then v.tidyTime
  else some v

theorem tidied_of_unreserved {name : String} (h : Resource.isReserved name = false) (v : Json) :
    tidied name v = some v := by
  simp only [Resource.isReserved, Bool.or_eq_false_iff, decide_eq_false_iff_not] at h
  simp [tidied, h]

theorem tidyId_eq (v : Json) :
    v.tidyId = if v.asKey?.getD "" = "" then none else some (.string (v.asKey?.getD "")) := by
  unfold tidyId
  cases v.asKey? with
  | none => rfl
  | some s => by_cases hs : s = "" <;> simp [Option.filter, hs]

theorem ofInt64_ofInt {i : Int} (fits : -2 ^ 63 ≤ i ∧ i < 2 ^ 64) (h : i < 2 ^ 63) :
    ofInt64 (Int64.ofInt i) = .number (.integer i fits) := by
  simp only [ofInt64, Int64.toInt_ofInt_of_le fits.1 h]

theorem isTime_iff {v : Json} : v.IsTime ↔ ∃ t, v = .ofInt64 t := by
  constructor
  · rintro ⟨i, fits, rfl, -, hlt⟩
    exact ⟨Int64.ofInt i, (ofInt64_ofInt fits hlt).symm⟩
  · rintro ⟨t, rfl⟩
    exact ⟨t.toInt, _, rfl, t.le_toInt, t.toInt_lt⟩

theorem tidyTime_ofInt64 (t : Int64) :
    (ofInt64 t).tidyTime = if t = 0 then none else some (.ofInt64 t) := by
  unfold ofInt64 tidyTime
  split
  · next heq =>
    have hzero : t.toInt = (0 : Int64).toInt := by simpa using heq
    rw [if_pos (Int64.toInt_inj.1 hzero)]
  · next hne =>
    rw [if_neg]
    rintro rfl
    exact hne _ rfl

end Json

namespace Resource

variable {r : Resource} {members : KeyMap Json} {name : String}

/-- The members of an object that is a resource. -/
structure IsDocument (members : KeyMap Json) : Prop where
  createTime : ∀ v, members.get? "create_time" = some v → v.IsTime
  id : ∀ v, members.get? "id" = some v → v.IsId
  updateTime : ∀ v, members.get? "update_time" = some v → v.IsTime

/-! ## The managed fields one by one -/

theorem idOf_eq_ok_iff {v : Json} {id : String} :
    idOf v = .ok id ↔ v.IsId ∧ v.asKey?.getD "" = id := by
  cases v <;> simp [idOf, Json.IsId, Json.asKey?]

theorem timeOf_eq_ok_iff {v : Json} {t : Int64} : timeOf v = .ok t ↔ v = .ofInt64 t := by
  constructor
  · intro h
    unfold timeOf at h
    split at h
    · next i fits =>
      split at h <;> cases h
      next hlt => exact (Json.ofInt64_ofInt fits hlt).symm
    · cases h
  · rintro rfl
    exact timeOf_ofInt64 t

theorem memberOr_eq_ok_iff {α : Type} {absent a : α} {read : Json → Except MemberFault α} :
    memberOr members.entries name absent read = .ok a ↔
      (members.get? name = none ∧ a = absent) ∨ ∃ v, members.get? name = some v ∧ read v = .ok a := by
  unfold memberOr KeyMap.get?
  cases Assoc.get? name members.entries <;> simp [eq_comm]

/-- A member can be read if it is absent or of the form for it. -/
theorem exists_memberOr_iff {α : Type} (members : KeyMap Json) (name : String) (absent : α)
    {read : Json → Except MemberFault α} {form : Json → Prop}
    (hform : ∀ v, (∃ a, read v = .ok a) ↔ form v) :
    (∃ a, memberOr members.entries name absent read = .ok a) ↔
      ∀ v, members.get? name = some v → form v := by
  simp only [memberOr_eq_ok_iff, ← hform]
  cases members.get? name <;> simp

theorem exists_idOf_iff (v : Json) : (∃ id, idOf v = .ok id) ↔ v.IsId := by
  simp [idOf_eq_ok_iff]

theorem exists_timeOf_iff (v : Json) : (∃ t, timeOf v = .ok t) ↔ v.IsTime := by
  simp [timeOf_eq_ok_iff, Json.isTime_iff]

theorem exists_ofMembers_iff : (∃ r, ofMembers members = .ok r) ↔ IsDocument members := by
  have hcreate := exists_memberOr_iff members "create_time" 0 exists_timeOf_iff
  have hid := exists_memberOr_iff members "id" "" exists_idOf_iff
  have hupdate := exists_memberOr_iff members "update_time" 0 exists_timeOf_iff
  constructor
  · rintro ⟨r, hr⟩
    obtain ⟨hc, hi, hu, -⟩ := ofMembers_eq_ok_iff.1 hr
    exact ⟨hcreate.1 ⟨_, hc⟩, hid.1 ⟨_, hi⟩, hupdate.1 ⟨_, hu⟩⟩
  · intro h
    obtain ⟨createTime, hc⟩ := hcreate.2 h.createTime
    obtain ⟨id, hi⟩ := hid.2 h.id
    obtain ⟨updateTime, hu⟩ := hupdate.2 h.updateTime
    exact ⟨⟨id, createTime, updateTime, _⟩, ofMembers_eq_ok_iff.2 ⟨hc, hi, hu, rfl⟩⟩

/-! ## The document of the resource -/

theorem get?_ofPairs_ite {p : Prop} [Decidable p] (name k : String) (v : Json) :
    (KeyMap.ofPairs (if p then [] else [(name, v)])).get? k =
      if k = name then if p then none else some v else none := by
  split
  · split <;> rfl
  · exact Assoc.get?_insert name k v []

/-- What is written for the managed fields. -/
theorem get?_managed (r : Resource) (name : String) : (KeyMap.ofPairs r.managed).get? name =
    if name = "id" then if r.id = "" then none else some (.string r.id)
    else if name = "create_time" then
      if r.createTime = 0 then none else some (.ofInt64 r.createTime)
    else if name = "update_time" then
      if r.updateTime = 0 then none else some (.ofInt64 r.updateTime)
    else none := by
  unfold managed
  rw [KeyMap.get?_ofPairs_append, KeyMap.get?_ofPairs_append, get?_ofPairs_ite, get?_ofPairs_ite,
    get?_ofPairs_ite]
  by_cases hid : name = "id"
  · simp [hid]
  · by_cases hcreate : name = "create_time" <;> simp [hid, hcreate]

theorem bind_tidyId (h : memberOr members.entries "id" "" idOf = .ok r.id) :
    (members.get? "id").bind Json.tidyId = if r.id = "" then none else some (.string r.id) := by
  rcases memberOr_eq_ok_iff.1 h with ⟨hnone, hempty⟩ | ⟨v, hv, hid⟩
  · rw [hnone, hempty]
    rfl
  · rw [hv, Option.bind_some, Json.tidyId_eq, (idOf_eq_ok_iff.1 hid).2]

theorem bind_tidyTime {t : Int64} (h : memberOr members.entries name 0 timeOf = .ok t) :
    (members.get? name).bind Json.tidyTime = if t = 0 then none else some (.ofInt64 t) := by
  rcases memberOr_eq_ok_iff.1 h with ⟨hnone, rfl⟩ | ⟨v, hv, ht⟩
  · rw [hnone]
    rfl
  · rw [hv, Option.bind_some, timeOf_eq_ok_iff.1 ht, Json.tidyTime_ofInt64]

/-- What is written under a managed name is what is kept of the member. -/
theorem get?_managed_eq (h : ofMembers members = .ok r) (hname : isReserved name = true) :
    (KeyMap.ofPairs r.managed).get? name = (members.get? name).bind (Json.tidied name) := by
  obtain ⟨hcreate, hid, hupdate, -⟩ := ofMembers_eq_ok_iff.1 h
  have hcases : name = "create_time" ∨ name = "id" ∨ name = "update_time" := by
    simpa [isReserved, or_assoc] using hname
  rw [get?_managed]
  rcases hcases with rfl | rfl | rfl
  · exact (bind_tidyTime hcreate).symm
  · exact (bind_tidyId hid).symm
  · exact (bind_tidyTime hupdate).symm

/-- The document of a resource is the one that it came from, tidied. -/
theorem toJson_eq (h : ofMembers members = .ok r) :
    r.toJson = .object (members.filterMap Json.tidied).entries := by
  have hpayload : r.payload = members.filter fun name _ => !isReserved name :=
    (ofMembers_eq_ok_iff.1 h).2.2.2
  suffices hall : KeyMap.ofPairs (r.managed ++ r.payload.entries) =
      members.filterMap Json.tidied from
      congrArg (fun m : KeyMap Json => Json.object m.entries) hall
  ext name : 1
  rw [KeyMap.get?_ofPairs_append, KeyMap.ofPairs_entries, hpayload, KeyMap.get?_filter,
    KeyMap.get?_filterMap]
  cases hname : isReserved name with
  | true =>
    rw [get?_managed_eq h hname]
    cases members.get? name <;> rfl
  | false =>
    have hnone : (KeyMap.ofPairs r.managed).get? name = none :=
      KeyMap.get?_ofPairs_eq_none fun v hv => by
        have hreserved := isReserved_of_mem_managed hv
        rw [hname] at hreserved
        cases hreserved
    rw [hnone, Option.or_none]
    cases members.get? name with
    | none => rfl
    | some v => exact (Json.tidied_of_unreserved hname v).symm

/-- What is stored for a plain resource is read as its document. -/
theorem Plain.ofBytes?_encode (h : r.Plain) : Json.ofBytes? r.encode = some r.toJson := by
  have hreread : ∀ e ∈ r.managed ++ r.payload.entries, e.2.reread = e.2 := by
    intro e he
    rcases List.mem_append.1 he with he | he
    · rcases mem_managed.1 he with ⟨-, -, hv⟩ | ⟨-, -, hv⟩ | ⟨-, -, hv⟩ <;> rw [hv] <;> rfl
    · exact Json.reread_eq _ (Json.orderedMembers_iff.1 h.ordered.2 e he)
        (Json.floatFreeMembers_iff.1 h.floatFree e he)
  have hself : Json.reread.rereadMembers (r.managed ++ r.payload.entries) =
      r.managed ++ r.payload.entries := by
    rw [Json.rereadMembers_eq]
    refine (List.map_congr_left (g := fun e => e) fun e he => ?_).trans (List.map_id' _)
    exact Prod.ext rfl (hreread e he)
  rw [Resource.ofBytes?_encode (h.floatFree.printable h.depth_le), hself]
  rfl

/-! ## The main result -/

/-- What a resource keeps of the document that it came from. -/
structure Keeps (r : Resource) (v : Json) (members : KeyMap Json) : Prop where
  /-- The members are all that there is in the document. -/
  members_eq : v.Ordered → v = .object members.entries
  payload_eq : r.payload = members.filter fun name _ => !isReserved name
  /-- The payload says nothing about the managed fields. -/
  unreserved : ∀ name, isReserved name = true → r.field? name = none
  toJson_eq : r.toJson = .object (members.filterMap Json.tidied).entries
  /-- Its bytes are read as its document, if they can hold the document that it came from. -/
  ofBytes?_eq : v.Ordered → v.FloatFree → v.depth ≤ Json.Reading.maxDepth →
    Json.ofBytes? r.encode = some r.toJson

theorem ofJson_eq_ok_iff {v : Json} :
    ofJson v = .ok r ↔ ∃ members, v.members? = some members ∧ ofMembers members = .ok r := by
  cases v with
  | object l => cases hm : ofMembers (.ofPairs l) <;> simp [ofJson, Json.members?, hm, Except.mapError]
  | _ => simp [ofJson, Json.members?]

theorem plain_of_floatFree {v : Json} (h : ofJson v = .ok r) (hordered : v.Ordered)
    (hfloat : v.FloatFree) (hdepth : v.depth ≤ Json.Reading.maxDepth) : r.Plain := by
  have hread : v.Parsed Json.Reading.maxDepth := ⟨hfloat.printable hdepth, hordered⟩
  refine plain_of_ofJson hread h (Json.floatFreeMembers_iff.2 fun e he => ?_)
  obtain ⟨l, rfl, hentry⟩ := mem_of_ofJson h
  exact Json.floatFreeMembers_iff.1 hfloat e (hentry e he).1

/-- Ingestion is exact: the resources are the objects whose managed members have the form for them,
and a resource keeps its document. -/
theorem ingestion_exact (v : Json) :
    ((∃ r, ofJson v = .ok r) ↔ ∃ members, v.members? = some members ∧ IsDocument members) ∧
      ∀ r members, ofJson v = .ok r → v.members? = some members → r.Keeps v members := by
  constructor
  · simp only [ofJson_eq_ok_iff, ← exists_ofMembers_iff]
    exact ⟨fun ⟨r, members, hv, hr⟩ => ⟨members, hv, r, hr⟩,
      fun ⟨members, hv, r, hr⟩ => ⟨r, members, hv, hr⟩⟩
  · intro r members hr hmembers
    have hof : ofMembers members = .ok r := by
      obtain ⟨members', hv, hof⟩ := ofJson_eq_ok_iff.1 hr
      rw [hmembers] at hv
      cases hv
      exact hof
    have hpayload := (ofMembers_eq_ok_iff.1 hof).2.2.2
    refine ⟨Json.eq_object_of_members? hmembers, hpayload, ?_, toJson_eq hof, ?_⟩
    · intro name hname
      rw [field?, hpayload, KeyMap.get?_filter, hname]
      cases members.get? name <;> rfl
    · intro hordered hfloat hdepth
      exact (plain_of_floatFree hr hordered hfloat hdepth).ofBytes?_encode

/-- The members of a document with a number as its id, no time of creation, and the last second that
there is. -/
def numbered : KeyMap Json :=
  .ofPairs [("create_time", .number (.integer 0 (by decide))),
    ("id", .number (.integer 42 (by decide))),
    ("update_time", .number (.integer (2 ^ 63 - 1) (by decide))), ("uri", .string "/a")]

theorem ingestion_exact_numbered :
    ∃ r, ofJson (.object numbered.entries) = .ok r ∧
      r.toJson = .object [("id", .string "42"),
        ("update_time", .number (.integer (2 ^ 63 - 1) (by decide))), ("uri", .string "/a")] ∧
      Json.ofBytes? r.encode = some r.toJson := by
  obtain ⟨haccepts, hkeeps⟩ := ingestion_exact (.object numbered.entries)
  have hmembers : (Json.object numbered.entries).members? = some numbered :=
    congrArg some (KeyMap.ofPairs_entries numbered)
  have hdocument : IsDocument numbered := by
    refine ⟨fun v hv => ?_, fun v hv => ?_, fun v hv => ?_⟩ <;> cases hv
    · exact ⟨0, _, rfl, by decide, by decide⟩
    · exact .inr (.inr ⟨_, rfl⟩)
    · exact ⟨2 ^ 63 - 1, _, rfl, by decide, by decide⟩
  obtain ⟨r, hr⟩ := haccepts.2 ⟨numbered, hmembers, hdocument⟩
  have h := hkeeps r numbered hr hmembers
  refine ⟨r, hr, h.toJson_eq, h.ofBytes?_eq ?_ ?_ (by decide)⟩
  · exact ⟨numbered.sorted, trivial, trivial, trivial, trivial, trivial⟩
  · exact ⟨trivial, trivial, trivial, trivial, trivial⟩

end Resource

end GatewayStore
