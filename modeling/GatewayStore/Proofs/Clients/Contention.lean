import GatewayStore.Proofs.Clients.Rounds

/-
  Upserts while others write the key. `Replaces.concludes` says of every way in which a replacement
  ends what it has seen before. An update that is refused for its condition is tried again, and a
  creation is not: so an upsert whose key stays decodable stores its document, or gives up after three
  refused updates, or finds the key created between its reading and its put (`upsert_contended`).
-/

namespace GatewayStore

namespace Call

/-- The failure of a call, if it is over and failed. -/
def failure? (c : Call) : Option Failure :=
  match c.rest with
  | .failed cause => some cause
  | _ => none

variable {c : Call}

theorem rest_of_failure? {cause : Failure} (h : c.failure? = some cause) :
    c.rest = .failed cause := by
  unfold failure? at h
  split at h
  · next hrest =>
    cases h
    exact hrest
  · cases h

theorem rest_of_returned? {result : Option Resource} (h : c.returned? = some result) :
    c.rest = .done result := by
  unfold returned? at h
  split at h
  · next hrest =>
    cases h
    exact hrest
  · cases h

end Call

/-- Whether an update of a stored key was refused, since the key changed after it was read. -/
def Observation.isConflict (stored : String) : Observation → Bool
  | .answered (.put key _ (some (.unchanged _))) (.error (.preconditionFailed _)) => key = stored
  | _ => false

namespace Collection

/-- How the replacement of a document may end, given what it has observed. -/
inductive Concludes (c : Collection) (key : String) (r : Resource) (creates : Bool)
    (past : List Observation) : Except Failure Resource → Prop
  | wrote (document : Resource) (condition : Condition) (hid : document.id = r.id)
    (hpayload : document.payload = r.payload) (h : c.Wrote key document condition past) :
    Concludes c key r creates past (.ok document)
  | missing (hcreates : creates = false)
    (hread : past.getLast? = some (.answered (.get (c.storageKey key)) (.ok none))) :
    Concludes c key r creates past (.error (.notFound key))
  | undecodable (found : StoredKey) (cause : CodecFault)
    (hread : past.getLast? = some (.answered (.get (c.storageKey key)) (.ok (some found))))
    (h : Resource.decode key found.value = .error cause) :
    Concludes c key r creates past (.error (.codec cause))
  | unread (cause : Failure)
    (hread : past.getLast? = some (.answered (.get (c.storageKey key)) (.error cause))) :
    Concludes c key r creates past (.error cause)
  | unwritten (value : Bytes) (condition : Condition) (cause : Failure)
    (hput : past.getLast? =
      some (.answered (.put (c.storageKey key) value (some condition)) (.error cause)))
    (h : ∀ name, cause ≠ .preconditionFailed name) : Concludes c key r creates past (.error cause)
  | taken (before : List Observation) (value : Bytes) (name : String)
    (hread : .answered (.get (c.storageKey key)) (.ok none) ∈ before)
    (hput : past = before ++ [.answered (.put (c.storageKey key) value (some .absent))
      (.error (.preconditionFailed name))]) :
    Concludes c key r creates past (.error (.alreadyExists key))
  | contended (h : updateAttempts ≤ past.countP (·.isConflict (c.storageKey key))) :
    Concludes c key r creates past (.error (.storeUnavailable (.keptChanging c.kind.name key)))

variable {c : Collection} {key : String} {r : Resource} {creates : Bool}
  {start past : List Observation}

/-- Every refused round shows a conflict. -/
theorem Refused.le_countP {n : Nat} (h : c.Refused key r start n past) :
    n ≤ past.countP (·.isConflict (c.storageKey key)) := by
  induction h with
  | start => exact Nat.zero_le _
  | again _ found now previous name hdecode ih =>
    have hround : (c.round key found now (r.stampUpdated now previous)
        (.error (.preconditionFailed name))).countP (·.isConflict (c.storageKey key)) = 1 := by
      simp [round, Observation.isConflict]
    rw [List.countP_append, hround]
    omega

theorem Replaces.concludes {result : Except Failure Resource}
    (h : c.Replaces key r creates start updateAttempts past result) :
    c.Concludes key r creates past result := by
  cases h with
  | updated h hn found now previous hdecode answer hanswer =>
    cases answer with
    | ok revision => exact .wrote _ (.unchanged found.modRevision) rfl rfl ⟨revision, by simp [round]⟩
    | error cause =>
      exact .unwritten (r.stampUpdated now previous).encode (.unchanged found.modRevision) cause
        (by simp [round]) fun name heq => hanswer name (heq ▸ rfl)
  | @created _ before h hn hcreates now answer =>
    cases answer with
    | ok revision => exact .wrote _ .absent rfl rfl ⟨revision, by simp [creation]⟩
    | error cause =>
      by_cases hrefused : ∃ name, cause = .preconditionFailed name
      · obtain ⟨name, rfl⟩ := hrefused
        exact .taken (before ++ [.answered (.get (c.storageKey key)) (.ok none), .time now])
          (r.stampCreated now).encode name (by simp) (by simp [creation])
      · have hother : ∀ name, cause ≠ .preconditionFailed name :=
          fun name heq => hrefused ⟨name, heq⟩
        have hpassed : writeFailure key .absent cause = cause := writeFailure_of_ne hother
        dsimp only [Except.mapError, Except.map]
        rw [hpassed]
        exact .unwritten (r.stampCreated now).encode .absent cause (by simp [creation]) hother
  | missing h hn hcreates => exact .missing hcreates (by simp)
  | undecodable h hn found cause hdecode => exact .undecodable found cause (by simp) hdecode
  | unread h hn cause => exact .unread cause (by simp)
  | contended h => exact .contended h.le_countP

/-- How a call to replace a document may end. -/
def Finishes (c : Collection) (key : String) (r : Resource) (creates : Bool)
    (past : List Observation) (result : Except Failure Resource) : Prop :=
  past.length ≤ 10 ∧
    ((∃ cause, result = .error cause ∧ c.Refuses key r past cause) ∨
      ∃ bound, r.bindKey c.kind key = .ok bound ∧ c.Concludes key bound creates past result)

/-- A replacement ends after ten observations at the latest: a look at the caches, and three rounds. -/
theorem Stores.finishes {result : Except Failure Resource} (h : c.Stores key r creates past result) :
    c.Finishes key r creates past result := by
  rcases h with ⟨cause, hresult, hlength, hrefuses⟩ | ⟨bound, caches, hbind, hreplaces⟩
  · exact ⟨by omega, .inl ⟨cause, hresult, hrefuses⟩⟩
  · exact ⟨hreplaces.length_le, .inr ⟨bound, hbind, hreplaces.concludes⟩⟩

/-- How a command may end that replaces a document. Of the others nothing is said. -/
def Closes (c : Collection) (command : Command) (past : List Observation)
    (result : Except Failure (Option Resource)) : Prop :=
  match command with
  | .update key r => ∃ result', result = result'.map some ∧ c.Finishes key r false past result'
  | .upsert key r => ∃ result', result = result'.map some ∧ c.Finishes key r true past result'
  | .create _ | .delete _ => True

theorem Follows.closes {command : Command} {result : Except Failure (Option Resource)}
    (h : c.Follows command past result) : c.Closes command past result := by
  cases command with
  | update key r | upsert key r =>
    obtain ⟨result', hresult, hstores⟩ := h key r _ rfl
    exact ⟨result', hresult, hstores.finishes⟩
  | create r | delete key => trivial

end Collection

namespace Clients

theorem ends_calls (retention : Nat) (moves : List ClientMove) :
    ∀ c ∈ ((initial retention).run moves).calls,
      c.rest.Ends (c.collection.Closes c.command) c.past :=
  fun c hc => (follows_calls retention moves c hc).imp fun _ _ h => h.closes

/-! ## What a call has seen -/

section

variable {retention : Nat} {moves : List ClientMove} {i : Nat} {c : Call} {key : String}

/-- What a call has read was so when it read it. -/
theorem read_of_past (hc : ((initial retention).run moves).calls[i]? = some c)
    {found : Option StoredKey} (ho : .answered (.get key) (.ok found) ∈ c.past) :
    ∃ n < moves.length, moves[n]? = some (.perform i) ∧
      found = (((initial retention).run (moves.take n)).store.index.get? key).map
        (Record.listed key) := by
  obtain ⟨n, m, hlt, hm, hseen⟩ := seen_of_mem retention hc ho
  obtain ⟨-, store, hperform, -⟩ := served_of_seen hseen
  rw [perform_of_seen hseen] at hm
  exact ⟨n, hlt, hm, (Store.perform_get_eq_ok.1 hperform).2.1⟩

/-- What a call has put was there right after it put it. -/
theorem put_of_past (hc : ((initial retention).run moves).calls[i]? = some c) {value : Bytes}
    {condition : Option Condition} {revision : Nat}
    (ho : .answered (.put key value condition) (.ok revision) ∈ c.past) :
    ∃ n record, moves[n]? = some (.perform i) ∧ record.value = value ∧
      ((initial retention).run (moves.take (n + 1))).store.index.get? key = some record := by
  obtain ⟨n, m, -, hm, hseen⟩ := seen_of_mem retention hc ho
  obtain ⟨-, store, hperform, hstore⟩ := served_of_seen hseen
  obtain ⟨-, -, rfl⟩ := Store.put_eq_ok.1 (Store.perform_put_eq_ok.1 hperform).1
  have hget := Store.get?_recorded_put ((initial retention).run (moves.take n)).store key value
  rw [← hstore, ← run_take_succ _ hm] at hget
  rw [perform_of_seen hseen] at hm
  exact ⟨n, _, hm, rfl, hget⟩

theorem caches_of_past (hc : ((initial retention).run moves).calls[i]? = some c) {caches : Caches}
    (ho : .cached caches ∈ c.past) : .readCaches i caches ∈ moves := by
  obtain ⟨n, m, -, hm, hseen⟩ := seen_of_mem retention hc ho
  cases m with
  | readCaches j caches' =>
    cases hseen
    exact List.mem_of_getElem? hm
  | perform j | lose j cause | fail j cause =>
    obtain ⟨r, -, heq⟩ := Option.map_eq_some_iff.1 hseen
    cases heq
  | _ => cases hseen

/-- A store call fails only in the store if none fails on its way. -/
theorem error_of_past (hc : ((initial retention).run moves).calls[i]? = some c)
    (hreliable : ∀ cause, .lose i cause ∉ moves ∧ .fail i cause ∉ moves) {r : Request}
    {cause : Failure} {before after : List Observation}
    (hpast : c.past = before ++ .answered r (.error cause) :: after) :
    ∃ n c', moves[n]? = some (.perform i) ∧
      ((initial retention).run (moves.take n)).store.perform r = .error cause ∧
      ((initial retention).run (moves.take n)).calls[i]? = some c' ∧ c'.past = before := by
  obtain ⟨n, m, c', -, hm, hseen, hc', hbefore⟩ := seen_of_past retention hc hpast
  rcases failed_of_seen hseen with ⟨rfl, hperform⟩ | rfl | rfl
  · exact ⟨n, c', hm, hperform, hc', hbefore⟩
  · exact absurd (List.mem_of_getElem? hm) (hreliable cause).1
  · exact absurd (List.mem_of_getElem? hm) (hreliable cause).2

/-- A valid document is not turned away. -/
theorem not_refuses (hc : ((initial retention).run moves).calls[i]? = some c) {r bound : Resource}
    (hwritable : c.collection.kind.isWritable = true)
    (hbind : r.bindKey c.collection.kind key = .ok bound)
    (hvalid : ∀ caches, .readCaches i caches ∈ moves →
      ∃ k, bound.checkedKey c.collection.kind caches = .ok k) (cause : Failure) :
    ¬ c.collection.Refuses key r c.past cause := by
  intro hrefuses
  cases hrefuses with
  | readOnly h => simp [Kind.checkWritable, hwritable] at h
  | unbound h =>
    rw [hbind] at h
    cases h
  | invalid bound' caches hbind' hcaches h =>
    rw [hbind] at hbind'
    cases hbind'
    obtain ⟨k, hk⟩ := hvalid caches (caches_of_past hc hcaches)
    rw [hk] at h
    cases h

/-- An upsert of a valid document concludes as a replacement does that may create its key. -/
theorem concludes_of_closes (hc : ((initial retention).run moves).calls[i]? = some c)
    {r bound : Resource} (hcommand : c.command = .upsert key r)
    (hwritable : c.collection.kind.isWritable = true)
    (hbind : r.bindKey c.collection.kind key = .ok bound)
    (hvalid : ∀ caches, .readCaches i caches ∈ moves →
      ∃ k, bound.checkedKey c.collection.kind caches = .ok k)
    {result : Except Failure (Option Resource)}
    (h : c.collection.Closes c.command c.past result) :
    ∃ result', result = result'.map some ∧
      c.collection.Concludes key bound true c.past result' := by
  rw [hcommand] at h
  obtain ⟨result', hresult, -, ⟨cause, -, hrefuses⟩ | ⟨bound', hbind', hconcludes⟩⟩ := h
  · exact absurd hrefuses (not_refuses hc hwritable hbind hvalid cause)
  · rw [hbind] at hbind'
    cases hbind'
    exact ⟨result', hresult, hconcludes⟩

/-- A store that stays available and keeps decodable documents leaves two ways to fail. -/
theorem cause_of_concludes (hc : ((initial retention).run moves).calls[i]? = some c)
    (hreliable : ∀ cause, .lose i cause ∉ moves ∧ .fail i cause ∉ moves)
    (honline : ∀ n, ((initial retention).run (moves.take n)).store.isOffline = false)
    (hdecodes : ∀ n record, ((initial retention).run (moves.take n)).store.index.get?
      (c.collection.storageKey key) = some record → ∃ d, Resource.decode key record.value = .ok d)
    {r : Resource} {cause : Failure}
    (h : c.collection.Concludes key r true c.past (.error cause)) :
    (cause = .storeUnavailable (.keptChanging c.collection.kind.name key) ∧
      Collection.updateAttempts ≤ c.past.countP (·.isConflict (c.collection.storageKey key))) ∨
    (cause = .alreadyExists key ∧ ∃ a b, a < b ∧ moves[a]? = some (.perform i) ∧
      moves[b]? = some (.perform i) ∧
      ((initial retention).run (moves.take a)).store.index.get? (c.collection.storageKey key) =
        none ∧
      ((initial retention).run (moves.take b)).store.index.get? (c.collection.storageKey key) ≠
        none) := by
  cases h with
  | missing hcreates hread => cases hcreates
  | contended h => exact .inl ⟨rfl, h⟩
  | undecodable found fault hread h =>
    obtain ⟨n, -, -, hfound⟩ := read_of_past hc (List.mem_of_getLast? hread)
    obtain ⟨record, hrecord, rfl⟩ := Option.map_eq_some_iff.1 hfound.symm
    obtain ⟨d, hd⟩ := hdecodes n record hrecord
    cases hd.symm.trans h
  | unread cause hread =>
    obtain ⟨before, hpast⟩ := List.getLast?_eq_some_iff.1 hread
    obtain ⟨n, -, -, hperform, -⟩ := error_of_past hc hreliable hpast
    cases (Store.perform_get_eq_ok.2 ⟨honline n, rfl, rfl⟩).symm.trans hperform
  | unwritten value condition cause hput h =>
    obtain ⟨before, hpast⟩ := List.getLast?_eq_some_iff.1 hput
    obtain ⟨n, -, -, hperform, -⟩ := error_of_past hc hreliable hpast
    obtain ⟨-, rfl⟩ := Store.put_eq_error (honline n) (Store.perform_put_eq_error.1 hperform)
    exact absurd rfl (h _)
  | taken before value name hread hput =>
    -- the reading lies before the put that was refused
    obtain ⟨b, c', hb, hperform, hc', hbefore⟩ := error_of_past hc hreliable hput
    obtain ⟨hholds, -⟩ := Store.put_eq_error (honline b) (Store.perform_put_eq_error.1 hperform)
    rw [← hbefore] at hread
    obtain ⟨a, ha, hma, hnone⟩ := read_of_past hc' hread
    have hab : a < b := by
      rw [List.length_take] at ha
      omega
    rw [List.getElem?_take_of_lt hab] at hma
    rw [List.take_take, Nat.min_eq_left (Nat.le_of_lt hab)] at hnone
    refine .inr ⟨rfl, a, b, hab, hma, hb, Option.map_eq_none_iff.1 hnone.symm, fun habsent => ?_⟩
    rw [habsent] at hholds
    cases hholds

end

/-- Upserts under contention. Let a call upsert a document that is valid for the caches that it sees,
in a store that stays available and keeps a decodable document under the key. The call ends after ten
steps of its own at most. If it returns, its document was stored; if it fails, three updates were
refused, or the key was absent when it was read and there when it was to be created. -/
theorem upsert_contended (retention : Nat) (moves : List ClientMove) (i : Nat) (c : Call)
    (key : String) (r bound : Resource) :
    let after (n : Nat) := (initial retention).run (moves.take n)
    let held (n : Nat) := (after n).store.index.get? (c.collection.storageKey key)
    ((initial retention).run moves).calls[i]? = some c → c.command = .upsert key r →
    c.collection.kind.isWritable = true → r.bindKey c.collection.kind key = .ok bound →
    (∀ caches, .readCaches i caches ∈ moves →
      ∃ k, bound.checkedKey c.collection.kind caches = .ok k) →
    (∀ cause, .lose i cause ∉ moves ∧ .fail i cause ∉ moves) →
    (∀ n, (after n).store.isOffline = false) →
    (∀ n record, held n = some record → ∃ d, Resource.decode key record.value = .ok d) →
    c.past.length ≤ 10 ∧
    (c.rest.isOver = false → c.past.length < 10 ∧ ∃ m c',
      (((initial retention).run moves).move m).calls[i]? = some c' ∧
        c'.past.length = c.past.length + 1) ∧
    (∀ result, c.returned? = some result → ∃ document n record, result = some document ∧
      document.id = bound.id ∧ document.payload = bound.payload ∧
      moves[n]? = some (.perform i) ∧ record.value = document.encode ∧
      held (n + 1) = some record) ∧
    ∀ cause, c.failure? = some cause →
      (cause = .storeUnavailable (.keptChanging c.collection.kind.name key) ∧
        Collection.updateAttempts ≤ c.past.countP (·.isConflict (c.collection.storageKey key))) ∨
      (cause = .alreadyExists key ∧ ∃ a b, a < b ∧ moves[a]? = some (.perform i) ∧
        moves[b]? = some (.perform i) ∧ held a = none ∧ held b ≠ none) := by
  intro after held hc hcommand hwritable hbind hvalid hreliable honline hdecodes
  have hends := ends_calls retention moves c (List.mem_of_getElem? hc)
  have hlength : c.rest.Ends (fun past _ => past.length ≤ 10) c.past :=
    hends.imp fun past result h => by
      rw [hcommand] at h
      obtain ⟨result', -, hle, -⟩ := h
      exact hle
  obtain ⟨hle, hlt⟩ := hlength.length_le
  refine ⟨hle, fun hover => ⟨hlt hover, goes_on hc hover⟩, fun result hreturned => ?_,
    fun cause hfailed => ?_⟩
  · rw [Call.rest_of_returned? hreturned] at hends
    obtain ⟨result', hresult, hconcludes⟩ :=
      concludes_of_closes hc hcommand hwritable hbind hvalid hends
    cases hconcludes with
    | wrote document condition hid hpayload hwrote =>
      cases hresult
      obtain ⟨revision, hput⟩ := hwrote
      obtain ⟨n, record, hm, hvalue, hrecord⟩ := put_of_past hc (List.mem_of_getLast? hput)
      exact ⟨document, n, record, rfl, hid, hpayload, hm, hvalue, hrecord⟩
    | _ => cases hresult
  · rw [Call.rest_of_failure? hfailed] at hends
    obtain ⟨result', hresult, hconcludes⟩ :=
      concludes_of_closes hc hcommand hwritable hbind hvalid hends
    cases result' with
    | ok document => cases hresult
    | error cause' =>
      cases hresult
      exact cause_of_concludes hc hreliable honline hdecodes hconcludes

/-- A client stores a service. Another one reads it to replace it, a third one deletes it before the
replacement is put, and the second one creates it again. -/
def recreatedService : List ClientMove :=
  let c : Collection := ⟨.service, ⟨"/apisix", 1000⟩⟩
  let r : Resource := ⟨"", 0, 0, .empty⟩
  [.begin c (.upsert "s1" r), .readCaches 0 fun _ => none, .perform 0, .readClock 0 ⟨5000⟩,
    .perform 0, .begin c (.upsert "s1" r), .readCaches 1 fun _ => none, .perform 1,
    .begin c (.delete "s1"), .perform 2, .readClock 1 ⟨6000⟩, .perform 1, .perform 1,
    .readClock 1 ⟨7000⟩, .perform 1]

theorem upsert_contended_recreated :
    ∃ c, ((initial 4).run recreatedService).calls[1]? = some c ∧
      ∃ document n record, c.returned? = some (some document) ∧ document.id = "s1" ∧
        record.value = document.encode ∧
        ((initial 4).run (recreatedService.take (n + 1))).store.index.get? "/apisix/services/s1" =
          some record := by
  have hcall : (((initial 4).run recreatedService).calls[1]?).map
      (fun c => (c.collection, c.command)) =
        some (⟨.service, ⟨"/apisix", 1000⟩⟩, .upsert "s1" ⟨"", 0, 0, .empty⟩) := rfl
  have hover : (((initial 4).run recreatedService).calls[1]?).map
      (fun c => (c.returned?).isSome) = some true := by decide +kernel
  obtain ⟨c, hc, hgiven⟩ := Option.map_eq_some_iff.1 hcall
  obtain ⟨hcollection, hcommand⟩ := Prod.mk.inj hgiven
  rw [hc, Option.map_some] at hover
  obtain ⟨result, hresult⟩ := Option.isSome_iff_exists.1 (Option.some.inj hover)
  -- all moments up to the last one
  have hmoments (n : Nat) : ∃ k < 16, recreatedService.take n = recreatedService.take k := by
    rcases Nat.lt_or_ge n 16 with hlt | hge
    · exact ⟨n, hlt, rfl⟩
    · exact ⟨15, by decide, List.take_of_length_le (Nat.le_of_lt hge)⟩
  have honline (n : Nat) : ((initial 4).run (recreatedService.take n)).store.isOffline = false := by
    have hall : ∀ n < 16,
        ((initial 4).run (recreatedService.take n)).store.isOffline = false := by decide +kernel
    obtain ⟨k, hk, heq⟩ := hmoments n
    rw [heq]
    exact hall k hk
  have hdecodes (n : Nat) (record : Record) (hrecord : ((initial 4).run
      (recreatedService.take n)).store.index.get? "/apisix/services/s1" = some record) :
      ∃ d, Resource.decode "s1" record.value = .ok d := by
    have hall : ∀ n < 16, (((initial 4).run (recreatedService.take n)).store.index.get?
        "/apisix/services/s1").all
          (fun record => (Resource.decode "s1" record.value).toBool) = true := by decide +kernel
    obtain ⟨k, hk, heq⟩ := hmoments n
    have hdecoded := hall k hk
    rw [← heq, hrecord, Option.all_some] at hdecoded
    cases hd : Resource.decode "s1" record.value with
    | ok d => exact ⟨d, rfl⟩
    | error cause =>
      rw [hd] at hdecoded
      cases hdecoded
  have hspec := upsert_contended 4 recreatedService 1 c "s1" ⟨"", 0, 0, .empty⟩ ⟨"s1", 0, 0, .empty⟩
  rw [hcollection] at hspec
  obtain ⟨-, -, hreturns, -⟩ := hspec hc hcommand rfl rfl (fun _ _ => ⟨"s1", rfl⟩)
    (by simp [recreatedService]) honline hdecodes
  obtain ⟨document, n, record, rfl, hid, -, -, hvalue, hrecord⟩ := hreturns result hresult
  exact ⟨c, hc, document, n, record, hresult, hid, hvalue, hrecord⟩

/-- Two clients store the same service at the same time, and one of them fails. -/
theorem upsert_raced :
    let c : Collection := ⟨.service, ⟨"/apisix", 1000⟩⟩
    let r : Resource := ⟨"", 0, 0, .empty⟩
    let moves : List ClientMove := [.begin c (.upsert "s1" r), .begin c (.upsert "s1" r),
      .readCaches 0 fun _ => none, .readCaches 1 fun _ => none, .perform 0, .perform 1,
      .readClock 0 ⟨5000⟩, .readClock 1 ⟨6000⟩, .perform 0, .perform 1]
    (((initial 4).run moves).calls.map Call.failure?) = [none, some (.alreadyExists "s1")] := by
  decide +kernel

end Clients

end GatewayStore
