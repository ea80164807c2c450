import GatewayStore.Proofs.Clients.Replacement

/-
  Updates while others write the key. Between the reading of an attempt and its put, if that is
  refused, the record of the key has changed, and not by the call itself: it has written nothing so
  far (`disturbed_of_ne`). So an attempt that fails costs the others a change of the key, and a call
  that gives up has met with three of them, one after another (`thwarted_of_refused`). All in all an
  update of a valid document returns, or fails as its key was absent when it was read, or gives up in
  that way (`update_contended`).
-/

namespace GatewayStore

namespace Clients

/-- By this move another one changes the key while the call is under way. -/
structure Disturbs (retention : Nat) (moves : List ClientMove) (i : Nat) (key : String) (n : Nat) :
    Prop where
  underWay : ∃ c, ((initial retention).run (moves.take n)).calls[i]? = some c ∧
    c.rest.isOver = false
  other : ∃ m, moves[n]? = some m ∧ m.caller? ≠ some i
  changed : ((initial retention).run (moves.take (n + 1))).store.index.get? key ≠
    ((initial retention).run (moves.take n)).store.index.get? key

/-- An attempt of the call, from its reading to its put, within which the key was changed by
another one. -/
structure Thwarted (retention : Nat) (moves : List ClientMove) (i : Nat) (key : String)
    (reading put : Nat) : Prop where
  reads : moves[reading]? = some (.perform i) ∧
    ((initial retention).run (moves.take reading)).request? i = some (.get key)
  puts : moves[put]? = some (.perform i) ∧ ∃ value revision,
    ((initial retention).run (moves.take put)).request? i =
      some (.put key value (some (.unchanged revision)))
  disturbed : ∃ n, reading < n ∧ n < put ∧ Disturbs retention moves i key n

/-- Three attempts of the call were thwarted, one after another. -/
def ThwartedThrice (retention : Nat) (moves : List ClientMove) (i : Nat) (key : String) : Prop :=
  ∃ attempts : List (Nat × Nat), attempts.length = 3 ∧
    attempts.Pairwise (fun first second => first.2 < second.1) ∧
    ∀ p ∈ attempts, Thwarted retention moves i key p.1 p.2

/-! ## Calls that are over -/

theorem call_over {s : Clients} {i : Nat} {c : Call} (hc : s.calls[i]? = some c)
    (hover : c.rest.isOver = true) (m : ClientMove) : (s.move m).calls[i]? = some c := by
  have hstays (o : Observation) : c.observe o = c := by
    unfold Call.observe
    cases hrest : c.rest with
    | done result | failed cause => cases o <;> rfl
    | _ => rw [hrest] at hover; cases hover
  obtain ⟨c', hc', -⟩ := call_grows hc m
  rcases call_move hc' with ⟨collection, command, rfl, -⟩ | hsame | ⟨old, o, hold, -, rfl⟩
  · have hlt : i < s.calls.length := (List.getElem?_eq_some_iff.1 hc).1
    rwa [move, callsAfter, List.getElem?_append_left hlt]
  · rw [hc] at hsame
    cases hsame
    exact hc'
  · rw [hc] at hold
    cases hold
    rwa [hstays] at hc'

/-- A call that is under way at a moment was so at every earlier one since it began. -/
theorem underWay_earlier {s : Clients} {moves : List ClientMove} {i n n' : Nat} {c c' : Call}
    (hle : n ≤ n') (hc : (s.run (moves.take n)).calls[i]? = some c)
    (hc' : (s.run (moves.take n')).calls[i]? = some c') (hunder : c'.rest.isOver = false) :
    c.rest.isOver = false := by
  cases hover : c.rest.isOver with
  | false => rfl
  | true =>
    have hsame : (s.run (moves.take n')).calls[i]? = some c := by
      clear hc' hunder
      induction hle with
      | refl => exact hc
      | @step n' _ ih =>
        rcases run_take_succ_cases s moves n' with hkept | ⟨m, -, hnext⟩
        · rwa [hkept]
        · rw [hnext]
          exact call_over ih hover m
    rw [hsame] at hc'
    cases hc'
    rw [hover] at hunder
    cases hunder

/-! ## Attempts -/

section

variable {retention : Nat} {moves : List ClientMove} {i : Nat} {c : Call} {key : String}

/-- A key that has changed by the time of a call's put was changed by another one. -/
theorem disturbed_of_ne (hkept : ∀ cause, .lose i cause ∉ moves) {a b : Nat} {c' : Call}
    (hle : a ≤ b) (hc : ((initial retention).run (moves.take a)).calls[i]? = some c)
    (hc' : ((initial retention).run (moves.take b)).calls[i]? = some c')
    (hunder : c'.rest.isOver = false)
    (hne : ((initial retention).run (moves.take b)).store.index.get? key ≠
      ((initial retention).run (moves.take a)).store.index.get? key) :
    ∃ n, a ≤ n ∧ n < b ∧ Disturbs retention moves i key n := by
  obtain ⟨n, han, hnb, hchanged⟩ : ∃ n, a ≤ n ∧ n < b ∧
      ((initial retention).run (moves.take (n + 1))).store.index.get? key ≠
        ((initial retention).run (moves.take n)).store.index.get? key := by
    by_contra hnone
    push Not at hnone
    refine hne ?_
    clear hne hc' hunder
    induction hle with
    | refl => rfl
    | @step b hab ih =>
      rw [hnone b hab (Nat.lt_succ_self b)]
      exact ih fun n hn hlt => hnone n hn (Nat.lt_succ_of_lt hlt)
  refine ⟨n, han, hnb, ?_, ?_, hchanged⟩
  · obtain ⟨cn, hcn, -⟩ := call_grows_run han hc
    exact ⟨cn, hcn, underWay_earlier (Nat.le_of_lt hnb) hcn hc' hunder⟩
  · rcases run_take_succ_cases (initial retention) moves n with hsame | ⟨m, hm, -⟩
    · rw [hsame] at hchanged
      exact absurd rfl hchanged
    refine ⟨m, hm, fun hcaller => ?_⟩
    -- the call itself has not written anything yet
    have hown : ChangedBy retention moves i n := by
      refine ⟨⟨m, hm, hcaller⟩, fun hsame => hchanged ?_⟩
      rw [hsame]
    obtain ⟨-, written, change, -, hlater⟩ := hown.remembered hkept
    obtain ⟨c'', o, hc'', ho, hchange⟩ := hlater b hnb
    rw [hc'] at hc''
    cases hc''
    have hcompletes := completes_calls retention _ c' (List.mem_of_getElem? hc')
    rw [quiet_of_settles hcompletes hunder o ho] at hchange
    cases hchange

/-- A put that a call remembers to be refused was refused by the store. -/
theorem refused_earlier (hreliable : ∀ cause, .lose i cause ∉ moves ∧ .fail i cause ∉ moves)
    {n : Nat} (honline : ∀ n, ((initial retention).run (moves.take n)).store.isOffline = false)
    (hc : ((initial retention).run (moves.take n)).calls[i]? = some c) {value : Bytes}
    {condition : Condition} {cause : Failure} {before after : List Observation}
    (hpast : c.past =
      before ++ .answered (.put key value (some condition)) (.error cause) :: after) :
    ∃ b c', b < n ∧ moves[b]? = some (.perform i) ∧
      ((initial retention).run (moves.take b)).request? i = some (.put key value (some condition)) ∧
      condition.holds (((initial retention).run (moves.take b)).store.index.get? key) = false ∧
      cause = .preconditionFailed key ∧
      ((initial retention).run (moves.take b)).calls[i]? = some c' ∧ c'.past = before := by
  obtain ⟨b, m, c', hbn, hm, hseen, hc', hbefore⟩ := seen_earlier hc hpast
  rcases failed_of_seen hseen with ⟨rfl, hperform⟩ | rfl | rfl
  · obtain ⟨hholds, hcause⟩ :=
      Store.put_eq_error (honline b) (Store.perform_put_eq_error.1 hperform)
    obtain ⟨r, hr, heq⟩ := Option.map_eq_some_iff.1 hseen
    obtain ⟨hrequest, -⟩ := Observation.answered.inj (Prod.mk.inj heq).2
    subst hrequest
    exact ⟨b, c', hbn, hm, hr, hholds, hcause, hc', hbefore⟩
  · exact absurd (List.mem_of_getElem? hm) (hreliable cause).1
  · exact absurd (List.mem_of_getElem? hm) (hreliable cause).2

/-- A round that was refused is an attempt that another one has thwarted. -/
theorem thwarted_of_round (hreliable : ∀ cause, .lose i cause ∉ moves ∧ .fail i cause ∉ moves)
    (honline : ∀ n, ((initial retention).run (moves.take n)).store.isOffline = false) {n : Nat}
    (hc : ((initial retention).run (moves.take n)).calls[i]? = some c) {collection : Collection}
    {found : StoredKey} {now : WallTime} {document : Resource} {cause : Failure}
    {before : List Observation}
    (hpast : c.past = before ++ collection.round key found now document (.error cause)) :
    ∃ a b c', b < n ∧ a < b ∧ Thwarted retention moves i (collection.storageKey key) a b ∧
      ((initial retention).run (moves.take a)).calls[i]? = some c' ∧ c'.past = before := by
  rw [Collection.round, List.append_cons, List.append_cons] at hpast
  obtain ⟨b, cput, hbn, hb, hput, hholds, -, hcput, hbefore⟩ :=
    refused_earlier hreliable honline hc hpast
  rw [List.append_assoc] at hbefore
  obtain ⟨a, cread, hab, ha, hget, hfound, hcread, hstart⟩ := read_earlier hcput hbefore
  obtain ⟨old, hold, rfl⟩ := Option.map_eq_some_iff.1 hfound.symm
  have hne : ((initial retention).run (moves.take b)).store.index.get? (collection.storageKey key) ≠
      ((initial retention).run (moves.take a)).store.index.get? (collection.storageKey key) := by
    intro hsame
    rw [hsame] at hholds
    cases (Condition.holds_unchanged.2 ⟨old, hold, rfl⟩).symm.trans hholds
  have hunder : cput.rest.isOver = false := by
    obtain ⟨c', next, hc', hrest⟩ := request?_eq_some hput
    rw [hcput] at hc'
    cases hc'
    rw [hrest]
    rfl
  obtain ⟨k, hak, hkb, hdisturbs⟩ := disturbed_of_ne (fun cause => (hreliable cause).1)
    (Nat.le_of_lt hab) hcread hcput hunder hne
  have hother : a ≠ k := by
    rintro rfl
    obtain ⟨m, hm, hcaller⟩ := hdisturbs.other
    rw [ha] at hm
    cases hm
    exact hcaller rfl
  exact ⟨a, b, cread, hbn, hab, ⟨⟨ha, hget⟩, ⟨hb, _, _, hput⟩, k, by omega, hkb, hdisturbs⟩, hcread,
    hstart⟩

/-- All rounds that were refused were thwarted, one after another. -/
theorem thwarted_of_refused (hreliable : ∀ cause, .lose i cause ∉ moves ∧ .fail i cause ∉ moves)
    (honline : ∀ n, ((initial retention).run (moves.take n)).store.isOffline = false)
    {collection : Collection} {r : Resource} {start past : List Observation} {rounds : Nat}
    (h : collection.Refused key r start rounds past) {n : Nat}
    (hc : ((initial retention).run (moves.take n)).calls[i]? = some c) (hpast : c.past = past) :
    ∃ attempts : List (Nat × Nat), attempts.length = rounds ∧
      attempts.Pairwise (fun first second => first.2 < second.1) ∧
      ∀ p ∈ attempts, p.2 < n ∧
        Thwarted retention moves i (collection.storageKey key) p.1 p.2 := by
  induction h generalizing n c with
  | start => exact ⟨[], rfl, .nil, nofun⟩
  | again _ found now previous name hdecode ih =>
    obtain ⟨a, b, c', hbn, hab, hthwarted, hc', hbefore⟩ :=
      thwarted_of_round hreliable honline hc hpast
    obtain ⟨attempts, hlength, hpairwise, hall⟩ := ih hc' hbefore
    refine ⟨attempts ++ [(a, b)], by simp [hlength], ?_, fun p hp => ?_⟩
    · refine List.pairwise_append.2 ⟨hpairwise, List.pairwise_singleton _ _, fun p hp q hq => ?_⟩
      rw [List.mem_singleton.1 hq]
      exact (hall p hp).1
    · rcases List.mem_append.1 hp with hp | hp
      · obtain ⟨hlt, hthwarted'⟩ := hall p hp
        exact ⟨by omega, hthwarted'⟩
      · rw [List.mem_singleton.1 hp]
        exact ⟨hbn, hthwarted⟩

/-- Three attempts were thwarted by three moves. -/
theorem ThwartedThrice.disturbances (h : ThwartedThrice retention moves i key) :
    ∃ n₁ n₂ n₃, n₁ < n₂ ∧ n₂ < n₃ ∧ ∀ n ∈ [n₁, n₂, n₃], Disturbs retention moves i key n := by
  obtain ⟨attempts, hlength, hpairwise, hall⟩ := h
  obtain ⟨p, q, t, rfl⟩ := List.length_eq_three.1 hlength
  simp only [List.pairwise_cons, List.mem_cons, List.not_mem_nil, or_false, forall_eq_or_imp,
    forall_eq] at hpairwise hall
  obtain ⟨⟨hpq, -⟩, hqt, -⟩ := hpairwise
  obtain ⟨hp, hq, ht⟩ := hall
  obtain ⟨n₁, -, hn₁, hd₁⟩ := hp.disturbed
  obtain ⟨n₂, hn₂, hn₂', hd₂⟩ := hq.disturbed
  obtain ⟨n₃, hn₃, -, hd₃⟩ := ht.disturbed
  exact ⟨n₁, n₂, n₃, by omega, by omega, by simp [hd₁, hd₂, hd₃]⟩

/-- A store that stays available and keeps decodable documents leaves an update two ways to fail. -/
theorem cause_of_replaces (hc : ((initial retention).run moves).calls[i]? = some c)
    (hreliable : ∀ cause, .lose i cause ∉ moves ∧ .fail i cause ∉ moves)
    (honline : ∀ n, ((initial retention).run (moves.take n)).store.isOffline = false)
    (hdecodes : ∀ n record, ((initial retention).run (moves.take n)).store.index.get?
      (c.collection.storageKey key) = some record → ∃ d, Resource.decode key record.value = .ok d)
    {r : Resource} {start : List Observation} {cause : Failure}
    (h : c.collection.Replaces key r false start Collection.updateAttempts c.past (.error cause)) :
    (cause = .notFound key ∧ ∃ n, moves[n]? = some (.perform i) ∧
      ((initial retention).run (moves.take n)).request? i =
        some (.get (c.collection.storageKey key)) ∧
      ((initial retention).run (moves.take n)).store.index.get? (c.collection.storageKey key) =
        none) ∨
    (cause = .storeUnavailable (.keptChanging c.collection.kind.name key) ∧
      ThwartedThrice retention moves i (c.collection.storageKey key)) := by
  rw [← List.take_length (l := moves)] at hc
  generalize hpast : c.past = past at h
  generalize hresult : (Except.error cause : Except Failure Resource) = result at h
  cases h with
  | @updated n before h hn found now previous hdecode answer hanswer =>
    cases answer with
    | ok revision => cases hresult
    | error cause' =>
      rw [Collection.round, List.append_cons, List.append_cons] at hpast
      obtain ⟨-, -, -, -, -, -, rfl, -⟩ := refused_earlier hreliable honline hc hpast
      exact absurd rfl (hanswer _)
  | created h hn hcreates now answer => cases hcreates
  | missing h hn hcreates =>
    cases hresult
    obtain ⟨n, -, -, hm, hget, hfound, -⟩ := read_earlier hc hpast
    exact .inl ⟨rfl, n, hm, hget, Option.map_eq_none_iff.1 hfound.symm⟩
  | undecodable h hn found fault hdecode =>
    obtain ⟨n, -, -, -, -, hfound, -⟩ := read_earlier hc hpast
    obtain ⟨record, hrecord, rfl⟩ := Option.map_eq_some_iff.1 hfound.symm
    obtain ⟨d, hd⟩ := hdecodes n record hrecord
    cases hd.symm.trans hdecode
  | unread h hn cause' =>
    rw [List.take_length] at hc
    obtain ⟨n, -, -, hperform, -⟩ := error_of_past hc hreliable hpast
    cases (Store.perform_get_eq_ok.2 ⟨honline n, rfl, rfl⟩).symm.trans hperform
  | contended h =>
    cases hresult
    obtain ⟨attempts, hlength, hpairwise, hall⟩ :=
      thwarted_of_refused hreliable honline h hc hpast
    exact .inr ⟨rfl, attempts, hlength, hpairwise, fun p hp => (hall p hp).2⟩

end

/-! ## The main result -/

/-- Updates under contention. Let a call update a key with a document that is valid for the caches
that it sees, in a store that stays available and keeps only decodable documents under the key. The
call ends after ten steps of its own at most. If it returns, its document carries the creation time of
the very document that its put has replaced. If it fails, then as the key was absent when it was read,
or as each of three attempts was thwarted by another one, in which case there are three moves by which
others changed the key meanwhile. -/
theorem update_contended (retention : Nat) (moves : List ClientMove) (i : Nat) (c : Call)
    (key : String) (r bound : Resource) :
    let after (n : Nat) := (initial retention).run (moves.take n)
    let stored := c.collection.storageKey key
    let held (n : Nat) := (after n).store.index.get? stored
    ((initial retention).run moves).calls[i]? = some c → c.command = .update key r →
    c.collection.kind.isWritable = true → r.bindKey c.collection.kind key = .ok bound →
    (∀ caches, .readCaches i caches ∈ moves →
      ∃ k, bound.checkedKey c.collection.kind caches = .ok k) →
    (∀ cause, .lose i cause ∉ moves ∧ .fail i cause ∉ moves) →
    (∀ n, (after n).store.isOffline = false) →
    (∀ n record, held n = some record → ∃ d, Resource.decode key record.value = .ok d) →
    c.past.length ≤ 10 ∧
    (c.rest.isOver = false → c.past.length < 10 ∧ ∃ m c',
      (((initial retention).run moves).move m).calls[i]? = some c' ∧
        c'.past.length = c.past.length + 1) ∧
    (∀ result, c.returned? = some result → ∃ document n old previous new,
      result = some document ∧ document.id = bound.id ∧ document.payload = bound.payload ∧
      moves[n]? = some (.perform i) ∧ held n = some old ∧
      Resource.decode key old.value = .ok previous ∧ document.createTime = previous.createTime ∧
      held (n + 1) = some new ∧ new.value = document.encode) ∧
    (∀ cause, c.failure? = some cause →
      (cause = .notFound key ∧ ∃ n, moves[n]? = some (.perform i) ∧
        (after n).request? i = some (.get stored) ∧ held n = none) ∨
      (cause = .storeUnavailable (.keptChanging c.collection.kind.name key) ∧
        ThwartedThrice retention moves i stored)) ∧
    ((¬ ∃ n₁ n₂ n₃, n₁ < n₂ ∧ n₂ < n₃ ∧
        ∀ n ∈ [n₁, n₂, n₃], Disturbs retention moves i stored n) →
      ∀ cause, c.failure? = some cause → cause = .notFound key) := by
  intro after stored held hc hcommand hwritable hbind hvalid hreliable honline hdecodes
  have hreplacement : c.command.replacement? = some (key, r, false) := by
    rw [hcommand]
    rfl
  have hclosed : c.rest.Ends (fun past _ => past.length ≤ 10) c.past := by
    refine (follows_calls retention moves c (List.mem_of_getElem? hc)).imp fun past result h => ?_
    obtain ⟨result', -, hstores⟩ := h key r false hreplacement
    exact hstores.finishes.1
  obtain ⟨hle, hlt⟩ := hclosed.length_le
  have hfailures {cause : Failure} (hfailed : c.failure? = some cause) :
      ∃ caches, c.collection.Replaces key bound false [.cached caches] Collection.updateAttempts
        c.past (.error cause) := by
    have hfollows := follows_calls retention moves c (List.mem_of_getElem? hc)
    rw [Call.rest_of_failure? hfailed] at hfollows
    obtain ⟨result', hresult, hstores⟩ := hfollows key r false hreplacement
    rcases hstores with ⟨cause', -, -, hrefuses⟩ | ⟨bound', caches, hbind', hreplaces⟩
    · exact absurd hrefuses (not_refuses hc hwritable hbind hvalid cause')
    · rw [hbind] at hbind'
      cases hbind'
      cases result' <;> cases hresult
      exact ⟨caches, hreplaces⟩
  refine ⟨hle, fun hover => ⟨hlt hover, goes_on hc hover⟩, fun result hreturned => ?_,
    fun cause hfailed => ?_, fun hfew cause hfailed => ?_⟩
  · obtain ⟨bound', document, n, hbind', rfl, hm, hreplaced, hstore⟩ :=
      replaced_of_returned hc hreplacement hreturned
    have hnew := (after n).store.get?_recorded_put stored document.encode
    rw [← hstore] at hnew
    rw [hbind] at hbind'
    cases hbind'
    cases hreplaced with
    | created hcreates => cases hcreates
    | updated old previous now hold hdecode hdocument =>
      subst hdocument
      exact ⟨_, n, old, previous, _, rfl, rfl, rfl, hm, hold, hdecode, rfl, hnew, rfl⟩
  · obtain ⟨caches, hreplaces⟩ := hfailures hfailed
    exact cause_of_replaces hc hreliable honline hdecodes hreplaces
  · obtain ⟨caches, hreplaces⟩ := hfailures hfailed
    rcases cause_of_replaces hc hreliable honline hdecodes hreplaces with ⟨hcause, -⟩ | ⟨-, hthwarted⟩
    · exact hcause
    · exact absurd hthwarted.disturbances hfew

/-- A client stores a service, and another one reads it to replace it. Before the replacement is put,
the service is deleted and stored again, as created at another time. -/
def inheritingUpdate : List ClientMove :=
  let c : Collection := ⟨.service, ⟨"/apisix", 1000⟩⟩
  let r : Resource := ⟨"", 0, 0, .empty⟩
  [.begin c (.upsert "s1" r), .readCaches 0 fun _ => none, .perform 0, .readClock 0 ⟨5000⟩,
    .perform 0, .begin c (.update "s1" r), .readCaches 1 fun _ => none, .perform 1,
    .operate (.delete "/apisix/services/s1"),
    .operate (.put "/apisix/services/s1" (Resource.encode ⟨"s1", 9, 9, .empty⟩) none),
    .readClock 1 ⟨6000⟩, .perform 1, .perform 1, .readClock 1 ⟨7000⟩, .perform 1]

theorem update_contended_inheriting :
    ∃ c, ((initial 4).run inheritingUpdate).calls[1]? = some c ∧
      ∃ document n old previous, c.returned? = some (some document) ∧
        ((initial 4).run (inheritingUpdate.take n)).store.index.get? "/apisix/services/s1" =
          some old ∧ Resource.decode "s1" old.value = .ok previous ∧
        document.createTime = previous.createTime ∧ document.createTime = 9 := by
  have hcall : (((initial 4).run inheritingUpdate).calls[1]?).map
      (fun c => (c.collection, c.command)) =
        some (⟨.service, ⟨"/apisix", 1000⟩⟩, .update "s1" ⟨"", 0, 0, .empty⟩) := rfl
  have hover : (((initial 4).run inheritingUpdate).calls[1]?).map
      (fun c => (c.returned?).map fun result => result.map Resource.createTime) =
        some (some (some 9)) := by decide +kernel
  obtain ⟨c, hc, hgiven⟩ := Option.map_eq_some_iff.1 hcall
  obtain ⟨hcollection, hcommand⟩ := Prod.mk.inj hgiven
  rw [hc, Option.map_some, Option.some.injEq] at hover
  obtain ⟨result, hresult, hcreated⟩ := Option.map_eq_some_iff.1 hover
  -- all moments up to the last one
  have hmoments (n : Nat) : ∃ k < 16, inheritingUpdate.take n = inheritingUpdate.take k := by
    rcases Nat.lt_or_ge n 16 with hlt | hge
    · exact ⟨n, hlt, rfl⟩
    · exact ⟨15, by decide, List.take_of_length_le (Nat.le_of_lt hge)⟩
  have honline (n : Nat) : ((initial 4).run (inheritingUpdate.take n)).store.isOffline = false := by
    have hall : ∀ n < 16,
        ((initial 4).run (inheritingUpdate.take n)).store.isOffline = false := by decide +kernel
    obtain ⟨k, hk, heq⟩ := hmoments n
    rw [heq]
    exact hall k hk
  have hdecodes (n : Nat) (record : Record) (hrecord : ((initial 4).run
      (inheritingUpdate.take n)).store.index.get? "/apisix/services/s1" = some record) :
      ∃ d, Resource.decode "s1" record.value = .ok d := by
    have hall : ∀ n < 16, (((initial 4).run (inheritingUpdate.take n)).store.index.get?
        "/apisix/services/s1").all
          (fun record => (Resource.decode "s1" record.value).toBool) = true := by decide +kernel
    obtain ⟨k, hk, heq⟩ := hmoments n
    have hdecoded := hall k hk
    rw [← heq, hrecord, Option.all_some] at hdecoded
    cases hd : Resource.decode "s1" record.value with
    | ok d => exact ⟨d, rfl⟩
    | error cause =>
      rw [hd] at hdecoded
      cases hdecoded
  have hspec := update_contended 4 inheritingUpdate 1 c "s1" ⟨"", 0, 0, .empty⟩ ⟨"s1", 0, 0, .empty⟩
  rw [hcollection] at hspec
  obtain ⟨-, -, hreturns, -⟩ := hspec hc hcommand rfl rfl (fun _ _ => ⟨"s1", rfl⟩)
    (by simp [inheritingUpdate]) honline hdecodes
  obtain ⟨document, n, old, previous, new, rfl, -, -, -, hold, hdecode, hsame, -⟩ :=
    hreturns result hresult
  exact ⟨c, hc, document, n, old, previous, hresult, hold, hdecode, hsame, Option.some.inj hcreated⟩

end Clients

end GatewayStore
