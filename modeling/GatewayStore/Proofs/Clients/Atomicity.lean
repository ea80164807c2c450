import GatewayStore.Proofs.Clients.Contention
import GatewayStore.Proofs.Clients.Creation
import GatewayStore.Proofs.Resource.Stored
import GatewayStore.Simulation.World

/-
  Writes are all or nothing. A call that writes does so once, as the last thing before it returns, and
  a call that fails has written nothing. Of a program this is a statement on how it ends (`Settles`),
  proved along its text while nothing is written (`Quiet`), and for a replacement from its rounds. Of a
  run it follows that the changes which are made by the steps of a call are the ones that it has
  observed (`change_of_move`, `change_of_past`).
-/

namespace GatewayStore

/-- A document as it is stored: it carries its key, has an id, and the payload that it was to have. -/
structure Resource.IsFiled (document : Resource) (kind : Kind) (key : String)
    (payload : KeyMap Json) : Prop where
  key_eq : document.key? kind = some key
  id_ne : document.id ≠ ""
  payload_eq : document.payload = payload

/-- What a command that returned has written, and under which key. -/
def Command.Writes (kind : Kind) : Command → Option Resource → String → Change → Prop
  | .create r, some document, key, change =>
    document.IsFiled kind key r.payload ∧ change = .put document.encode
  | .update given r, some document, key, change | .upsert given r, some document, key, change =>
    key = given ∧ (∃ bound, r.bindKey kind given = .ok bound ∧
      document.IsFiled kind given bound.payload) ∧ change = .put document.encode
  | .delete given, none, key, change => key = given ∧ change = .delete
  | _, _, _, _ => False

/-- A check of a creation as a program of its own. -/
def Collection.check (c : Collection) (r : Resource) : Program String := do
  Program.ofExcept (c.createCheck (← Program.caches) r)

/-! ## Observations -/

/-- The change that an observation shows to be made. -/
def Observation.change? : Observation → Option (String × Change)
  | .answered (.put key value _) (.ok _) => some (key, .put value)
  | .answered (.delete key) (.ok _) => some (key, .delete)
  | _ => none

/-- Nothing has been changed so far. -/
def Quiet (past : List Observation) : Prop := ∀ o ∈ past, o.change? = none

/-- One change has been made, and nothing came after it. -/
def Committed (past : List Observation) (key : String) (change : Change) : Prop :=
  ∃ before o, past = before ++ [o] ∧ Quiet before ∧ o.change? = some (key, change)

theorem quiet_nil : Quiet [] := fun _ h => by cases h

theorem Quiet.append {past later : List Observation} (h : Quiet past) (hlater : Quiet later) :
    Quiet (past ++ later) :=
  fun o ho => (List.mem_append.1 ho).elim (h o) (hlater o)

theorem Quiet.concat {past : List Observation} (h : Quiet past) {o : Observation}
    (ho : o.change? = none) : Quiet (past ++ [o]) :=
  h.append fun o' ho' => by rwa [List.mem_singleton.1 ho']

/-- Whether a failure is that of a put whose condition does not hold. -/
def Failure.isRefusal : Failure → Bool
  | .preconditionFailed _ => true
  | _ => false

/-- A failure of the put's condition would have to come from another call. -/
def Told (past : List Observation) (cause : Failure) : Prop :=
  cause.isRefusal = true → ∃ request : Request, request.isConditional = false ∧
    .answered request (.error cause) ∈ past

theorem told_of_isRefusal {past : List Observation} {cause : Failure}
    (h : cause.isRefusal = false) : Told past cause := by
  intro htrue
  rw [h] at htrue
  cases htrue

/-- How a program ends that writes once at most, and then at once returns. -/
inductive Settles {α : Type} (own : α → String → Change → Prop) (past : List Observation) :
    Except Failure α → Prop
  | returned (result : α) (key : String) (change : Change) (hown : own result key change)
    (h : Committed past key change) : Settles own past (.ok result)
  | failed (cause : Failure) (hquiet : Quiet past) (htold : Told past cause) :
    Settles own past (.error cause)

theorem Settles.imp {α : Type} {own own' : α → String → Change → Prop} {past : List Observation}
    {result : Except Failure α} (h : Settles own past result)
    (himp : ∀ a key change, own a key change → own' a key change) : Settles own' past result := by
  cases h with
  | returned a key change hown hcommitted =>
    exact .returned a key change (himp a key change hown) hcommitted
  | failed cause hquiet htold => exact .failed cause hquiet htold

/-- While a program goes on that settles, nothing has been changed. -/
theorem quiet_of_settles {α : Type} {own : α → String → Change → Prop} {past : List Observation}
    {p : Program α} (h : p.Ends (Settles own) past) (hover : p.isOver = false) : Quiet past := by
  obtain ⟨later, result, hsettles, hlater⟩ := h.exists_outcome
  cases hsettles with
  | returned result key change hown hcommitted =>
    obtain ⟨before, o, heq, hquiet, -⟩ := hcommitted
    obtain ⟨most, last, rfl⟩ := (List.eq_nil_or_concat later).resolve_left (hlater hover)
    rw [List.concat_eq_append, ← List.append_assoc] at heq
    obtain ⟨rfl, -⟩ := List.append_inj' heq rfl
    exact fun o ho => hquiet o (List.mem_append_left _ ho)
  | failed cause hquiet htold => exact fun o ho => hquiet o (List.mem_append_left _ ho)

/-! ## Failures without a put -/

theorem isRefusal_of_mapError {ε α : Type} {e : Except ε α} {f : ε → Failure} {cause : Failure}
    (hf : ∀ x, (f x).isRefusal = false) (h : e.mapError f = .error cause) :
    cause.isRefusal = false := by
  cases e with
  | ok a => cases h
  | error x =>
    cases h
    exact hf x

theorem isRefusal_of_checkWritable {kind : Kind} {cause : Failure}
    (h : kind.checkWritable = .error cause) : cause.isRefusal = false := by
  unfold Kind.checkWritable at h
  split at h <;> cases h
  rfl

theorem isRefusal_of_bindKey {r : Resource} {kind : Kind} {key : String} {cause : Failure}
    (h : r.bindKey kind key = .error cause) : cause.isRefusal = false := by
  unfold Resource.bindKey at h
  dsimp only at h
  repeat' split at h
  all_goals cases h
  all_goals rfl

theorem isRefusal_of_checkedKey {r : Resource} {kind : Kind} {caches : Caches} {cause : Failure}
    (h : r.checkedKey kind caches = .error cause) : cause.isRefusal = false :=
  isRefusal_of_mapError (fun _ => rfl) h

/-- Unless the kind is read-only or the resource is invalid, the key is in the cache. -/
theorem isRefusal_of_createCheck {c : Collection} {caches : Caches} {r : Resource}
    {cause : Failure} (h : c.createCheck caches r = .error cause) : cause.isRefusal = false := by
  unfold Collection.createCheck at h
  cases hw : c.kind.checkWritable with
  | error cause' =>
    rw [hw] at h
    cases h
    exact isRefusal_of_checkWritable hw
  | ok _ =>
    cases hk : r.checkedKey c.kind caches with
    | error cause' =>
      rw [hw, hk] at h
      cases h
      exact isRefusal_of_checkedKey hk
    | ok key =>
      rw [hw, hk] at h
      simp only [bind, Except.bind] at h
      split at h <;> cases h
      rfl

/-- A put that demands an absent key tells of the resource's key what the store tells of its own. -/
theorem isRefusal_writeFailure_absent (key : String) (cause : Failure) :
    (Collection.writeFailure key .absent cause).isRefusal = false := by
  cases cause <;> rfl

namespace Collection

variable {c : Collection} {past : List Observation}

/-! ## Programs -/

/-- A check that fails without a call ends everything while nothing is written. -/
theorem settles_guard {α β : Type} {own : α → String → Change → Prop} (hquiet : Quiet past)
    {check : Except Failure β} {f : β → Program α}
    (hcheck : ∀ cause, check = .error cause → cause.isRefusal = false)
    (hok : ∀ b, check = .ok b → (f b).Ends (Settles own) past) :
    (Program.ofExcept check >>= f).Ends (Settles own) past := by
  cases hresult : check with
  | ok b => exact hok b hresult
  | error cause => exact .failed cause hquiet (told_of_isRefusal (hcheck cause hresult))

/-- A put under the condition that the key is absent is the last thing a program does. -/
theorem settles_creation {own : Resource → String → Change → Prop} (hquiet : Quiet past)
    {key : String} {document : Resource}
    (hown : own document (c.storageKey key) (.put document.encode)) :
    (do
      let _ ← Program.ofExcept (← c.write key document .absent)
      return document : Program Resource).Ends (Settles own) past := by
  refine Program.ends_bind fun answer => Program.ends_bind (Program.ends_ofExcept ?_)
  cases answer with
  | ok revision => exact .returned document _ _ hown ⟨past, _, rfl, hquiet, rfl⟩
  | error cause =>
    exact .failed _ (hquiet.concat rfl)
      (told_of_isRefusal (isRefusal_writeFailure_absent key cause))

/-- Rounds that are refused write nothing. -/
theorem Refused.quiet {key : String} {r : Resource} {start : List Observation} {n : Nat}
    (h : c.Refused key r start n past) (hquiet : Quiet start) : Quiet past := by
  induction h with
  | start => exact hquiet
  | again _ found now previous name hdecode ih =>
    refine ih.append fun o ho => ?_
    simp only [round, List.mem_cons, List.not_mem_nil, or_false] at ho
    rcases ho with rfl | rfl | rfl <;> rfl

theorem Replaces.settles {key : String} {r : Resource} {creates : Bool}
    {start : List Observation} {attempts : Nat} {result : Except Failure Resource}
    (h : c.Replaces key r creates start attempts past result) (hquiet : Quiet start) :
    Settles (fun d stored change => stored = c.storageKey key ∧ d.id = r.id ∧
      d.payload = r.payload ∧ change = .put d.encode) past result := by
  have htimed {n : Nat} {past : List Observation} (h : c.Refused key r start n past)
      (found : Option StoredKey) (now : WallTime) :
      Quiet (past ++ [.answered (.get (c.storageKey key)) (.ok found)] ++ [.time now]) :=
    ((h.quiet hquiet).concat rfl).concat rfl
  cases h with
  | updated h hn found now previous hdecode answer hanswer =>
    rw [round, List.append_cons, List.append_cons]
    have hread := htimed h (some found) now
    cases answer with
    | ok revision => exact .returned _ _ _ ⟨rfl, rfl, rfl, rfl⟩ ⟨_, _, rfl, hread, rfl⟩
    | error cause =>
      refine .failed cause (hread.concat rfl) (told_of_isRefusal ?_)
      cases cause with
      | preconditionFailed name => exact absurd rfl (hanswer name)
      | _ => rfl
  | created h hn hcreates now answer =>
    rw [creation, List.append_cons, List.append_cons]
    have hread := htimed h none now
    cases answer with
    | ok revision => exact .returned _ _ _ ⟨rfl, rfl, rfl, rfl⟩ ⟨_, _, rfl, hread, rfl⟩
    | error cause =>
      exact .failed _ (hread.concat rfl)
        (told_of_isRefusal (isRefusal_writeFailure_absent key cause))
  | missing h | undecodable h =>
    exact .failed _ ((h.quiet hquiet).concat rfl) (told_of_isRefusal rfl)
  | unread h hn cause =>
    exact .failed cause ((h.quiet hquiet).concat rfl)
      fun _ => ⟨.get (c.storageKey key), rfl, by simp⟩
  | contended h => exact .failed _ (h.quiet hquiet) (told_of_isRefusal rfl)

theorem settles_replace (key : String) (r : Resource) (creates : Bool) {attempts : Nat}
    (hquiet : Quiet past) : (c.replace key r creates attempts).Ends
      (Settles fun d stored change => stored = c.storageKey key ∧ d.id = r.id ∧
        d.payload = r.payload ∧ change = .put d.encode) past :=
  (replaces_replace creates .start attempts (Nat.zero_add _)).imp fun _ _ h => h.settles hquiet

theorem settles_store (key : String) (r : Resource) (creates : Bool) :
    (c.store key r creates).Ends (Settles fun d stored change => stored = c.storageKey key ∧
      (∃ bound, r.bindKey c.kind key = .ok bound ∧ d.IsFiled c.kind key bound.payload) ∧
      change = .put d.encode) [] := by
  unfold store
  refine settles_guard quiet_nil (fun _ => isRefusal_of_checkWritable) fun _ _ => ?_
  refine settles_guard quiet_nil (fun _ => isRefusal_of_bindKey) fun bound hbind => ?_
  refine Program.ends_bind fun caches => ?_
  refine settles_guard (quiet_nil.concat rfl) (fun _ => isRefusal_of_checkedKey) fun found hfound => ?_
  -- the key that is checked is the one that is given
  have hkey := key?_of_validate (mapError_eq_ok.1 hfound)
  obtain rfl := Resource.key?_of_bindKey hbind hkey
  have hid := Resource.id_ne_of_bindKey (Resource.ne_of_key? hkey) hbind
  refine (settles_replace found bound creates (quiet_nil.concat rfl)).imp fun past result h => ?_
  refine h.imp ?_
  rintro d stored change ⟨hstored, hdid, hpayload, hchange⟩
  refine ⟨hstored, ⟨bound, hbind, ?_, ?_, hpayload⟩, hchange⟩
  · rw [Resource.key?_congr hdid hpayload, hkey]
  · rw [hdid]
    exact hid

theorem ends_withId {outcomes : List Observation → Except Failure Resource → Prop} {r : Resource}
    (hquiet : Quiet past)
    (h : ∀ past' d, Quiet past' → d.payload = r.payload → (d.id = "" → d.key? c.kind = none) →
      outcomes past' (.ok d)) : (c.withId r).Ends outcomes past := by
  rcases c.withId_cases r with ⟨d, heq, hpayload, hid⟩ | ⟨hkeyed, heq⟩
  · rw [heq]
    exact h past d hquiet hpayload hid
  · rw [heq]
    exact fun text => h _ _ (hquiet.concat rfl) rfl (Resource.key?_eq_none hkeyed)

theorem settles_create (r : Resource) : (c.create r).Ends (Settles fun d stored change =>
    ∃ key, stored = c.storageKey key ∧ d.IsFiled c.kind key r.payload ∧ change = .put d.encode)
      [] := by
  unfold create
  refine settles_guard quiet_nil (fun _ => isRefusal_of_checkWritable) fun _ _ => ?_
  refine Program.ends_bind (ends_withId quiet_nil fun past d hquiet hpayload hid => ?_)
  refine Program.ends_bind fun now => Program.ends_bind fun caches => ?_
  refine settles_guard ((hquiet.concat rfl).concat rfl) (fun _ => isRefusal_of_createCheck) ?_
  intro key hchecked
  have hkey : d.key? c.kind = some key := key?_of_createCheck hchecked
  have hid : d.id ≠ "" := by
    intro hempty
    rw [hid hempty] at hkey
    cases hkey
  exact settles_creation ((hquiet.concat rfl).concat rfl) ⟨key, rfl, ⟨hkey, hid, hpayload⟩, rfl⟩

theorem settles_delete (key : String) : (c.delete key).Ends
    (Settles fun _ stored change => stored = c.storageKey key ∧ change = .delete) [] := by
  unfold delete
  refine settles_guard quiet_nil (fun _ => isRefusal_of_checkWritable) fun _ _ => ?_
  refine settles_guard quiet_nil (fun _ => isRefusal_of_mapError fun _ => rfl) fun _ _ => ?_
  refine Program.ends_bind fun answer => Program.ends_bind (Program.ends_ofExcept ?_)
  cases answer with
  | ok revision => exact .returned _ _ _ ⟨rfl, rfl⟩ ⟨[], _, rfl, quiet_nil, rfl⟩
  | error cause =>
    refine .failed _ (quiet_nil.concat rfl) fun hrefusal => ⟨.delete (c.storageKey key), rfl, ?_⟩
    cases cause with
    | notFound name => cases hrefusal
    | _ => exact List.mem_singleton.2 rfl

/-- How a command ends: it has made the change of its own key, or none. -/
def Completes (c : Collection) (command : Command) :
    List Observation → Except Failure (Option Resource) → Prop :=
  Settles fun result stored change =>
    ∃ key, command.Writes c.kind result key change ∧ stored = c.storageKey key

theorem completes_program (c : Collection) (command : Command) :
    (command.program c).Ends (c.Completes command) [] := by
  have hbind {α : Type} {own : α → String → Change → Prop} {f : α → Option Resource}
      {p : Program α} (h : p.Ends (Settles own) [])
      (hown : ∀ a stored change, own a stored change →
        ∃ key, command.Writes c.kind (f a) key change ∧ stored = c.storageKey key) :
      (do return f (← p) : Program (Option Resource)).Ends (c.Completes command) [] := by
    refine Program.ends_bind (h.imp fun past result hsettles => ?_)
    cases hsettles with
    | returned a stored change ha hcommitted =>
      exact .returned (f a) stored change (hown a stored change ha) hcommitted
    | failed cause hquiet htold => exact .failed cause hquiet htold
  cases command with
  | create r =>
    refine hbind (settles_create r) ?_
    rintro d stored change ⟨key, hstored, hfiled, hchange⟩
    exact ⟨key, ⟨hfiled, hchange⟩, hstored⟩
  | update key r | upsert key r =>
    refine hbind (settles_store key r _) ?_
    rintro d stored change ⟨hstored, hfiled, hchange⟩
    exact ⟨key, ⟨rfl, hfiled, hchange⟩, hstored⟩
  | delete key =>
    refine hbind (f := fun _ => none) (settles_delete key) ?_
    rintro _ stored change ⟨hstored, hchange⟩
    exact ⟨key, ⟨rfl, hchange⟩, hstored⟩

/-- A command reads, puts and deletes, and does nothing else at the store. -/
theorem Issues.cases {command : Command} {past : List Observation} {request : Request}
    (h : c.Issues command past request) : (∃ key, request = .get key) ∨
      (∃ key value condition, request = .put key value condition) ∨ ∃ key, request = .delete key := by
  cases command with
  | create r =>
    obtain ⟨r', now, key, -, -, -, rfl⟩ := h
    exact .inr (.inl ⟨_, _, _, rfl⟩)
  | update key r | upsert key r =>
    obtain ⟨r', -, hreplacing⟩ := h
    cases hreplacing with
    | read => exact .inl ⟨_, rfl⟩
    | created now htime => exact .inr (.inl ⟨_, _, _, rfl⟩)
    | updated now found previous htime hread hdecode => exact .inr (.inl ⟨_, _, _, rfl⟩)
  | delete key =>
    cases h
    exact .inr (.inr ⟨_, rfl⟩)

end Collection

namespace Store

/-- Only a put under a condition is refused for its condition. -/
theorem isConditional_of_refusal {s : Store} {r : Request} {cause : Failure}
    (h : s.perform r = .error cause) (hrefusal : cause.isRefusal = true) :
    r.isConditional = true := by
  have honline {cause : Failure} (hcheck : s.checkOnline = .error cause) :
      cause.isRefusal = false := by
    unfold checkOnline at hcheck
    split at hcheck <;> cases hcheck
    rfl
  cases hoffline : s.checkOnline with
  | error outage =>
    by_cases hclose : r = .close
    · subst hclose
      cases h
    · rw [perform_of_offline hoffline hclose] at h
      cases h
      rw [honline hoffline] at hrefusal
      cases hrefusal
  | ok _ =>
    cases r with
    | put key value condition =>
      cases condition with
      | some condition => rfl
      | none => simp [perform, put, hoffline, bind, Except.bind, pure, Except.pure] at h
    | delete key =>
      cases hcontains : s.index.contains key <;>
        simp [perform, delete, hoffline, hcontains, bind, Except.bind, pure, Except.pure, throw,
          throwThe, MonadExceptOf.throw] at h
      rw [← h] at hrefusal
      cases hrefusal
    | watch keyPrefix start =>
      cases hwatch : s.isWatchOffline <;>
        simp [perform, watch, hoffline, hwatch, bind, Except.bind, pure, Except.pure, throw,
          throwThe, MonadExceptOf.throw] at h
      rw [← h] at hrefusal
      cases hrefusal
    | _ => simp [perform, range, get, hoffline, bind, Except.bind, pure, Except.pure] at h

end Store

namespace Clients

variable {s : Clients} {m : ClientMove} {i : Nat} {c : Call}

theorem completes_calls (retention : Nat) (moves : List ClientMove) :
    ∀ c ∈ ((initial retention).run moves).calls,
      c.rest.Ends (c.collection.Completes c.command) c.past :=
  ends_run (fun c hc => by cases hc)
    (fun collection command => collection.completes_program command) moves

/-! ## Steps of a call -/

/-- A call stays, and remembers what it has seen. -/
theorem call_grows (hc : s.calls[i]? = some c) (m : ClientMove) :
    ∃ c', (s.move m).calls[i]? = some c' ∧ c.past <+: c'.past := by
  have hlt : i < s.calls.length := (List.getElem?_eq_some_iff.1 hc).1
  have hstays : ∃ c', (s.move m).calls[i]? = some c' := by
    refine ⟨_, List.getElem?_eq_getElem (Nat.lt_of_lt_of_le hlt ?_)⟩
    show s.calls.length ≤ (s.callsAfter m).length
    unfold callsAfter
    split
    · simp
    · split
      · exact Nat.le_refl _
      · exact Nat.le_of_eq (List.length_modify ..).symm
  obtain ⟨c', hc'⟩ := hstays
  refine ⟨c', hc', ?_⟩
  rcases call_move hc' with ⟨collection, command, rfl, rfl⟩ | hsame | ⟨old, o, hold, -, rfl⟩
  · rw [move, callsAfter, List.getElem?_append_left hlt, hc] at hc'
    cases hc'
    exact List.prefix_refl _
  · rw [hc] at hsame
    cases hsame
    exact List.prefix_refl _
  · rw [hc] at hold
    cases hold
    rcases past_observe c o with hsame | hlonger
    · simp [hsame]
    · rw [hlonger]
      exact List.prefix_append _ _

theorem call_grows_run {n n' : Nat} {moves : List ClientMove} (hle : n ≤ n')
    (hc : (s.run (moves.take n)).calls[i]? = some c) :
    ∃ c', (s.run (moves.take n')).calls[i]? = some c' ∧ c.past <+: c'.past := by
  induction hle with
  | refl => exact ⟨c, hc, List.prefix_refl _⟩
  | @step n' hle ih =>
    obtain ⟨c', hc', hgrown⟩ := ih
    rcases run_take_succ_cases s moves n' with hsame | ⟨m, -, hnext⟩
    · rw [hsame]
      exact ⟨c', hc', hgrown⟩
    · rw [hnext]
      obtain ⟨c'', hc'', hgrown'⟩ := call_grows hc' m
      exact ⟨c'', hc'', hgrown.trans hgrown'⟩

/-- A step of a call that changes the store shows the change to the call, unless its answer is lost. -/
theorem change_of_move (hs : s.Conforms) (hcaller : m.caller? = some i)
    (hkept : ∀ cause, m ≠ .lose i cause) (hne : (s.move m).store ≠ s.store) :
    ∃ c o key change, s.calls[i]? = some c ∧ c.rest.isOver = false ∧
      (s.move m).calls[i]? = some (c.observe o) ∧ (c.observe o).past = c.past ++ [o] ∧
      o.change? = some (key, change) ∧ (s.move m).store = s.store.recorded key change := by
  have hm : m = .perform i := by
    cases m with
    | perform j =>
      cases hcaller
      rfl
    | lose j cause =>
      cases hcaller
      exact absurd rfl (hkept cause)
    | operate step | begin collection command => cases hcaller
    | _ => exact absurd rfl hne
  subst hm
  have hstore : (s.move (.perform i)).store = ((s.request? i).map s.store.served).getD s.store := rfl
  cases hreq : s.request? i with
  | none =>
    rw [hstore, hreq] at hne
    exact absurd rfl hne
  | some r =>
    rw [hreq, Option.map_some, Option.getD_some] at hstore
    obtain ⟨c, next, hc, hrest⟩ := request?_eq_some hreq
    have hkeeps := hs c (List.mem_of_getElem? hc)
    rw [hrest] at hkeeps
    cases hperform : s.store.perform r with
    | error cause =>
      rw [hstore, Store.served, hperform] at hne
      exact absurd rfl hne
    | ok pair =>
      obtain ⟨answer, store⟩ := pair
      have hserved : s.store.served r = store := by rw [Store.served, hperform]
      have hseen : s.seen? (.perform i) = some (i, .answered r (.ok answer)) := by
        simp [seen?, hreq, hperform, Except.map]
      have hpast : (c.observe (.answered r (.ok answer))).past =
          c.past ++ [.answered r (.ok answer)] := by
        simp [Call.observe, hrest, Program.resume?]
      have hover : c.rest.isOver = false := by
        rw [hrest]
        rfl
      have hmade : ∃ key change, (Observation.answered r (.ok answer)).change? =
          some (key, change) ∧ store = s.store.recorded key change := by
        rcases hkeeps.1.cases with ⟨key, rfl⟩ | ⟨key, value, condition, rfl⟩ | ⟨key, rfl⟩
        · rw [hstore, Store.served_get] at hne
          exact absurd rfl hne
        · exact ⟨key, .put value, rfl,
            (Store.put_eq_ok.1 (Store.perform_put_eq_ok.1 hperform).1).2.2⟩
        · exact ⟨key, .delete, rfl,
            (Store.delete_eq_ok.1 (Store.perform_delete_eq_ok.1 hperform).1).2.2⟩
      obtain ⟨key, change, hchange, hrecorded⟩ := hmade
      exact ⟨c, _, key, change, hc, hover, calls_of_seen hc hseen, hpast, hchange,
        hstore.trans (hserved.trans hrecorded)⟩

/-- What a call has seen to be changed was changed by a step of it. -/
theorem change_of_past (retention : Nat) {moves : List ClientMove}
    (hc : ((initial retention).run moves).calls[i]? = some c) {o : Observation} (ho : o ∈ c.past)
    {key : String} {change : Change} (hchange : o.change? = some (key, change)) :
    ∃ n, moves[n]? = some (.perform i) ∧ ((initial retention).run (moves.take (n + 1))).store =
      ((initial retention).run (moves.take n)).store.recorded key change := by
  obtain ⟨n, m, -, hm, hseen⟩ := seen_of_mem retention hc ho
  unfold Observation.change? at hchange
  split at hchange
  · cases hchange
    obtain ⟨-, store, hperform, hstore⟩ := served_of_seen hseen
    refine ⟨n, perform_of_seen hseen ▸ hm, ?_⟩
    rw [run_take_succ _ hm, hstore]
    exact (Store.put_eq_ok.1 (Store.perform_put_eq_ok.1 hperform).1).2.2
  · cases hchange
    obtain ⟨-, store, hperform, hstore⟩ := served_of_seen hseen
    refine ⟨n, perform_of_seen hseen ▸ hm, ?_⟩
    rw [run_take_succ _ hm, hstore]
    exact (Store.delete_eq_ok.1 (Store.perform_delete_eq_ok.1 hperform).1).2.2
  · cases hchange

/-- A call that has not returned has changed nothing. -/
theorem quiet_of_call (retention : Nat) {moves : List ClientMove}
    (hc : ((initial retention).run moves).calls[i]? = some c) (hreturned : c.returned? = none) :
    Quiet c.past := by
  have hcompletes := completes_calls retention moves c (List.mem_of_getElem? hc)
  cases hover : c.rest.isOver with
  | false => exact quiet_of_settles hcompletes hover
  | true =>
    cases hrest : c.rest with
    | done result => rw [Call.returned?, hrest] at hreturned; cases hreturned
    | failed cause =>
      rw [hrest] at hcompletes
      cases hcompletes with
      | failed cause hquiet htold => exact hquiet
    | _ => rw [hrest] at hover; cases hover

/-- By this step of a call the store is changed. -/
def ChangedBy (retention : Nat) (moves : List ClientMove) (i n : Nat) : Prop :=
  (∃ m, moves[n]? = some m ∧ m.caller? = some i) ∧
    ((initial retention).run (moves.take (n + 1))).store ≠
      ((initial retention).run (moves.take n)).store

section

variable {retention : Nat} {moves : List ClientMove} {n : Nat}

/-- Unless the answer is lost, a call changes the store while it has changed nothing, and remembers
it ever after. -/
theorem ChangedBy.remembered_of_answered (h : ChangedBy retention moves i n)
    (hanswered : ∀ cause, moves[n]? ≠ some (.lose i cause)) :
    (∃ c, ((initial retention).run (moves.take n)).calls[i]? = some c ∧ Quiet c.past) ∧
      ∃ key change,
        ((initial retention).run (moves.take (n + 1))).store =
          ((initial retention).run (moves.take n)).store.recorded key change ∧
        ∀ n', n < n' → ∃ c o, ((initial retention).run (moves.take n')).calls[i]? = some c ∧
          o ∈ c.past ∧ o.change? = some (key, change) := by
  obtain ⟨⟨m, hm, hcaller⟩, hne⟩ := h
  have hnext := run_take_succ (initial retention) hm
  rw [hnext] at hne
  have hlose : ∀ cause, m ≠ .lose i cause := by
    rintro cause rfl
    exact hanswered cause hm
  obtain ⟨c, o, key, change, hc, hover, hc', hpast, hchange, hstore⟩ :=
    change_of_move (keeps_calls retention (moves.take n)) hcaller hlose hne
  have hquiet : Quiet c.past :=
    quiet_of_settles (completes_calls retention _ c (List.mem_of_getElem? hc)) hover
  refine ⟨⟨c, hc, hquiet⟩, key, change, by rw [hnext, hstore], fun n' hlt => ?_⟩
  rw [← hnext] at hc'
  obtain ⟨later, hlater, hgrown⟩ := call_grows_run (Nat.succ_le_of_lt hlt) hc'
  exact ⟨later, o, hlater, hgrown.subset (by rw [hpast]; simp), hchange⟩

theorem ChangedBy.remembered (h : ChangedBy retention moves i n)
    (hkept : ∀ cause, .lose i cause ∉ moves) :
    (∃ c, ((initial retention).run (moves.take n)).calls[i]? = some c ∧ Quiet c.past) ∧
      ∃ key change,
        ((initial retention).run (moves.take (n + 1))).store =
          ((initial retention).run (moves.take n)).store.recorded key change ∧
        ∀ n', n < n' → ∃ c o, ((initial retention).run (moves.take n')).calls[i]? = some c ∧
          o ∈ c.past ∧ o.change? = some (key, change) :=
  h.remembered_of_answered fun cause hm => hkept cause (List.mem_of_getElem? hm)

theorem ChangedBy.unique_of_answered {n' : Nat} (h : ChangedBy retention moves i n)
    (h' : ChangedBy retention moves i n') (hanswered : ∀ cause, moves[n]? ≠ some (.lose i cause))
    (hanswered' : ∀ cause, moves[n']? ≠ some (.lose i cause)) : n = n' := by
  have hnot {a b : Nat} (ha : ChangedBy retention moves i a) (hb : ChangedBy retention moves i b)
      (hanswer : ∀ cause, moves[a]? ≠ some (.lose i cause))
      (hanswer' : ∀ cause, moves[b]? ≠ some (.lose i cause)) : ¬ a < b := by
    intro hlt
    obtain ⟨⟨c, hc, hquiet⟩, -⟩ := hb.remembered_of_answered hanswer'
    obtain ⟨-, key, change, -, hlater⟩ := ha.remembered_of_answered hanswer
    obtain ⟨c', o, hc', ho, hchange⟩ := hlater b hlt
    rw [hc] at hc'
    cases hc'
    rw [hquiet o ho] at hchange
    cases hchange
  have h1 := hnot h h' hanswered hanswered'
  have h2 := hnot h' h hanswered' hanswered
  omega

theorem ChangedBy.unique {n' : Nat} (h : ChangedBy retention moves i n)
    (h' : ChangedBy retention moves i n') (hkept : ∀ cause, .lose i cause ∉ moves) : n = n' :=
  h.unique_of_answered h' (fun cause hm => hkept cause (List.mem_of_getElem? hm))
    fun cause hm => hkept cause (List.mem_of_getElem? hm)

/-- A step of a call that records a change changes the store. -/
theorem changedBy_of_recorded (hm : moves[n]? = some (.perform i)) {key : String} {change : Change}
    (hstore : ((initial retention).run (moves.take (n + 1))).store =
      ((initial retention).run (moves.take n)).store.recorded key change) :
    ChangedBy retention moves i n := by
  refine ⟨⟨_, hm, rfl⟩, fun hsame => ?_⟩
  have hrevision := congrArg Store.revision (hstore.symm.trans hsame)
  rw [Store.revision_recorded] at hrevision
  omega

/-- A call that has returned has changed the store. -/
theorem changedBy_of_returned (hc : ((initial retention).run moves).calls[i]? = some c)
    {result : Option Resource} (hreturned : c.returned? = some result) :
    ∃ n key change, ChangedBy retention moves i n ∧
      c.command.Writes c.collection.kind result key change ∧
      ((initial retention).run (moves.take (n + 1))).store =
        ((initial retention).run (moves.take n)).store.recorded (c.collection.storageKey key)
          change := by
  have hcompletes := completes_calls retention moves c (List.mem_of_getElem? hc)
  rw [Call.rest_of_returned? hreturned] at hcompletes
  cases hcompletes with
  | returned result stored change hown hcommitted =>
    obtain ⟨key, hwrites, rfl⟩ := hown
    obtain ⟨before, o, hpast, -, hchange⟩ := hcommitted
    obtain ⟨n, hm, hstore⟩ := change_of_past retention hc (by rw [hpast]; simp) hchange
    exact ⟨n, key, change, changedBy_of_recorded hm hstore, hwrites, hstore⟩

/-- A call that fails tells of no condition of a put, unless it is told so on its way. -/
theorem not_refusal_of_failure (hc : ((initial retention).run moves).calls[i]? = some c)
    (hkept : ∀ cause, .lose i cause ∉ moves)
    (htrue : ∀ name, .fail i (.preconditionFailed name) ∉ moves) (name : String) :
    c.failure? ≠ some (.preconditionFailed name) := by
  intro hfailed
  have hcompletes := completes_calls retention moves c (List.mem_of_getElem? hc)
  rw [Call.rest_of_failure? hfailed] at hcompletes
  cases hcompletes with
  | failed cause hquiet htold =>
    obtain ⟨request, hunconditional, ho⟩ := htold rfl
    obtain ⟨n, m, -, hm, hseen⟩ := seen_of_mem retention hc ho
    rcases failed_of_seen hseen with ⟨-, hperform⟩ | rfl | rfl
    · rw [Store.isConditional_of_refusal hperform rfl] at hunconditional
      cases hunconditional
    · exact hkept _ (List.mem_of_getElem? hm)
    · exact htrue name (List.mem_of_getElem? hm)

end

/-! ## The main result -/

/-- Writes are all or nothing. Let no answer to a call be lost on its way back, among whatever the
others do. The call returns if and only if one of its steps changes the store. There is at most one
such step, and it makes one change, of the key of the command, which leaves there what the call
returns. No call fails for the condition of a put. A check of a creation changes nothing. -/
theorem writes_atomic (retention : Nat) (moves : List ClientMove) (i : Nat) (c : Call) :
    ((initial retention).run moves).calls[i]? = some c →
    (∀ cause, .lose i cause ∉ moves) → (∀ name, .fail i (.preconditionFailed name) ∉ moves) →
    ((∃ result, c.returned? = some result) ↔ ∃ n, ChangedBy retention moves i n) ∧
    (∀ n n', ChangedBy retention moves i n → ChangedBy retention moves i n' → n = n') ∧
    (∀ n result, ChangedBy retention moves i n → c.returned? = some result → ∃ key change,
      c.command.Writes c.collection.kind result key change ∧
      ((initial retention).run (moves.take (n + 1))).store =
        ((initial retention).run (moves.take n)).store.recorded (c.collection.storageKey key)
          change) ∧
    (∀ name, c.failure? ≠ some (.preconditionFailed name)) ∧
    ∀ (w : World) (r : Resource),
      w.run (c.collection.check r) = (c.collection.createCheck w.caches r, w) := by
  intro hc hkept htrue
  refine ⟨⟨?_, ?_⟩, fun n n' h h' => h.unique h' hkept, ?_, not_refusal_of_failure hc hkept htrue, ?_⟩
  · rintro ⟨result, hreturned⟩
    obtain ⟨n, -, -, hchanged, -⟩ := changedBy_of_returned hc hreturned
    exact ⟨n, hchanged⟩
  · rintro ⟨n, hchanged⟩
    obtain ⟨-, key, change, -, hlater⟩ := hchanged.remembered hkept
    have hlt : n < moves.length := by
      obtain ⟨⟨m, hm, -⟩, -⟩ := hchanged
      exact (List.getElem?_eq_some_iff.1 hm).1
    obtain ⟨c', o, hc', ho, hchange⟩ := hlater moves.length hlt
    rw [List.take_length, hc] at hc'
    cases hc'
    cases hreturned : c.returned? with
    | some result => exact ⟨result, rfl⟩
    | none =>
      rw [quiet_of_call retention hc hreturned o ho] at hchange
      cases hchange
  · intro n result hchanged hreturned
    obtain ⟨n', key, change, hchanged', hwrites, hstore⟩ := changedBy_of_returned hc hreturned
    rw [hchanged.unique hchanged' hkept]
    exact ⟨key, change, hwrites, hstore⟩
  · intro w r
    show w.run (Program.ofExcept (c.collection.createCheck w.caches r)) = _
    cases c.collection.createCheck w.caches r <;> rfl

/-- A client stores a service and another one updates it. Between its reading and its put the service
is deleted, and then the store goes offline. -/
def interruptedUpdate : List ClientMove :=
  let c : Collection := ⟨.service, ⟨"/apisix", 1000⟩⟩
  let r : Resource := ⟨"", 0, 0, .empty⟩
  [.begin c (.upsert "s1" r), .readCaches 0 fun _ => none, .perform 0, .readClock 0 ⟨5000⟩,
    .perform 0, .begin c (.update "s1" r), .readCaches 1 fun _ => none, .perform 1,
    .operate (.delete "/apisix/services/s1"), .readClock 1 ⟨6000⟩, .perform 1,
    .operate (.setAvailable false), .perform 1]

theorem writes_atomic_interrupted :
    (∃ n, ChangedBy 4 interruptedUpdate 0 n) ∧ (∀ n, ¬ ChangedBy 4 interruptedUpdate 1 n) := by
  have hreturned : ((initial 4).run interruptedUpdate).calls.map
      (fun c => (c.returned?).isSome) = [true, false] := by decide +kernel
  have hcall {i : Nat} {returned : Bool} (h : (([true, false] : List Bool)[i]?) = some returned) :
      ∃ c, ((initial 4).run interruptedUpdate).calls[i]? = some c ∧
        (c.returned?).isSome = returned := by
    rw [← hreturned, List.getElem?_map] at h
    exact Option.map_eq_some_iff.1 h
  have hatomic (i : Nat) (c : Call) (hc : ((initial 4).run interruptedUpdate).calls[i]? = some c) :=
    writes_atomic 4 interruptedUpdate i c hc (by simp [interruptedUpdate])
      (by simp [interruptedUpdate])
  constructor
  · obtain ⟨c, hc, hsome⟩ := hcall (i := 0) rfl
    obtain ⟨result, hresult⟩ := Option.isSome_iff_exists.1 hsome
    exact (hatomic 0 c hc).1.1 ⟨result, hresult⟩
  · intro n hchanged
    obtain ⟨c, hc, hnone⟩ := hcall (i := 1) rfl
    obtain ⟨result, hresult⟩ := (hatomic 1 c hc).1.2 ⟨n, hchanged⟩
    rw [hresult] at hnone
    cases hnone

end Clients

end GatewayStore
