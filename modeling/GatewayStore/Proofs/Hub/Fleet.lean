import GatewayStore.Hub.Basic
import GatewayStore.Proofs.Store.Moves
import GatewayStore.Proofs.Watch.Snapshot

/-
  All watch loops of a hub over one store. For one loop, what the others do is what watchers do
  (`Mirror.Serves`): they open streams, take from their own and leave them. So every loop stays exact
  for the log of the store (`Fleet.Exact.move`), as long as no two of them hold one stream.
-/

namespace GatewayStore

/-- A move of the loop itself. -/
def MirrorMove.isOwn : MirrorMove → Bool
  | .operate _ | .subscribe _ _ | .consume _ | .abandon _ => false
  | _ => true

/-! ## One loop -/

theorem WatchLoop.kind_react (w : WatchLoop) (s : Signal) :
    (w.react s).cache.kind = w.cache.kind := by
  rcases w.react_progress s with ⟨h, -⟩ | ⟨listing, -, -, h, -⟩ | ⟨id, events, -, -, h, -⟩
  · rw [h]
  · rw [h, Cache.kind_replaceAll]
  · rw [h, cache_applyBatch, Cache.kind_advanceFloor, Cache.kind_foldl_take]

namespace Mirror

variable {m : Mirror} {log : List Event} {keyPrefix : String}

theorem Exact.act (h : m.Exact log keyPrefix) {move : StoreMove}
    (hreader : ∀ id, move.reader? = some id → m.held? ≠ some id) :
    Exact { m with store := m.store.act move } (log ++ (m.store.change? move).toList) keyPrefix :=
  h.grow (h.follows.act move) (h.numbers.act move) fun id hid =>
    (h.carries id hid).act h.numbers h.applied_le fun hr => hreader id hr hid

/-- Moves of watchers of which none reads the stream of the loop. -/
theorem Exact.actAll (h : m.Exact log keyPrefix) {acts : List StoreMove}
    (hacts : ∀ a ∈ acts, a.isOperation = false)
    (hreader : ∀ a ∈ acts, ∀ id, a.reader? = some id → m.held? ≠ some id) :
    Exact { m with store := m.store.actAll acts } log keyPrefix := by
  induction acts generalizing m with
  | nil => exact h
  | cons a acts ih =>
    have hfirst := h.act (hreader a List.mem_cons_self)
    rw [m.store.change?_eq_none (hacts a List.mem_cons_self), Option.toList_none,
      List.append_nil] at hfirst
    exact ih hfirst (fun a ha => hacts a (List.mem_cons_of_mem _ ha)) fun a ha =>
      hreader a (List.mem_cons_of_mem _ ha)

/-- What a move of the loop is for the others: some moves of a watcher that reads only the stream that
the loop holds, after which it may hold a new one. -/
structure Serves (m m' : Mirror) : Prop where
  kind_eq : m'.loop.cache.kind = m.loop.cache.kind
  acts : ∃ acts : List StoreMove, m'.store = m.store.actAll acts ∧
    (∀ a ∈ acts, a.isOperation = false) ∧
    ∀ a ∈ acts, ∀ id, a.reader? = some id → m.held? = some id
  held : ∀ id, m'.held? = some id → m.held? = some id ∨ m.store.nextStream ≤ id

theorem Serves.refl (m : Mirror) : m.Serves m := by
  refine ⟨rfl, ⟨[], rfl, ?_, ?_⟩, fun id h => .inl h⟩
  · intro a ha
    cases ha
  · intro a ha
    cases ha

theorem serves_signal (hreads : ∀ id, m.loop.stream? = some id → m.held? = some id) {s : Signal}
    (hopened : ∀ id, s = .opened (.ok id) → m.answer = some s) : m.Serves (m.signal s) := by
  refine ⟨?_, ?_, fun id hid => ?_⟩
  · rw [loop_signal, WatchLoop.kind_react]
  · rcases m.store_signal s with hs | ⟨id, hid, -, hs⟩
    · refine ⟨[], hs, ?_, ?_⟩
      · intro a ha
        cases ha
      · intro a ha
        cases ha
    · refine ⟨[.abandon id], hs, by simp [StoreMove.isOperation], ?_⟩
      intro a ha other hother
      rw [List.mem_singleton.1 ha] at hother
      rw [hid]
      exact hother
  · unfold held? at hid
    rw [answer_signal, loop_signal] at hid
    left
    rcases m.loop.react_stream? s hid with hs | rfl
    · exact hreads id hs
    · unfold held?
      rw [hopened id rfl]

theorem serves_perform (m : Mirror) : m.Serves m.perform := by
  unfold Mirror.perform
  split
  · next r hr hnone =>
    have hunread : m.loop.stream? = none := by
      cases hs : m.loop.stream? with
      | none => rfl
      | some id =>
        rw [WatchLoop.request?_of_stream? hs] at hr
        cases hr
    -- nothing is held but what the answer opened
    have hanswer (acts : List StoreMove) {store : Store} {s : Signal}
        (hstore : store = m.store.actAll acts)
        (hacts : ∀ a ∈ acts, a.isOperation = false ∧ a.reader? = none)
        (hopened : ∀ id, s = .opened (.ok id) → m.store.nextStream ≤ id) :
        m.Serves ⟨store, m.loop, some s⟩ := by
      refine ⟨rfl, ⟨acts, hstore, fun a ha => (hacts a ha).1, fun a ha id hid => ?_⟩,
        fun id hid => ?_⟩
      · rw [(hacts a ha).2] at hid
        cases hid
      · unfold held? at hid
        split at hid
        · next heq =>
          cases hid
          exact .inr (hopened id (Option.some.inj heq))
        · rw [hunread] at hid
          cases hid
    rcases request?_cases hr with rfl | ⟨rfl, -⟩
    · cases hrange : m.store.range m.loop.cache.keyPrefix with
      | error cause =>
        simp only [Store.perform, hrange, bind, Except.bind]
        exact hanswer [] rfl (by simp) (by simp)
      | ok listing =>
        simp only [Store.perform, hrange, bind, Except.bind, pure, Except.pure]
        exact hanswer [] rfl (by simp) (by simp)
    · cases hwatch : m.store.watch m.loop.cache.keyPrefix (m.loop.session.lastApplied + 1) with
      | error cause =>
        simp only [Store.perform, hwatch, bind, Except.bind]
        exact hanswer [] rfl (by simp) (by simp)
      | ok store =>
        have hserved : m.store.act (.subscribe m.loop.cache.keyPrefix
            (m.loop.session.lastApplied + 1)) = store := by
          simp [Store.act, Store.served, Store.perform, hwatch, bind, Except.bind, pure, Except.pure]
        simp only [Store.perform, hwatch, bind, Except.bind, pure, Except.pure]
        refine hanswer [.subscribe m.loop.cache.keyPrefix (m.loop.session.lastApplied + 1)]
          hserved.symm (by simp [StoreMove.isOperation, StoreMove.reader?]) ?_
        intro id hid
        cases hid
        exact Nat.le_refl _
  · exact .refl m

theorem serves_receive (hreads : ∀ id, m.loop.stream? = some id → m.held? = some id) :
    m.Serves m.receive := by
  unfold Mirror.receive
  cases hid : m.loop.stream? with
  | none => exact .refl m
  | some id =>
    dsimp only
    split
    · obtain ⟨hkind, ⟨acts, hstore, hacts, hreader⟩, hheld⟩ :=
        serves_signal (m := { m with store := (m.store.receive id).2 })
          (s := .delivered (m.store.receive id).1) hreads (by simp)
      have hnext : (m.store.receive id).2.nextStream = m.store.nextStream := by
        unfold Store.receive
        split <;> rfl
      refine ⟨hkind, ⟨.take id :: acts, hstore, ?_, ?_⟩, fun other hother => ?_⟩
      · exact List.forall_mem_cons.2 ⟨rfl, hacts⟩
      · refine List.forall_mem_cons.2 ⟨fun other hother => ?_, hreader⟩
        cases hother
        exact hreads id hid
      · exact (hheld other hother).imp_right fun hle => hnext ▸ hle
    · exact .refl m

/-- Every move of the loop itself serves the others so. -/
theorem serves_move (h : m.Exact log keyPrefix) {mv : MirrorMove} (hown : mv.isOwn = true) :
    m.Serves (m.move mv) := by
  have hreads : ∀ id, m.loop.stream? = some id → m.held? = some id :=
    fun id hs => held?_of_stream? h hs
  have huncalled {s : Signal} (hs : ∀ result, s ≠ .opened result) :
      m.Serves (m.signalUncalled s) := by
    unfold signalUncalled
    split
    · exact serves_signal hreads fun id heq => absurd heq (hs _)
    · exact .refl m
  cases mv with
  | operate _ | subscribe _ _ | consume _ | abandon _ => cases hown
  | sync =>
    obtain ⟨hcache, -⟩ := m.loop.move_sync_progress
    refine ⟨congrArg Cache.kind hcache, (Serves.refl m).acts, fun id hid => ?_⟩
    left
    simp only [Mirror.move, held?, WatchLoop.move] at hid ⊢
    split at hid
    · exact hid
    · split at hid
      · cases hid
      · exact hid
  | start => exact huncalled (by simp)
  | perform => exact m.serves_perform
  | hear =>
    simp only [Mirror.move, hear]
    split
    · exact .refl m
    · next s hs => exact serves_signal hreads fun _ _ => hs
  | fail cause =>
    simp only [Mirror.move, fail]
    split
    · exact .refl m
    · next s hs =>
      refine serves_signal hreads fun id heq => ?_
      obtain ⟨r, -, hsignal⟩ := Option.bind_eq_some_iff.1 hs
      rw [heq] at hsignal
      cases r <;> cases hsignal
  | receive => exact serves_receive hreads
  | wake => exact huncalled (by simp)
  | proceed => exact huncalled (by simp)
  | shutdown =>
    simp only [Mirror.move]
    split
    · exact .refl m
    · exact serves_signal hreads (by simp)

/-- A loop stays exact by what another one does that holds another stream. -/
theorem Exact.served (h : m.Exact log keyPrefix) {other other' : Mirror}
    (hserves : other.Serves other') (hstore : other.store = m.store)
    (hapart : ∀ id, other.held? = some id → m.held? ≠ some id) :
    Exact { m with store := other'.store } log keyPrefix := by
  obtain ⟨acts, hacts, hwatches, hreader⟩ := hserves.acts
  rw [hacts, hstore]
  exact h.actAll hwatches fun a ha id hid => hapart id (hreader a ha id hid)

end Mirror

/-! ## All loops -/

/-- A watch loop, and the answer that is under way to it. -/
structure Follower where
  loop : WatchLoop
  answer : Option Signal

/-- A store and the watch loops of a hub over it. -/
structure Fleet where
  store : Store
  followers : List Follower

/-- What can happen to a store and the loops of a hub. -/
inductive FleetMove where
  /-- anyone but the loops does something -/
  | outside (m : StoreMove)
  /-- a loop does something, or its call is answered or fails -/
  | own (i : Nat) (m : MirrorMove)

/-- A follower and a store by themselves. -/
def Follower.on (p : Follower) (s : Store) : Mirror := ⟨s, p.loop, p.answer⟩

/-- The stream that is held for the loop. -/
def Follower.held? (p : Follower) : Option Nat := (p.on .empty).held?

namespace Fleet

/-- An empty store, and a hub of some kinds that has done nothing yet. -/
def initial (retention : Nat) (settings : WatchSettings) (client : Client) (kinds : List Kind) :
    Fleet :=
  ⟨.withRetention retention,
    kinds.eraseDups.map fun kind => ⟨.fresh settings kind (client.keyPrefix kind), none⟩⟩

/-- Whether a loop holds a stream. -/
def isHeld (f : Fleet) (id : Nat) : Bool :=
  f.followers.any fun p => p.held? = some id

/-- The fleet after a move. Nobody reads a stream that a loop holds. -/
def move (f : Fleet) : FleetMove → Fleet
  | .outside m => if m.reader?.any f.isHeld then f else { f with store := f.store.act m }
  | .own i m =>
    match f.followers[i]? with
    | none => f
    | some p =>
      if m.isOwn then
        let moved := (p.on f.store).move m
        ⟨moved.store, f.followers.set i ⟨moved.loop, moved.answer⟩⟩
      else f

/-- The fleet after some moves. -/
def run (f : Fleet) (moves : List FleetMove) : Fleet := moves.foldl move f

/-- The change that a move makes. -/
def change? (f : Fleet) : FleetMove → Option Event
  | .outside m => f.store.change? m
  | .own _ _ => none

/-- The changes of a run. -/
def changes (f : Fleet) : List FleetMove → List Event
  | [] => []
  | m :: rest => (f.change? m).toList ++ changes (f.move m) rest

/-- The hub of the loops. -/
def hub (f : Fleet) : Hub := ⟨f.followers.map fun p => .ofLoop p.loop, .ofNode FlakeIds.defaultNode⟩

/-- Every loop is exact for the prefix of its kind, and no two of them hold one stream. -/
structure Exact (f : Fleet) (client : Client) (log : List Event) : Prop where
  follows : f.store.Follows log
  numbers : f.store.NumbersBelow
  offlineClosed : f.store.OfflineClosed
  loops : ∀ p ∈ f.followers,
    (p.on f.store).Exact log (client.keyPrefix p.loop.cache.kind)
  apart : ∀ (i j : Nat) (p q : Follower) (id : Nat), f.followers[i]? = some p →
    f.followers[j]? = some q → p.held? = some id → q.held? = some id → i = j

theorem exact_initial (retention : Nat) (settings : WatchSettings) (client : Client)
    (kinds : List Kind) : (initial retention settings client kinds).Exact client [] where
  follows := Store.follows_withRetention retention
  numbers := Store.numbersBelow_withRetention retention
  offlineClosed := Store.offlineClosed_withRetention retention
  loops p hp := by
    obtain ⟨kind, -, rfl⟩ := List.mem_map.1 hp
    exact Mirror.exact_initial retention settings kind (client.keyPrefix kind)
  apart i j p q id hp hq hheld hheld' := by
    obtain ⟨kind, -, rfl⟩ := List.mem_map.1 (List.mem_of_getElem? hp)
    cases hheld

variable {f : Fleet} {client : Client} {log : List Event}

theorem Exact.outside (h : f.Exact client log) (m : StoreMove) :
    (f.move (.outside m)).Exact client (log ++ (f.store.change? m).toList) := by
  rw [Fleet.move]
  split
  · next hblocked =>
    have hnone : f.store.change? m = none := by
      cases m <;> first | rfl | cases hblocked
    rw [hnone, Option.toList_none, List.append_nil]
    exact h
  · next hfree =>
    refine ⟨h.follows.act m, h.numbers.act m, h.offlineClosed.act m, fun p hp => ?_, h.apart⟩
    refine (h.loops p hp).act fun id hid hheld => hfree ?_
    rw [hid]
    exact List.any_eq_true.2 ⟨p, hp, decide_eq_true hheld⟩

/-- A list after an element was set. -/
theorem getElem?_set_cases {α : Type} {l : List α} {i j : Nat} {a b : α}
    (h : (l.set i a)[j]? = some b) : (i = j ∧ b = a) ∨ (i ≠ j ∧ l[j]? = some b) := by
  rw [List.getElem?_set] at h
  split at h
  · next hij =>
    split at h
    · cases h
      exact .inl ⟨hij, rfl⟩
    · cases h
  · next hij => exact .inr ⟨hij, h⟩

theorem Exact.own (h : f.Exact client log) (i : Nat) (m : MirrorMove) :
    (f.move (.own i m)).Exact client log := by
  rw [Fleet.move]
  split
  · exact h
  next p hp =>
  split
  · next hown =>
    have hexact := h.loops p (List.mem_of_getElem? hp)
    have hserves := Mirror.serves_move hexact hown
    obtain ⟨acts, hstore, hwatches, -⟩ := hserves.acts
    have hfollows : ((p.on f.store).move m).store.Follows log := by
      have hf := h.follows.actAll acts
      rw [f.store.changes_eq_nil hwatches, List.append_nil] at hf
      rw [hstore]
      exact hf
    have hmoved : ((p.on f.store).move m).Exact log
        (client.keyPrefix ((p.on f.store).move m).loop.cache.kind) := by
      obtain ⟨added, -, hadded, -⟩ := hexact.move m
      have hnone : added = [] := by
        have hlength := hadded.follows.length_eq
        rw [← hfollows.length_eq, List.length_append] at hlength
        exact List.eq_nil_of_length_eq_zero (by omega)
      rw [hnone, List.append_nil] at hadded
      rw [hserves.kind_eq]
      exact hadded
    refine ⟨hfollows, hmoved.numbers, ?_, fun q hq => ?_, ?_⟩
    · show ((p.on f.store).move m).store.OfflineClosed
      rw [hstore]
      exact h.offlineClosed.actAll acts
    · obtain ⟨j, hj⟩ := List.getElem?_of_mem hq
      rcases getElem?_set_cases hj with ⟨-, rfl⟩ | ⟨hne, hj⟩
      · exact hmoved
      · refine (h.loops q (List.mem_of_getElem? hj)).served hserves rfl fun id hid hid' => hne ?_
        exact h.apart i j p q id hp hj hid hid'
    · -- a stream that the loop holds now is its old one or newer than all others
      have hfresh {j : Nat} {q : Follower} {id : Nat} (hne : i ≠ j) (hj : f.followers[j]? = some q)
          (hnew : ((p.on f.store).move m).held? = some id) (hq : q.held? = some id) : False := by
        rcases hserves.held id hnew with hold | hle
        · exact hne (h.apart i j p q id hp hj hold hq)
        · have hlt := ((h.loops q (List.mem_of_getElem? hj)).carries id hq).lt_nextStream h.numbers
          exact Nat.not_lt.2 hle hlt
      intro a b q r id hq hr hheld hheld'
      rcases getElem?_set_cases hq with ⟨rfl, rfl⟩ | ⟨hne, hq⟩
      · rcases getElem?_set_cases hr with ⟨rfl, -⟩ | ⟨hne, hr⟩
        · rfl
        · exact (hfresh hne hr hheld hheld').elim
      · rcases getElem?_set_cases hr with ⟨rfl, rfl⟩ | ⟨hne', hr⟩
        · exact (hfresh hne hq hheld' hheld).elim
        · exact h.apart a b q r id hq hr hheld hheld'
  · exact h

/-- What a move of a loop does to the loops: its own goes on, and the others are as before. -/
theorem mem_followers_own (h : f.Exact client log) {i : Nat} {m : MirrorMove} {p' : Follower}
    (hp' : p' ∈ (f.move (.own i m)).followers) : ∃ p ∈ f.followers,
      p'.loop.cache.kind = p.loop.cache.kind ∧
      p.loop.session.lastApplied ≤ p'.loop.session.lastApplied := by
  rw [Fleet.move] at hp'
  split at hp'
  · exact ⟨p', hp', rfl, Nat.le_refl _⟩
  next p hp =>
  split at hp'
  · next hown =>
    have hexact := h.loops p (List.mem_of_getElem? hp)
    rcases List.mem_or_eq_of_mem_set hp' with hp' | rfl
    · exact ⟨p', hp', rfl, Nat.le_refl _⟩
    · obtain ⟨added, -, -, hle⟩ := hexact.move m
      exact ⟨p, List.mem_of_getElem? hp, (Mirror.serves_move hexact hown).kind_eq, hle⟩
  · exact ⟨p', hp', rfl, Nat.le_refl _⟩

theorem mem_followers (h : f.Exact client log) {m : FleetMove} {p' : Follower}
    (hp' : p' ∈ (f.move m).followers) : ∃ p ∈ f.followers,
      p'.loop.cache.kind = p.loop.cache.kind ∧
      p.loop.session.lastApplied ≤ p'.loop.session.lastApplied := by
  cases m with
  | own i m => exact mem_followers_own h hp'
  | outside m =>
    have hsame : (f.move (.outside m)).followers = f.followers := by
      rw [Fleet.move]
      split <;> rfl
    rw [hsame] at hp'
    exact ⟨p', hp', rfl, Nat.le_refl _⟩

/-- The kinds of the loops, in the order of the loops. -/
def loopKinds (f : Fleet) : List Kind := f.followers.map fun p => p.loop.cache.kind

theorem loopKinds_move (h : f.Exact client log) (m : FleetMove) :
    (f.move m).loopKinds = f.loopKinds := by
  cases m with
  | outside m =>
    rw [Fleet.move]
    split <;> rfl
  | own i m =>
    rw [Fleet.move]
    split
    · rfl
    next p hp =>
    split
    · next hown =>
      obtain ⟨hi, hget⟩ := List.getElem?_eq_some_iff.1 hp
      have hkind := (Mirror.serves_move (h.loops p (List.mem_of_getElem? hp)) hown).kind_eq
      unfold loopKinds
      dsimp only
      have hbound : i < (f.followers.map fun p => p.loop.cache.kind).length := by
        rwa [List.length_map]
      have hold : (p.on f.store).loop.cache.kind =
          (f.followers.map fun p => p.loop.cache.kind)[i] := by
        rw [List.getElem_map, hget]
        rfl
      rw [List.map_set, hkind, hold, List.set_getElem_self]
    · rfl

/-- The outage that takes the store offline. -/
def goOffline : FleetMove := .outside (.operate (.setAvailable false))

/-- Only an outage takes the store offline. -/
theorem isOffline_move (h : f.Exact client log) {m : FleetMove}
    (hoffline : (f.move m).store.isOffline = true) : f.store.isOffline = true ∨ m = goOffline := by
  cases m with
  | outside m =>
    rw [Fleet.move] at hoffline
    split at hoffline
    · exact .inl hoffline
    · exact (Store.isOffline_act hoffline).imp_right (congrArg FleetMove.outside)
  | own i m =>
    left
    rw [Fleet.move] at hoffline
    split at hoffline
    · exact hoffline
    next p hp =>
    split at hoffline
    · next hown =>
      obtain ⟨acts, hstore, hwatches, -⟩ :=
        (Mirror.serves_move (h.loops p (List.mem_of_getElem? hp)) hown).acts
      dsimp only at hoffline
      rw [hstore] at hoffline
      refine (Store.isOffline_actAll hoffline).resolve_right fun hm => ?_
      cases hwatches _ hm
    · exact hoffline

/-- Every move keeps the loops exact, and the log grows by the change that it makes. -/
theorem Exact.move (h : f.Exact client log) (m : FleetMove) :
    (f.move m).Exact client (log ++ (f.change? m).toList) := by
  cases m with
  | outside m => exact h.outside m
  | own i m =>
    rw [change?, Option.toList_none, List.append_nil]
    exact h.own i m

theorem Exact.run (h : f.Exact client log) (moves : List FleetMove) :
    (f.run moves).Exact client (log ++ f.changes moves) := by
  induction moves generalizing f log with
  | nil =>
    rw [changes, List.append_nil]
    exact h
  | cons m moves ih =>
    have hrest := ih (h.move m)
    rw [List.append_assoc] at hrest
    exact hrest

theorem loopKinds_run (h : f.Exact client log) (moves : List FleetMove) :
    (f.run moves).loopKinds = f.loopKinds := by
  induction moves generalizing f log with
  | nil => rfl
  | cons m moves ih => exact (ih (h.move m)).trans (loopKinds_move h m)

/-! ## The hub of a fleet -/

theorem caches_hub (f : Fleet) (kind : Kind) : f.hub.caches kind =
    (f.followers.find? fun p => p.loop.cache.kind = kind).map fun p => p.loop.cache := by
  unfold Hub.caches hub
  rw [List.find?_map, Option.map_map]
  rfl

/-- The cache of a registered kind is that of a loop. -/
theorem exists_follower {kind : Kind} (h : kind ∈ f.loopKinds) :
    ∃ p ∈ f.followers, p.loop.cache.kind = kind ∧ f.hub.caches kind = some p.loop.cache := by
  obtain ⟨q, hq, hkind⟩ := List.mem_map.1 h
  rw [caches_hub]
  cases hfind : f.followers.find? fun p => p.loop.cache.kind = kind with
  | none => exact absurd (List.find?_eq_none.1 hfind q hq) (by simp [hkind])
  | some p =>
    have hfound := List.find?_some hfind
    exact ⟨p, List.mem_of_find?_eq_some hfind, of_decide_eq_true hfound, rfl⟩

theorem mem_kinds_hub {kind : Kind} (h : kind ∈ f.hub.kinds) : kind ∈ f.loopKinds := by
  obtain ⟨w, hw⟩ := Option.isSome_iff_exists.1 (List.mem_filter.1 h).2
  obtain ⟨worker, hworker, -⟩ := Option.map_eq_some_iff.1 hw
  obtain ⟨p, hp, rfl⟩ := List.mem_map.1 (List.mem_of_find?_eq_some hworker)
  have hfound := List.find?_some hworker
  exact List.mem_map.2 ⟨p, hp, of_decide_eq_true hfound⟩

end Fleet

end GatewayStore
