import GatewayStore.Proofs.Cache.Comparison
import GatewayStore.Proofs.Hub.Fleet
import GatewayStore.Proofs.Resource.Prefixes

/-
  What the verification of a hub reports. Between its calls to the store and its looks at the caches
  the loops and everyone else go on. If the loops have applied everything under their prefixes and no
  key is written meanwhile, then every cache reflects the store at every point (`Settled.run`); so each
  kind adds its listed keys to the report, and its bare prefix as a difference if that is stored
  (`verify_converged`).
-/

namespace GatewayStore

namespace Fleet

/-- Runs a program for the hub, with moves of the others before every call to the store and every look
at the caches. -/
def execute {α : Type} (now : WallTime) (fresh : String) :
    Program α → List (List FleetMove) → Fleet → Except Failure α × Fleet
  | .done result, _, f => (.ok result, f)
  | .failed cause, _, f => (.error cause, f)
  | .call r next, between, f =>
    let f := f.run (between.headD [])
    execute now fresh (next ((f.store.perform r).map Prod.fst)) between.tail
      { f with store := f.store.served r }
  | .readClock next, between, f => execute now fresh (next now) between f
  | .drawId next, between, f => execute now fresh (next fresh) between f
  | .readCaches next, between, f =>
    let f := f.run (between.headD [])
    execute now fresh (next f.hub.caches) between.tail f

/-- Whether a loop reads a stream that is open. -/
def isSubscribed (f : Fleet) (p : Follower) : Bool :=
  (p.loop.stream?.bind f.store.stream?).any Stream.isOpen

/-- Every loop reads an open stream and has applied all changes under its prefix. -/
structure Converged (f : Fleet) (client : Client) (log : List Event) : Prop where
  subscribed : ∀ p ∈ f.followers, f.isSubscribed p = true
  applied : ∀ p ∈ f.followers, ∀ e ∈ log,
    e.isUnder (client.keyPrefix p.loop.cache.kind) = true →
      e.revision ≤ p.loop.session.lastApplied

/-- The loops are exact and have nothing left to apply. -/
structure Settled (f : Fleet) (client : Client) (log : List Event) : Prop
    extends Exact f client log where
  applied : ∀ p ∈ f.followers, ∀ e ∈ log,
    e.isUnder (client.keyPrefix p.loop.cache.kind) = true →
      e.revision ≤ p.loop.session.lastApplied

variable {f : Fleet} {client : Client} {log : List Event}

theorem Exact.revision_le (h : f.Exact client log) (moves : List FleetMove) :
    f.store.revision ≤ (f.run moves).store.revision :=
  h.follows.revision_le (h.run moves).follows

/-- Only changes raise the revision. -/
theorem Exact.changes_eq_nil (h : f.Exact client log) {moves : List FleetMove}
    (hstill : (f.run moves).store.revision = f.store.revision) : f.changes moves = [] := by
  have hlength := (h.run moves).follows.length_eq
  rw [List.length_append, h.follows.length_eq, hstill] at hlength
  exact List.eq_nil_of_length_eq_zero (by omega)

theorem isOffline_run (h : f.Exact client log) {moves : List FleetMove} (hup : goOffline ∉ moves)
    (honline : f.store.isOffline = false) : (f.run moves).store.isOffline = false := by
  induction moves generalizing f log with
  | nil => exact honline
  | cons m moves ih =>
    refine ih (h.move m) (fun hm => hup (List.mem_cons_of_mem _ hm)) ?_
    refine Bool.eq_false_iff.2 fun hoffline => ?_
    rcases isOffline_move h hoffline with hbefore | rfl
    · cases honline.symm.trans hbefore
    · exact hup List.mem_cons_self

theorem Settled.move (h : f.Settled client log) {m : FleetMove} (hnone : f.change? m = none) :
    (f.move m).Settled client log := by
  have hexact := h.toExact.move m
  rw [hnone, Option.toList_none, List.append_nil] at hexact
  refine ⟨hexact, fun p' hp' e he hunder => ?_⟩
  obtain ⟨p, hp, hkind, hle⟩ := mem_followers h.toExact hp'
  rw [hkind] at hunder
  exact Nat.le_trans (h.applied p hp e he hunder) hle

/-- As long as nothing is written, the loops have nothing to apply. -/
theorem Settled.run (h : f.Settled client log) {moves : List FleetMove}
    (hstill : (f.run moves).store.revision = f.store.revision) :
    (f.run moves).Settled client log := by
  have hnone := h.toExact.changes_eq_nil hstill
  clear hstill
  induction moves generalizing f with
  | nil => exact h
  | cons m moves ih =>
    rw [changes, List.append_eq_nil_iff, Option.toList_eq_nil_iff] at hnone
    exact ih (h.move hnone.1) hnone.2

/-- A cache with nothing left to apply reflects the store. -/
theorem Settled.reflects (h : f.Settled client log) {p : Follower} (hp : p ∈ f.followers) :
    p.loop.cache.Reflects (client.keyPrefix p.loop.cache.kind) f.store.index := by
  refine (h.loops p hp).toCurrent.reflects_index (List.filter_eq_nil_iff.2 fun e he hcond => ?_)
  rw [Bool.and_eq_true, decide_eq_true_eq] at hcond
  exact Nat.not_lt.2 (h.applied p hp e he hcond.2) hcond.1

/-! ## Verification -/

theorem execute_range {α : Type} (now : WallTime) (fresh : String) (keyPrefix : String)
    (next : Except Failure Listing → Program α) (between : List (List FleetMove)) (f : Fleet) :
    execute now fresh (.call (.range keyPrefix) next) between f =
      execute now fresh (next ((f.run (between.headD [])).store.range keyPrefix)) between.tail
        (f.run (between.headD [])) := by
  rw [execute, Store.served_range]
  exact congrArg (fun answer => execute now fresh (next answer) between.tail _)
    (Store.fst_perform_range _ keyPrefix)

/-- To verify a kind takes a listing, and later a look at its cache. -/
theorem execute_verifyFrom_cons (now : WallTime) (fresh : String) (client : Client) (report : Report)
    (kind : Kind) (rest : List Kind) (between : List (List FleetMove)) (f : Fleet) :
    execute now fresh (verifyFrom client report (kind :: rest)) between f =
      let listed := f.run (between.headD [])
      match listed.store.range (client.keyPrefix kind) with
      | .error cause => (.error cause, listed)
      | .ok listing =>
        let looked := listed.run (between.tail.headD [])
        match looked.hub.caches kind with
        | none => (.error (.unknownKind kind.name), looked)
        | some cache => execute now fresh
          (verifyFrom client (report.add kind.name (cache.compare listing)) rest)
          between.tail.tail looked := by
  simp only [verifyFrom, Program.request, Program.caches, bind, Program.bind]
  rw [execute_range]
  cases (f.run (between.headD [])).store.range (client.keyPrefix kind) with
  | error cause => rfl
  | ok listing =>
    dsimp only [Program.ofExcept, Program.bind, execute]
    cases ((f.run (between.headD [])).run (between.tail.headD [])).hub.caches kind <;> rfl

/-- A verification writes nothing. -/
theorem revision_le_execute (h : f.Exact client log) (now : WallTime) (fresh : String)
    (report : Report) (kinds : List Kind) (between : List (List FleetMove)) :
    f.store.revision ≤
      (execute now fresh (verifyFrom client report kinds) between f).2.store.revision := by
  induction kinds generalizing f log report between with
  | nil => exact Nat.le_refl _
  | cons kind rest ih =>
    rw [execute_verifyFrom_cons]
    have hlisted := h.run (between.headD [])
    have hle := h.revision_le (between.headD [])
    have hle' := hlisted.revision_le (between.tail.headD [])
    dsimp only
    split
    · exact hle
    split
    · exact Nat.le_trans hle hle'
    · exact Nat.le_trans hle (Nat.le_trans hle' (ih (hlisted.run _) _ _))

/-- A move that is in no block is not in the first one. -/
theorem not_mem_headD {blocks : List (List FleetMove)} {m : FleetMove}
    (h : ∀ block ∈ blocks, m ∉ block) :
    m ∉ blocks.headD [] := by
  cases blocks with
  | nil => exact List.not_mem_nil
  | cons block _ => exact h block List.mem_cons_self

/-- A registered kind is listed and its cache is found, as long as the store is online. -/
theorem Exact.ask (h : f.Exact client log) {kind : Kind} (hkind : kind ∈ f.loopKinds)
    (honline : f.store.isOffline = false) {moves moves' : List FleetMove} (hup : goOffline ∉ moves)
    (hup' : goOffline ∉ moves') :
    let listed := f.run moves
    let looked := listed.run moves'
    listed.store.range (client.keyPrefix kind) =
        .ok ⟨listed.store.index.listedUnder (client.keyPrefix kind), listed.store.revision⟩ ∧
      looked.store.isOffline = false ∧ looked.loopKinds = f.loopKinds ∧
      ∃ p ∈ looked.followers, p.loop.cache.kind = kind ∧
        looked.hub.caches kind = some p.loop.cache := by
  intro listed looked
  have hlisted : listed.Exact client (log ++ f.changes moves) := h.run moves
  have honline' : listed.store.isOffline = false := isOffline_run h hup honline
  have hkinds : looked.loopKinds = f.loopKinds :=
    (loopKinds_run hlisted moves').trans (loopKinds_run h moves)
  exact ⟨Store.range_eq_ok.2 ⟨honline', rfl⟩, isOffline_run hlisted hup' honline', hkinds,
    exists_follower (hkinds ▸ hkind)⟩

/-- If nothing is written, the fleet stays settled and keeps its keys. -/
theorem Settled.still (h : f.Settled client log) {moves : List FleetMove}
    (hstill : (f.run moves).store.revision = f.store.revision) :
    (f.run moves).Settled client log ∧ (f.run moves).store.index = f.store.index :=
  ⟨h.run hstill, (h.run hstill).follows.index_eq.trans h.follows.index_eq.symm⟩

/-- Each kind adds its listed keys to the report, and its bare prefix if that is stored. -/
theorem execute_verifyFrom (h : f.Settled client log) (now : WallTime) (fresh : String)
    (report : Report) {kinds : List Kind} {between : List (List FleetMove)}
    (hkinds : ∀ kind ∈ kinds, kind ∈ f.loopKinds) (honline : kinds ≠ [] → f.store.isOffline = false)
    (hup : ∀ block ∈ between, goOffline ∉ block)
    (hstill : (execute now fresh (verifyFrom client report kinds) between f).2.store.revision =
      f.store.revision) :
    ∃ final, (execute now fresh (verifyFrom client report kinds) between f).1 = .ok final ∧
      final.total = report.total +
        (kinds.flatMap fun kind => f.store.index.listedUnder (client.keyPrefix kind)).length ∧
      final.inconsistent = report.inconsistent +
        kinds.countP fun kind => f.store.index.contains (client.keyPrefix kind) := by
  induction kinds generalizing f report between with
  | nil => exact ⟨report, rfl, rfl, rfl⟩
  | cons kind rest ih =>
    have hup' : ∀ block ∈ between.tail, goOffline ∉ block :=
      fun block hb => hup block (List.mem_of_mem_tail hb)
    obtain ⟨hrange, honline', hloopKinds, p, hp, hkind, hcache⟩ := h.toExact.ask
      (hkinds kind List.mem_cons_self) (honline (by simp)) (not_mem_headD hup) (not_mem_headD hup')
    have hexact := h.toExact.run (between.headD [])
    have hle := h.toExact.revision_le (between.headD [])
    have hle' := hexact.revision_le (between.tail.headD [])
    have hexact' := hexact.run (between.tail.headD [])
    rw [execute_verifyFrom_cons] at hstill ⊢
    dsimp only at hstill ⊢
    rw [hrange] at hstill ⊢
    dsimp only at hstill ⊢
    rw [hcache] at hstill ⊢
    dsimp only at hstill ⊢
    -- nothing was written before the look at the cache
    have hle'' :=
      Nat.le_trans (revision_le_execute hexact' now fresh _ rest _) (Nat.le_of_eq hstill)
    obtain ⟨hlisted, hindex⟩ := h.still (Nat.le_antisymm (Nat.le_trans hle' hle'') hle)
    obtain ⟨hlooked, hindex'⟩ := hlisted.still (Nat.le_antisymm (Nat.le_trans hle'' hle) hle')
    rw [hindex] at hindex'
    -- so the cache reflects what was listed
    have hreflects := hlooked.reflects hp
    rw [hkind, hindex'] at hreflects
    obtain ⟨hcompared, hdiffers⟩ :=
      Cache.compare_of_reflects hreflects (f.run (between.headD [])).store.revision
    rw [hindex] at hstill ⊢
    obtain ⟨final, hfinal, htotal, hinconsistent⟩ := ih hlooked (report.add kind.name _)
      (fun k hk => hloopKinds ▸ hkinds k (List.mem_cons_of_mem _ hk)) (fun _ => honline')
      (fun block hb => hup' block (List.mem_of_mem_tail hb))
      (hstill.trans (Nat.le_antisymm (Nat.le_trans hle hle') hle''))
    rw [hindex', Report.add, hcompared] at htotal
    rw [hindex', Report.add, hdiffers] at hinconsistent
    refine ⟨final, hfinal, ?_, ?_⟩
    · rw [htotal, List.flatMap_cons, List.length_append, Nat.add_assoc]
    · rw [hinconsistent, List.countP_cons]
      exact (Nat.add_right_comm _ _ _).trans (Nat.add_assoc _ _ _)

/-! ## Converged fleets -/

/-- How many stored keys are under the prefixes of the registered kinds. -/
def storedCount (f : Fleet) (client : Client) : Nat :=
  f.store.index.keys.countP fun key =>
    f.hub.kinds.any fun kind => Text.startsWith (client.keyPrefix kind) key

/-- Elements of two kinds that exclude each other count for either. -/
theorem countP_or {α : Type} {p q : α → Bool} (h : ∀ a, p a = true → q a = false) (l : List α) :
    l.countP (fun a => p a || q a) = l.countP p + l.countP q := by
  induction l with
  | nil => rfl
  | cons a l ih =>
    rw [List.countP_cons, List.countP_cons, List.countP_cons, ih]
    cases hp : p a with
    | true => simp [h a hp, Nat.add_right_comm]
    | false => simp [Nat.add_assoc]

theorem length_listedUnder (index : KeyMap Record) (keyPrefix : String) :
    (index.listedUnder keyPrefix).length = index.keys.countP (Text.startsWith keyPrefix) := by
  rw [KeyMap.listedUnder, List.length_map, ← List.countP_eq_length_filter, KeyMap.keys,
    List.countP_map]
  rfl

/-- No key is listed for two kinds. -/
theorem length_listings (index : KeyMap Record) (client : Client) {kinds : List Kind}
    (h : kinds.Nodup) :
    (kinds.flatMap fun kind => index.listedUnder (client.keyPrefix kind)).length =
      index.keys.countP fun key =>
        kinds.any fun kind => Text.startsWith (client.keyPrefix kind) key := by
  induction kinds with
  | nil => simp
  | cons kind rest ih =>
    obtain ⟨hnew, hrest⟩ := List.nodup_cons.1 h
    have hdisjoint (key : String) (hkey : Text.startsWith (client.keyPrefix kind) key = true) :
        (rest.any fun kind => Text.startsWith (client.keyPrefix kind) key) = false := by
      refine List.any_eq_false.2 fun other hother hkey' => hnew ?_
      rw [Kind.eq_of_startsWith hkey hkey']
      exact hother
    simp only [List.any_cons]
    rw [countP_or hdisjoint, List.flatMap_cons, List.length_append, ih hrest, length_listedUnder]

theorem nodup_kinds (h : Hub) : h.kinds.Nodup := by
  have hall : Kind.all.Nodup := by decide
  exact hall.filter _

/-- While a loop reads an open stream, the store is online. -/
theorem Converged.isOnline (hconverged : f.Converged client log) (hexact : f.Exact client log)
    {kind : Kind} (hkind : kind ∈ f.loopKinds) : f.store.isOffline = false := by
  obtain ⟨p, hp, -⟩ := exists_follower hkind
  obtain ⟨stream, hstream, hopen⟩ := (Option.any_eq_true ..).1 (hconverged.subscribed p hp)
  obtain ⟨id, -, hid⟩ := Option.bind_eq_some_iff.1 hstream
  refine Bool.eq_false_iff.2 fun hoffline => ?_
  cases hopen.symm.trans (hexact.offlineClosed hoffline id stream hid)

/-- Verifying a hub whose loops have applied everything, with no key written and no outage meanwhile,
counts the stored keys under the prefixes of its kinds. The only differences are bare prefixes that are
stored: a listing has them, and no cache does. -/
theorem verify_converged (retention : Nat) (settings : WatchSettings) (client : Client)
    (kinds : List Kind) (moves : List FleetMove) (now : WallTime) (fresh : String)
    (between : List (List FleetMove)) :
    let start := initial retention settings client kinds
    let f := start.run moves
    let verified := execute now fresh (verify client f.hub.kinds) between f
    f.Converged client (start.changes moves) → (∀ block ∈ between, goOffline ∉ block) →
      verified.2.store.revision = f.store.revision →
      ∃ report, verified.1 = .ok report ∧ report.total = f.storedCount client ∧
        report.inconsistent =
          f.hub.kinds.countP fun kind => f.store.index.contains (client.keyPrefix kind) := by
  intro start f verified hconverged hup hstill
  have hexact : f.Exact client (start.changes moves) :=
    (exact_initial retention settings client kinds).run moves
  have hsettled : f.Settled client (start.changes moves) := ⟨hexact, hconverged.applied⟩
  have honline (hne : f.hub.kinds ≠ []) : f.store.isOffline = false := by
    obtain ⟨kind, hkind⟩ := List.exists_mem_of_ne_nil _ hne
    exact hconverged.isOnline hexact (mem_kinds_hub hkind)
  obtain ⟨report, hreport, htotal, hinconsistent⟩ :=
    execute_verifyFrom hsettled now fresh .empty (fun _ => mem_kinds_hub) honline hup hstill
  refine ⟨report, hreport, ?_, ?_⟩
  · rw [htotal, length_listings _ _ (nodup_kinds _)]
    exact Nat.zero_add _
  · rw [hinconsistent]
    exact Nat.zero_add _

/-- The moves with which a loop lists its prefix and opens a stream. -/
def joins (i : Nat) : List FleetMove :=
  [.sync, .perform, .hear, .start, .proceed, .perform, .hear].map (.own i)

/-- Two loops join with a key each already there; a third key comes while they watch. -/
def settledRun : List FleetMove :=
  [.outside (.operate (.put "/apisix/routes/a/b" [255] none)),
    .outside (.operate (.put "/apisix/upstreams/u" [] none))] ++ joins 0 ++ joins 1 ++
  [.outside (.operate (.put "/apisix/routes/c" [1] none)), .own 0 .receive]

theorem verify_converged_settled :
    let f := (initial 4 ⟨5000, 100, 10000, 3⟩ ⟨"/apisix", 5000⟩ [.route, .upstream]).run settledRun
    ∃ report, (execute ⟨0⟩ "" (verify ⟨"/apisix", 5000⟩ f.hub.kinds)
        [[.outside (.operate (.compact 2))], [.outside (.operate (.get "/apisix/routes/c"))]] f).1 =
          .ok report ∧ report.total = 3 ∧ report.inconsistent = 0 := by
  intro f
  have hconverged : f.Converged ⟨"/apisix", 5000⟩
      ((initial 4 ⟨5000, 100, 10000, 3⟩ ⟨"/apisix", 5000⟩ [.route, .upstream]).changes settledRun) :=
    ⟨by decide +kernel, by decide +kernel⟩
  have hcount : f.storedCount ⟨"/apisix", 5000⟩ = 3 := by decide +kernel
  have hbare : (f.hub.kinds.countP fun kind =>
      f.store.index.contains (Client.keyPrefix ⟨"/apisix", 5000⟩ kind)) = 0 := by decide +kernel
  obtain ⟨report, hreport, htotal, hinconsistent⟩ :=
    verify_converged 4 ⟨5000, 100, 10000, 3⟩ ⟨"/apisix", 5000⟩ [.route, .upstream] settledRun ⟨0⟩ ""
      [[.outside (.operate (.compact 2))], [.outside (.operate (.get "/apisix/routes/c"))]]
      hconverged (by simp [goOffline]) (by decide +kernel)
  exact ⟨report, hreport, htotal.trans hcount, hinconsistent.trans hbare⟩

/-- A stored bare prefix that the loop has passed over is a difference all the same. -/
theorem verify_bare_prefix :
    let start := initial 4 ⟨5000, 100, 10000, 3⟩ ⟨"/apisix", 5000⟩ [.route]
    let moves := joins 0 ++ [.outside (.operate (.put "/apisix/routes/" [] none)), .own 0 .receive]
    let f := start.run moves
    let verified := execute ⟨0⟩ "" (verify ⟨"/apisix", 5000⟩ f.hub.kinds) [] f
    f.Converged ⟨"/apisix", 5000⟩ (start.changes moves) ∧
      verified.2.store.revision = f.store.revision ∧
      verified.1.toOption.map Report.inconsistent = some 1 :=
  ⟨⟨by decide +kernel, by decide +kernel⟩, by decide +kernel, by decide +kernel⟩

end Fleet

end GatewayStore
