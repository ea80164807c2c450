import GatewayStore.Hub.Verification
import GatewayStore.Proofs.Hub.Execution
import GatewayStore.Proofs.KeyMap
import GatewayStore.Proofs.Resource.Prefixes
import GatewayStore.Report
import Mathlib.Data.List.Nodup

/-
  The sums of a report and its items. Among the items a report takes the place of an earlier one on the
  same name, but the sums keep both. So the sums are those over the items and over what was replaced
  (`sums_ofLog`). They match the items if no name comes twice (`replaced_eq_nil_iff`), as in a
  verification (`sums_verify`).
-/

namespace GatewayStore

namespace Report

/-- The report after some additions, the latest first. -/
def ofLog (log : List (String × KindReport)) : Report :=
  log.foldr (fun e report => report.add e.1 e.2) .empty

/-- The reports of which a later one took the place. -/
def replaced : List (String × KindReport) → List KindReport
  | [] => []
  | e :: earlier => (earlier.lookup e.1).toList ++ replaced earlier

/-- A count over the items. -/
def itemSum (report : Report) (count : KindReport → Nat) : Nat :=
  (report.items.values.map count).sum

/-- The sums are those over the items and over some lost reports. -/
structure Sums (report : Report) (lost : List KindReport) : Prop where
  total_eq : report.total = report.itemSum KindReport.total + (lost.map KindReport.total).sum
  consistent_eq : report.consistent =
    report.itemSum KindReport.consistent + (lost.map KindReport.consistent).sum
  inconsistent_eq : report.inconsistent =
    report.itemSum KindReport.inconsistent + (lost.map KindReport.inconsistent).sum

/-- A sum that is kept as the sum of a count. -/
structure Tallies (sum : Report → Nat) (count : KindReport → Nat) : Prop where
  empty_eq : sum .empty = 0
  add_eq : ∀ (report : Report) (name : String) (r : KindReport),
    sum (report.add name r) = sum report + count r

variable {report : Report} {lost : List KindReport} {log : List (String × KindReport)}

/-! ## Additions -/

/-- The item of a name is the latest report on it. -/
theorem get?_items_ofLog (log : List (String × KindReport)) (name : String) :
    (ofLog log).items.get? name = log.lookup name := by
  induction log with
  | nil => rfl
  | cons e log ih =>
    show ((ofLog log).items.insert e.1 e.2).get? name = _
    rw [KeyMap.get?_insert, ih, List.lookup_cons]
    by_cases hname : name = e.1
    · simp [hname]
    · simp [hname, beq_false_of_ne hname]

/-- An addition counts the new report among the items, and no longer the one before it. -/
theorem itemSum_add (report : Report) (count : KindReport → Nat) (name : String) (r : KindReport) :
    (report.add name r).itemSum count + ((report.items.get? name).toList.map count).sum =
      report.itemSum count + count r := by
  have hsum := report.items.sum_values_insert count name r
  cases hget : report.items.get? name <;> simpa [hget, itemSum, add] using hsum

theorem Tallies.ofLog_eq {sum : Report → Nat} {count : KindReport → Nat} (h : Tallies sum count)
    (log : List (String × KindReport)) :
    sum (ofLog log) = (ofLog log).itemSum count + ((replaced log).map count).sum := by
  induction log with
  | nil => exact h.empty_eq
  | cons e log ih =>
    have hitems := (ofLog log).itemSum_add count e.1 e.2
    rw [get?_items_ofLog] at hitems
    calc sum ((ofLog log).add e.1 e.2)
      _ = (ofLog log).itemSum count + count e.2 + ((replaced log).map count).sum := by
        rw [h.add_eq, ih]
        omega
      _ = ((ofLog log).add e.1 e.2).itemSum count + ((log.lookup e.1).toList.map count).sum +
          ((replaced log).map count).sum := by rw [hitems]
      _ = ((ofLog log).add e.1 e.2).itemSum count + ((replaced (e :: log)).map count).sum := by
        rw [replaced, List.map_append, List.sum_append, Nat.add_assoc]

theorem sums_ofLog (log : List (String × KindReport)) : (ofLog log).Sums (replaced log) where
  total_eq := Tallies.ofLog_eq ⟨rfl, fun _ _ _ => rfl⟩ log
  consistent_eq := Tallies.ofLog_eq ⟨rfl, fun _ _ _ => rfl⟩ log
  inconsistent_eq := Tallies.ofLog_eq ⟨rfl, fun _ _ _ => rfl⟩ log

/-- Nothing is replaced exactly if no name comes twice. -/
theorem replaced_eq_nil_iff : replaced log = [] ↔ (log.map Prod.fst).Nodup := by
  induction log with
  | nil => simp [replaced]
  | cons e log ih =>
    have hlookup : log.lookup e.1 = none ↔ e.1 ∉ log.map Prod.fst := by
      rw [List.lookup_eq_none_iff, List.mem_map]
      constructor
      · rintro h ⟨e', he', heq⟩
        simpa [heq] using h e' he'
      · exact fun h e' he' => bne_iff_ne.2 fun heq => h ⟨e', he', heq.symm⟩
    rw [replaced, List.append_eq_nil_iff, Option.toList_eq_nil_iff, ih, hlookup, List.map_cons,
      List.nodup_cons]

/-- A verification adds a report for each of its kinds, in their order. -/
theorem exists_ofLog_verifyFrom {σ : Type} (around : Surroundings σ) (client : Client)
    (log : List (String × KindReport)) {kinds : List Kind} {s : σ}
    (h : ((verifyFrom client (ofLog log) kinds).execute around s).outcome = .ok report) :
    ∃ log', report = ofLog log' ∧
      log'.map Prod.fst = (kinds.map Kind.name).reverse ++ log.map Prod.fst := by
  induction kinds generalizing log s with
  | nil =>
    cases h
    exact ⟨log, rfl, rfl⟩
  | cons kind rest ih =>
    let served := around.serve s (.range (client.keyPrefix kind))
    simp only [verifyFrom, Program.request, Program.caches, bind, Program.bind, Program.execute] at h
    cases hanswer : served.1 with
    | error cause =>
      rw [hanswer] at h
      cases h
    | ok listing =>
      rw [hanswer] at h
      simp only [Program.ofExcept, Program.bind, Program.execute] at h
      cases hcache : around.caches served.2 kind with
      | none =>
        rw [hcache] at h
        cases h
      | some cache =>
        rw [hcache] at h
        obtain ⟨log', hreport, hnames⟩ := ih ((kind.name, cache.compare listing) :: log) h
        refine ⟨log', hreport, ?_⟩
        rw [hnames]
        simp

/-- The sums of a verification match its items: it takes each kind once, and no two kinds have one
name. -/
theorem sums_verify {σ : Type} (around : Surroundings σ) (client : Client) {kinds : List Kind}
    (hkinds : kinds.Nodup) {s : σ}
    (h : ((verify client kinds).execute around s).outcome = .ok report) : report.Sums [] := by
  obtain ⟨log, rfl, hnames⟩ := exists_ofLog_verifyFrom around client [] h
  have hinjective : Function.Injective Kind.name := fun a b heq =>
    List.inj_on_of_nodup_map (by decide) (Kind.mem_all a) (Kind.mem_all b) heq
  have hreplaced : replaced log = [] := by
    rw [replaced_eq_nil_iff, hnames, List.map_nil, List.append_nil, List.nodup_reverse]
    exact hkinds.map hinjective
  rw [← hreplaced]
  exact sums_ofLog log

/-! ## The main result -/

end Report

end GatewayStore
