import GatewayStore.Hub.Collection
import GatewayStore.Proofs.KeyMap

/-
  The pages of a listing. Sorting is stable: of the rows that compare equal to a given one, and of any
  others of which none comes after another, the sorted list keeps the order (`filter_mergeSort`). The
  rows of a page follow those of the pages before it (`flatMap_pages`), so that the pages together are
  the sorted list (`pages_partition`).
-/

namespace GatewayStore

/-! ## Orders -/

/-- Rows are some resources in an order, and those that compare equal stay as they were. -/
structure SortsStably (compare : Resource → Resource → Ordering) (resources rows : List Resource) :
    Prop where
  perm : rows.Perm resources
  ordered : rows.Pairwise fun a b => compare a b ≠ .gt
  stable : ∀ r, (rows.filter fun a => compare r a = .eq) =
    resources.filter fun a => compare r a = .eq

instance : Std.TransCmp Resource.defaultOrder :=
  inferInstanceAs (Std.TransCmp (compareLex
    (compareLex (compareOn fun r : Resource => r.createTime.toInt)
      (compareOn fun r : Resource => r.updateTime.toInt))
    (compareOn Resource.id)))

/-- A sorted list keeps elements in order none of which has to come after another. -/
theorem filter_mergeSort {α : Type} {le : α → α → Bool}
    (htrans : ∀ a b c, le a b = true → le b c = true → le a c = true)
    (htotal : ∀ a b, (le a b || le b a) = true) {p : α → Bool}
    (hp : ∀ a b, p a = true → p b = true → le a b = true) (l : List α) :
    (l.mergeSort le).filter p = l.filter p := by
  have hpairwise : (l.filter p).Pairwise fun a b => le a b = true :=
    List.pairwise_of_forall_mem_list fun a ha b hb =>
      hp a b (List.mem_filter.1 ha).2 (List.mem_filter.1 hb).2
  have hsublist : (l.filter p).Sublist ((l.mergeSort le).filter p) := by
    have h := (List.sublist_mergeSort htrans htotal hpairwise List.filter_sublist).filter p
    simpa [List.filter_filter] using h
  exact (hsublist.eq_of_length ((List.mergeSort_perm l le).filter p).length_eq.symm).symm

theorem sortsStably_sorted {q : ListQuery} [Std.TransCmp q.compare] (rows : List Resource) :
    SortsStably q.compare (rows.filter q.keeps) (q.sorted rows) := by
  have htrans (a b c : Resource) (hab : (q.compare a b).isLE = true)
      (hbc : (q.compare b c).isLE = true) : (q.compare a c).isLE = true :=
    Std.TransCmp.isLE_trans hab hbc
  have hswap (a b : Resource) : q.compare a b = (q.compare b a).swap := Std.OrientedCmp.eq_swap
  have htotal (a b : Resource) : ((q.compare a b).isLE || (q.compare b a).isLE) = true := by
    rw [hswap b a]
    cases q.compare a b <;> rfl
  refine ⟨List.mergeSort_perm _ _, ?_, fun r => filter_mergeSort htrans htotal ?_ _⟩
  · exact (List.pairwise_mergeSort htrans htotal _).imp Ordering.isLE_iff_ne_gt.1
  · intro a b ha hb
    have har : (q.compare a r).isLE = true := by
      rw [hswap, of_decide_eq_true ha]
      rfl
    have hrb : (q.compare r b).isLE = true := by
      rw [of_decide_eq_true hb]
      rfl
    exact htrans a r b har hrb

/-! ## Pages -/

/-- The first pages of a list are its beginning. -/
theorem flatMap_pages {α : Type} (rows : List α) (size n : Nat) :
    ((List.range n).flatMap fun i => rows.extract (i * size) ((i + 1) * size)) =
      rows.take (n * size) := by
  induction n with
  | zero => simp
  | succ n ih =>
    rw [List.range_succ, List.flatMap_append, ih, List.flatMap_singleton, Nat.succ_mul, List.take_add,
      List.extract_eq_take_drop, Nat.add_sub_cancel_left]

/-- Pages count from one, and page zero is page one. -/
theorem ListQuery.pageOf_eq_extract {α : Type} {q : ListQuery} (hsize : 1 ≤ q.pageSize)
    (rows : List α) : q.pageOf rows =
      rows.extract ((max q.pageNumber 1 - 1) * q.pageSize) (max q.pageNumber 1 * q.pageSize) := by
  have hlength : max q.pageNumber 1 * q.pageSize - (max q.pageNumber 1 - 1) * q.pageSize =
      q.pageSize := by
    rw [← Nat.sub_mul, Nat.sub_sub_self (Nat.le_max_right _ _), Nat.one_mul]
  rw [pageOf, if_neg (Nat.ne_of_gt hsize), drop_rowsBefore, List.extract_eq_take_drop, hlength]

/-! ## The main result -/

namespace Cache

/-- The resources that decode, with their keys. -/
def decoded (c : Cache) : List (String × Resource) :=
  c.entries.entries.filterMap fun e => e.2.resource.map (e.1, ·)

theorem map_snd_decoded (c : Cache) : c.decoded.map Prod.snd = c.resources := by
  simp [decoded, resources, KeyMap.values, List.filterMap_map, List.map_filterMap, Function.comp_def]

theorem mem_decoded {c : Cache} {key : String} {r : Resource} :
    (key, r) ∈ c.decoded ↔ ∃ entry, c.get? key = some entry ∧ entry.resource = some r := by
  simp only [decoded, List.mem_filterMap, Option.map_eq_some_iff, Prod.mk.injEq]
  constructor
  · rintro ⟨e, he, r, hr, rfl, rfl⟩
    exact ⟨e.2, KeyMap.get?_eq_some_iff.2 he, hr⟩
  · rintro ⟨entry, hentry, hr⟩
    exact ⟨(key, entry), KeyMap.get?_eq_some_iff.1 hentry, r, hr, rfl, rfl⟩

theorem pairwise_decoded (c : Cache) : c.decoded.Pairwise fun a b => a.1 < b.1 := by
  refine List.pairwise_filterMap.2 (c.entries.sorted.imp fun {a b} hlt x hx y hy => ?_)
  obtain ⟨_, -, rfl⟩ := Option.map_eq_some_iff.1 hx
  obtain ⟨_, -, rfl⟩ := Option.map_eq_some_iff.1 hy
  exact hlt

/-- The pages of a listing. Without pages, its rows are the resources that decode and are kept, sorted
stably from the order of their keys. With pages of a size, each has the rows at its place, and page zero
is page one; the first pages together are the beginning of the rows; every page tells how many rows there
are; and one beyond the rows is empty, however great its number. -/
theorem pages_partition (c : Cache) (keeps : Resource → Bool)
    (compare : Resource → Resource → Ordering) (size : Nat)
    (hcompare : Std.TransCmp compare ∨ compare = Resource.defaultOrder) (hsize : 1 ≤ size) :
    let rows := (c.list ⟨keeps, compare, 0, 0⟩).rows
    let page (n : Nat) := c.list ⟨keeps, compare, size, n⟩
    (∃ stored : List (String × Resource), (stored.Pairwise fun a b => a.1 < b.1) ∧
      (∀ key r, (key, r) ∈ stored ↔ ∃ entry, c.get? key = some entry ∧ entry.resource = some r) ∧
      SortsStably compare ((stored.map Prod.snd).filter keeps) rows) ∧
    page 0 = page 1 ∧
    (∀ n, 1 ≤ n → (page n).rows = rows.extract ((n - 1) * size) (n * size)) ∧
    (∀ n, ((List.range n).flatMap fun i => (page (i + 1)).rows) = rows.take (n * size)) ∧
    (∀ n, (page n).totalSize = rows.length) ∧
    ∀ n, rows.length ≤ (n - 1) * size → (page n).rows = [] := by
  intro rows page
  obtain hcmp : Std.TransCmp compare := hcompare.elim id fun h => h ▸ inferInstance
  have hpage (n : Nat) :
      (page n).rows = rows.extract ((max n 1 - 1) * size) (max n 1 * size) :=
    ListQuery.pageOf_eq_extract (q := ⟨keeps, compare, size, n⟩) hsize rows
  refine ⟨?_, ?_, fun n hn => ?_, fun n => ?_, fun n => rfl, fun n hn => ?_⟩
  · refine ⟨c.decoded, c.pairwise_decoded, fun _ _ => mem_decoded, ?_⟩
    rw [map_snd_decoded]
    exact sortsStably_sorted (q := ⟨keeps, compare, 0, 0⟩) c.resources
  · rfl
  · rw [hpage, Nat.max_eq_left hn]
  · rw [← flatMap_pages]
    refine congrArg (List.flatMap · _) (funext fun i => ?_)
    rw [hpage, Nat.max_eq_left (Nat.le_add_left 1 i), Nat.add_sub_cancel]
  · rw [hpage, List.extract_eq_take_drop, List.drop_eq_nil_of_le, List.take_nil]
    exact Nat.le_trans hn (Nat.mul_le_mul_right size (Nat.sub_le_sub_right (Nat.le_max_left n 1) 1))

/-- Routes of which one does not decode, and two have the same id and times. -/
def tiedRoutes : Cache :=
  let entry (key : String) (r : Option Resource) : String × CacheEntry :=
    (key, ⟨"/apisix/routes/" ++ key, [], 1, r⟩)
  let route (createTime : Int64) (uri : String) : Option Resource :=
    some ⟨"r", createTime, 9, .ofPairs [("uri", .string uri)]⟩
  { empty .route "/apisix/routes/" with
    entries := .ofPairs [entry "a" (route 8 "/a"), entry "b" none, entry "c" (route 7 "/c"),
      entry "d" (route 7 "/d")] }

theorem pages_partition_tied :
    let page (n : Nat) := tiedRoutes.list ⟨fun _ => true, Resource.defaultOrder, 2, n⟩
    let rows := (page 1).rows ++ (page 2).rows
    rows.length = 3 ∧
      (rows.filter fun r => Resource.defaultOrder ⟨"r", 7, 9, .empty⟩ r = .eq).map
        (·.fieldString? "uri") = [some "/c", some "/d"] ∧
      (page 0).totalSize = 3 ∧ (page (2 ^ 64 - 1)).rows = [] := by
  intro page rows
  obtain ⟨-, -, -, hpages, htotal, hbeyond⟩ :=
    pages_partition tiedRoutes (fun _ => true) Resource.defaultOrder 2 (.inr rfl) (by decide)
  have hsorted := sortsStably_sorted
    (q := ⟨fun _ => true, Resource.defaultOrder, 0, 0⟩) tiedRoutes.resources
  have hlength : (tiedRoutes.list ⟨fun _ => true, Resource.defaultOrder, 0, 0⟩).rows.length = 3 :=
    hsorted.perm.length_eq
  have hrows : rows = (tiedRoutes.list ⟨fun _ => true, Resource.defaultOrder, 0, 0⟩).rows := by
    have htwo := hpages 2
    rw [List.range_succ, List.range_one, List.flatMap_append, List.flatMap_singleton,
      List.flatMap_singleton] at htwo
    exact htwo.trans (List.take_of_length_le (by rw [hlength]; decide))
  refine ⟨(congrArg List.length hrows).trans hlength, ?_, (htotal 0).trans hlength, hbeyond _ ?_⟩
  · rw [hrows]
    refine (congrArg (List.map _) (hsorted.stable ⟨"r", 7, 9, .empty⟩)).trans ?_
    decide +kernel
  · rw [hlength]
    decide

end Cache

end GatewayStore
