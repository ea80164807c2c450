/-
  Listing resources: a filter, an order and a page.
-/
import GatewayStore.Resource.Basic

namespace GatewayStore

/-- A field by which listings are filtered and ordered: the id, or a payload field that is a
string. -/
def Resource.column? (r : Resource) (name : String) : Option String :=
  if name = "id" then some r.id else r.fieldString? name

/-- What is asked of a column. -/
inductive ColumnTest where
  | present
  | equals (text : String)
  | startsWith (start : String)
deriving DecidableEq

namespace ColumnTest

def holds : ColumnTest → Option String → Bool
  | _, none => false
  | .present, some _ => true
  | .equals text, some s => s = text
  | .startsWith start, some s => Text.startsWith start s

end ColumnTest

/-- Texts by their characters; an absent text comes first. -/
def compareOptional : Option String → Option String → Ordering
  | none, none => .eq
  | none, some _ => .lt
  | some _, none => .gt
  | some a, some b => compareOfLessAndEq a b

def compareTimes (a b : Int64) : Ordering := compareOfLessAndEq a.toInt b.toInt

/-- Create time, then update time, then id. -/
def Resource.defaultOrder (a b : Resource) : Ordering :=
  ((compareTimes a.createTime b.createTime).then (compareTimes a.updateTime b.updateTime)).then
    (compareOfLessAndEq a.id b.id)

/-- What a listing is ordered by. -/
inductive SortKey where
  | createTime
  | updateTime
  | column (name : String)
deriving DecidableEq

namespace SortKey

def compare : SortKey → Resource → Resource → Ordering
  | .createTime, a, b => compareTimes a.createTime b.createTime
  | .updateTime, a, b => compareTimes a.updateTime b.updateTime
  | .column name, a, b => compareOptional (a.column? name) (b.column? name)

end SortKey

/-- A filter, an order, and a page. A page size of zero means one page for all. -/
structure ListQuery where
  keeps : Resource → Bool
  compare : Resource → Resource → Ordering
  pageSize : Nat
  pageNumber : Nat

/-- A page of rows and the number of rows on all pages. -/
structure ListResult where
  rows : List Resource
  totalSize : Nat

namespace ListQuery

/-- Every row in the default order. -/
def all : ListQuery := ⟨fun _ => true, Resource.defaultOrder, 0, 0⟩

/-- The rows that are kept, in order; rows that compare equal stay in place. -/
def sorted (q : ListQuery) (rows : List Resource) : List Resource :=
  (rows.filter q.keeps).mergeSort fun a b => (q.compare a b).isLE

/-- The greatest number of a word. -/
def maxWord : Nat := 2 ^ 64 - 1

/-- How many of so many rows come before the page; pages count from one. The product stops at the
greatest word, or at the number of rows if that could be greater. -/
def rowsBefore (q : ListQuery) (count : Nat) : Nat :=
  min ((max q.pageNumber 1 - 1) * q.pageSize) (max maxWord count)

/-- The rows of the page. -/
def pageOf (q : ListQuery) (rows : List α) : List α :=
  if q.pageSize = 0 then rows else (rows.drop (q.rowsBefore rows.length)).take q.pageSize

def run (q : ListQuery) (rows : List Resource) : ListResult :=
  ⟨q.pageOf (q.sorted rows), (q.sorted rows).length⟩

/-- Where the product stops there are no rows left. -/
theorem drop_rowsBefore (q : ListQuery) (rows : List α) :
    rows.drop (q.rowsBefore rows.length) =
      rows.drop ((max q.pageNumber 1 - 1) * q.pageSize) := by
  unfold rowsBefore
  rcases Nat.le_total ((max q.pageNumber 1 - 1) * q.pageSize) (max maxWord rows.length) with h | h
  · rw [Nat.min_eq_left h]
  · have hcount := Nat.le_max_right maxWord rows.length
    rw [Nat.min_eq_right h, List.drop_eq_nil_of_le hcount,
      List.drop_eq_nil_of_le (Nat.le_trans hcount h)]

end ListQuery

end GatewayStore
