/-
  Reports on consistency: which keys have the same value in the store and in the cache. Values are
  compared as bytes and shown as text.
-/
import GatewayStore.Json.Basic
import GatewayStore.Text.Bytes
import GatewayStore.Text.Affix

namespace GatewayStore

/-- A key whose two values differ. A missing value is none. -/
structure InconsistentPair where
  key : String
  stored : Option String
  cached : Option String
deriving DecidableEq

/-- The order in which pairs are listed. -/
def InconsistentPair.precedes (p q : InconsistentPair) : Bool := p.key ≤ q.key

/-- The comparison of one kind. -/
structure KindReport where
  total : Nat
  consistent : Nat
  inconsistent : Nat
  pairs : List InconsistentPair
deriving DecidableEq

/-- The comparison of several kinds, with the sums over them. -/
structure Report where
  total : Nat
  consistent : Nat
  inconsistent : Nat
  items : KeyMap KindReport

namespace KindReport

def empty : KindReport := ⟨0, 0, 0, []⟩

/-- Counts a key that has one value on both sides. -/
def agree (r : KindReport) : KindReport :=
  { r with total := r.total + 1, consistent := r.consistent + 1 }

/-- Counts a key whose values differ, and lists it. -/
def differ (r : KindReport) (key : String) (stored cached : Option Bytes) : KindReport :=
  { r with
    total := r.total + 1
    inconsistent := r.inconsistent + 1
    pairs := r.pairs ++ [⟨key, stored.map Text.lenient, cached.map Text.lenient⟩] }

/-- The report with its pairs in the order of their keys. -/
def ordered (r : KindReport) : KindReport :=
  { r with pairs := r.pairs.mergeSort InconsistentPair.precedes }

end KindReport

/-- Compares a stored value with the cached one, which is taken out of the cached side. -/
def compareStored (reached : KindReport × KeyMap Bytes) (stored : String × Bytes) :
    KindReport × KeyMap Bytes :=
  let (report, cached) := reached
  let (key, value) := stored
  let found := cached.get? key
  (if found = some value then report.agree else report.differ key (some value) found,
    cached.erase key)

/-- Compares two lists of keys with values; of pairs with one key the last counts. What is left of the
cached side is not stored. -/
def diff (stored cached : List (String × Bytes)) : KindReport :=
  let start := (KindReport.empty, KeyMap.ofPairs cached)
  let (report, rest) := (KeyMap.ofPairs stored).entries.foldl compareStored start
  (rest.entries.foldl (fun r e => r.differ e.1 none (some e.2)) report).ordered

namespace InconsistentPair

def textOrNull : Option String → Json
  | none => .null
  | some s => .string s

def toJson (p : InconsistentPair) : Json :=
  .object [("key", .string p.key), ("authoritative_value", textOrNull p.stored),
    ("cached_value", textOrNull p.cached)]

def lines (p : InconsistentPair) : List String :=
  ["[key](" ++ p.key ++ ")", "[etcd](" ++ p.stored.getD "" ++ ")",
    "[cache](" ++ p.cached.getD "" ++ ")"]

end InconsistentPair

/-- A count as JSON. -/
def Json.ofCount (n : Nat) : Json := .ofUInt64 (UInt64.ofNat n)

namespace KindReport

def toJson (r : KindReport) : Json :=
  .object [("total", .ofCount r.total), ("consistent_count", .ofCount r.consistent),
    ("inconsistent_count", .ofCount r.inconsistent),
    ("inconsistent_pairs", .array (r.pairs.map InconsistentPair.toJson))]

def line (name : String) (r : KindReport) : String :=
  Text.padRight 15 name ++ ": " ++ toString r.total ++ " in total," ++ toString r.consistent ++
    " consistent," ++ toString r.inconsistent ++ " inconsistent"

end KindReport

namespace Report

def empty : Report := ⟨0, 0, 0, .empty⟩

/-- Adds the report on one kind to the sums. -/
def add (report : Report) (name : String) (r : KindReport) : Report :=
  ⟨report.total + r.total, report.consistent + r.consistent,
    report.inconsistent + r.inconsistent, report.items.insert name r⟩

def isConsistent (report : Report) : Bool := report.inconsistent = 0

/-- The report as JSON, in the order in which it is printed. -/
def toJson (report : Report) : Json :=
  .object [("total", .ofCount report.total), ("consistent_count", .ofCount report.consistent),
    ("inconsistent_count", .ofCount report.inconsistent),
    ("items", .object (report.items.entries.map fun e => (e.1, e.2.toJson)))]

/-- The report for a reader: the sums, a line for each kind, then every inconsistent key. -/
def render (report : Report) : String :=
  let sums := "There are " ++ toString report.total ++ " items in total, " ++
    toString report.consistent ++ " of them are consistent, " ++ toString report.inconsistent ++
    " of them are inconsistent"
  let kinds := report.items.entries.map fun e => e.2.line e.1
  let pairs := report.items.values.flatMap fun r => r.pairs.flatMap InconsistentPair.lines
  String.join (("cache verification result as follows:" :: sums :: (kinds ++ pairs)).map (· ++ "\n"))

end Report

end GatewayStore
