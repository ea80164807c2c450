/-
  JSON values. Integers keep their exact value; every other number is a floating-point number.
  A value read from text has its object members in key order.
-/
import GatewayStore.KeyMap
import GatewayStore.Number.Binary64

namespace GatewayStore

namespace Json

/-- Integers lie between the least signed and the greatest unsigned number of 64 bits. -/
inductive Number where
  | integer (value : Int) (fits : -2 ^ 63 ≤ value ∧ value < 2 ^ 64)
  | float (value : Binary64)
deriving DecidableEq

end Json

/-- A JSON value. -/
inductive Json where
  | null
  | bool (value : Bool)
  | number (value : Json.Number)
  | string (value : String)
  | array (elements : List Json)
  | object (members : List (String × Json))
deriving Inhabited

namespace Json

/-- An integer, if it fits. -/
def integer? (i : Int) : Option Json :=
  if h : -2 ^ 63 ≤ i ∧ i < 2 ^ 64 then some (.number (.integer i h)) else none

/-- A number of 64 bits as a JSON value. -/
def ofUInt64 (n : UInt64) : Json :=
  .number (.integer n.toNat ⟨by omega, by have := n.toNat_lt; omega⟩)

/-- A signed number of 64 bits as a JSON value. -/
def ofInt64 (i : Int64) : Json :=
  .number (.integer i.toInt ⟨by have := i.le_toInt; omega, by have := i.toInt_lt; omega⟩)

def string? : Json → Option String
  | .string s => some s
  | _ => none

def isObject : Json → Bool
  | .object _ => true
  | _ => false

/-- The member of an object with this name. -/
def member? (name : String) : Json → Option Json
  | .object members => Assoc.get? name members
  | _ => none

/-- How many containers are open at the deepest place. -/
def depth : Json → Nat
  | .array elements => depths elements + 1
  | .object members => memberDepths members + 1
  | _ => 0
where
  depths : List Json → Nat
    | [] => 0
    | v :: rest => max v.depth (depths rest)
  memberDepths : List (String × Json) → Nat
    | [] => 0
    | (_, v) :: rest => max v.depth (memberDepths rest)

/-- The members of every object are in strictly ascending key order. -/
def Ordered : Json → Prop
  | .array elements => orderedElements elements
  | .object members => Assoc.Sorted members ∧ orderedMembers members
  | _ => True
where
  orderedElements : List Json → Prop
    | [] => True
    | v :: rest => v.Ordered ∧ orderedElements rest
  orderedMembers : List (String × Json) → Prop
    | [] => True
    | (_, v) :: rest => v.Ordered ∧ orderedMembers rest

/-- No number in the value is a floating-point number. -/
def FloatFree : Json → Prop
  | .number (.float _) => False
  | .array elements => floatFreeElements elements
  | .object members => floatFreeMembers members
  | _ => True
where
  floatFreeElements : List Json → Prop
    | [] => True
    | v :: rest => v.FloatFree ∧ floatFreeElements rest
  floatFreeMembers : List (String × Json) → Prop
    | [] => True
    | (_, v) :: rest => v.FloatFree ∧ floatFreeMembers rest

end Json

end GatewayStore
