/-
  Reading JSON: one step for each token over the stack of open containers. A repeated member keeps
  its last value, and at most 127 containers may be open.
-/
import GatewayStore.Json.Token
import GatewayStore.Text.Bytes

namespace GatewayStore.Json

/-- An open container that waits for a value: an array with the elements read so far, the last
first, or an object with its members and the name of the next. -/
inductive Frame where
  | array (elements : List Json)
  | object (members : List (String × Json)) (name : String)

/-- What may come next. Each state holds the containers around it, the innermost first. -/
inductive Reading where
  | value (around : List Frame)
  | firstElement (around : List Frame)
  | afterElement (elements : List Json) (around : List Frame)
  | firstName (around : List Frame)
  | nextName (members : List (String × Json)) (around : List Frame)
  | colon (members : List (String × Json)) (name : String) (around : List Frame)
  | afterMember (members : List (String × Json)) (around : List Frame)
  | finished (value : Json)

namespace Reading

/-- The greatest number of open containers. -/
def maxDepth : Nat := 127

/-- Gives a value to the innermost open container. -/
def deliver (v : Json) : List Frame → Reading
  | [] => .finished v
  | .array elements :: around => .afterElement (v :: elements) around
  | .object members name :: around => .afterMember (Assoc.insert name v members) around

/-- A token where a value is due. -/
def startValue (around : List Frame) : Token → Option Reading
  | .null => some (deliver .null around)
  | .bool b => some (deliver (.bool b) around)
  | .number n => some (deliver (.number n) around)
  | .string s => some (deliver (.string s) around)
  | .openArray => if around.length < maxDepth then some (.firstElement around) else none
  | .openObject => if around.length < maxDepth then some (.firstName around) else none
  | _ => none

/-- One token. -/
def step : Reading → Token → Option Reading
  | .value around, t => startValue around t
  | .firstElement around, .closeArray => some (deliver (.array []) around)
  | .firstElement around, t => startValue (.array [] :: around) t
  | .afterElement elements around, .comma => some (.value (.array elements :: around))
  | .afterElement elements around, .closeArray => some (deliver (.array elements.reverse) around)
  | .firstName around, .closeObject => some (deliver (.object []) around)
  | .firstName around, .string name => some (.colon [] name around)
  | .nextName members around, .string name => some (.colon members name around)
  | .colon members name around, .colon => some (.value (.object members name :: around))
  | .afterMember members around, .comma => some (.nextName members around)
  | .afterMember members around, .closeObject => some (deliver (.object members) around)
  | _, _ => none

/-- The state after all tokens. -/
def run (r : Reading) (tokens : List Token) : Option Reading := tokens.foldlM step r

end Reading

/-- The value of a JSON text. -/
def parse? (s : String) : Option Json := do
  match ← Reading.run (.value []) (← Token.scan s.toList) with
  | .finished v => some v
  | _ => none

/-- The value of a JSON text in UTF-8. -/
def ofBytes? (b : Bytes) : Option Json := (Text.ofUtf8? b).bind parse?

end GatewayStore.Json
