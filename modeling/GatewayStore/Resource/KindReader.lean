/-
  The JSON form of a kind: its singular name, alone or as the only member of an object, whose value is
  null.
-/
import GatewayStore.Json.Token
import GatewayStore.Resource.Kind

namespace GatewayStore.Kind

/-- The kind of a JSON text. -/
def parseJson? (text : String) : Option Kind :=
  match Json.Token.scan text.toList with
  | some [.string name] => ofSingular? name
  | some [.openObject, .string name, .colon, .null, .closeObject] => ofSingular? name
  | _ => none

end GatewayStore.Kind
