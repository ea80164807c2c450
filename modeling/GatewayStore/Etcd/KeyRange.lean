/-
  Key ranges. The keys with a prefix are those from the prefix up to, but not including, its end; the
  end of one zero byte means that there is none.
-/
import GatewayStore.Text.Bytes

namespace GatewayStore.Etcd

/-- The end of the keys with a prefix, the prefix being given from its last byte on: the last byte
below 255 is raised, and what follows it dropped. -/
def rangeEndOfReversed : Bytes → Bytes
  | [] => [0]
  | b :: rest => if b < 0xff then (rest.reverse ++ [b + 1]) else rangeEndOfReversed rest

/-- The end of the keys with a prefix. -/
def rangeEnd (keyPrefix : Bytes) : Bytes := rangeEndOfReversed keyPrefix.reverse

end GatewayStore.Etcd
