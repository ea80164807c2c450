/-
  Which texts are addresses of a server: an optional scheme, an authority and a path.
-/
import GatewayStore.Failure
import GatewayStore.Text.Bytes

namespace GatewayStore.Etcd

/-- Characters of a scheme. -/
def isSchemeChar (c : Char) : Bool :=
  c.isAlphanum || c = '+' || c = '-' || c = '.' || c = '~'

/-- Characters of an authority besides its brackets, colons, at signs and percent signs. -/
def isAuthorityChar (c : Char) : Bool :=
  c.isAlphanum || "!$&'()*+,-.;=_~".toList.contains c

def isAuthorityEnd (c : Char) : Bool := c = '/' || c = '?' || c = '#'

/-- Characters of a path; those beyond ASCII are among them. -/
def isPathChar (c : Char) : Bool :=
  let n := c.toNat
  n = 0x21 || n = 0x22 || (0x24 ≤ n && n ≤ 0x3B) || n = 0x3D || (0x40 ≤ n && n ≤ 0x5F) ||
    (0x61 ≤ n && n ≤ 0x7E) || 0x80 ≤ n

/-- Characters of a query; those beyond ASCII are among them. -/
def isQueryChar (c : Char) : Bool :=
  let n := c.toNat
  n = 0x21 || (0x24 ≤ n && n ≤ 0x3B) || n = 0x3D || (0x3F ≤ n && n ≤ 0x7E) || 0x80 ≤ n

/-- What has been seen of an authority. -/
structure AuthorityScan where
  colons : Nat
  opened : Bool
  closed : Bool
  percent : Bool
  endsWithAt : Bool
deriving DecidableEq

namespace AuthorityScan

def start : AuthorityScan := ⟨0, false, false, false, false⟩

/-- The most colons, as in an address of eight groups and a port. -/
def maxColons : Nat := 8

/-- One character. What comes before an at sign and inside brackets does not count for the port. -/
def step (s : AuthorityScan) (c : Char) : Option AuthorityScan :=
  let s := { s with endsWithAt := c = '@' }
  if c = ':' then
    if maxColons ≤ s.colons then none else some { s with colons := s.colons + 1 }
  else if c = '[' then
    if s.percent || s.opened then none else some { s with opened := true }
  else if c = ']' then
    if !s.opened || s.closed then none
    else some { s with closed := true, colons := 0, percent := false }
  else if c = '@' then some { s with colons := 0, percent := false }
  else if c = '%' then some { s with percent := true }
  else if isAuthorityChar c then some s
  else none

/-- Whether the authority may end here. -/
def isComplete (s : AuthorityScan) : Bool :=
  s.opened = s.closed && s.colons ≤ 1 && !s.endsWithAt && !s.percent

end AuthorityScan

def isAuthority (s : List Char) : Bool :=
  (s.foldlM AuthorityScan.step .start).any AuthorityScan.isComplete

/-- A path, and a query after a question mark; what follows a number sign does not matter. -/
def isPathAndQuery (s : List Char) : Bool :=
  let s := s.takeWhile (· ≠ '#')
  (s.takeWhile (· ≠ '?')).all isPathChar && ((s.dropWhile (· ≠ '?')).drop 1).all isQueryChar

/-- The longest scheme. -/
def maxScheme : Nat := 64

/-- The longest address in bytes. -/
def maxAddress : Nat := 65534

/-- Whether a text has a scheme, an authority and a path. -/
def isFullAddress (uri : List Char) : Bool :=
  let scheme := uri.takeWhile isSchemeChar
  match uri.drop scheme.length with
  | ':' :: '/' :: '/' :: rest =>
    let authority := rest.takeWhile fun c => !isAuthorityEnd c
    scheme.length ≤ maxScheme && !authority.isEmpty && isAuthority authority &&
      isPathAndQuery (rest.drop authority.length)
  | _ => false

/-- Whether a text is a full address or a path alone. -/
def isAddress (uri : String) : Bool :=
  uri.utf8ByteSize ≤ maxAddress && match uri.toList with
    | '/' :: rest => isPathAndQuery ('/' :: rest)
    | s => isFullAddress s

/-- Whether some text occurs in another. -/
def containsList (part : List Char) : List Char → Bool
  | [] => part.isEmpty
  | c :: rest => part.isPrefixOf (c :: rest) || containsList part rest

/-- The address of an endpoint: without a scheme it is taken for one of plain HTTP. -/
def addressOf (endpoint : String) : String :=
  if containsList "://".toList endpoint.toList then endpoint else "http://" ++ endpoint

/-- Checks the endpoints in order; there has to be one. -/
def checkEndpoints (endpoints : List String) : Except Outage Unit :=
  if endpoints.isEmpty then .error .noEndpoints
  else endpoints.forM fun endpoint =>
    let uri := addressOf endpoint
    if isAddress uri then .ok () else .error (.invalidEndpoint uri)

end GatewayStore.Etcd
