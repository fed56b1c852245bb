import WMonitor.Transport

/-!
# Parsing URLs

`url.Parse` of Go 1.26 as far as the program looks at the result: the scheme and the host. A URL is
`[scheme:][//[userinfo@]host[:port]][/path][?query][#fragment]`; the host is percent-decoded and ends
at the first of `/`, `?` and `#`. What becomes of the text of an IPv6 address between brackets, and
how `strings.EqualFold` folds a character, are parameters.
-/

namespace WMonitor

namespace NetURL

def schemeChar (c : Char) : Bool :=
  ('a' ≤ c && c ≤ 'z') || ('A' ≤ c && c ≤ 'Z') || c.isDigit || c = '+' || c = '-' || c = '.'

/-- The scheme and what follows it; `none` if the scheme is missing before a colon. -/
def getScheme (t : List Char) : Option (List Char × List Char) :=
  match t.takeWhile schemeChar, t.dropWhile schemeChar with
  | [], ':' :: _ => none
  | c :: cs, ':' :: rest =>
    if c.isDigit || c = '+' || c = '-' || c = '.' then some ([], t) else some (c :: cs, rest)
  | _, _ => some ([], t)

def isHex (c : Char) : Bool :=
  c.isDigit || ('a' ≤ c && c ≤ 'f') || ('A' ≤ c && c ≤ 'F')

def unhex (c : Char) : ℕ :=
  if c.isDigit then c.toNat - 48 else if 'a' ≤ c then c.toNat - 87 else c.toNat - 55

/-- Every percent sign begins an escape. -/
def validEscapes : List Char → Bool
  | '%' :: a :: b :: cs => isHex a && isHex b && validEscapes cs
  | '%' :: _ => false
  | _ :: cs => validEscapes cs
  | [] => true

/-- The characters that stand for themselves in a host. -/
def hostChar (c : Char) : Bool :=
  0x80 ≤ c.toNat || c.isAlphanum || "-_.~!$&'()*+,;=:[]<>\"".toList.contains c

/-- `unescape` of a host: `pending` are the bytes of the escapes just before. Only bytes that are not
ASCII, and the percent sign itself, may be escaped. -/
def unescapeHost : List UInt8 → List Char → Option (List Char)
  | pending, [] => some (lossyText pending)
  | pending, '%' :: a :: b :: cs =>
    if isHex a && isHex b && (8 ≤ unhex a || (a = '2' && b = '5')) then
      unescapeHost (pending ++ [UInt8.ofNat (16 * unhex a + unhex b)]) cs
    else none
  | pending, c :: cs =>
    if hostChar c then
      (unescapeHost [] cs).map fun rest => lossyText pending ++ c :: rest
    else none

/-- `validOptionalPort`. -/
def validOptionalPort : List Char → Bool
  | [] => true
  | c :: cs => c = ':' && cs.all Char.isDigit

/-- The part of a list before the last `c`, and the part behind it. -/
def splitLast (c : Char) (t : List Char) : Option (List Char × List Char) :=
  (cut c t.reverse).map fun (after, before) => (before.reverse, after.reverse)

/-- `parseHost`. -/
def parseHost (ipLiteral : List Char → Option (List Char)) (host : List Char) :
    Option (List Char) :=
  match host with
  | '[' :: rest => do
    let (literal, port) ← splitLast ']' rest
    if literal.contains '[' || port.contains '[' || !validOptionalPort port then none
    else do
      let name ← ipLiteral literal
      return '[' :: name ++ ']' :: port
  | _ =>
    if host.contains '[' then none
    else if validOptionalPort (host.dropWhile (· ≠ ':')) then unescapeHost [] host
    else none

def validUserinfo (t : List Char) : Bool :=
  t.all fun c => c.isAlphanum || "-._:~!$&'()*+,;=%@".toList.contains c

/-- `parseAuthority`: the host. -/
def parseAuthority (ipLiteral : List Char → Option (List Char)) (authority : List Char) :
    Option (List Char) :=
  match splitLast '@' authority with
  | none => parseHost ipLiteral authority
  | some (userinfo, host) =>
    if validUserinfo userinfo && validEscapes userinfo then parseHost ipLiteral host else none

/-- The host and the path in what follows the scheme, without the query. -/
def parseRest (ipLiteral : List Char → Option (List Char)) (scheme rest : List Char) :
    Option (List Char × List Char) :=
  match rest with
  | '/' :: '/' :: after =>
    if scheme = [] ∧ after.head? = some '/' then some ([], rest)
    else (parseAuthority ipLiteral (after.takeWhile (· ≠ '/'))).map fun host =>
      (host, after.dropWhile (· ≠ '/'))
  | '/' :: _ => some ([], rest)
  | _ =>
    if scheme ≠ [] then some ([], [])
    else if (rest.takeWhile (· ≠ '/')).contains ':' then none else some ([], rest)

/-- `stringContainsCTLByte`. -/
def isCTL (c : Char) : Bool := c.toNat < 0x20 || c.toNat = 0x7F

/-- `url.Parse`. -/
def parse (ipLiteral : List Char → Option (List Char)) (raw : List Char) : Option ParsedURL :=
  let text := raw.takeWhile (· ≠ '#')
  if text.any isCTL then none
  else do
    let (scheme, rest) ← getScheme text
    let (host, path) ← parseRest ipLiteral scheme (rest.takeWhile (· ≠ '?'))
    if validEscapes path && validEscapes (raw.dropWhile (· ≠ '#')) then
      some ⟨String.ofList (scheme.map Char.toLower), String.ofList host⟩
    else none

end NetURL

/-- The URLs of Go. -/
def netURLs (ipLiteral : List Char → Option (List Char)) (fold : Char → Char) : URLs where
  parse raw := NetURL.parse ipLiteral raw.toList
  fold := fold

example : (netURLs some Char.toLower).parse "http://user@Hub.example:8080/a?b#c"
    = some ⟨"http", "Hub.example:8080"⟩ := by decide +kernel

example : (netURLs some Char.toLower).parse "http://h%C3%A9b" = some ⟨"http", "héb"⟩ := by
  decide +kernel

end WMonitor
