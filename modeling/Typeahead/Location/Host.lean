import Typeahead.Text.Chars
import Typeahead.Text.Quoted

/-! The host part of a URI and what is wrong with one. -/

namespace Typeahead

/-- Why a host is refused. -/
inductive HostError where
  | misplacedBrackets
  | invalidFutureAddress
  | bracketedIPv4
  | notAnAddress (address : String)
  | lookalike (host : String)
  deriving DecidableEq, Repr

namespace HostError

/-- How an error is reported. -/
def message : HostError → String
  | .misplacedBrackets => "Invalid IPv6 URL"
  | .invalidFutureAddress => "IPvFuture address is invalid"
  | .bracketedIPv4 => "An IPv4 address cannot be in brackets"
  | .notAnAddress address =>
    Text.quoted address ++ " does not appear to be an IPv4 or IPv6 address"
  | .lookalike host =>
    "netloc '" ++ host ++ "' contains invalid characters under NFKC normalization"

end HostError

namespace Host

/-- A number from 0 to 255 without leading zeros. -/
def isOctet (cs : List Char) : Bool :=
  !cs.isEmpty && cs.all Char.isDigit && cs.length ≤ 3 &&
    (cs.length == 1 || cs.head? != some '0') &&
    cs.foldl (fun n c => n * 10 + (c.toNat - '0'.toNat)) 0 ≤ 255

/-- Four numbers with points between them. -/
def isIPv4 (cs : List Char) : Bool :=
  let octets := cs.splitOn '.'
  octets.length == 4 && octets.all isOctet

/-- One to four hexadecimal digits. -/
def isHextet (cs : List Char) : Bool :=
  !cs.isEmpty && cs.length ≤ 4 && cs.all Text.isHex

/-- The parts of an IPv6 address, a trailing IPv4 address counted as two; `none` if that one is not
well formed. -/
def hextets? (cs : List Char) : Option (List (List Char)) :=
  let parts := cs.splitOn ':'
  let last := parts.getLastD []
  if parts.length < 3 then none
  else if last.contains '.' then
    if isIPv4 last then some (parts.dropLast ++ [['0'], ['0']]) else none
  else some parts

/-- The places of the empty parts that are neither first nor last. -/
def gaps (parts : List (List Char)) : List Nat :=
  (List.range parts.length).filter fun i =>
    0 < i && i + 1 < parts.length && (parts.getD i []).isEmpty

/-- Eight groups of hexadecimal digits; one run of zero groups may be left out. -/
def isHextets (parts : List (List Char)) : Bool :=
  match gaps parts with
  | [] => parts.length == 8 && parts.all isHextet
  | [gap] =>
    let high := parts.take gap
    let low := parts.drop (gap + 1)
    let high := if high == [[]] then [] else high
    let low := if low == [[]] then [] else low
    parts.length ≤ 9 && high.length + low.length < 8 && high.all isHextet && low.all isHextet
  | _ => false

/-- An IPv6 address, with an optional zone after a percent sign. -/
def isIPv6 (cs : List Char) : Bool :=
  let zoneFits :=
    match cs.splitOn '%' with
    | [_] => true
    | [_, zone] => !zone.isEmpty
    | _ => false
  zoneFits && (hextets? ((cs.splitOn '%').headD [])).any isHextets

/-- An address of a form yet to be defined: `v`, a version, a point and some text on one line. -/
def isFutureAddress (cs : List Char) : Bool :=
  match cs with
  | 'v' :: rest =>
    let (version, tail) := Text.cut (!Text.isHex ·) rest
    match tail with
    | '.' :: address => !version.isEmpty && !address.isEmpty && !address.contains '\n'
    | _ => false
  | _ => false

/-- What is wrong with an address in brackets. -/
def addressFault? (cs : List Char) : Option HostError :=
  if cs.head? == some 'v' then
    if isFutureAddress cs then none else some .invalidFutureAddress
  else if isIPv4 cs then some .bracketedIPv4
  else if isIPv6 cs then none
  else some (.notAnAddress (String.ofList cs))

/-- The host and port without what names a user, which ends with the last `@`. -/
def withoutUser (host : List Char) : List Char :=
  (host.reverse.takeWhile (· != '@')).reverse

/-- The address of a host that holds brackets: what they enclose, or what comes before the port if
they belong to the user. `none` if anything but a port stands beside them. -/
def address? (host : List Char) : Option (List Char) :=
  match Text.cut (· == '[') (withoutUser host) with
  | (host, []) => some (Text.cut (· == ':') host).1
  | ([], _ :: rest) =>
    let (address, rest) := Text.cut (· == ']') rest
    match rest with
    | [] | [_] | _ :: ':' :: _ => some address
    | _ => none
  | _ => none

/-- What is wrong with the brackets of a host. -/
def bracketFault? (host : List Char) : Option HostError :=
  match host.contains '[', host.contains ']' with
  | true, true =>
    match address? host with
    | some address => addressFault? address
    | none => some .misplacedBrackets
  | false, false => none
  | _, _ => some .misplacedBrackets

/-- The characters whose compatibility form holds one of `/ ? # @ :`, which mean something in a
URI. -/
def lookalikes : List Nat :=
  [0x2047, 0x2048, 0x2049, 0x2100, 0x2101, 0x2105, 0x2106, 0x2a74, 0xfe13, 0xfe16, 0xfe55, 0xfe56,
   0xfe5f, 0xfe6b, 0xff03, 0xff0f, 0xff1a, 0xff1f, 0xff20]

/-- What is wrong with a host. -/
def fault? (host : List Char) : Option HostError :=
  match bracketFault? host with
  | some error => some error
  | none =>
    if host.any fun c => lookalikes.contains c.toNat then some (.lookalike (String.ofList host))
    else none

end Host

end Typeahead
