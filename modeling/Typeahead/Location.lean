import Typeahead.Location.Host
import Typeahead.Path
import Typeahead.Text.Utf8

/-! Document locations: `file:` URIs and plain paths. -/

namespace Typeahead

/-- Why a location names no path. -/
inductive LocationError where
  | malformedEscape (offset : Nat) (location : String)
  | undecodable (location : String) (fault : Utf8.Fault)
  | host (error : HostError)
  deriving DecidableEq, Repr

namespace LocationError

/-- How an error is reported. -/
def message : LocationError → String
  | .malformedEscape offset location =>
    "Malformed percent-encoding at offset " ++ toString offset ++ " in " ++ location
  | .undecodable location fault =>
    "Cannot decode document location " ++ location ++ ": " ++ fault.message
  | .host error => error.message

/-- Whether the percent-encoding is at fault. -/
def isDecodeError : LocationError → Bool
  | .malformedEscape .. | .undecodable .. => true
  | .host _ => false

end LocationError

namespace Location

/-- The byte that an escape stands for, after its percent sign. -/
def escaped? : List Char → Option UInt8
  | a :: b :: _ =>
    match Text.hexDigit? a, Text.hexDigit? b with
    | some x, some y => some (UInt8.ofNat (x * 16 + y))
    | _, _ => none
  | _ => none

/-- The offset of the first percent sign that starts no escape. -/
def malformedEscape? (offset : Nat) : List Char → Option Nat
  | [] => none
  | c :: cs =>
    if c = '%' ∧ (escaped? cs).isNone then some offset else malformedEscape? (offset + 1) cs

/-- The bytes of a text, escapes replaced by the bytes they stand for. A percent sign that starts
no escape is taken as it is. -/
def bytes : List Char → List UInt8
  | [] => []
  | '%' :: a :: b :: cs =>
    match escaped? [a, b] with
    | some byte => byte :: bytes cs
    | none => Utf8.encode ['%'] ++ bytes (a :: b :: cs)
  | c :: cs => Utf8.encode [c] ++ bytes cs

/-- A text cut where ASCII characters and others meet. -/
def runs : List Char → List (List Char)
  | [] => []
  | c :: cs =>
    match runs cs with
    | (d :: run) :: rest =>
      if Text.inAscii c = Text.inAscii d then (c :: d :: run) :: rest else [c] :: (d :: run) :: rest
    | rest => [c] :: rest

/-- Replaces the escapes of an ASCII run; another run is kept. -/
def unescapeRun (run : List Char) : Except Utf8.Fault (List Char) :=
  if run.all Text.inAscii then Utf8.decodeFrom 0 (bytes run) else .ok run

/-- Replaces escapes. The bytes of each ASCII run must be a text of their own, and a fault is
counted from the start of its run. -/
def unescape (cs : List Char) : Except Utf8.Fault (List Char) :=
  ((runs cs).mapM unescapeRun).map List.flatten

/-- Replaces escapes, and what is no text by replacement characters. -/
def unescapeLossy (cs : List Char) : List Char :=
  (runs cs).flatMap fun run => if run.all Text.inAscii then Utf8.decodeLossy (bytes run) else run

/-- The host and the path of what follows the scheme of a URI. Tabs and line ends do not count; a
query and a fragment are cut off. -/
def hostAndPath (cs : List Char) : List Char × List Char :=
  let cs := cs.filter fun c => !(c == '\t' || c == '\n' || c == '\r')
  let (host, rest) :=
    match cs with
    | '/' :: '/' :: cs => Text.cut (fun c => c == '/' || c == '?' || c == '#') cs
    | _ => ([], cs)
  (host, (Text.cut (fun c => c == '?' || c == '#') rest).1)

/-- Drops the slash before a drive letter. -/
def dropDriveSlash : List Char → List Char
  | sep :: letter :: ':' :: cs =>
    if (sep == '/' || sep == '\\') && letter.isAlpha then letter :: ':' :: cs
    else sep :: letter :: ':' :: cs
  | cs => cs

/-- The scheme of the locations that are URIs. -/
def scheme : List Char := ['f', 'i', 'l', 'e', ':']

/-- The path of a `file:` URI, given after its scheme. A host other than this one becomes the first
part of the path. -/
def ofUri (location : String) (rest : List Char) : Except LocationError String :=
  match malformedEscape? 0 location.toList with
  | some offset => .error (.malformedEscape offset location)
  | none =>
    let (host, path) := hostAndPath rest
    match Host.fault? host with
    | some error => .error (.host error)
    | none =>
      match unescape path with
      | .error fault => .error (.undecodable location fault)
      | .ok path =>
        let path :=
          if host.isEmpty || host == "localhost".toList then path else '/' :: '/' :: host ++ path
        .ok (String.ofList (dropDriveSlash path))

/-- The path of a location. A URI is decoded, a relative path is taken from the working directory,
and an absolute one is kept as it is. -/
def toPath (cwd location : String) : Except LocationError String :=
  if scheme.isPrefixOf location.toList then
    ofUri location (location.toList.drop scheme.length)
  else if Path.isAbsolute location then
    .ok location
  else
    .ok (Path.normalize (Path.join cwd location))

/-- The directory of a location, with a slash at its end; empty if its path has no slash. -/
def directory (cwd location : String) : Except LocationError String :=
  (toPath cwd location).map Path.parent

/-- The scheme of a URI in lower case, and what follows it. Without a scheme it is empty. -/
def splitScheme (cs : List Char) : List Char × List Char :=
  let (name, rest) := Text.cut (· == ':') cs
  let fits := name.head?.any Char.isAlpha &&
    name.all fun c => c.isAlphanum || c == '+' || c == '-' || c == '.'
  match rest with
  | _ :: rest => if fits then (name.map Char.toLower, rest) else ([], cs)
  | [] => ([], cs)

/-- The schemes whose paths may end with parameters after a semicolon. -/
def parametrised : List String :=
  ["", "ftp", "hdl", "prospero", "http", "imap", "https", "shttp", "rtsp", "rtspu", "sip", "sips",
   "mms", "sftp", "tel"]

/-- A path without the parameters of its last part. -/
def dropParameters (path : List Char) : List Char :=
  let last := (path.reverse.takeWhile (· != '/')).reverse
  path.take (path.length - last.length) ++ last.takeWhile (· != ';')

/-- Drops the slash before a drive letter and writes the letter in lower case. -/
def lowerDrive : List Char → List Char
  | '/' :: letter :: ':' :: cs =>
    if letter.isAlpha then letter.toLower :: ':' :: cs else '/' :: letter :: ':' :: cs
  | cs => cs

/-- The path under which a document that is not open is looked for. Any scheme will do, but only the
path of a file has a host or a drive; escapes that are no text do not matter. -/
def documentPath (uri : String) : Except HostError String :=
  let cs := (uri.toList.dropWhile fun c => c.toNat ≤ 0x20).filter fun c =>
    !(c == '\t' || c == '\n' || c == '\r')
  let (scheme, rest) := splitScheme cs
  let (host, path) := hostAndPath rest
  match Host.fault? host with
  | some error => .error error
  | none =>
    let path := if parametrised.contains (String.ofList scheme) then dropParameters path else path
    let host := unescapeLossy host
    let path := unescapeLossy path
    if scheme != "file".toList then .ok (String.ofList path)
    else if host.isEmpty || path.isEmpty then .ok (String.ofList (lowerDrive path))
    else .ok (String.ofList ('/' :: '/' :: host ++ path))

end Location

end Typeahead
