/-
The standard server. A body is read as JSON if it is declared to be JSON and
no longer than bodies may be; a body that is no JSON is null. An answer is
written on one line, or indented in debug mode, and sent in units of eight
bits, which a half of a surrogate pair has none of.

How deep a body may be nested, and arrays inside arrays, is what the stack
leaves room for where they are read, so a server is made from both depths.

The program runs in this server. The theory of the service does not rest on
it: there the server may be any one that keeps a few laws
(`Server.Documented`).
-/
import VarSection.Json.Writer
import VarSection.Service.Envelope
import VarSection.Service.Standard.Environment
import VarSection.Service.Standard.Routing

namespace VarSection

-- ========================================================= reading bodies

namespace Request

/-- The characters that do not count at the ends of a declared type. -/
def isBlank (c : Char) : Bool :=
  c == ' ' || ('\t' ≤ c && c ≤ '\r') || ('\u001c' ≤ c && c ≤ '\u001f') ||
    c == '\u0085' || c == '\u00a0'

/-- The declared type of the body, without parameters, in lower case. -/
def mediaType (r : Request) : List Char :=
  let type := (r.contentType.toList.takeWhile (· != ';')).dropWhile isBlank
  (type.reverse.dropWhile isBlank).reverse.map Char.toLower

/-- Whether the body is declared to be JSON. -/
def isJson (r : Request) : Bool :=
  r.mediaType = "application/json".toList ||
    ("application/".toList.isPrefixOf r.mediaType &&
      "+json".toList.isSuffixOf r.mediaType)

/-- Whether a body is longer than a limit in bytes. Null is no limit, and a
body without bytes is not measured. -/
def bodyExceeds (limit : Json) (r : Request) : Except Raised Bool :=
  match limit with
  | .null => .ok false
  | limit =>
    if r.body.isEmpty then .ok false else exceeds r.body.size limit

/-- What is raised for lists or objects that lie too deep. -/
def tooDeep (kind : Text) : Raised :=
  .other ("maximum recursion depth exceeded while decoding a JSON " ++ kind ++
    " from a unicode string")

/-- The body of a request as JSON, where lists and objects may be nested
`depth` deep. -/
def readJson (depth : Nat) (settings : Settings) (r : Request) :
    Except Raised Json :=
  if !r.isJson then .ok .null
  else
    match r.bodyExceeds (settings.get "MAX_CONTENT_LENGTH") with
    | .error what => .error what
    | .ok true =>
      .error (.http 413
        "The data value transmitted exceeds the capacity limit.")
    | .ok false =>
      match (Text.ofBytes? r.body).map (Json.read depth) with
      | some (.ok value) => .ok value
      | some (.error .listTooDeep) => .error (tooDeep "array")
      | some (.error .objectTooDeep) => .error (tooDeep "object")
      | some (.error .malformed) | none => .ok .null

end Request

-- ======================================================== writing answers

/-- JSON as the text of an answer: indented in debug mode, and a line of
its own. -/
def bodyText (settings : Settings) (value : Json) : Text :=
  (if (settings.get "DEBUG").isTruthy then value.indented
    else value.compact) ++ "\n"

/-- The wording for halves of surrogate pairs, of which the first ones in a
row stand at a place. -/
def unencodable (place : Nat) (halves : Text) : Text :=
  (match halves with
    | [half] =>
      "'utf-8' codec can't encode character '" ++ Text.codeEscape half ++
        "' in position " ++ Text.ofInt place
    | _ =>
      "'utf-8' codec can't encode characters in position " ++
        Text.ofInt place ++ "-" ++
        Text.ofInt (place + halves.length - 1)) ++
    ": surrogates not allowed"

/-- What is raised for a text with halves of surrogate pairs. -/
def unsendable? (text : Text) : Option Raised :=
  match text.dropWhile fun c => !c.isHalf with
  | [] => none
  | rest =>
    some (.other (unencodable (text.length - rest.length)
      (rest.takeWhile CodePoint.isHalf)))

/-- A text as the content of an answer. -/
def jsonPayload (text : Text) : Payload :=
  ⟨"application/json", text.display.toUTF8⟩

/-- A value as the content of an answer. -/
def writeJson (settings : Settings) (value : Json) :
    Except Raised Payload :=
  let text := bodyText settings value
  match unsendable? text with
  | some what => .error what
  | none => .ok (jsonPayload text)

/-- The wording for a fault inside the server. -/
def brokenMessage : Text :=
  "The server encountered an internal error and was unable to complete " ++
    "your request. Either the server is overloaded or there is an error " ++
    "in the application."

-- ============================================================= the server

/-- The standard server, where so many arrays may stand around an array, and
lists and objects of a body may be nested so deep. -/
@[reducible]
def standardServer (arrayDepth jsonDepth : Nat) : Server where
  nestingMax := arrayDepth
  configure given environment :=
    (Settings.load jsonDepth given environment).mapError SettingFault.message
  dispatch pages settings r := r.dispatch pages settings
  readJson settings r := r.readJson jsonDepth settings
  writeJson := writeJson
  abandon settings _ :=
    (500, jsonPayload (bodyText settings
      (Envelope.refusal "request" brokenMessage).toJson))
  showsContent r := r.method != "HEAD"
  allowOrigin r :=
    match r.origin with
    | some origin => if origin.isEmpty then "*" else origin
    | none => "*"

namespace UsualServer

/-- A stack of a usual size leaves room for such depths in a server. -/
scoped instance server : Server := standardServer 480 980

end UsualServer

end VarSection
