/-
Settings of a service in the standard server: those of the server and those
that the service brings, which variables of the environment may override.

A variable counts if its name begins with `VARCHECK_`. Its value is read as
JSON, and is a text where that fails. Two underscores in a row lead into an
object, which is made where it is absent; leading into anything else is a
fault.
-/
import VarSection.Json.Reader
import VarSection.Service.Settings

namespace VarSection

/-- Why a setting cannot be stored under a name. -/
inductive SettingFault where
  /-- a value of this kind has no members to look among -/
  | notSearchable (kind : String)
  /-- a value of this kind has no members to store -/
  | notAssignable (kind : String)
  /-- the items of a list have no names -/
  | listIndex
  /-- the characters of a text have no names -/
  | textIndex

/-- The wording of a fault. -/
def SettingFault.message : SettingFault → String
  | .notSearchable kind => "argument of type '" ++ kind ++ "' is not iterable"
  | .notAssignable kind =>
    "'" ++ kind ++ "' object does not support item assignment"
  | .listIndex => "list indices must be integers or slices, not str"
  | .textIndex => "string indices must be integers, not 'str'"

namespace Settings

/-- The settings of the server itself. Two of them bear on the answers: the
greatest length of a body in bytes, and whether pages answer OPTIONS. -/
def serverDefaults : Settings :=
  [("TESTING", .bool false), ("PROPAGATE_EXCEPTIONS", .null),
    ("SECRET_KEY", .null), ("SECRET_KEY_FALLBACKS", .null),
    ("USE_X_SENDFILE", .bool false), ("TRUSTED_HOSTS", .null),
    ("SERVER_NAME", .null), ("APPLICATION_ROOT", .text "/"),
    ("SESSION_COOKIE_NAME", .text "session"),
    ("SESSION_COOKIE_DOMAIN", .null), ("SESSION_COOKIE_PATH", .null),
    ("SESSION_COOKIE_HTTPONLY", .bool true),
    ("SESSION_COOKIE_SECURE", .bool false),
    ("SESSION_COOKIE_PARTITIONED", .bool false),
    ("SESSION_COOKIE_SAMESITE", .null),
    ("SESSION_REFRESH_EACH_REQUEST", .bool true),
    ("MAX_CONTENT_LENGTH", .null), ("MAX_FORM_MEMORY_SIZE", .int 500000),
    ("MAX_FORM_PARTS", .int 1000), ("SEND_FILE_MAX_AGE_DEFAULT", .null),
    ("TRAP_BAD_REQUEST_ERRORS", .null), ("TRAP_HTTP_EXCEPTIONS", .bool false),
    ("EXPLAIN_TEMPLATE_LOADING", .bool false),
    ("PREFERRED_URL_SCHEME", .text "http"), ("TEMPLATES_AUTO_RELOAD", .null),
    ("MAX_COOKIE_SIZE", .int 4093), ("PROVIDE_AUTOMATIC_OPTIONS", .bool true)]

/-- The settings of a service in the server where no variable overrides
them. -/
def defaults (given : Settings) : Settings :=
  given.foldl (fun settings entry => Json.insert settings entry.1 entry.2)
    serverDefaults

/-- The settings of the checker in the server where no variable overrides
them. -/
def usual : Settings := defaults checkerDefaults

/-- The setting that is a span of time and so no JSON value, where no
variable overrides it. -/
def spanName : Text := "PERMANENT_SESSION_LIFETIME"

/-- How the kind of a span of time is called in messages. -/
def spanKind : String := "datetime.timedelta"

-- ============================================================ nested names

/-- Cuts a name at every two underscores in a row, from the left; `part`
holds the current part, latest character first. -/
def cutName (part : Text) : Text → List Text
  | [] => [part.reverse]
  | .char '_' :: .char '_' :: rest => part.reverse :: cutName [] rest
  | c :: rest => cutName (c :: part) rest

/-- Whether a text occurs in another. -/
def occursIn (needle : Text) : Text → Bool
  | [] => needle.isEmpty
  | c :: rest => needle.isPrefixOf (c :: rest) || occursIn needle rest

/-- Stores a value under a name inside a value. -/
def store (name : Text) (value : Json) : Json → Except SettingFault Json
  | .object members => .ok (.object (Json.insert members name value))
  | .list _ => .error .listIndex
  | other => .error (.notAssignable other.kindName)

/-- Stores a value under the last of several names, each leading into the
value under the one before it. -/
def storeAt (value : Json) : List Text → Json → Except SettingFault Json
  | [], _ => .ok value
  | [name], target => store name value target
  | name :: names, .object members =>
    let inner := (Json.lookup? members name).getD (.object [])
    (storeAt value names inner).map fun inner =>
      .object (Json.insert members name inner)
  | name :: _, .text text =>
    if occursIn name text then .error .textIndex
    else .error (.notAssignable "str")
  | _, .list _ => .error .listIndex
  | _, other => .error (.notSearchable other.kindName)

-- ========================================================= the environment

/-- How the names of variables that count begin. -/
def variableStart : Text := "VARCHECK_"

/-- The name of a setting in the name of a variable. -/
def settingName? (name : Text) : Option Text :=
  if variableStart.isPrefixOf name then
    some (name.drop variableStart.length)
  else none

/-- The value of a variable: JSON where it can be read so, else a text. -/
def settingValue (depth : Nat) (text : Text) : Json :=
  (Json.read? depth text).getD (.text text)

/-- Why the span of time among settings can hold no member of the given
names; nothing where it is overridden. -/
def spanFault? (settings : Json) : List Text → Option SettingFault
  | name :: _ :: more =>
    match settings with
    | .object members =>
      if name = spanName && (Json.lookup? members name).isNone then
        some <| if more.isEmpty then .notAssignable spanKind
          else .notSearchable spanKind
      else none
    | _ => none
  | _ => none

/-- Overrides settings by one variable. -/
def override (depth : Nat) (settings : Json) (entry : Text × Text) :
    Except SettingFault Json :=
  match settingName? entry.1 with
  | none => .ok settings
  | some name =>
    match spanFault? settings (cutName [] name) with
    | some fault => .error fault
    | none => storeAt (settingValue depth entry.2) (cutName [] name) settings

/-- The settings of a service under an environment, whose variables count
in the order of their names. Lists and objects in their values may be nested
`depth` deep. -/
def load (depth : Nat) (given : Settings) (environment : List (Text × Text)) :
    Except SettingFault Settings := do
  let entries := environment.mergeSort fun a b => a.1.le b.1
  match ← entries.foldlM (override depth) (.object (defaults given)) with
  | .object settings => .ok settings
  | _ => .ok (defaults given)

end Settings

end VarSection
