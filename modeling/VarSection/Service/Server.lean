/-
What the service leaves to the server that it runs in: the settings, which
page a request is for, how a body is read as JSON and an answer written in
it, and the fields that go with an answer. The service is written for any
server (`Server`). It tells one only which pages it has (`routes`).

A server may break off what it is asked to do. What it raises then is for
the service to answer, like a fault of the check.
-/
import VarSection.Analysis.State
import VarSection.Service.Settings

namespace VarSection

-- =============================================================== requests

/-- A request: what is asked for, and the body with its declared type. -/
structure Request where
  method : String
  path : String
  contentType : String
  origin : Option String
  body : ByteArray

/-- The pages of the service. -/
inductive Page where
  | check
  | sample
deriving DecidableEq

/-- Where a page is found, and the methods it is asked with. -/
structure Route where
  path : String
  methods : List String
  page : Page

/-- All pages of the service. -/
def routes : List Route :=
  [⟨"/check-declarations", ["POST"], .check⟩, ⟨"/sample", ["GET"], .sample⟩]

-- ================================================================ answers

/-- What is raised while a request is answered. -/
inductive Raised where
  /-- an error that has a status of its own -/
  | http (status : Nat) (description : Text)
  /-- any other -/
  | other (message : Text)

/-- The content of an answer and its type. -/
structure Payload where
  contentType : String
  bytes : ByteArray

/-- Where a request leads. -/
inductive Dispatch where
  /-- to a page of the service -/
  | page (page : Page)
  /-- nowhere -/
  | raised (what : Raised)
  /-- to an answer of the server itself, such as one about the methods that
  are allowed -/
  | answered (status : Nat) (allow : Option (List String)) (payload : Payload)

/-- Whether a length is beyond a limit, which need not be a number. -/
def exceeds (length : Nat) : Json → Except Raised Bool
  | .int limit => .ok (limit < length)
  | .bool limit => .ok (limit.toNat < length)
  | .float limit => .ok (limit < Float.ofNat length)
  | other =>
    .error (.other ("'>' not supported between instances of 'int' and '" ++
      other.kindName ++ "'"))

/-- A server that a service can run in. Its stack leaves room for arrays
inside arrays. -/
class Server extends NestingLimit where
  /-- the settings that a service starts with: its own, overridden by
  variables of the environment -/
  configure : Settings → List (Text × Text) → Except String Settings
  /-- where a request leads, among some pages -/
  dispatch : List Route → Settings → Request → Dispatch
  /-- the body of a request as JSON, null where it is none -/
  readJson : Settings → Request → Except Raised Json
  /-- a value as JSON, with characters beyond ASCII as they stand -/
  writeJson : Settings → Json → Except Raised Payload
  /-- the answer where what was raised cannot be answered by the service -/
  abandon : Settings → Raised → Nat × Payload
  /-- whether an answer to a request is sent with its content -/
  showsContent : Request → Bool
  /-- who may read the answer to a request -/
  allowOrigin : Request → String

end VarSection
