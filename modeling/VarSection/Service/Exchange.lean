/-
Requests and answers as they travel: a line that says what is asked for or
how it went, lines of fields, an empty line, and a body whose length one of
the fields gives in bytes.
-/
import VarSection.Service.Answer

namespace VarSection

/-- The lines in front of a body: the request without its body, and how
many bytes the body has. -/
structure RequestHead where
  request : Request
  bodyLength : Nat

namespace RequestHead

/-- A text without spaces at its ends. -/
def trim (text : List Char) : List Char :=
  let isEdge (c : Char) := c == ' ' || c == '\t' || c == '\r' || c == '\n'
  ((text.dropWhile isEdge).reverse.dropWhile isEdge).reverse

/-- The name of a field, in lower case, and its value. -/
def field (line : String) : List Char × String :=
  let name := line.toList.takeWhile (· != ':')
  let value := line.toList.drop (name.length + 1)
  ((trim name).map Char.toLower, String.ofList (trim value))

/-- The value of the first field with a name. -/
def value? (lines : List String) (name : String) : Option String :=
  ((lines.map field).find? (·.1 == name.toList)).map (·.2)

/-- Reads the lines in front of a body. -/
def ofLines? : List String → Option RequestHead
  | [] => none
  | first :: fields =>
    match (String.ofList (trim first.toList)).splitOn " " with
    | method :: path :: _ =>
      some {
        request := {
          method
          path
          contentType := (value? fields "content-type").getD ""
          origin := value? fields "origin"
          body := .empty }
        bodyLength := ((value? fields "content-length").bind
          String.toNat?).getD 0 }
    | _ => none

/-- The request with its body. -/
def withBody (head : RequestHead) (body : ByteArray) : Request :=
  { head.request with body }

end RequestHead

namespace Response

/-- A status in words. -/
def phrase (r : Response) : String :=
  match r.status with
  | 200 => "OK"
  | 400 => "Bad Request"
  | 404 => "Not Found"
  | 405 => "Method Not Allowed"
  | 413 => "Request Entity Too Large"
  | _ => "Internal Server Error"

/-- The lines in front of the content of an answer. -/
def head (r : Response) : String :=
  let lines := [
    "HTTP/1.1 " ++ toString r.status ++ " " ++ r.phrase,
    "Content-Type: " ++ r.payload.contentType,
    "Content-Length: " ++ toString r.payload.bytes.size,
    "Access-Control-Allow-Origin: " ++ r.allowOrigin] ++
    (match r.allow with
      | some methods => ["Allow: " ++ ", ".intercalate methods]
      | none => [])
  String.join (lines.map (· ++ "\r\n")) ++ "\r\n"

/-- An answer as it travels. -/
def wire (r : Response) : ByteArray := r.head.toUTF8 ++ r.payload.bytes

end Response

end VarSection
