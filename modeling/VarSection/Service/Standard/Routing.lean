/-
Where requests lead in the standard server. A path is looked up without its
query and with its percent signs decoded; case and slashes at the end count.
Beside the pages of the service there is a place for static files, which
holds none.
-/
import VarSection.Service.Server
import VarSection.Text.Hex

namespace VarSection

-- ================================================================== paths

namespace Request

/-- A path whose percent signs with two hexadecimal digits behind them are
decoded. Only codes of ASCII occur in the paths of pages; others stay. -/
def decodePercents : List Char → List Char
  | [] => []
  | '%' :: a :: b :: rest =>
    match Text.hexValue? a, Text.hexValue? b with
    | some high, some low =>
      if high < 8 then Char.ofNat (high * 16 + low) :: decodePercents rest
      else '%' :: a :: b :: decodePercents rest
    | _, _ => '%' :: decodePercents (a :: b :: rest)
  | c :: rest => c :: decodePercents rest

/-- A path without the host that two leading slashes introduce. -/
def dropHost : List Char → List Char
  | '/' :: '/' :: rest => rest.dropWhile (· != '/')
  | path => path

/-- A path without the slashes that it begins with. -/
def dropSlashes (path : List Char) : List Char := path.dropWhile (· == '/')

/-- The path as it is looked up: without host, query, fragment and leading
slashes. -/
def lookedUp (r : Request) : List Char :=
  let path := r.path.toList.takeWhile fun c => c != '?' && c != '#'
  dropSlashes (decodePercents (dropHost path))

/-- Whether the path is one of static files. -/
def isStatic (r : Request) : Bool :=
  match "static/".toList.isPrefixOf r.lookedUp, r.lookedUp.drop 7 with
  | true, c :: _ => c != '/'
  | _, _ => false

/-- The method in upper case. -/
def verb (r : Request) : String := r.method.map Char.toUpper

end Request

-- ================================================================ methods

/-- The methods that a page answers, in alphabetical order. Where GET is one
of them, HEAD is too, and OPTIONS is added where that is asked for. -/
def Route.answered (options : Bool) (route : Route) : List String :=
  (route.methods ++ (if route.methods.contains "GET" then ["HEAD"] else []) ++
    if options then ["OPTIONS"] else []).mergeSort fun a b => a ≤ b

/-- The wording for a path that leads nowhere. -/
def notFoundMessage : Text :=
  "The requested URL was not found on the server. If you entered the URL " ++
    "manually please check your spelling and try again."

/-- The wording for a method that a page does not answer. -/
def notAllowedMessage : Text :=
  "The method is not allowed for the requested URL."

/-- Where a request leads whose path was found, among the methods that are
answered there. -/
def Request.dispatchTo (r : Request) (methods : List String)
    (found : Dispatch) : Dispatch :=
  if !methods.contains r.verb then .raised (.http 405 notAllowedMessage)
  else if r.verb = "OPTIONS" then
    .answered 200 (some methods) ⟨"text/html; charset=utf-8", .empty⟩
  else found

/-- Where a request leads among some pages. -/
def Request.dispatch (pages : List Route) (settings : Settings)
    (r : Request) : Dispatch :=
  let options := (settings.get "PROVIDE_AUTOMATIC_OPTIONS").isTruthy
  let isAt (route : Route) : Bool :=
    Request.dropSlashes route.path.toList == r.lookedUp
  match pages.find? isAt with
  | some route => r.dispatchTo (route.answered options) (.page route.page)
  | none =>
    if r.isStatic then
      r.dispatchTo ["GET", "HEAD", "OPTIONS"]
        (.raised (.http 404 notFoundMessage))
    else .raised (.http 404 notFoundMessage)

end VarSection
