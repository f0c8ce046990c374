/-
The standard server keeps what the service relies on
(`standardServer_documented`), whatever depths its stack leaves room for.
Any whole text can be given to it to be checked (`Request.posting`): the
text is written as JSON, and read back from the bytes of that.
-/
import VarSection.Proofs.Json.Reading
import VarSection.Proofs.Service.Answering
import VarSection.Service.Standard

namespace VarSection

-- ================================================================= routing

theorem Route.mem_answered {options : Bool} {route : Route} {method : String}
    (h : method ∈ route.answered options) :
    method ∈ route.methods ∨ method = "HEAD" ∧ "GET" ∈ route.methods
      ∨ method = "OPTIONS" := by
  unfold answered at h
  rw [List.mem_mergeSort, List.mem_append, List.mem_append] at h
  rcases h with (h | h) | h
  · exact .inl h
  · split at h
    next hget =>
      exact .inr (.inl ⟨List.mem_singleton.1 h,
        List.contains_iff_mem.1 hget⟩)
    next => cases h
  · split at h
    next => exact .inr (.inr (List.mem_singleton.1 h))
    next => cases h

/-- A request leads to a page with one of its methods only, which is not
OPTIONS. -/
theorem Request.dispatchTo_eq_page {r : Request} {methods : List String}
    {found : Dispatch} {page : Page}
    (h : r.dispatchTo methods found = .page page) :
    r.verb ∈ methods ∧ r.verb ≠ "OPTIONS" ∧ found = .page page := by
  unfold dispatchTo at h
  split at h
  next => cases h
  next hmethods =>
    split at h
    next => cases h
    next hoptions =>
      rw [Bool.not_eq_true, Bool.not_eq_false', List.contains_iff_mem]
        at hmethods
      exact ⟨hmethods, hoptions, h⟩

/-- A request that leads to a page is one for its route. -/
theorem Request.dispatch_eq_page {pages : List Route} {settings : Settings}
    {r : Request} {page : Page}
    (h : r.dispatch pages settings = .page page) :
    ∃ route ∈ pages, route.page = page ∧ r.verb ≠ "OPTIONS"
      ∧ ∃ options, r.verb ∈ route.answered options := by
  unfold dispatch at h
  dsimp only at h
  split at h
  next route hfind =>
    obtain ⟨hverb, hoptions, hpage⟩ := dispatchTo_eq_page h
    cases hpage
    exact ⟨route, List.mem_of_find?_eq_some hfind, rfl, hoptions, _, hverb⟩
  next =>
    split at h
    next =>
      obtain ⟨-, -, hpage⟩ := dispatchTo_eq_page h
      cases hpage
    next => cases h

/-- The pages of the service are found by their names. -/
theorem eq_of_page {route other : Route} (hroute : route ∈ routes)
    (hother : other ∈ routes) (h : route.page = other.page) :
    route = other := by
  simp only [routes, List.mem_cons, List.not_mem_nil, or_false]
    at hroute hother
  rcases hroute with rfl | rfl <;> rcases hother with rfl | rfl
  · rfl
  · cases h
  · cases h
  · rfl

theorem Request.method_ne_of_dispatch {settings : Settings} {r : Request}
    {route : Route} (hroute : route ∈ routes) (hget : "GET" ∉ route.methods)
    (h : r.dispatch routes settings = .page route.page) :
    r.method ≠ "HEAD" := by
  intro hhead
  have hverb : r.verb = "HEAD" := by
    unfold verb
    rw [hhead]
    decide +kernel
  obtain ⟨found, hfound, hpage, hoptions, options, hmethod⟩ :=
    dispatch_eq_page h
  obtain rfl := eq_of_page hfound hroute hpage
  rcases Route.mem_answered hmethod with hmem | ⟨-, hmem⟩ | hmem
  · rw [hverb] at hmem
    have hnone : ∀ route ∈ routes, "HEAD" ∉ route.methods := by decide
    exact hnone _ hfound hmem
  · exact hget hmem
  · exact hoptions hmem

-- ================================================================= writing

theorem isWhole_bodyText (settings : Settings) {value : Json}
    (h : value.IsWhole) : (bodyText settings value).IsWhole := by
  unfold bodyText
  split <;> exact Text.isWhole_append.2
    ⟨Json.isWhole_render h _, Text.isWhole_ofString _⟩

/-- A text can be sent if and only if it is whole. -/
theorem unsendable?_eq_none_iff {text : Text} :
    unsendable? text = none ↔ text.IsWhole := by
  refine ⟨fun h => ?_, fun h => ?_⟩
  · unfold unsendable? at h
    split at h
    next hall =>
      intro c hc
      simpa using List.dropWhile_eq_nil_iff.1 hall c hc
    next => cases h
  · have hall : (text.dropWhile fun c => !c.isHalf) = [] :=
      List.dropWhile_eq_nil_iff.2 fun c hc => by rw [h c hc]; rfl
    unfold unsendable?
    rw [hall]

/-- A value is written if and only if it holds no half of a surrogate
pair. -/
theorem writeJson_eq_ok_iff {settings : Settings} {value : Json} :
    (∃ payload, writeJson settings value = .ok payload) ↔ value.IsWhole := by
  have hsent : unsendable? (bodyText settings value) = none
      ↔ value.IsWhole := by
    rw [unsendable?_eq_none_iff]
    refine ⟨fun h => ?_, isWhole_bodyText settings⟩
    have hwhole := (Text.isWhole_append.1 h).1
    split at hwhole <;> exact Json.isWhole_of_render hwhole
  rw [← hsent]
  unfold writeJson
  dsimp only
  cases hfault : unsendable? (bodyText settings value) with
  | none => exact iff_of_true ⟨_, rfl⟩ rfl
  | some what =>
    refine iff_of_false ?_ (Option.some_ne_none what)
    rintro ⟨_, h⟩
    cases h

/-- Halves are told in a whole text. -/
theorem isWhole_unencodable (place : Nat) (halves : Text) :
    (unencodable place halves).IsWhole := by
  unfold unencodable
  refine Text.isWhole_append.2 ⟨?_, Text.isWhole_ofString _⟩
  split
  next half =>
    have hescape : (Text.codeEscape half).IsWhole := by
      unfold Text.codeEscape
      repeat' split
      all_goals simp
    simp [hescape]
  next => simp

theorem fault_of_writeJson {settings : Settings} {value : Json}
    {what : Raised} (h : writeJson settings value = .error what) :
    ∃ message, what = .other message ∧ message.IsWhole := by
  unfold writeJson at h
  dsimp only at h
  split at h
  next hfault =>
    cases h
    unfold unsendable? at hfault
    split at hfault
    next => cases hfault
    next =>
      exact ⟨_, (Option.some.inj hfault).symm, isWhole_unencodable _ _⟩
  next => cases h

theorem contentType_of_writeJson {settings : Settings} {value : Json}
    {payload : Payload} (h : writeJson settings value = .ok payload) :
    payload.contentType = "application/json" := by
  unfold writeJson at h
  dsimp only at h
  split at h
  next => cases h
  next =>
    cases h
    rfl

-- ================================================================= reading

theorem proper_of_exceeds {length : Nat} {limit : Json} {what : Raised}
    (h : exceeds length limit = .error what) : what.IsProper := by
  unfold exceeds at h
  split at h
  case h_4 =>
    cases h
    simp [Raised.IsProper]
  all_goals cases h

theorem Request.proper_of_readJson {depth : Nat} {settings : Settings}
    {r : Request} {what : Raised}
    (h : r.readJson depth settings = .error what) : what.IsProper := by
  unfold readJson at h
  split at h
  next => cases h
  split at h
  next hfault =>
    cases h
    unfold bodyExceeds at hfault
    split at hfault
    next => cases hfault
    split at hfault
    next => cases hfault
    next => exact proper_of_exceeds hfault
  next =>
    cases h
    exact ⟨by decide, by decide +kernel⟩
  next =>
    split at h
    next => cases h
    next =>
      cases h
      simp [Raised.IsProper, tooDeep]
    next =>
      cases h
      simp [Raised.IsProper, tooDeep]
    next => cases h
    next => cases h

-- ============================================================== the server

/-- The standard server is one that the service can rely on. -/
theorem standardServer_documented (arrayDepth jsonDepth : Nat) :
    @Server.Documented (standardServer arrayDepth jsonDepth) :=
  letI := standardServer arrayDepth jsonDepth
  { shown := fun hroute hget h =>
      bne_iff_ne.2 (Request.method_ne_of_dispatch hroute hget h)
    proper_of_readJson := Request.proper_of_readJson
    writes_iff := fun _ _ => writeJson_eq_ok_iff
    writes_refusal := fun _ _ _ hsource hmessage =>
      writeJson_eq_ok_iff.2 (Envelope.isWhole_refusal hsource hmessage)
    fault_of_writeJson := fault_of_writeJson
    declares := contentType_of_writeJson }

-- ================================================================ requests

/-- Usually texts have a greatest length. -/
theorem Settings.usual_codeLimit :
    usual.get "MAX_SOURCE_LENGTH" = .int 100000 := rfl

/-- Usually bodies have none. -/
theorem Settings.usual_bodyLimit :
    usual.get "MAX_CONTENT_LENGTH" = .null := rfl

/-- A request for a check leads to the page that checks. -/
theorem Request.dispatch_of_post {r : Request} (hmethod : r.method = "POST")
    (hpath : r.path = "/check-declarations") (settings : Settings) :
    r.dispatch routes settings = .page .check := by
  have hverb : r.verb = "POST" := by
    unfold verb
    rw [hmethod]
    decide +kernel
  have hlookedUp : r.lookedUp = "check-declarations".toList := by
    unfold lookedUp
    rw [hpath]
    decide +kernel
  have hfind : (routes.find? fun route =>
      dropSlashes route.path.toList == r.lookedUp)
        = some ⟨"/check-declarations", ["POST"], .check⟩ := by
    rw [hlookedUp]
    rfl
  have hmethods (options : Bool) : (Route.answered options
      ⟨"/check-declarations", ["POST"], .check⟩).contains "POST" = true := by
    rw [List.contains_iff_mem]
    unfold Route.answered
    rw [List.mem_mergeSort]
    exact List.mem_append_left _
      (List.mem_append_left _ List.mem_cons_self)
  unfold dispatch
  dsimp only
  rw [hfind]
  unfold dispatchTo
  rw [hverb]
  simp only [hmethods]
  rfl

/-- The request that gives a text to be checked. -/
def Request.posting (code : Text) : Request where
  method := "POST"
  path := "/check-declarations"
  contentType := "application/json"
  origin := none
  body := (Json.object [("code", .text code)]).compact.display.toUTF8

/-- The text that was given is the one that is read, where bodies may be of
any length. -/
theorem Request.readJson_posting {code : Text} {settings : Settings}
    (hwhole : code.IsWhole)
    (hlimit : settings.get "MAX_CONTENT_LENGTH" = .null) (depth : Nat) :
    (posting code).readJson (depth + 1) settings
      = .ok (.object [("code", .text code)]) := by
  have htype : (posting code).isJson = true := by
    have hmedia : (posting code).contentType = "application/json" := rfl
    unfold isJson mediaType
    rw [hmedia]
    decide +kernel
  have hbody : Text.ofBytes? (posting code).body =
      some (Json.object [("code", .text code)]).compact := by
    unfold posting
    rw [Json.compact_object_text, Json.writtenText_append]
    exact Text.ofBytes?_display (by decide) (by decide) (by
      simp [Json.isWhole_writtenText hwhole,
        Text.isWhole_flatMap Json.isWhole_escapeChar
          (Text.isWhole_ofString "code")])
  unfold readJson
  rw [htype, hbody, hlimit]
  simp only [bodyExceeds, Option.map_some, Json.read_compact]
  rfl

end VarSection
