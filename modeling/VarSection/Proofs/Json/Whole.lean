/-
JSON without halves of surrogate pairs. A writer only adds characters of its
own to the keys and texts of a value, so a value that holds whole texts is
written as a whole text, compact or indented (`Json.isWhole_render`). It
escapes no half either: a value with one is written with it
(`Json.isWhole_of_render`).
-/
import VarSection.Json.Writer
import VarSection.Proofs.Text.Whole

namespace VarSection.Json

/-- Whether all keys and texts of a value are whole. -/
inductive IsWhole : Json → Prop
  | null : IsWhole .null
  | bool (value : Bool) : IsWhole (.bool value)
  | int (value : Int) : IsWhole (.int value)
  | float (value : Float) : IsWhole (.float value)
  | text {value : Text} (h : value.IsWhole) : IsWhole (.text value)
  | list {items : List Json} (h : ∀ item ∈ items, IsWhole item) :
      IsWhole (.list items)
  | object {members : List (Text × Json)}
      (hkeys : ∀ member ∈ members, member.1.IsWhole)
      (h : ∀ member ∈ members, IsWhole member.2) : IsWhole (.object members)

theorem isWhole_escapeChar (c : CodePoint) (h : c.isHalf = false) :
    (escapeChar c).IsWhole := by
  unfold escapeChar
  repeat' split
  all_goals simp [h]

theorem isWhole_writtenText {text : Text} (h : text.IsWhole) :
    (writtenText text).IsWhole := by
  unfold writtenText
  simp [Text.isWhole_flatMap isWhole_escapeChar h]

theorem isWhole_writtenFloat (value : Float) :
    (writtenFloat value).IsWhole := by
  unfold writtenFloat
  repeat' split
  all_goals exact Text.isWhole_ofString _

theorem isWhole_bracketed {opener closer : Text} {items : List Text}
    (hopener : opener.IsWhole) (hcloser : closer.IsWhole)
    (h : ∀ item ∈ items, item.IsWhole) (indent? : Option Nat) :
    (bracketed opener closer indent? items).IsWhole := by
  unfold bracketed
  split
  · simp [hopener, hcloser]
  · simp [hopener, hcloser, Text.isWhole_joinWith _ h]
  · simp [hopener, hcloser, Text.isWhole_joinWith _ h]

theorem renderItems_eq (indent? : Option Nat) (items : List Json) :
    renderItems indent? items = items.map (render indent?) := by
  induction items with
  | nil => rfl
  | cons item items ih => rw [renderItems, ih, List.map_cons]

theorem renderMembers_eq (indent? : Option Nat)
    (members : List (Text × Json)) :
    renderMembers indent? members
      = members.map fun member => (member.1, member.2.render indent?) := by
  induction members with
  | nil => rfl
  | cons member members ih => rw [renderMembers, ih, List.map_cons]

/-- What holds whole texts is written as a whole text. -/
theorem isWhole_render {value : Json} (h : value.IsWhole)
    (indent? : Option Nat) : (value.render indent?).IsWhole := by
  induction h generalizing indent? with
  | null => exact Text.isWhole_ofString _
  | bool value => cases value <;> exact Text.isWhole_ofString _
  | int value => exact Text.isWhole_ofInt value
  | float value => exact isWhole_writtenFloat value
  | text h => exact isWhole_writtenText h
  | @list items _ ih =>
    rw [render, renderItems_eq]
    refine isWhole_bracketed (Text.isWhole_ofString _)
      (Text.isWhole_ofString _) (fun item hitem => ?_) indent?
    obtain ⟨value, hvalue, rfl⟩ := List.mem_map.1 hitem
    exact ih value hvalue _
  | @object members hkeys _ ih =>
    rw [render, renderMembers_eq]
    refine isWhole_bracketed (Text.isWhole_ofString _)
      (Text.isWhole_ofString _) (fun item hitem => ?_) indent?
    obtain ⟨written, hwritten, rfl⟩ := List.mem_map.1 hitem
    obtain ⟨member, hmember, rfl⟩ :=
      List.mem_map.1 (List.mem_mergeSort.1 hwritten)
    have hcolon : Text.IsWhole
        (if indent?.isSome then (": " : Text) else ":") := by
      split <;> exact Text.isWhole_ofString _
    exact Text.isWhole_append.2 ⟨Text.isWhole_append.2
      ⟨isWhole_writtenText (hkeys member hmember), hcolon⟩,
      ih member hmember _⟩

-- ===================================================== read off the text

theorem isWhole_of_escapeChar {c : CodePoint} (h : (escapeChar c).IsWhole) :
    c.isHalf = false := by
  cases c with
  | char c => rfl
  | half n =>
    have hcode : ¬ (CodePoint.half n).code < 0x20 := by
      simp only [CodePoint.code]
      omega
    simpa [escapeChar, hcode] using h

theorem isWhole_of_writtenText {text : Text} (h : (writtenText text).IsWhole) :
    text.IsWhole := by
  unfold writtenText at h
  simp only [Text.isWhole_append] at h
  intro c hc
  exact isWhole_of_escapeChar fun d hd =>
    h.1.2 d (List.mem_flatMap.2 ⟨c, hc, hd⟩)

theorem isWhole_of_bracketed {opener closer : Text} {indent? : Option Nat}
    {items : List Text} (h : (bracketed opener closer indent? items).IsWhole) :
    ∀ item ∈ items, item.IsWhole := by
  unfold bracketed at h
  split at h
  · exact fun _ hitem => absurd hitem List.not_mem_nil
  · simp only [Text.isWhole_append] at h
    exact fun item hitem =>
      Text.IsWhole.of_infix h.1.2 (Text.infix_joinWith hitem _)
  · simp only [Text.isWhole_append] at h
    exact fun item hitem =>
      Text.IsWhole.of_infix h.1.1.2 (Text.infix_joinWith hitem _)

/-- What is written as a whole text holds whole texts. -/
theorem isWhole_of_render : ∀ {value : Json} {indent? : Option Nat},
    (value.render indent?).IsWhole → value.IsWhole
  | .null, _, _ => .null
  | .bool value, _, _ => .bool value
  | .int value, _, _ => .int value
  | .float value, _, _ => .float value
  | .text _, _, h => .text (isWhole_of_writtenText h)
  | .list items, indent?, h => by
    rw [render, renderItems_eq] at h
    exact .list fun item hitem => isWhole_of_render
      (isWhole_of_bracketed h _ (List.mem_map_of_mem hitem))
  | .object members, indent?, h => by
    rw [render, renderMembers_eq] at h
    have hwritten : ∀ member ∈ members, member.1.IsWhole
        ∧ (member.2.render (indent?.map (· + 1))).IsWhole := by
      intro member hmember
      have hitem := isWhole_of_bracketed h _ (List.mem_map_of_mem
        (List.mem_mergeSort.2 (List.mem_map_of_mem hmember)))
      simp only [Text.isWhole_append] at hitem
      exact ⟨isWhole_of_writtenText hitem.1.1, hitem.2⟩
    exact .object (fun member hmember => (hwritten member hmember).1)
      fun member hmember => isWhole_of_render (hwritten member hmember).2
termination_by value => sizeOf value
decreasing_by
  · have := List.sizeOf_lt_of_mem hitem
    simp only [Json.list.sizeOf_spec]
    omega
  · have := List.sizeOf_lt_of_mem hmember
    cases member
    simp only [Json.object.sizeOf_spec, Prod.mk.sizeOf_spec] at this ⊢
    omega

end VarSection.Json
