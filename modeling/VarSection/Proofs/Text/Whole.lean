/-
Texts without halves of surrogate pairs. These are the texts that can be
sent, and they are the strings: showing one as a string loses nothing
(`Text.ofString_display`). Whatever is put together from strings, integers
and parts of such a text is such a text again.
-/
import VarSection.Text.Hex

namespace VarSection

@[simp] theorem CodePoint.isHalf_char (c : Char) :
    (CodePoint.char c).isHalf = false := rfl

namespace Text

/-- Whether a text holds no half of a surrogate pair. -/
def IsWhole (text : Text) : Prop := ∀ c ∈ text, c.isHalf = false

variable {text w v : Text}

@[simp] theorem isWhole_nil : IsWhole [] :=
  fun _ hc => absurd hc List.not_mem_nil

@[simp] theorem isWhole_cons {c : CodePoint} :
    IsWhole (c :: w) ↔ c.isHalf = false ∧ w.IsWhole :=
  List.forall_mem_cons

@[simp] theorem isWhole_append : IsWhole (v ++ w) ↔ v.IsWhole ∧ w.IsWhole :=
  List.forall_mem_append

@[simp] theorem isWhole_ofString (s : String) : (ofString s).IsWhole := by
  intro c hc
  obtain ⟨d, -, rfl⟩ := List.mem_map.1 hc
  rfl

@[simp] theorem isWhole_ofInt (n : Int) : (ofInt n).IsWhole :=
  isWhole_ofString _

@[simp] theorem isWhole_repeated (n : Nat) (c : Char) :
    (repeated n c).IsWhole := by
  intro d hd
  rw [List.eq_of_mem_replicate hd]
  rfl

@[simp] theorem isWhole_hexDigits (width n : Nat) :
    (hexDigits width n).IsWhole := by
  induction width generalizing n with
  | zero => exact isWhole_nil
  | succ width ih => exact isWhole_append.2 ⟨ih _, by simp⟩

/-- What is written in a whole text is whole. -/
theorem IsWhole.of_infix (h : text.IsWhole) (hw : w <:+: text) : w.IsWhole :=
  fun c hc => h c (hw.subset hc)

theorem isWhole_flatMap {f : CodePoint → Text}
    (hf : ∀ c, c.isHalf = false → (f c).IsWhole) (h : text.IsWhole) :
    IsWhole (text.flatMap f) := by
  intro c hc
  obtain ⟨d, hd, hc⟩ := List.mem_flatMap.1 hc
  exact hf d (h d hd) c hc

theorem isWhole_joinWith {texts : List Text} (hw : w.IsWhole)
    (h : ∀ text ∈ texts, text.IsWhole) : (joinWith w texts).IsWhole := by
  induction texts with
  | nil => exact isWhole_nil
  | cons text texts ih =>
    obtain ⟨htext, htexts⟩ := List.forall_mem_cons.1 h
    cases texts with
    | nil =>
      unfold joinWith
      rw [List.intercalate_singleton]
      exact htext
    | cons next texts =>
      unfold joinWith at ih ⊢
      rw [List.intercalate_cons_cons, isWhole_append, isWhole_append]
      exact ⟨⟨htext, hw⟩, ih htexts⟩

/-- What is joined is written in the joint text. -/
theorem infix_joinWith {texts : List Text} (hmem : text ∈ texts) (w : Text) :
    text <:+: joinWith w texts := by
  induction texts with
  | nil => cases hmem
  | cons first texts ih =>
    cases texts with
    | nil =>
      obtain rfl := List.mem_singleton.1 hmem
      unfold joinWith
      exact List.intercalate_singleton.symm ▸ List.infix_rfl
    | cons next texts =>
      unfold joinWith at ih ⊢
      rw [List.intercalate_cons_cons]
      rcases List.mem_cons.1 hmem with rfl | hmem
      · exact ⟨[], w ++ List.intercalate w (next :: texts), by simp⟩
      · exact (ih hmem).trans (List.suffix_append _ _).isInfix

/-- A whole text is the text of the string that shows it. -/
theorem ofString_display (h : text.IsWhole) :
    ofString text.display = text := by
  unfold ofString display
  rw [String.toList_ofList, List.map_map]
  refine (List.map_congr_left fun c hc => ?_).trans (List.map_id text)
  have hwhole := h c hc
  cases c with
  | char c => rfl
  | half n => cases hwhole

end Text

end VarSection
