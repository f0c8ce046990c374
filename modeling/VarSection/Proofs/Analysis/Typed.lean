/-
The types that declarations get. A type that could not be read has a
placeholder, and of the words of a text only those that are a type on their
own are kept in one (`VarType.Known`). So a type never quotes the text. The
elements of an array are never an array: one that is read there is reported,
and a placeholder is kept (`VarType.WellFormed`).
-/
import VarSection.Proofs.Analysis.Declaring
import VarSection.Proofs.Text.Whole

namespace VarSection

open Analysis

/-- Whether a type that is one word is a word for a type, also where it is
the type of elements. -/
def VarType.Known : VarType → Prop
  | .scalar name => name ∈ scalarTypes
  | .array _ element => element.Known
  | .string _ | .unknown | .missing => True

namespace VarType

/-- Whether a type is an array. -/
def isArray : VarType → Bool
  | .array _ _ => true
  | .scalar _ | .string _ | .unknown | .missing => false

/-- The types that a declaration can have, whatever was written: a word for a
type in lower case, a string of any size or none, an array of anything but
arrays, and the placeholder for what could not be read. -/
def WellFormed : VarType → Prop
  | .scalar name => name ∈ scalarTypes
  | .string _ | .unknown => True
  | .array _ element => element.isArray = false ∧ element.WellFormed
  | .missing => False

theorem WellFormed.known {type : VarType} (h : type.WellFormed) :
    type.Known := by
  induction type with
  | scalar name => exact h
  | string size => trivial
  | array ranges element ih => exact ih h.2
  | unknown => trivial
  | missing => trivial

end VarType

theorem VarType.isWhole_written {type : VarType} (h : type.Known) :
    type.written.IsWhole := by
  induction type with
  | scalar name =>
    have hwords : ∀ word ∈ scalarTypes, word.IsWhole := by
      simp [scalarTypes]
    exact hwords name h
  | string size => cases size <;> simp [written]
  | array ranges element ih =>
    have hranges : ∀ range ∈ ranges.map IndexRange.written,
        range.IsWhole := by
      intro range hrange
      obtain ⟨r, -, rfl⟩ := List.mem_map.1 hrange
      simp [IndexRange.written]
    simp [written, ih h, Text.isWhole_joinWith _ hranges]
  | unknown => exact Text.isWhole_ofString _
  | missing => exact Text.isWhole_ofString _

theorem VarType.isWhole_shown {type : VarType} (h : type.Known) :
    type.shown.IsWhole := by
  unfold shown
  split
  · exact Text.isWhole_ofString _
  · exact isWhole_written h

namespace Analysis

variable {a b : Analysis}

-- ============================================================ reading types

theorem wellFormed_readStringType (a : Analysis) :
    a.readStringType.1.isArray = false ∧ a.readStringType.1.WellFormed := by
  unfold readStringType closeSize
  simp only
  repeat' split
  all_goals exact ⟨rfl, trivial⟩

theorem wellFormed_readSimpleType (a : Analysis) :
    a.readSimpleType.1.isArray = false ∧ a.readSimpleType.1.WellFormed := by
  unfold readSimpleType
  simp only
  split
  next hscalar =>
    rw [Bool.and_eq_true] at hscalar
    exact ⟨rfl, List.contains_iff_mem.1 hscalar.2⟩
  next =>
    split
    · exact wellFormed_readStringType _
    · exact ⟨rfl, trivial⟩

/-- No array is kept where it would be an element of another. -/
theorem isArray_readType [NestingLimit] {depth : Nat} (hdepth : 0 < depth)
    (a : Analysis) : (a.readType depth).1.isArray = false := by
  by_cases harray : a.unreadKeyword "array" = true
  · rw [readType_of_nested hdepth harray]
    rfl
  · rw [readType_of_simple depth harray]
    exact (wellFormed_readSimpleType a).1

/-- The elements of an array are read with the array, so their types are
well-formed together. -/
theorem wellFormed_readType [NestingLimit] (depth : Nat) (a : Analysis) :
    (a.readType depth).1.WellFormed := by
  refine readType.induct (fun depth a => (readType depth a).1.WellFormed)
    (fun depth ranges a => (readElements depth ranges a).1.WellFormed)
    ?array ?array' ?simple ?of ?missing ?none depth a
  case array =>
    intro depth a harray ranges hdepth ih
    rw [readType_of_nested hdepth harray]
    trivial
  case array' =>
    intro depth a harray ranges hdepth ih
    obtain rfl := Nat.eq_zero_of_not_pos hdepth
    rw [readType_of_array harray]
    exact ih
  case simple =>
    intro depth a harray
    rw [readType_of_simple depth harray]
    exact (wellFormed_readSimpleType a).2
  case of =>
    intro depth ranges a hof ih
    rw [readElements_of_of depth ranges hof]
    exact ⟨isArray_readType (Nat.succ_pos _) _, ih⟩
  case missing =>
    intro depth ranges a hof hstarts ih
    rw [readElements_of_missing depth ranges hof hstarts]
    exact ⟨isArray_readType (Nat.succ_pos _) _, ih⟩
  case none =>
    intro depth ranges a hof hstarts
    rw [readElements_of_none depth ranges hof hstarts]
    exact ⟨rfl, trivial⟩

theorem wellFormed_readTypePart [NestingLimit] (a : Analysis) :
    a.readTypePart.1.WellFormed := by
  rw [readTypePart_eq]
  unfold readColon
  split
  · exact wellFormed_readType ..
  · split
    · exact wellFormed_readType ..
    · trivial

-- ============================================================== whole runs

/-- All types of an analysis are known. -/
structure Typed (a : Analysis) : Prop where
  inside : a.Inside
  known : ∀ d ∈ a.declarations, d.type.Known

theorem lasts_typed [NestingLimit] : Lasts Typed where
  inside h := h.inside
  next h _ := ⟨(steps_next _).inside h.inside,
    (declarations_next _).symm ▸ h.known⟩
  stray h _ := ⟨(steps_passStray h.inside).inside h.inside,
    (declarations_next _).symm ▸ h.known⟩
  declaration h hend := by
    refine ⟨(steps_readDeclaration h.inside hend).inside h.inside, ?_⟩
    rw [declarations_readDeclaration h.inside hend]
    exact List.forall_mem_cons.2 ⟨(wellFormed_readTypePart _).known, h.known⟩

theorem Typed.run [NestingLimit] {table : List Token}
    (h : ∃ t ∈ table, t.isEnding = true) : (ofTable table).run.Typed :=
  lasts_typed.readSection
    ⟨.ofTable h, fun _ hd => absurd hd List.not_mem_nil⟩

end Analysis

end VarSection
