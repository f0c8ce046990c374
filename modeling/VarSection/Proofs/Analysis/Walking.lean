/-
The way behind the names of a declaration, where there is no array. All that
is done there is made of few things (`Endures`): unknown symbols are reported,
what is left of a broken line is passed, a word, a symbol or a number is
passed, and where a type or a size is refused the lexeme that was reported is
passed on its line. Whatever these keep is kept by the readers of types and up
to the end of the declaration (`Endures.readTypePart`,
`Endures.endDeclaration`), and none of the readers has to be opened for it.
-/
import VarSection.Proofs.Analysis.Readers

namespace VarSection

open Analysis

/-- Whether the word for an array does not occur in a table. -/
def Arrayless (table : List Token) : Prop :=
  ∀ t ∈ table, t.isKeyword "array" = false

/-- Without arrays there is always room. -/
theorem Arrayless.arrayWords_le [NestingLimit] {table : List Token}
    (h : Arrayless table) : arrayWords table ≤ nestingMax + 1 := by
  have hnone : arrayWords table = 0 :=
    List.countP_eq_zero.2 fun t ht => Bool.eq_false_iff.1 (h t ht)
  rw [hnone]
  exact Nat.zero_le _

namespace Analysis

/-- The current lexeme, if it is unknown, has been reported: it is no type, or
no size. -/
def Refused (a : Analysis) : Prop :=
  a.current.kind = .unknown →
    ⟨.syntactic, a.current.pos, .unknownSymbol a.current.text⟩ ∈ a.errors
      ∨ ⟨.syntactic, a.current.pos, .sizeExpected⟩ ∈ a.errors

/-- A property of analyses that is kept by all that is done behind the names
of a declaration, where there is no array. -/
structure Endures (P : Analysis → Prop) : Prop where
  inside : ∀ {a}, P a → a.Inside
  plain : ∀ {a}, P a → a.atKeyword "array" = false
  still : ∀ {a b}, P a → b.cursor = a.cursor → a.errors <:+ b.errors → P b
  next : ∀ {a}, P a → a.current.kind ≠ .identifier →
    a.current.kind ≠ .unknown → P a.next
  passOnLine : ∀ {a}, P a → a.cursor.behind ≠ [] → a.Refused → P a.passOnLine
  reportUnknown : ∀ {a}, P a → ∀ line, P (a.reportUnknown line).2
  synchronizeHere : ∀ {a}, P a → P a.synchronizeHere

namespace Endures

variable {P : Analysis → Prop} {a b : Analysis}

/-- Steps that keep the place. -/
theorem steps [NestingLimit] (hP : Endures P) (h : P a) (hsteps : Steps a b)
    (hcursor : b.cursor = a.cursor) : P b :=
  hP.still h hcursor hsteps.errors_suffix

theorem next_of_symbol (hP : Endures P) (h : P a) {w : Text}
    (hsymbol : a.atSymbol w = true) : P a.next := by
  have hkind : a.current.kind = .symbol := Token.kind_of_isSymbol hsymbol
  apply hP.next h <;> simp [hkind]

theorem next_of_keyword (hP : Endures P) (h : P a) {w : Text}
    (hkeyword : a.atKeyword w = true) : P a.next := by
  have hkind : a.current.kind = .keyword := Token.kind_of_isKeyword hkeyword
  apply hP.next h <;> simp [hkind]

-- ==================================================================== types

theorem closeSize [NestingLimit] (hP : Endures P) (h : P a)
    (size : Option Int) :
    P (closeSize size a).2 := by
  unfold Analysis.closeSize
  simp only
  split
  next hbracket => exact hP.next_of_symbol h hbracket
  next =>
    exact hP.steps h ((steps_expect a _).trans (steps_recover _)) (by simp)

theorem readStringType [NestingLimit] (hP : Endures P) (h : P a) :
    P a.readStringType.2 := by
  unfold Analysis.readStringType
  split
  next => exact h
  next hbracket =>
    rw [Bool.not_eq_true', Bool.not_eq_false] at hbracket
    have hopen := hP.next_of_symbol h hbracket
    simp only
    split
    next hinteger =>
      have hkind := kind_of_atInteger hinteger
      have hsize : P a.next.next := by
        apply hP.next hopen <;> simp [hkind]
      have hread : P (a.next.next.readInteger a.next.current).2 :=
        hP.still hsize (by simp) (by simp)
      apply hP.closeSize
      split
      · exact hread
      · exact hP.still hread rfl (List.suffix_cons ..)
    next =>
      have hfault : P
          (a.next.report a.next.current.pos .sizeExpected).recover :=
        hP.still hopen rfl (List.suffix_cons ..)
      have hbehind : a.next.cursor.behind ≠ [] := List.ne_nil_of_mem
        (current_mem_behind_next (hP.inside h) (isEnding_of_atSymbol hbracket))
      have hclose : ∀ d : Analysis, P d →
          P (if d.atSymbol "]" then Analysis.closeSize none d
            else (.string none, d)).2 := by
        intro d hd
        split
        · exact hP.closeSize hd none
        · exact hd
      apply hclose
      split
      · exact hfault
      · exact hP.passOnLine hfault hbehind
          fun _ => .inr List.mem_cons_self

theorem refuseType [NestingLimit] (hP : Endures P) (h : P a)
    (hbehind : a.cursor.behind ≠ []) : P a.refuseType.2 := by
  unfold Analysis.refuseType
  simp only
  split
  · exact hP.steps h ((steps_expect a _).trans (steps_recover _)) (by simp)
  · have hreport : ∀ cause, P (a.report a.current.pos cause) :=
      fun cause => hP.still h rfl (List.suffix_cons ..)
    refine hP.still (hP.passOnLine (hreport _) hbehind ?_) rfl List.suffix_rfl
    intro hkind
    left
    have hunknown : a.current.kind = .unknown := hkind
    simp only [hunknown, beq_self_eq_true, if_true]
    exact List.mem_cons_self

theorem readSimpleType [NestingLimit] (hP : Endures P) (h : P a)
    (hbehind : a.cursor.behind ≠ []) : P a.readSimpleType.2 := by
  unfold Analysis.readSimpleType
  simp only
  split
  next hscalar =>
    rw [Bool.and_eq_true] at hscalar
    have hkind : a.current.kind = .keyword := beq_iff_eq.1 hscalar.1
    apply hP.next h <;> simp [hkind]
  next =>
    split
    next hstring => exact hP.readStringType (hP.next_of_keyword h hstring)
    next => exact hP.refuseType h hbehind

/-- Without arrays all types are simple. -/
theorem readType [NestingLimit] (hP : Endures P) (h : P a)
    (hbehind : a.cursor.behind ≠ []) :
    P (a.readType 0).2 := by
  have harray : ¬ a.unreadKeyword "array" = true := by
    rw [unreadKeyword_eq (hP.inside h), hP.plain h]
    exact Bool.false_ne_true
  rw [readType_of_simple 0 harray]
  exact hP.readSimpleType h hbehind

-- ============================================================= declarations

theorem readColon [NestingLimit] (hP : Endures P) (h : P a)
    (hbehind : a.cursor.behind ≠ []) (found : Bool) :
    P (a.readColon found).2 := by
  have hmiss : P (a.missColon found) :=
    hP.steps h (steps_missColon (hP.inside h) found) (cursor_missColon found a)
  unfold Analysis.readColon
  split
  next hcolon =>
    have hnext := (steps_next a).behind_ne_nil (hP.inside h) hbehind
    exact hP.readType (hP.next_of_symbol h hcolon) hnext
  next =>
    split
    · apply hP.readType hmiss
      rw [cursor_missColon]
      exact hbehind
    · exact hP.still hmiss rfl List.suffix_rfl

theorem readTypePart [NestingLimit] (hP : Endures P) (h : P a)
    (hbehind : a.cursor.behind ≠ []) : P a.readTypePart.2 := by
  have hread := steps_reportUnknown (hP.inside h) a.current.line
  rw [readTypePart_eq]
  apply hP.readColon (hP.reportUnknown h a.current.line)
  exact hread.behind_ne_nil (hP.inside h) hbehind

theorem closeDeclaration [NestingLimit] (hP : Endures P) (h : P a)
    (found : Bool) :
    P (a.closeDeclaration found) := by
  have hmiss : P (a.reportAfterPrevious .semicolonExpected) :=
    hP.steps h (steps_reportAfterPrevious (hP.inside h) (.inr rfl))
      (cursor_reportAfterPrevious ..)
  unfold Analysis.closeDeclaration
  split
  next hsemicolon => exact hP.reportUnknown (hP.next_of_symbol h hsemicolon) _
  next =>
    split
    · exact hP.synchronizeHere h
    · split
      · exact hmiss
      · exact hP.synchronizeHere hmiss

theorem endDeclaration [NestingLimit] (hP : Endures P) (h : P a) :
    P a.endDeclaration := by
  rw [endDeclaration_eq]
  exact hP.closeDeclaration (hP.reportUnknown h a.current.line) _

end Endures

end Analysis

end VarSection
