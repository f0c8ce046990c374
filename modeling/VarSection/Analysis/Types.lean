/-
Types: words, sized strings and arrays over index ranges. A type that
cannot be read gives a placeholder and a finding; a faulty size, bound or
range is reported and kept, so that one fault does not hide another.

An array is read in two parts, its index ranges and its elements, and only
the second can lead to another type. Reading the first leaves less unread
(`left_readArrayRanges_lt`), which is why nested arrays come to an end. An
array with more arrays around it than there is room for is noted as a fault
where it begins.
-/
import VarSection.Analysis.Recovery

namespace VarSection.Analysis

-- ================================================= strings and the rest

/-- Ends the size of a string at its bracket. -/
def closeSize (size : Option Int) (a : Analysis) : VarType × Analysis :=
  (.string size,
    if a.atSymbol "]" then a.next
    else (a.expect a.current.pos .sizeBracketExpected).recover)

/-- Passes the current lexeme if it stands on the line of the one in front
of it. -/
def passOnLine (a : Analysis) : Analysis :=
  let a := a.lookBack
  if a.onLineOfPrevious a.current then a.next else a

/-- Reads what may follow the word for a string: its size in brackets. -/
def readStringType (a : Analysis) : VarType × Analysis :=
  if !a.atSymbol "[" then (.string none, a)
  else
    let a := a.next
    let size := a.current
    if a.atInteger then
      let read := a.next.readInteger size
      let a := read.2
      closeSize (some read.1) <|
        if stringSizeMin ≤ read.1 ∧ read.1 ≤ stringSizeMax then a
        else a.report size.pos (.sizeOutOfRange read.1)
    else
      let a := (a.report size.pos .sizeExpected).recover
      let a :=
        if size.isEnding || size.isSymbol "]" || size.isSymbol ";" then a
        else a.passOnLine
      if a.atSymbol "]" then closeSize none a else (.string none, a)

/-- Reports that no type can be read at the place. What stands there is
passed if it stands on the line of the lexeme in front of it. -/
def refuseType (a : Analysis) : VarType × Analysis :=
  let t := a.current
  let a :=
    if t.isEnding || t.isSymbol ";" then a.expect t.pos .typeExpected
    else
      let cause :=
        if t.kind == .unknown then .unknownSymbol t.text
        else .invalidType t.text
      (a.report t.pos cause).passOnLine
  (.unknown, a.recover)

/-- Reads a type that is no array. -/
def readSimpleType (a : Analysis) : VarType × Analysis :=
  let word := Text.lower a.current.text
  if a.atKind .keyword && scalarTypes.contains word then
    (.scalar word, a.next)
  else if a.atKeyword "string" then a.next.readStringType
  else a.refuseType

-- ========================================================= index ranges

/-- Reads two bounds with dots between them; `none` if they are not
there. -/
def readRange (a : Analysis) : Option IndexRange × Analysis :=
  let low := a.current
  if !a.atInteger then
    (none, (a.report low.pos .lowerBoundExpected).recover)
  else
    let a := a.next
    if !a.atSymbol ".." then
      (none, (a.report a.current.pos .dotsExpected).recover)
    else
      let a := a.next
      let high := a.current
      if !a.atInteger then
        (none, (a.report high.pos .upperBoundExpected).recover)
      else
        let lower := a.next.readInteger low
        let upper := lower.2.readInteger high
        let a := upper.2
        (some ⟨lower.1, upper.1⟩,
          if lower.1 > upper.1 then
            a.report low.pos (.boundsInverted lower.1 upper.1)
          else a)

/-- Reads an index range, and passes what is left of it if it is
broken. -/
def readRangeOrSkip (a : Analysis) : Option IndexRange × Analysis :=
  let read := a.readRange
  (read.1, if read.1.isNone then read.2.skipToRangeBoundary else read.2)

/-- Reports that an index range goes on where it should end, and passes the
rest of it. -/
def skipAfterRange (a : Analysis) : Analysis :=
  (a.expect a.current.pos .commaOrBracketExpected).recover
    |>.skipToRangeBoundary

/-- Passes a closing bracket if there is one. -/
def passBracket (a : Analysis) : Analysis :=
  if a.atSymbol "]" then a.next else a

theorem left_readRange_le (a : Analysis) : a.readRange.2.left ≤ a.left := by
  have h₁ := left_next_le a
  have h₂ := left_next_le a.next
  have h₃ := left_next_le a.next.next
  unfold readRange
  simp only
  split
  · exact Nat.le_of_eq (left_congr (by simp))
  · split
    · exact Nat.le_trans (Nat.le_of_eq (left_congr (by simp))) h₁
    · split
      · exact Nat.le_trans (Nat.le_of_eq (left_congr (by simp)))
          (Nat.le_trans h₂ h₁)
      · refine Nat.le_trans (Nat.le_of_eq (left_congr ?_))
          (Nat.le_trans h₃ (Nat.le_trans h₂ h₁))
        split <;> simp

theorem left_readRangeOrSkip_le (a : Analysis) :
    a.readRangeOrSkip.2.left ≤ a.left := by
  unfold readRangeOrSkip
  simp only
  split
  · exact Nat.le_trans (left_skipToRangeBoundary_le _) (left_readRange_le a)
  · exact left_readRange_le a

theorem left_skipAfterRange_le (a : Analysis) :
    a.skipAfterRange.left ≤ a.left := by
  unfold skipAfterRange
  exact Nat.le_trans (left_skipToRangeBoundary_le _)
    (Nat.le_of_eq (left_congr (by simp)))

theorem left_passBracket_le (a : Analysis) : a.passBracket.left ≤ a.left := by
  unfold passBracket
  split
  · exact left_next_le a
  · exact Nat.le_refl _

/-- Passing an unread symbol leaves less unread. -/
theorem left_next_lt_of_symbol {a : Analysis} {symbol : Text}
    (h : a.unreadSymbol symbol) : a.next.left < a.left := by
  unfold unreadSymbol at h
  cases hhead : a.cursor.ahead.head? with
  | none => simp [hhead] at h
  | some t =>
    simp only [hhead, Option.any_some, Token.isSymbol, Bool.and_eq_true,
      beq_iff_eq] at h
    exact left_next_lt hhead (by simp [h.1])

/-- Reads index ranges up to the closing bracket. A broken range is passed
over, and a comma behind it begins the next one. -/
def readRanges (a : Analysis) : List IndexRange × Analysis :=
  let read := a.readRangeOrSkip
  let a' := read.2
  if _hcomma : a'.unreadSymbol "," then
    let more := a'.next.readRanges
    (read.1.toList ++ more.1, more.2)
  else if a'.atSymbol "]" || read.1.isNone then
    (read.1.toList, a'.passBracket)
  else
    let a'' := a'.skipAfterRange
    if _hcomma : a''.unreadSymbol "," then
      let more := a''.next.readRanges
      (read.1.toList ++ more.1, more.2)
    else (read.1.toList, a''.passBracket)
termination_by a.left
decreasing_by
  · exact Nat.lt_of_lt_of_le (left_next_lt_of_symbol _hcomma)
      (left_readRangeOrSkip_le a)
  · exact Nat.lt_of_lt_of_le (left_next_lt_of_symbol _hcomma)
      (Nat.le_trans (left_skipAfterRange_le _) (left_readRangeOrSkip_le a))

theorem left_readRanges_le (a : Analysis) :
    (readRanges a).2.left ≤ a.left := by
  fun_induction readRanges a with
  | case1 a read a' hcomma more ih =>
    exact Nat.le_trans ih (Nat.le_trans (left_next_le _)
      (left_readRangeOrSkip_le a))
  | case2 a read a' hcomma hend =>
    exact Nat.le_trans (left_passBracket_le _) (left_readRangeOrSkip_le a)
  | case3 a read a' hcomma hend a'' hcomma' more ih =>
    exact Nat.le_trans ih (Nat.le_trans (left_next_le _)
      (Nat.le_trans (left_skipAfterRange_le _) (left_readRangeOrSkip_le a)))
  | case4 a read a' hcomma hend a'' hcomma' =>
    exact Nat.le_trans (left_passBracket_le _)
      (Nat.le_trans (left_skipAfterRange_le _) (left_readRangeOrSkip_le a))

-- ================================================================ arrays

/-- Reads the index ranges behind the word for an array. Where only the
opening bracket is missing, the ranges are read all the same. -/
def readArrayRanges (a : Analysis) : List IndexRange × Analysis :=
  let a := a.next
  if a.atSymbol "[" then a.next.readRanges
  else
    let a := (a.report a.current.pos .arrayBracketExpected).recover
    if a.atInteger then a.readRanges
    else ([], a.skipToRangeBoundary.passBracket)

/-- Reports that the elements of an array are not introduced. -/
def missingOf (a : Analysis) : Analysis :=
  (a.expect a.current.pos .ofExpected).recover

theorem left_readArrayRanges_le_next (a : Analysis) :
    a.readArrayRanges.2.left ≤ a.next.left := by
  unfold readArrayRanges
  simp only
  split
  · exact Nat.le_trans (left_readRanges_le _) (left_next_le _)
  · split
    · exact Nat.le_trans (left_readRanges_le _)
        (Nat.le_of_eq (left_congr (by simp)))
    · exact Nat.le_trans (left_passBracket_le _)
        (Nat.le_trans (left_skipToRangeBoundary_le _)
          (Nat.le_of_eq (left_congr (by simp))))

/-- Reading the index ranges of an array passes the word it begins with. -/
theorem left_readArrayRanges_lt {a : Analysis} {word : Text}
    (h : a.unreadKeyword word) : a.readArrayRanges.2.left < a.left := by
  unfold unreadKeyword at h
  cases hhead : a.cursor.ahead.head? with
  | none => simp [hhead] at h
  | some t =>
    simp only [hhead, Option.any_some, Token.isKeyword, Bool.and_eq_true,
      beq_iff_eq] at h
    exact Nat.lt_of_le_of_lt (left_readArrayRanges_le_next a)
      (left_next_lt hhead (by simp [h.1]))

theorem left_descend [NestingLimit] (depth : Nat) (a : Analysis) :
    (a.descend depth).left = a.left :=
  left_congr (cursor_descend ..)

theorem unreadKeyword_congr {a b : Analysis} (h : a.cursor = b.cursor)
    (word : Text) : a.unreadKeyword word = b.unreadKeyword word := by
  unfold unreadKeyword; rw [h]

/-- Reading the index ranges of a nested array passes its word, too. -/
theorem left_readArrayRanges_descend_lt [NestingLimit] {a : Analysis}
    {word : Text} (depth : Nat) (h : a.unreadKeyword word) :
    (a.descend depth).readArrayRanges.2.left < a.left := by
  rw [← left_descend depth a]
  have hword : (a.descend depth).unreadKeyword word = true := by
    rwa [unreadKeyword_congr (cursor_descend ..)]
  exact left_readArrayRanges_lt hword

theorem left_missingOf (a : Analysis) : a.missingOf.left = a.left :=
  left_congr (by simp [missingOf])

section nesting

variable [NestingLimit]

mutual

/-- Reads a type with a number of arrays around it. Inside an array an array
is read like any other, but it is reported and not kept. -/
def readType (depth : Nat) (a : Analysis) : VarType × Analysis :=
  if _harray : a.unreadKeyword "array" then
    let ranges := (a.descend depth).readArrayRanges
    let array := ranges.2.readElements depth ranges.1
    if 0 < depth then (.unknown, array.2.report a.current.pos .nestedArray)
    else array
  else a.readSimpleType
termination_by 2 * a.left
decreasing_by
  have h := left_readArrayRanges_descend_lt depth _harray
  omega

/-- Reads the elements of an array over the given ranges, which has a number
of arrays around it. -/
def readElements (depth : Nat) (ranges : List IndexRange) (a : Analysis) :
    VarType × Analysis :=
  if a.atKeyword "of" then
    let element := a.next.readType (depth + 1)
    (.array ranges element.1, element.2)
  else if a.startsType then
    let element := a.missingOf.readType (depth + 1)
    (.array ranges element.1, element.2)
  else (.array ranges .unknown, a.missingOf)
termination_by 2 * a.left + 1
decreasing_by
  · have h := left_next_le a
    omega
  · rw [left_missingOf]
    omega

end

/-- Reads an array; the current lexeme is the word that it begins with. -/
def readArrayType (a : Analysis) : VarType × Analysis :=
  let ranges := (a.descend 0).readArrayRanges
  ranges.2.readElements 0 ranges.1

end nesting

-- ==================================================== how far steps go

theorem left_passOnLine_le (a : Analysis) : a.passOnLine.left ≤ a.left := by
  unfold passOnLine
  simp only
  split
  · exact Nat.le_trans (left_next_le _)
      (Nat.le_of_eq (left_congr (by simp)))
  · exact Nat.le_of_eq (left_congr (by simp))

theorem left_closeSize_le (size : Option Int) (a : Analysis) :
    (closeSize size a).2.left ≤ a.left := by
  unfold closeSize
  simp only
  split
  · exact left_next_le a
  · exact Nat.le_of_eq (left_congr (by simp))

theorem left_readStringType_le (a : Analysis) :
    a.readStringType.2.left ≤ a.left := by
  have hnext := left_next_le a
  have hnext' := Nat.le_trans (left_next_le a.next) hnext
  unfold readStringType
  simp only
  split
  · exact Nat.le_refl _
  · split
    · refine Nat.le_trans (left_closeSize_le ..) (Nat.le_trans
        (Nat.le_of_eq (left_congr (b := a.next.next) ?_)) hnext')
      split <;> simp
    · have hafter : ∀ b : Analysis, b.left ≤ a.next.left →
          (if b.atSymbol "]" then closeSize none b
            else (.string none, b)).2.left ≤ a.left := by
        intro b hb
        split
        · exact Nat.le_trans (left_closeSize_le ..) (Nat.le_trans hb hnext)
        · exact Nat.le_trans hb hnext
      apply hafter
      split
      · exact Nat.le_of_eq (left_congr (by simp))
      · exact Nat.le_trans (left_passOnLine_le _)
          (Nat.le_of_eq (left_congr (by simp)))

theorem left_refuseType_le (a : Analysis) :
    a.refuseType.2.left ≤ a.left := by
  unfold refuseType
  simp only
  rw [left_congr (cursor_recover _)]
  split
  · exact Nat.le_of_eq (left_congr (by simp))
  · exact Nat.le_trans (left_passOnLine_le _)
      (Nat.le_of_eq (left_congr (by simp)))

theorem left_readSimpleType_le (a : Analysis) :
    a.readSimpleType.2.left ≤ a.left := by
  unfold readSimpleType
  simp only
  split
  · exact left_next_le a
  · split
    · exact Nat.le_trans (left_readStringType_le _) (left_next_le a)
    · exact left_refuseType_le a

theorem left_readType_le [NestingLimit] (depth : Nat) (a : Analysis) :
    (readType depth a).2.left ≤ a.left := by
  refine readType.induct (fun depth a => (readType depth a).2.left ≤ a.left)
    (fun depth ranges a => (readElements depth ranges a).2.left ≤ a.left)
    ?array ?array' ?simple ?of ?missing ?none depth a
  case array =>
    intro depth a harray ranges hdepth ih
    rw [readType, dif_pos harray]
    simp only [hdepth]
    exact Nat.le_trans ih
      (Nat.le_of_lt (left_readArrayRanges_descend_lt depth harray))
  case array' =>
    intro depth a harray ranges hdepth ih
    rw [readType, dif_pos harray]
    simp only [hdepth]
    exact Nat.le_trans ih
      (Nat.le_of_lt (left_readArrayRanges_descend_lt depth harray))
  case simple =>
    intro depth a harray
    rw [readType, dif_neg harray]
    exact left_readSimpleType_le a
  case of =>
    intro depth ranges a hof ih
    rw [readElements, if_pos hof]
    exact Nat.le_trans ih (left_next_le a)
  case missing =>
    intro depth ranges a hof hstarts ih
    rw [readElements, if_neg hof, if_pos hstarts]
    exact Nat.le_trans ih (Nat.le_of_eq (left_missingOf a))
  case none =>
    intro depth ranges a hof hstarts
    rw [readElements, if_neg hof, if_neg hstarts]
    exact Nat.le_of_eq (left_missingOf a)

end VarSection.Analysis
