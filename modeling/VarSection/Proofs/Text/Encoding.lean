/-
Texts of strings in bytes. A string is written in units of eight bits, one
to four a character, and is read back from them (`Text.ofUnits8?_encode`).
How some bytes are encoded is told from their beginning. Where that is two
characters of ASCII, and neither is a zero, there is no mark and no zero in
a place that counts, so the bytes are taken for what they are
(`Text.ofBytes?_display`).
-/
import VarSection.Proofs.Text.Whole
import VarSection.Text.Encoding

namespace VarSection

theorem CodePoint.ofCode_code (c : CodePoint) : ofCode c.code = c := by
  cases c with
  | char c =>
    have hrange : ¬(0xD800 ≤ c.toNat ∧ c.toNat < 0xE000) := by
      rcases c.valid with hvalid | ⟨hvalid, -⟩
      · exact fun h => absurd h.1 (Nat.not_le.2 hvalid)
      · exact fun h => absurd h.2 (Nat.not_lt.2 hvalid)
    simp only [code, ofCode, dif_neg hrange, Char.ofNat_toNat]
  | half n =>
    have hrange : 0xD800 ≤ 0xD800 + n.val ∧ 0xD800 + n.val < 0xE000 := by omega
    simp only [code, ofCode, dif_pos hrange, Nat.add_sub_cancel_left]

namespace Text

-- ============================================================== characters

/-- The units of eight bits of a character. -/
def unitsOf (c : Char) : List Nat :=
  (String.utf8EncodeChar c).map UInt8.toNat

theorem toNat_lt (c : Char) : c.toNat < 0x110000 := by
  rcases c.valid with hvalid | ⟨-, hvalid⟩
  · exact Nat.lt_trans hvalid (by decide)
  · exact hvalid

theorem toNat_ofNat {n : Nat} (h : n < 0x100) : (UInt8.ofNat n).toNat = n :=
  UInt8.toNat_ofNat_of_lt' h

/-- The units of a character by its number. -/
theorem unitsOf_eq (c : Char) :
    unitsOf c =
      if c.toNat < 0x80 then [c.toNat]
      else if c.toNat < 0x800 then
        [c.toNat / 0x40 + 0xC0, c.toNat % 0x40 + 0x80]
      else if c.toNat < 0x10000 then
        [c.toNat / 0x1000 + 0xE0, c.toNat / 0x40 % 0x40 + 0x80,
          c.toNat % 0x40 + 0x80]
      else
        [c.toNat / 0x40000 + 0xF0, c.toNat / 0x1000 % 0x40 + 0x80,
          c.toNat / 0x40 % 0x40 + 0x80, c.toNat % 0x40 + 0x80] := by
  have hvalue : c.val.toNat = c.toNat := rfl
  have hmax := toNat_lt c
  unfold unitsOf String.utf8EncodeChar
  simp only [hvalue]
  repeat' split
  all_goals try omega
  all_goals
    simp only [List.map_cons, List.map_nil]
    repeat rw [toNat_ofNat (by omega)]
  all_goals congr 1; omega

theorem cons?_eq {good : Bool} {code : Nat} {c : Char} (hgood : good = true)
    (hcode : code = c.toNat) (rest : Option Text) :
    cons? good code rest = rest.map (.char c :: ·) := by
  have hchar : CodePoint.ofCode c.toNat = .char c :=
    CodePoint.ofCode_code (.char c)
  simp only [cons?, hgood, if_true, hcode, hchar]

theorem isTail_iff {unit : Nat} :
    isTail unit = true ↔ 0x80 ≤ unit ∧ unit < 0xC0 := by
  simp [isTail]

/-- A character is read from its units. -/
theorem ofUnits8?_unitsOf (c : Char) (rest : List Nat) :
    ofUnits8? (unitsOf c ++ rest) = (ofUnits8? rest).map (.char c :: ·) := by
  have hmax := toNat_lt c
  rw [unitsOf_eq]
  split
  next h =>
    rw [List.cons_append, List.nil_append, ofUnits8?.eq_def]
    simp only [if_pos h]
    exact cons?_eq rfl rfl _
  split
  next h =>
    simp only [List.cons_append, List.nil_append, ofUnits8?]
    rw [if_neg (by omega), if_pos (by omega)]
    refine cons?_eq ?_ (by omega) _
    simp only [Bool.and_eq_true, decide_eq_true_eq, isTail_iff]
    omega
  split
  next h =>
    simp only [List.cons_append, List.nil_append, ofUnits8?]
    rw [if_neg (by omega), if_neg (by omega), if_pos (by omega)]
    refine cons?_eq ?_ (by omega) _
    simp only [Bool.and_eq_true, decide_eq_true_eq, isTail_iff]
    omega
  next h =>
    simp only [List.cons_append, List.nil_append, ofUnits8?]
    rw [if_neg (by omega), if_neg (by omega), if_neg (by omega)]
    refine cons?_eq ?_ (by omega) _
    simp only [Bool.and_eq_true, decide_eq_true_eq, isTail_iff]
    omega

-- ================================================================ strings

theorem toNat_toUTF8 (chars : List Char) :
    (String.ofList chars).toUTF8.data.toList.map UInt8.toNat =
      chars.flatMap unitsOf := by
  have hbytes : (String.ofList chars).toUTF8.data.toList =
      chars.flatMap String.utf8EncodeChar := by
    simp [String.toUTF8, String.toByteArray_ofList, List.utf8Encode]
  rw [hbytes, List.map_flatMap]
  rfl

/-- Characters are read from their units. -/
theorem ofUnits8?_flatMap (chars : List Char) :
    ofUnits8? (chars.flatMap unitsOf) = some (chars.map .char) := by
  induction chars with
  | nil => rfl
  | cons c chars ih =>
    rw [List.flatMap_cons, ofUnits8?_unitsOf, ih]
    rfl

-- ================================================================= marks

/-- Whether a character is one byte, and no zero. -/
def IsAscii (c : Char) : Prop := 0 < c.toNat ∧ c.toNat < 0x80

instance (c : Char) : Decidable (IsAscii c) :=
  inferInstanceAs (Decidable (_ ∧ _))

/-- Bytes that begin with two characters of ASCII are units of eight bits,
without a mark. -/
theorem detect_of_isAscii {a b : Char} (ha : IsAscii a) (hb : IsAscii b)
    (rest : List Nat) :
    Encoding.detect (a.toNat :: b.toNat :: rest) =
      (.units8, a.toNat :: b.toNat :: rest) := by
  obtain ⟨hapos, hasmall⟩ := ha
  obtain ⟨hbpos, -⟩ := hb
  have hmark : (Encoding.marks.find? fun mark =>
      mark.1.isPrefixOf (a.toNat :: b.toNat :: rest)) = none := by
    refine List.find?_eq_none.2 fun mark hmem => ?_
    simp only [Encoding.marks, List.mem_cons, List.not_mem_nil, or_false]
      at hmem
    rcases hmem with rfl | rfl | rfl | rfl | rfl
    all_goals
      simp only [List.isPrefixOf_cons_cons, Bool.and_eq_true, beq_iff_eq]
      omega
  have hzeros : Encoding.ofZeros (a.toNat :: b.toNat :: rest) = .units8 := by
    unfold Encoding.ofZeros
    split
    all_goals simp_all
  unfold Encoding.detect
  rw [hmark, hzeros]

/-- A whole text that begins with two characters of ASCII is what is read
from its bytes. -/
theorem ofBytes?_display {a b : Char} {rest : Text} (ha : IsAscii a)
    (hb : IsAscii b) (hrest : rest.IsWhole) :
    ofBytes? (display (.char a :: .char b :: rest)).toUTF8 =
      some (.char a :: .char b :: rest) := by
  have hwhole : IsWhole (.char a :: .char b :: rest) := by simp [hrest]
  have hone {c : Char} (hc : IsAscii c) : unitsOf c = [c.toNat] := by
    rw [unitsOf_eq, if_pos hc.2]
  have hunits := toNat_toUTF8
    (a :: b :: rest.map fun c => c.char?.getD '\ufffd')
  have hread := ofUnits8?_flatMap
    (a :: b :: rest.map fun c => c.char?.getD '\ufffd')
  have hshown : display (.char a :: .char b :: rest) = String.ofList
      (a :: b :: rest.map fun c => c.char?.getD '\ufffd') := rfl
  rw [← hshown] at hunits
  rw [List.flatMap_cons, List.flatMap_cons, hone ha, hone hb] at hunits hread
  unfold ofBytes?
  rw [hunits]
  simp only [List.cons_append, List.nil_append, detect_of_isAscii ha hb,
    Encoding.text?]
  refine hread.trans (congrArg some ?_)
  have hback := ofString_display hwhole
  rwa [hshown, ofString, String.toList_ofList] at hback

end Text

end VarSection
