/-
Reading back what was written. Whatever a text is made of, it is read from
its written form as it was (`Json.readText_written`): a character that may
not stand for itself is written as one escape, and no escape that is
written names half of a surrogate pair, so no two of them are taken for one
character. An object with a text as its only member is read back too
(`Json.read_compact`).
-/
import Mathlib.Data.List.Forall2
import VarSection.Json.Reader
import VarSection.Json.Writer
import VarSection.Proofs.Text.Encoding

namespace VarSection

namespace Json

-- ============================================================== characters

/-- The pieces that a character is read as, when it was written. -/
inductive Piece.Names : Piece → CodePoint → Prop
  | plain (c : CodePoint) : Names (.plain c) c
  | unit {c : CodePoint} (h : c.code < 0x20) : Names (.unit c.code) c

/-- The ways a character is written. -/
inductive Escape (c : CodePoint) : Text → Prop
  | letter {letter : CodePoint} (h : escapedChar? letter = some c) :
      Escape c [.char '\\', letter]
  | unit (h : c.code < 0x20) :
      Escape c (.char '\\' :: .char 'u' :: Text.hexDigits 4 c.code)
  | plain (hquote : c ≠ '"') (hslash : c ≠ '\\') (h : ¬ c.code < 0x20) :
      Escape c [c]

theorem escape_escapeChar (c : CodePoint) : Escape c (escapeChar c) := by
  unfold escapeChar
  -- seven characters are named by a letter
  iterate 7
    split
    · next h => exact .letter (by rw [h]; rfl)
  split
  next h => exact .unit h
  next h => exact .plain ‹_› ‹_› h

theorem hexValue?_digitChar {d : Nat} (h : d < 16) :
    Text.hexValue? (.char (Nat.digitChar d)) = some d := by
  have hread : ∀ d : Fin 16,
      Text.hexValue? (.char (Nat.digitChar d)) = some d.val := by
    decide
  exact hread ⟨d, h⟩

/-- The number of a code unit is read back from its four digits. -/
theorem hexUnit?_hexDigits {n : Nat} (h : n < 0x10000) :
    ∃ a b c d, Text.hexDigits 4 n = [a, b, c, d]
      ∧ hexUnit? a b c d = some n := by
  refine ⟨_, _, _, _, rfl, ?_⟩
  have hdigit (m : Nat) := hexValue?_digitChar (Nat.mod_lt m (by decide))
  simp only [hexUnit?, hdigit, Option.bind_eq_bind, Option.bind_some]
  congr 1
  omega

/-- A character is read from the way it is written, as one piece. -/
theorem Escape.readPieces {c : CodePoint} {written : Text}
    (h : Escape c written) :
    ∃ piece, Piece.Names piece c ∧ ∀ read rest,
      readPieces read (written ++ rest) = readPieces (piece :: read) rest := by
  cases h with
  | letter h =>
    refine ⟨.plain c, .plain c, fun read rest => ?_⟩
    have hu : ∀ d, escapedChar? (.char 'u') ≠ some d := fun d hd => by cases hd
    simp only [List.cons_append, List.nil_append]
    rw [Json.readPieces, h]
    rintro a b d e rest rfl
    exact absurd h (hu c)
  | unit h =>
    obtain ⟨a, b, d, e, hdigits, hunit⟩ :=
      hexUnit?_hexDigits (Nat.lt_trans h (by decide))
    refine ⟨.unit c.code, .unit h, fun read rest => ?_⟩
    rw [hdigits]
    simp only [List.cons_append, List.nil_append, Json.readPieces, hunit]
  | plain hquote hslash h =>
    refine ⟨.plain c, .plain c, fun read rest => ?_⟩
    rw [List.singleton_append, Json.readPieces]
    · simp [h, hslash]
    all_goals simp_all

theorem readPieces_written (text : Text) :
    ∃ pieces, List.Forall₂ Piece.Names pieces text ∧ ∀ read rest,
      readPieces read (text.flatMap escapeChar ++ .char '"' :: rest) =
        some (read.reverse ++ pieces, rest) := by
  induction text with
  | nil =>
    refine ⟨[], .nil, fun read rest => ?_⟩
    rw [List.flatMap_nil, List.nil_append, readPieces, List.append_nil]
  | cons c text ih =>
    obtain ⟨piece, hnames, hread⟩ := (escape_escapeChar c).readPieces
    obtain ⟨pieces, hpieces, hreads⟩ := ih
    refine ⟨piece :: pieces, .cons hnames hpieces, fun read rest => ?_⟩
    rw [List.flatMap_cons, List.append_assoc, hread, hreads,
      List.reverse_cons, List.append_assoc]
    rfl

theorem ofPieces_unit {n : Nat} (h : n < 0x20) (pieces : List Piece) :
    ofPieces (.unit n :: pieces) = .ofCode n :: ofPieces pieces := by
  have hhigh : Text.isHighHalf n = false := by
    unfold Text.isHighHalf
    simp
    omega
  rcases pieces with _ | ⟨_ | _, _⟩
  all_goals simp [ofPieces, hhigh]

theorem ofPieces_of_names {pieces : List Piece} {text : Text}
    (h : List.Forall₂ Piece.Names pieces text) : ofPieces pieces = text := by
  induction h with
  | nil => rfl
  | cons hnames _ ih =>
    cases hnames with
    | plain => rw [ofPieces, ih]
    | unit h => rw [ofPieces_unit h, ih, CodePoint.ofCode_code]

theorem readText_written (text rest : Text) :
    readText (text.flatMap escapeChar ++ .char '"' :: rest) =
      some (text, rest) := by
  obtain ⟨pieces, hpieces, hread⟩ := readPieces_written text
  unfold readText
  rw [hread, List.reverse_nil, List.nil_append, Option.map_some]
  exact congrArg (fun text => some (text, rest)) (ofPieces_of_names hpieces)

-- ================================================================ objects

theorem skipSpace_cons {c : CodePoint} (h : isSpace c = false) (text : Text) :
    skipSpace (c :: text) = c :: text := by
  unfold skipSpace
  rw [List.dropWhile_cons, if_neg (by simp [h])]

theorem writtenText_append (text rest : Text) :
    writtenText text ++ rest =
      .char '"' :: (text.flatMap escapeChar ++ .char '"' :: rest) := by
  unfold writtenText
  rw [List.append_assoc, List.append_assoc]
  rfl

theorem readValue_writtenText (depth : Nat) (text rest : Text) :
    ∃ h, readValue depth (writtenText text ++ rest) =
      .ok (.text text, ⟨rest, h⟩) := by
  rw [writtenText_append]
  have hlength : rest.length < (CodePoint.char '"' ::
      (text.flatMap escapeChar ++ .char '"' :: rest)).length := by
    simp
    omega
  have hskip := skipSpace_cons (c := .char '"') (by decide)
    (text.flatMap escapeChar ++ .char '"' :: rest)
  refine ⟨hlength, ?_⟩
  rw [readValue]
  split
  next h =>
    rw [hskip] at h
    cases h
  next h =>
    rw [hskip] at h
    cases h
  next =>
    simp only [hskip, readPlain, readText_written, Option.map_some, shorter,
      dif_pos hlength]

theorem readKey_writtenText (text rest : Text) :
    readKey (writtenText text ++ .char ':' :: rest) = some (text, rest) := by
  rw [writtenText_append]
  unfold readKey
  rw [skipSpace_cons (by decide)]
  simp only [readText_written]
  rfl

theorem compact_object_text (key text : Text) :
    compact (.object [(key, .text text)]) =
      .char '\x7b' :: (writtenText key ++ .char ':' ::
        (writtenText text ++ [.char '\x7d'])) := by
  simp only [compact, render, renderMembers, sortMembers, bracketed,
    Text.joinWith]
  rw [List.mergeSort_singleton, List.map_singleton]
  simp only [List.intercalate_singleton, List.append_assoc]
  rfl

theorem readMembers_last {depth : Nat} {start rest : Text} {value : Json}
    (key : Text) {h : (CodePoint.char '\x7d' :: rest).length < start.length}
    (hvalue : readValue depth start =
      .ok (value, ⟨.char '\x7d' :: rest, h⟩)) :
    ∃ h, readMembers depth (writtenText key ++ .char ':' :: start) =
      .ok ([(key, value)], ⟨rest, h⟩) := by
  have hstart : start.length <
      (writtenText key ++ CodePoint.char ':' :: start).length := by
    simp
    omega
  rw [List.length_cons] at h
  refine ⟨by omega, ?_⟩
  rw [readMembers]
  simp only [readKey_writtenText, shorter, dif_pos hstart, hvalue]
  have hskip := skipSpace_cons (c := .char '\x7d') (by decide) rest
  split
  next h =>
    rw [hskip] at h
    cases h
  next h =>
    rw [hskip] at h
    cases h
    rfl
  next h => exact absurd hskip (h _)

theorem readValue_object {depth : Nat} {start rest : Text}
    {members : List (Text × Json)} {h : rest.length < start.length}
    (hstart : ∀ rest, skipSpace start ≠ .char '\x7d' :: rest)
    (hmembers : readMembers depth start = .ok (members, ⟨rest, h⟩)) :
    ∃ h, readValue (depth + 1) (.char '\x7b' :: start) =
      .ok (.object (ofMembers members), ⟨rest, h⟩) := by
  refine ⟨Nat.lt_succ_of_lt h, ?_⟩
  have hskip := skipSpace_cons (c := .char '\x7b') (by decide) start
  rw [readValue]
  split
  next h =>
    rw [hskip] at h
    cases h
  next h =>
    rw [hskip] at h
    cases h
    simp only [Nat.add_one_ne_zero, if_false, Nat.add_sub_cancel, hmembers]
  next h => exact absurd hskip (h _)

/-- An object with one text in it is read from its compact form. -/
theorem read_compact (depth : Nat) (key text : Text) :
    read (depth + 1) (compact (.object [(key, .text text)])) =
      .ok (.object [(key, .text text)]) := by
  obtain ⟨_, hvalue⟩ := readValue_writtenText depth text [.char '\x7d']
  obtain ⟨_, hmembers⟩ := readMembers_last key hvalue
  have hopen (rest : Text) : skipSpace (writtenText key ++ .char ':' ::
      (writtenText text ++ [.char '\x7d'])) ≠ .char '\x7d' :: rest := by
    rw [writtenText_append, skipSpace_cons (by decide)]
    exact fun h => by cases h
  obtain ⟨_, hobject⟩ := readValue_object hopen hmembers
  rw [compact_object_text]
  unfold read
  rw [hobject]
  rfl

end Json

end VarSection
