/-
Quoted texts read back. What stands behind the opening quote is read up to
the same quote, character by character (`Text.readQuoted`). This gives the
text that was quoted, whatever follows it (`Text.readQuoted_quoted`): the
quote in use never stands for itself, a backslash always begins an escape,
and the letter behind it tells how many digits follow.

A quoted text is written on one line (`Text.lineFeed_not_mem_quoted`).
-/
import Mathlib.Algebra.Group.Nat.Defs
import VarSection.Proofs.Json.Reading
import VarSection.Text.Quoted

namespace VarSection

theorem CodePoint.code_lt (c : CodePoint) : c.code < 0x110000 := by
  cases c with
  | char c =>
    have hvalid := c.valid
    simp only [UInt32.isValidChar, Nat.isValidChar] at hvalid
    simp only [code, Char.toNat]
    omega
  | half n =>
    simp only [code]
    omega

namespace Text

-- ====================================================== hexadecimal digits

/-- The number that hexadecimal digits write. -/
def hexNumber (digits : Text) : Nat :=
  digits.foldl (fun n c => 16 * n + (hexValue? c).getD 0) 0

theorem length_hexDigits (width n : Nat) :
    (hexDigits width n).length = width := by
  induction width generalizing n with
  | zero => rfl
  | succ width ih => rw [hexDigits, List.length_append, ih]; rfl

/-- Of a number as many digits are read back as were written. -/
theorem hexNumber_hexDigits (width n : Nat) :
    hexNumber (hexDigits width n) = n % 16 ^ width := by
  induction width generalizing n with
  | zero => exact (Nat.mod_one n).symm
  | succ width ih =>
    have hdigit :=
      Json.hexValue?_digitChar (Nat.mod_lt n (by decide : 0 < 16))
    have hfront := ih (n / 16)
    unfold hexNumber at hfront ⊢
    rw [hexDigits, List.foldl_append, hfront, List.foldl_cons, List.foldl_nil,
      hdigit, Nat.pow_succ', Nat.mod_mul]
    exact Nat.add_comm _ _

theorem exists_of_mem_hexDigits {width n : Nat} {c : CodePoint}
    (h : c ∈ hexDigits width n) : ∃ d < 16, c = .char (Nat.digitChar d) := by
  induction width generalizing n with
  | zero => cases h
  | succ width ih =>
    rcases List.mem_append.1 h with h | h
    · exact ih h
    · exact ⟨n % 16, Nat.mod_lt n (by decide), List.mem_singleton.1 h⟩

theorem lineFeed_not_mem_hexDigits (width n : Nat) :
    CodePoint.char '\n' ∉ hexDigits width n := by
  intro h
  obtain ⟨d, hd, hfeed⟩ := exists_of_mem_hexDigits h
  have hdigit := Json.hexValue?_digitChar hd
  rw [← hfeed] at hdigit
  cases hdigit

-- ======================================================= single characters

/-- How many digits follow the letter of an escape by code point. -/
def escapeWidth? (letter : CodePoint) : Option Nat :=
  if letter = 'x' then some 2
  else if letter = 'u' then some 4
  else if letter = 'U' then some 8
  else none

/-- The character that a letter behind a backslash stands for: one of three,
or the letter itself. -/
def escapedBy (letter : CodePoint) : CodePoint :=
  if letter = 'n' then '\n'
  else if letter = 'r' then '\r'
  else if letter = 't' then '\t'
  else letter

/-- Reads what stands behind a backslash. -/
def readEscape : Text → Option (CodePoint × Text)
  | [] => none
  | letter :: rest =>
    match escapeWidth? letter with
    | some width =>
      some (.ofCode (hexNumber (rest.take width)), rest.drop width)
    | none => some (escapedBy letter, rest)

/-- Reads one character of what stands between quotes. -/
def readChar : Text → Option (CodePoint × Text)
  | [] => none
  | c :: rest => if c = '\\' then readEscape rest else some (c, rest)

/-- The ways a character is written between quotes. -/
inductive Quoting (quote c : CodePoint) : Text → Prop
  | plain (hquote : c ≠ quote) (hslash : c ≠ '\\') (hfeed : c ≠ '\n') :
      Quoting quote c [c]
  | letter {letter : CodePoint} (hwidth : escapeWidth? letter = none)
      (h : escapedBy letter = c) (hfeed : letter ≠ '\n') :
      Quoting quote c [.char '\\', letter]
  | code {letter : CodePoint} {width : Nat}
      (hwidth : escapeWidth? letter = some width) (hfeed : letter ≠ '\n')
      (h : c.code < 16 ^ width) :
      Quoting quote c (.char '\\' :: letter :: hexDigits width c.code)

/-- A quote that may enclose a text. -/
def IsQuote (quote : CodePoint) : Prop :=
  quote = .char '\'' ∨ quote = .char '"'

theorem isQuote_quoteFor (text : Text) : IsQuote (quoteFor text) := by
  unfold quoteFor
  split
  · exact .inr rfl
  · exact .inl rfl

theorem IsQuote.ne_backslash {quote : CodePoint} (h : IsQuote quote) :
    quote ≠ .char '\\' := by
  rcases h with rfl | rfl <;> decide

theorem IsQuote.ne_lineFeed {quote : CodePoint} (h : IsQuote quote) :
    quote ≠ .char '\n' := by
  rcases h with rfl | rfl <;> decide

/-- The quotes and the backslash are escaped as themselves. -/
theorem quoting_self {quote c : CodePoint} (hquote : IsQuote quote)
    (h : c = quote ∨ c = .char '\\') :
    Quoting quote c [.char '\\', c] := by
  have hself : escapeWidth? c = none ∧ escapedBy c = c ∧ c ≠ .char '\n' := by
    rcases h with rfl | rfl
    · rcases hquote with rfl | rfl <;> decide
    · decide
  exact .letter hself.1 hself.2.1 hself.2.2

theorem quoting_codeEscape (quote c : CodePoint) :
    Quoting quote c (codeEscape c) := by
  unfold codeEscape
  split
  next h => exact .code rfl (by decide) h
  next =>
    split
    next h => exact .code rfl (by decide) h
    next =>
      have hlt := Nat.lt_trans (CodePoint.code_lt c)
        (by decide : 0x110000 < 16 ^ 8)
      exact .code rfl (by decide) hlt

/-- Between quotes every character is written in one of these ways. -/
theorem quoting_quoteChar {quote : CodePoint} (hquote : IsQuote quote)
    (c : CodePoint) : Quoting quote c (quoteChar quote c) := by
  unfold quoteChar
  split
  next h =>
    rw [Bool.or_eq_true, decide_eq_true_eq, decide_eq_true_eq] at h
    exact quoting_self hquote h
  next hself =>
    rw [Bool.or_eq_true, decide_eq_true_eq, decide_eq_true_eq, not_or]
      at hself
    -- three characters are escaped by a letter
    iterate 3
      split
      · next h => exact .letter rfl (by rw [h]; rfl) (by decide)
    split
    next => exact .plain hself.1 hself.2 ‹_›
    next => exact quoting_codeEscape quote c

namespace Quoting

variable {quote c : CodePoint} {written : Text}

/-- However a character is written, it is read back. -/
theorem readChar_append (h : Quoting quote c written) (rest : Text) :
    readChar (written ++ rest) = some (c, rest) := by
  cases h with
  | plain _ hslash => exact if_neg hslash
  | letter hwidth h =>
    rw [List.cons_append, readChar, if_pos rfl, List.cons_append, readEscape]
    simp only [hwidth, h, List.nil_append]
  | @code letter width hwidth _ h =>
    rw [List.cons_append, readChar, if_pos rfl, List.cons_append, readEscape]
    simp only [hwidth]
    rw [List.take_left' (length_hexDigits ..),
      List.drop_left' (length_hexDigits ..), hexNumber_hexDigits,
      Nat.mod_eq_of_lt h, CodePoint.ofCode_code]

/-- No character is written with the quote in front. -/
theorem head?_ne (h : Quoting quote c written) (hquote : IsQuote quote)
    (rest : Text) : (written ++ rest).head? ≠ some quote := by
  have hslash : some (CodePoint.char '\\') ≠ some quote := fun heq =>
    hquote.ne_backslash (Option.some.inj heq).symm
  cases h with
  | plain hne => exact fun heq => hne (Option.some.inj heq)
  | letter => exact hslash
  | code => exact hslash

theorem lineFeed_not_mem (h : Quoting quote c written) :
    CodePoint.char '\n' ∉ written := by
  cases h with
  | plain _ _ hfeed => simpa using hfeed.symm
  | letter _ _ hfeed => simpa using hfeed.symm
  | code _ hfeed =>
    rw [List.mem_cons, List.mem_cons, not_or, not_or]
    exact ⟨by decide, hfeed.symm, lineFeed_not_mem_hexDigits _ _⟩

end Quoting

-- ============================================================= whole texts

theorem length_lt_of_readEscape {text rest : Text} {c : CodePoint}
    (h : readEscape text = some (c, rest)) : rest.length < text.length := by
  cases text with
  | nil => cases h
  | cons letter more =>
    simp only [readEscape] at h
    split at h <;> cases h
    · rw [List.length_drop, List.length_cons]
      omega
    · exact Nat.lt_succ_self _

theorem length_lt_of_readChar {text rest : Text} {c : CodePoint}
    (h : readChar text = some (c, rest)) : rest.length < text.length := by
  cases text with
  | nil => cases h
  | cons first more =>
    rw [readChar] at h
    split at h
    · exact Nat.lt_succ_of_lt (length_lt_of_readEscape h)
    · cases h
      exact Nat.lt_succ_self _

/-- Reads characters up to a quote, and gives them with what is behind the
quote. -/
def readUpTo (quote : CodePoint) (text : Text) : Option (Text × Text) :=
  if text.head? = some quote then some ([], text.tail)
  else
    match _ : readChar text with
    | none => none
    | some (c, rest) =>
      (readUpTo quote rest).map fun read => (c :: read.1, read.2)
termination_by text.length
decreasing_by exact length_lt_of_readChar ‹readChar _ = _›

/-- Reads a quoted text, and gives it with what is behind it. -/
def readQuoted : Text → Option (Text × Text)
  | [] => none
  | quote :: rest => readUpTo quote rest

theorem readUpTo_of_readChar {quote c : CodePoint} {text rest : Text}
    (hhead : text.head? ≠ some quote) (h : readChar text = some (c, rest)) :
    readUpTo quote text
      = (readUpTo quote rest).map fun read => (c :: read.1, read.2) := by
  rw [readUpTo, if_neg hhead]
  split
  next hnone =>
    cases h.symm.trans hnone
  next hsome =>
    cases h.symm.trans hsome
    rfl

/-- What is written between quotes is read back. -/
theorem readUpTo_quoteChar {quote : CodePoint} (hquote : IsQuote quote)
    (text rest : Text) :
    readUpTo quote (text.flatMap (quoteChar quote) ++ quote :: rest)
      = some (text, rest) := by
  induction text with
  | nil =>
    rw [List.flatMap_nil, List.nil_append, readUpTo, if_pos List.head?_cons,
      List.tail_cons]
  | cons c text ih =>
    have hquoting := quoting_quoteChar hquote c
    rw [List.flatMap_cons, List.append_assoc,
      readUpTo_of_readChar (hquoting.head?_ne hquote _)
        (hquoting.readChar_append _), ih]
    rfl

/-- A quoted text is read back, whatever follows it. -/
theorem readQuoted_quoted (text rest : Text) :
    readQuoted (quoted text ++ rest) = some (text, rest) := by
  have hinner := readUpTo_quoteChar (isQuote_quoteFor text) text rest
  rw [quoted, List.append_assoc]
  exact hinner

/-- Quoted texts have no line breaks. -/
theorem lineFeed_not_mem_quoted (text : Text) :
    CodePoint.char '\n' ∉ quoted text := by
  have hquote := isQuote_quoteFor text
  have hinner : CodePoint.char '\n'
      ∉ text.flatMap (quoteChar (quoteFor text)) := by
    intro h
    obtain ⟨c, -, hc⟩ := List.mem_flatMap.1 h
    exact (quoting_quoteChar hquote c).lineFeed_not_mem hc
  have hne := hquote.ne_lineFeed.symm
  rw [quoted, List.cons_append, List.mem_cons, List.mem_append,
    List.mem_singleton]
  rintro (h | h | h)
  · exact hne h
  · exact hinner h
  · exact hne h

end Text

end VarSection
