/-
The table of lexemes read back. Its columns are filled up and never cut, so a
long cell pushes the others to the right. But a space stands behind every
cell, and none within a place or a class (`IsCell`): up to the text of a
lexeme, spaces tell the cells apart (`readCell_padRight`). The text may hold
anything; it is quoted, and ends with its quote. No cell breaks its line.

So each lexeme is read back from its line (`readRow_tokenRow`), and the table
loses nothing of the lexemes (`text_lossless`).
-/
import VarSection.Proofs.Numeral
import VarSection.Proofs.Text.Quoting
import VarSection.Token.Listing

namespace VarSection

theorem Kind.ofName?_name (kind : Kind) : ofName? kind.name = some kind := by
  cases kind <;> rfl

namespace Listing

-- ================================================================== cells

/-- What may stand in a column in front of others. -/
structure IsCell (text : Text) : Prop where
  ne_nil : text ≠ []
  noSpace : CodePoint.char ' ' ∉ text
  noFeed : CodePoint.char '\n' ∉ text

theorem isCell_ofInt (n : Int) : IsCell (Text.ofInt n) where
  ne_nil := Text.ofInt_ne_nil n
  noSpace h := by
    rcases Text.eq_minus_or_isDigit_of_mem_ofInt h with h | h <;> cases h
  noFeed h := by
    rcases Text.eq_minus_or_isDigit_of_mem_ofInt h with h | h <;> cases h

theorem isCell_name (kind : Kind) : IsCell kind.name := by
  cases kind <;> exact ⟨by decide, by decide, by decide⟩

/-- What begins with a cell does not begin with a space. -/
theorem IsCell.head?_padRight_ne {cell : Text} (h : IsCell cell) (width : Nat)
    (rest : Text) :
    (padRight width cell ++ (" " : Text) ++ rest).head?
      ≠ some (.char ' ') := by
  obtain ⟨c, more, rfl⟩ := List.exists_cons_of_ne_nil h.ne_nil
  intro hhead
  have hspace : c = .char ' ' := Option.some.inj hhead
  exact h.noSpace (hspace ▸ List.mem_cons_self)

/-- Reads a cell, and passes the spaces behind it. -/
def readCell (text : Text) : Text × Text :=
  (text.takeWhile (· ≠ .char ' '),
    (text.dropWhile (· ≠ .char ' ')).dropWhile (· = .char ' '))

/-- Behind a cell stands at least one space. -/
theorem padRight_append_space (width : Nat) (cell rest : Text) :
    padRight width cell ++ (" " : Text) ++ rest
      = cell ++ (.char ' ' ::
          (List.replicate (width - cell.length) (.char ' ') ++ rest)) := by
  have hspaces : List.replicate (width - cell.length) (CodePoint.char ' ')
        ++ (" " : Text)
      = .char ' ' :: List.replicate (width - cell.length) (.char ' ') :=
    List.replicate_succ'.symm
  rw [padRight, Text.repeated, List.append_assoc cell, hspaces,
    List.append_assoc, List.cons_append]

/-- A cell is read back, and what follows its column is next. -/
theorem readCell_padRight {cell rest : Text} (h : IsCell cell) (width : Nat)
    (hrest : rest.head? ≠ some (.char ' ')) :
    readCell (padRight width cell ++ (" " : Text) ++ rest)
      = (cell, rest) := by
  have hcell : ∀ c ∈ cell, decide (c ≠ .char ' ') = true := by
    intro c hc
    exact decide_eq_true fun hspace => h.noSpace (hspace ▸ hc)
  have hspaces : ∀ c ∈ List.replicate (width - cell.length)
      (CodePoint.char ' '), decide (c = .char ' ') = true := by
    intro c hc
    exact decide_eq_true (List.eq_of_mem_replicate hc)
  have hstop : rest.dropWhile (· = .char ' ') = rest := by
    cases rest with
    | nil => rfl
    | cons c more =>
      apply List.dropWhile_cons_of_neg
      exact fun hc => hrest (congrArg some (of_decide_eq_true hc))
  rw [padRight_append_space, readCell, List.takeWhile_append_of_pos hcell,
    List.dropWhile_append_of_pos hcell,
    List.takeWhile_cons_of_neg (by decide), List.append_nil,
    List.dropWhile_cons_of_neg (by decide),
    List.dropWhile_cons_of_pos (by decide),
    List.dropWhile_append_of_pos hspaces, hstop]

-- =================================================================== rows

theorem row_eq (line col kind text : Text) :
    row line col kind text
      = padRight 7 line ++ (" " : Text) ++ (padRight 8 col ++ (" " : Text)
          ++ (padRight 10 kind ++ (" " : Text) ++ padRight 30 text)) := by
  simp only [row, List.append_assoc]

/-- Reads the line of a lexeme. -/
def readRow (row : Text) : Option Token := do
  let (line, row) := readCell row
  let (col, row) := readCell row
  let (kind, row) := readCell row
  let kind ← Kind.ofName? kind
  let (text, _) ← Text.readQuoted row
  return ⟨kind, text, ⟨Numeral.value line, Numeral.value col⟩⟩

/-- A lexeme is read back from its line. -/
theorem readRow_tokenRow (t : Token) : readRow (tokenRow t) = some t := by
  have hquote : (padRight 30 (Text.quoted t.text)).head?
      ≠ some (.char ' ') := by
    intro hhead
    have hspace : Text.quoteFor t.text = .char ' ' := Option.some.inj hhead
    rcases Text.isQuote_quoteFor t.text with hquote | hquote
    · cases hquote.symm.trans hspace
    · cases hquote.symm.trans hspace
  have hkind := readCell_padRight (isCell_name t.kind) 10 hquote
  have hcol := readCell_padRight (isCell_ofInt t.pos.col) 8
    ((isCell_name t.kind).head?_padRight_ne 10
      (padRight 30 (Text.quoted t.text)))
  have hline := readCell_padRight (isCell_ofInt t.pos.line) 7
    ((isCell_ofInt t.pos.col).head?_padRight_ne 8
      (padRight 10 t.kind.name ++ (" " : Text)
        ++ padRight 30 (Text.quoted t.text)))
  have htext : Text.readQuoted (padRight 30 (Text.quoted t.text))
      = some (t.text, _) := Text.readQuoted_quoted t.text _
  simp only [readRow, tokenRow, row_eq, hline, hcol, hkind, htext,
    Kind.ofName?_name, Numeral.value_ofInt, Option.bind_eq_bind,
    Option.bind_some]
  rfl

theorem lineFeed_not_mem_padRight {text : Text}
    (h : CodePoint.char '\n' ∉ text) (width : Nat) :
    CodePoint.char '\n' ∉ padRight width text := by
  intro hfeed
  rcases List.mem_append.1 hfeed with hfeed | hfeed
  · exact h hfeed
  · cases List.eq_of_mem_replicate hfeed

theorem lineFeed_not_mem_tokenRow (t : Token) :
    CodePoint.char '\n' ∉ tokenRow t := by
  have hline := (isCell_ofInt t.pos.line).noFeed
  have hcol := (isCell_ofInt t.pos.col).noFeed
  have hkind := (isCell_name t.kind).noFeed
  have htext := Text.lineFeed_not_mem_quoted t.text
  have hspace : CodePoint.char '\n' ∉ (" " : Text) := by decide
  simp only [tokenRow, row, List.mem_append, not_or]
  exact ⟨⟨⟨⟨⟨⟨lineFeed_not_mem_padRight hline 7, hspace⟩,
    lineFeed_not_mem_padRight hcol 8⟩, hspace⟩,
    lineFeed_not_mem_padRight hkind 10⟩, hspace⟩,
    lineFeed_not_mem_padRight htext 30⟩

-- ============================================================= the listing

/-- Reads the lexemes of a listing. -/
def read (listing : Text) : Option (List Token) :=
  ((listing.splitOn (.char '\n')).drop heading.length).mapM readRow

/-- The lines of a listing are the lines it was made of. -/
theorem splitOn_text (table : List Token) :
    (text table).splitOn (.char '\n') = lines table := by
  have hheading : ∀ line ∈ heading, CodePoint.char '\n' ∉ line := by decide
  apply List.splitOn_intercalate
  · intro line hline
    rcases List.mem_append.1 hline with hline | hline
    · exact hheading line hline
    · obtain ⟨t, -, rfl⟩ := List.mem_map.1 hline
      exact lineFeed_not_mem_tokenRow t
  · exact List.cons_ne_nil _ _

/-- The lexemes of a listing are read back. -/
theorem read_text (table : List Token) : read (text table) = some table := by
  have hrows : (readRow ∘ tokenRow) = fun t => pure t :=
    funext readRow_tokenRow
  rw [read, splitOn_text, lines, List.drop_left, List.mapM_map, hrows,
    List.mapM_pure, List.map_id']
  rfl

/-- The table of lexemes loses nothing. Split into its lines it is the two
lines of heading and one line for each lexeme, in order; the lexemes are read
back from it; so no two lists of lexemes have the same table. -/
theorem text_lossless (table : List Token) :
    (text table).splitOn (.char '\n') = heading ++ table.map tokenRow
      ∧ heading.length = 2
      ∧ read (text table) = some table
      ∧ ∀ other, text table = text other ↔ table = other := by
  refine ⟨splitOn_text table, rfl, read_text table, fun other => ?_⟩
  constructor
  · intro h
    have hread := read_text other
    rw [← h, read_text table] at hread
    exact Option.some.inj hread
  · exact congrArg text

end Listing

end VarSection
