/-
Names as they are written. A name that is read from a lexeme on is literal: it
stands in the text at its place, letter by letter. It is made of lexemes with
nothing between them, and of as many as there are (`Identifier.SpelledBy`). A
reader only compares lines and columns, but in a table made from a text what
stands right behind a lexeme by its numbers is written right behind it
(`Scans.head_touches`).

What counts as a valid name is one in the text, too: the line break that is
disregarded at the end of a name never is in one (`Identifier.isValid_iff`).
-/
import VarSection.Proofs.Analysis.Citing
import VarSection.Proofs.Grammar.Silent
import VarSection.Proofs.Scanner.Layout

namespace VarSection

open Analysis

-- ================================================== lexemes in one piece

namespace Text

/-- Lexemes are written right behind a text, one behind the other and with
nothing between them. -/
def RunsOn (front : Text) : List Token → Prop
  | [] => True
  | t :: rest => t.pos = .reference front ∧ RunsOn (front ++ t.text) rest

/-- Behind a text something else is written before a lexeme follows. -/
def PartedFrom (front behind : Text) (t : Token) : Prop :=
  ∃ gap rest, gap ≠ [] ∧ behind = gap ++ (t.text ++ rest)
    ∧ t.pos = .reference (front ++ gap)

end Text

/-- A name is spelled by lexemes in a row of a table. Each of them can be part
of a name, they are written in one piece from the place of the name on, and
the row goes on as long as it can: where a lexeme follows that could be part
of the name as well, something else is written before it. -/
structure Identifier.SpelledBy (n : Identifier) (text : Text)
    (table lexemes : List Token) : Prop where
  nonempty : lexemes ≠ []
  parts : ∀ t ∈ lexemes, t.kind.isNamePart = true
  name : n.name = Text.join (lexemes.map (·.text))
  written : ∃ before after front behind,
    table = before ++ (lexemes ++ after)
      ∧ text = front ++ (n.name ++ behind)
      ∧ n.pos = .reference front
      ∧ front.RunsOn lexemes
      ∧ ∀ t ∈ after.head?, t.kind.isNamePart = true →
          (front ++ n.name).PartedFrom behind t

theorem Token.isEnding_of_isNamePart {t : Token}
    (h : t.kind.isNamePart = true) : t.isEnding = false := by
  apply isEnding_eq_false_of_kind
  intro hkind
  rw [hkind] at h
  cases h

/-- What is glued to a lexeme can be part of a name, and stands on its line. -/
theorem mem_gluedRun {last t : Token} {unread : List Token}
    (h : t ∈ gluedRun last unread) :
    t.kind.isNamePart = true ∧ t.line = last.line := by
  induction unread generalizing last with
  | nil => cases h
  | cons u rest ih =>
    unfold gluedRun at h
    split at h
    next hglued =>
      have hline : u.line = last.line := by
        show u.pos.line = _
        rw [hglued.1]
        rfl
      rcases List.mem_cons.1 h with rfl | h
      · exact ⟨hglued.2, hline⟩
      · exact ⟨(ih h).1, (ih h).2.trans hline⟩
    next => cases h

/-- Behind a lexeme the place is that behind the text up to its end. -/
theorem Token.WellCut.endPos_eq {t : Token} (h : t.WellCut)
    {front rest : Text}
    (hpos : t.pos = Position.start.behind front (t.text ++ rest)) :
    t.endPos = Position.start.behind (front ++ t.text) rest := by
  rw [Position.behind_append, ← hpos, Position.behind_of_oneLine h.oneLine]
  rfl

/-- A lexeme stands at the place that is counted from the text in front of
it. -/
theorem Token.WellCut.pos_eq {t : Token} (h : t.WellCut) {front rest : Text}
    (hpos : t.pos = Position.start.behind front (t.text ++ rest)) :
    t.pos = .reference front := by
  rw [hpos]
  exact Position.behind_start _ _ (h.head?_append_ne rest)

namespace Scans

variable {first t : Token} {front text : Text} {p q : Position}
  {tokens : List Token}

/-- Before a lexeme that does not stand right at the beginning something else
is written. -/
theorem partedFrom (h : Scans p text (t :: tokens) q)
    (hplace : p = Position.start.behind front text) (hpos : t.pos ≠ p) :
    front.PartedFrom text t := by
  obtain ⟨gap, rest, rfl, hgap, -⟩ := h.written (List.nil_append _).symm
  refine ⟨gap, rest, ?_, rfl, ?_⟩
  · rintro rfl
    exact hpos hgap
  · apply (h.wellCut t List.mem_cons_self).pos_eq
    rw [hgap, hplace, ← Position.behind_append]

/-- What is glued to a lexeme is written right behind it, up to where
something else is written before the next part of a name. -/
theorem runsOn_gluedRun (h : Scans first.endPos text tokens q)
    (hplace : first.endPos = Position.start.behind front text) :
    let more := gluedRun first (tokens ++ [.mark q])
    ∃ after behind, tokens ++ [.mark q] = more ++ after
      ∧ text = Text.join (more.map (·.text)) ++ behind
      ∧ front.RunsOn more
      ∧ ∀ t ∈ after.head?, t.kind.isNamePart = true →
          (front ++ Text.join (more.map (·.text))).PartedFrom behind t := by
  intro more
  induction tokens generalizing first front text with
  | nil =>
    have hmore : more = [] := by
      show gluedRun first [.mark q] = []
      rw [gluedRun, if_neg]
      intro hmark
      exact Bool.false_ne_true hmark.2
    rw [hmore]
    refine ⟨[.mark q], text, rfl, rfl, trivial, ?_⟩
    intro t ht hpart
    cases ht
    cases hpart
  | cons t tokens ih =>
    by_cases hglued : t.pos = first.endPos ∧ t.kind.isNamePart = true
    · have hmore : more = t :: gluedRun t (tokens ++ [.mark q]) := by
        show gluedRun first (t :: (tokens ++ [.mark q])) = _
        rw [gluedRun, if_pos hglued]
      rcases h.head_touches with ⟨-, rest, rfl, hrest⟩ | hbefore
      · have hcut := h.wellCut t List.mem_cons_self
        have hpos := hglued.1.trans hplace
        obtain ⟨after, behind, htable, htext, hruns, hparted⟩ :=
          ih hrest (hcut.endPos_eq hpos)
        rw [hmore]
        refine ⟨after, behind, congrArg (t :: ·) htable, ?_,
          ⟨hcut.pos_eq hpos, hruns⟩, ?_⟩
        · rw [htext]
          exact (List.append_assoc ..).symm
        · rw [List.append_assoc] at hparted
          exact hparted
      · exact absurd hglued.1.symm hbefore.ne
    · have hmore : more = [] := by
        show gluedRun first (t :: (tokens ++ [.mark q])) = []
        rw [gluedRun, if_neg hglued]
      rw [hmore]
      refine ⟨_, text, rfl, rfl, trivial, ?_⟩
      intro u hu hpart
      cases hu
      have hparted := h.partedFrom hplace fun hpos => hglued ⟨hpos, hpart⟩
      show (front ++ []).PartedFrom text t
      rw [List.append_nil]
      exact hparted

/-- A name that is read from a lexeme on is spelled by that lexeme and what is
glued to it. -/
theorem spelledBy_nameWith (h : Scans .start text tokens q)
    {before rest : List Token}
    (htable : tokens ++ [.mark q] = before ++ first :: rest)
    (hpart : first.kind.isNamePart = true) :
    (first.nameWith rest).SpelledBy text (tokens ++ [.mark q])
      (first :: gluedRun first rest) := by
  obtain ⟨rest, rfl, htokens⟩ := Token.exists_append_mark htable
    (Token.isEnding_of_isNamePart hpart)
  have hcut := h.wellCut first (by rw [htokens]; simp)
  obtain ⟨front, text', htext, hpos, hrest⟩ := h.written htokens
  obtain ⟨after, behind, hafter, htext', hruns, hparted⟩ :=
    hrest.runsOn_gluedRun (hcut.endPos_eq hpos)
  have hplace := hcut.pos_eq hpos
  refine ⟨List.cons_ne_nil _ _, ?_, rfl, before, after, front, behind, ?_, ?_,
    hplace, ⟨hplace, hruns⟩, ?_⟩
  · intro t ht
    rcases List.mem_cons.1 ht with rfl | ht
    · exact hpart
    · exact (mem_gluedRun ht).1
  · rw [htable, List.cons_append, ← hafter]
  · have hname : (first.nameWith (rest ++ [.mark q])).name = first.text
        ++ Text.join ((gluedRun first (rest ++ [.mark q])).map (·.text)) :=
      rfl
    rw [hname, List.append_assoc, ← htext', htext]
  · rw [List.append_assoc] at hparted
    exact hparted

end Scans

/-- The lexemes of a name are all on one line. -/
theorem Identifier.SpelledBy.oneLine {n : Identifier} {text : Text}
    {table lexemes : List Token} (h : n.SpelledBy text table lexemes)
    (hlexed : Lexed table) : ∀ c ∈ n.name, isLineBreak c = false := by
  obtain ⟨before, after, -, -, htable, -⟩ := h.written
  intro c hc
  rw [h.name] at hc
  obtain ⟨w, hw, hc⟩ := List.mem_flatten.1 hc
  obtain ⟨t, ht, rfl⟩ := List.mem_map.1 hw
  have hend := Token.isEnding_of_isNamePart (h.parts t ht)
  exact (hlexed.wellCut t (by rw [htable]; simp [ht]) hend).oneLine c hc

-- ============================================================ valid names

/-- Whether a text is an identifier: a letter or an underscore and then
letters, digits and underscores, none of them outside ASCII. -/
def Text.IsIdentifier (w : Text) : Prop :=
  w.head?.any isNameStart = true ∧ ∀ c ∈ w, isNameChar c = true

/-- Whether a name may be declared: an identifier that is no keyword, in upper
or lower case. -/
def Identifier.IsValid (n : Identifier) : Prop :=
  n.name.IsIdentifier ∧ Text.lower n.name ∉ keywords

/-- On one line, what counts as a valid name is one. -/
theorem Identifier.isValid_iff {n : Identifier}
    (hline : ∀ c ∈ n.name, isLineBreak c = false) :
    n.IsValid ↔ isValidName n.name = true := by
  have hkeyword : isKeyword n.name = true ↔ Text.lower n.name ∈ keywords := by
    unfold isKeyword
    exact List.contains_iff_mem
  unfold IsValid isValidName
  rw [← hkeyword, Bool.and_eq_true, Bool.not_eq_true', Bool.not_eq_true]
  refine and_congr_left fun _ => ⟨fun hname => ?_, nameChars_of_isName hline⟩
  unfold isName
  rw [Numeral.dropFinalBreak_eq_self hline]
  obtain ⟨hstart, hchars⟩ := hname
  cases hword : n.name with
  | nil =>
    rw [hword] at hstart
    cases hstart
  | cons c rest =>
    rw [hword] at hstart hchars
    simp only [Bool.and_eq_true, List.all_eq_true]
    exact ⟨hstart, fun d hd => hchars d (List.mem_cons_of_mem c hd)⟩

end VarSection
