/-
Texts that go on behind a semicolon. Whatever follows, the lexemes up to the
semicolon stay what they are (`Scans.continued`): a scanner looks at most one
character beyond a lexeme, and as long as the semicolon is still ahead that
character is the same. The semicolon itself is a lexeme in front of any
text, and a comment that is closed stays closed where it was.
-/
import VarSection.Proofs.Scanner.Places

namespace VarSection

-- ===================================================== what a scanner sees

/-- A semicolon. -/
def semicolon : CodePoint := .char ';'

/-- A bracket that opens a comment has at most two characters. -/
theorem CommentStyle.opening?_append {c d : CodePoint} (w more : Text) :
    opening? (c :: d :: (w ++ more)) = opening? (c :: d :: w) := by
  have hopener : ∀ style : CommentStyle,
      style.opener.isPrefixOf (c :: d :: (w ++ more))
        = style.opener.isPrefixOf (c :: d :: w) := by
    intro style
    cases style with
    | braces =>
      show (_ == c && List.isPrefixOf [] _) = (_ == c && List.isPrefixOf [] _)
      rw [List.isPrefixOf_nil_left, List.isPrefixOf_nil_left]
    | stars =>
      show (_ == c && (_ == d && List.isPrefixOf [] _))
        = (_ == c && (_ == d && List.isPrefixOf [] _))
      rw [List.isPrefixOf_nil_left, List.isPrefixOf_nil_left]
  unfold opening?
  congr 1
  funext style
  exact hopener style

namespace Lead

/-- In front of a semicolon begins the same whatever follows it. -/
theorem read_append_of_semicolon {c : CodePoint} {w : Text}
    (h : semicolon ∈ c :: w) (more : Text) :
    Lead.read c (w ++ more) = Lead.read c w := by
  rcases List.mem_cons.1 h with rfl | hw
  · rw [read_solitary (by decide), read_solitary (by decide)]
  · have hdigits : (w ++ more).takeWhile isDigit = w.takeWhile isDigit :=
      takeWhile_append_of_stop (.inl ⟨semicolon, hw, by decide⟩)
    have hname : (w ++ more).takeWhile isNameChar = w.takeWhile isNameChar :=
      takeWhile_append_of_stop (.inl ⟨semicolon, hw, by decide⟩)
    cases w with
    | nil => cases hw
    | cons d w =>
      unfold Lead.read lexemeAt
      rw [hdigits, hname, List.cons_append, CommentStyle.opening?_append]
      rfl

end Lead

/-- The place behind a text depends on what follows only by its first
character. -/
theorem Position.behind_append_right {rest : Text} (hrest : rest ≠ [])
    (p : Position) (w more : Text) :
    p.behind w (rest ++ more) = p.behind w rest := by
  induction w generalizing p with
  | nil => rfl
  | cons c w ih =>
    have hhead : (w ++ (rest ++ more)).head? = (w ++ rest).head? := by
      rw [← List.append_assoc, List.head?_append_of_ne_nil _
        (List.append_ne_nil_of_right_ne_nil w hrest)]
    rw [behind, behind, hhead, ih]

-- ======================================================== item by item

variable {p q q' : Position} {c : CodePoint} {text more rest : Text}
  {tokens tokens' : List Token}

/-- What is read from a text with a blank at its head is read behind the
blank. -/
theorem Scans.behind_blank (h : Scans p (c :: rest) tokens q)
    (hlead : Lead.read c rest = .blank) :
    Scans (p.after c rest.head?) rest tokens q := by
  generalize htext : c :: rest = text at h
  cases h with
  | done => cases htext
  | blank _ hrest =>
    cases htext
    exact hrest
  | comment hlead' =>
    cases htext
    rw [hlead] at hlead'
    cases hlead'
  | lexeme hlead' =>
    cases htext
    rw [hlead] at hlead'
    cases hlead'

/-- What is read from a text with a comment at its head is read behind the
comment. -/
theorem Scans.behind_comment {w : Text} {style : CommentStyle} {n : Nat}
    (h : Scans p (c :: more) tokens q)
    (hlead : Lead.read c more = .comment style)
    (hcloser : Scanner.distanceTo? style.closer
      ((c :: more).drop style.opener.length) = some n)
    (htext : c :: more = w ++ rest)
    (hlength : w.length
      = style.opener.length + (n + style.closer.length)) :
    Scans (p.behind w rest) rest tokens q := by
  generalize hall : c :: more = text at h
  cases h with
  | done => cases hall
  | blank hlead' =>
    cases hall
    rw [hlead] at hlead'
    cases hlead'
  | comment hlead' hcloser' htext' hlength' hrest' =>
    cases hall
    rw [hlead] at hlead'
    cases hlead'
    rw [hcloser] at hcloser'
    cases hcloser'
    obtain ⟨rfl, rfl⟩ := List.append_inj (htext'.symm.trans htext)
      (hlength'.trans hlength.symm)
    exact hrest'
  | lexeme hlead' =>
    cases hall
    rw [hlead] at hlead'
    cases hlead'

/-- What is read from a text with a lexeme at its head is the lexeme, and
what is read behind it. -/
theorem Scans.behind_lexeme {kind : Kind}
    (h : Scans p (c :: (more ++ rest)) tokens q)
    (hlead : Lead.read c (more ++ rest) = .lexeme kind more) :
    ∃ tokens', tokens = ⟨kind, c :: more, p⟩ :: tokens'
      ∧ Scans (p.behind (c :: more) rest) rest tokens' q := by
  generalize hall : c :: (more ++ rest) = text at h
  cases h with
  | done => cases hall
  | blank hlead' =>
    cases hall
    rw [hlead] at hlead'
    cases hlead'
  | comment hlead' =>
    cases hall
    rw [hlead] at hlead'
    cases hlead'
  | lexeme hlead' hrest' =>
    obtain ⟨rfl, hmore⟩ := List.cons.inj hall
    rw [← hmore, hlead] at hlead'
    cases hlead'
    rw [List.append_cancel_left hmore]
    exact ⟨_, rfl, hrest'⟩

-- ======================================================== lexemes that stay

/-- A semicolon that is read from a text is written in it. -/
theorem Scans.semicolon_mem (h : Scans p text tokens q)
    {before after : List Token} {semi : Token}
    (htokens : tokens = before ++ semi :: after)
    (hsemi : semi.isSymbol ";" = true) : semicolon ∈ text := by
  have ht : semi ∈ tokens := by
    rw [htokens]
    exact List.mem_append_right _ List.mem_cons_self
  obtain ⟨front, back, htext⟩ := h.text_infix ht
  unfold Token.isSymbol at hsemi
  rw [Bool.and_eq_true, beq_iff_eq, beq_iff_eq] at hsemi
  rw [← htext, hsemi.2]
  exact List.mem_append_left _
    (List.mem_append_right _ (List.mem_singleton_self _))

/-- Where a text goes on behind a semicolon, what was read up to it is read
again. -/
theorem Scans.continued (h : Scans p text tokens q) {before after : List Token}
    {semi : Token} (htokens : tokens = before ++ semi :: after)
    (hsemi : semi.isSymbol ";" = true)
    (h' : Scans p (text ++ more) tokens' q') :
    ∃ after', tokens' = before ++ semi :: after' := by
  induction h generalizing before tokens' with
  | done p => exact absurd htokens.symm (List.append_ne_nil_of_right_ne_nil _
      (List.cons_ne_nil semi after))
  | @blank p q c rest tokens hlead hrest ih =>
    have hmem := hrest.semicolon_mem htokens hsemi
    have hhead : (rest ++ more).head? = rest.head? :=
      List.head?_append_of_ne_nil _ (List.ne_nil_of_mem hmem)
    rw [List.cons_append] at h'
    have hrest' := h'.behind_blank (by
      rw [Lead.read_append_of_semicolon (List.mem_cons_of_mem c hmem), hlead])
    rw [hhead] at hrest'
    exact ih htokens hrest'
  | @comment p q c rest w behind tokens style n hlead hcloser htext hlength
      hrest ih =>
    have hmem := hrest.semicolon_mem htokens hsemi
    have hopener : style.opener.length ≤ (c :: rest).length := by
      rw [htext, List.length_append, hlength]
      omega
    have htext' : c :: (rest ++ more) = w ++ (behind ++ more) := by
      rw [← List.cons_append, htext, List.append_assoc]
    rw [List.cons_append] at h'
    have hrest' := h'.behind_comment
      (by
        rw [Lead.read_append_of_semicolon
          (htext ▸ List.mem_append_right w hmem), hlead])
      (by
        rw [← List.cons_append, List.drop_append_of_le_length hopener,
          Scanner.distanceTo?_append hcloser])
      htext' hlength
    rw [Position.behind_append_right (List.ne_nil_of_mem hmem)] at hrest'
    exact ih htokens hrest'
  | @lexeme p q c lexeme rest tokens kind hlead hrest ih =>
    have hmem := (Scans.lexeme hlead hrest).semicolon_mem htokens hsemi
    have hlead' := Lead.read_append_of_semicolon hmem more
    rw [hlead, List.append_assoc] at hlead'
    rw [List.cons_append, List.append_assoc] at h'
    obtain ⟨tokens'', rfl, hrest'⟩ := h'.behind_lexeme hlead'
    cases before with
    | nil =>
      obtain ⟨rfl, -⟩ := List.cons.inj htokens
      exact ⟨tokens'', rfl⟩
    | cons t before =>
      obtain ⟨rfl, htail⟩ := List.cons.inj htokens
      rw [Position.behind_append_right
        (List.ne_nil_of_mem (hrest.semicolon_mem htail hsemi))] at hrest'
      obtain ⟨after', rfl⟩ := ih htail hrest'
      exact ⟨after', rfl⟩

end VarSection
