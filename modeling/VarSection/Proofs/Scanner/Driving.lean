/-
A scanner driven from outside, by operations in any number and order, also
past the end of its text. Its line and column are moved one character at a
time, and yet they can be told from how far it has come: from what it has
stepped over, from the line feed that may follow a carriage return at the
very end of that, and from the number of steps past the end
(`Position.stepped`). No way to drive it makes a difference
(`drive_keepsPlace`).

`Follows` is the invariant. Only single steps move the place, so it is enough
that these keep it; all operations but the recording ones are rows of steps.
-/
import VarSection.Proofs.Scanner.Layout
import VarSection.Token.Scanner.Operation

namespace VarSection

-- ========================================================= places by steps

namespace Position

/-- The place that steps over a text lead to, where `next` follows the text
and `beyond` more steps were taken past its end: the place that is counted
from the text, and as many columns further on. Between a carriage return and
a line feed it is still the place in front of the two. -/
def stepped (text : Text) (next : Option CodePoint) (beyond : Nat) :
    Position :=
  if text.getLast? = some (.char '\r') ∧ next = some (.char '\n') then
    reference text.dropLast
  else (reference text).right beyond

theorem right_right (p : Position) (m n : Nat) :
    (p.right m).right n = p.right (m + n) := by
  have hcol : p.col + m + n = p.col + (m + n : Nat) := by omega
  exact congrArg (mk p.line) hcol

theorem behind_concat (p : Position) (w rest : Text) (c : CodePoint) :
    p.behind (w ++ [c]) rest = (p.behind w (c :: rest)).after c rest.head? :=
  behind_append p w [c] rest

/-- Between a carriage return and its line feed nothing has moved. -/
theorem behind_return_start (w : Text) {rest : Text}
    (h : rest.head? = some (.char '\n')) :
    start.behind (w ++ [.char '\r']) rest = reference w := by
  have hstay (p : Position) : p.after (.char '\r') rest.head? = p := by
    unfold after
    rw [if_neg (by decide), if_pos rfl, if_pos h]
  have hreturn : (CodePoint.char '\r' :: rest).head?
      ≠ some (.char '\n') := by
    rw [List.head?_cons]
    decide
  rw [behind_concat, hstay, behind_start w _ hreturn]

/-- What is counted step by step is what the text that was stepped over and
the character behind it tell. -/
theorem behind_start_eq_stepped (text rest : Text) :
    start.behind text rest = stepped text rest.head? 0 := by
  unfold stepped
  rw [right_zero]
  by_cases hbetween : text.getLast? = some (.char '\r')
      ∧ rest.head? = some (.char '\n')
  · obtain ⟨w, rfl⟩ := List.getLast?_eq_some_iff.1 hbetween.1
    rw [if_pos hbetween, List.dropLast_concat,
      behind_return_start w hbetween.2]
  · rw [if_neg hbetween]
    by_cases hfeed : rest.head? = some (.char '\n')
    · have hlast : (text ++ []).getLast? ≠ some (.char '\r') := by
        rw [List.append_nil]
        exact fun hlast => hbetween ⟨hlast, hfeed⟩
      obtain ⟨more, rfl⟩ := List.head?_eq_some_iff.1 hfeed
      exact (behind_append_lineFeed hlast start more).trans
        (behind_start text [] (by decide))
    · exact behind_start text rest hfeed

/-- Past the end of a text each step moves the place by one column. -/
theorem stepped_right {text : Text} {next : Option CodePoint} {beyond : Nat}
    (h : beyond ≠ 0 → next = none) :
    (stepped text next 0).right beyond = stepped text next beyond := by
  by_cases hbeyond : beyond = 0
  · rw [hbeyond, right_zero]
  · unfold stepped
    rw [h hbeyond, if_neg (fun h => by cases h.2),
      if_neg (fun h => by cases h.2), right_zero]

end Position

namespace Scanner

variable {text : Text} {s s' : Scanner}

-- ============================================================ the invariant

/-- A scanner stands in a text at the place that the steps so far lead to.
Past the end of the text nothing is ahead. -/
structure Follows (text : Text) (s : Scanner) : Prop where
  toList : s.cursor.toList = text
  overrun : s.cursor.overrun ≠ 0 → s.ahead = []
  pos : s.pos = (Position.start.behind s.cursor.behind.reverse s.ahead).right
    s.cursor.overrun

namespace Follows

theorem ofText (text : Text) : Follows text (ofText text) :=
  ⟨rfl, fun h => absurd rfl h, (Position.right_zero _).symm⟩

/-- What keeps the place keeps to it. -/
theorem congr (h : Follows text s) (hcursor : s'.cursor = s.cursor)
    (hpos : s'.pos = s.pos) : Follows text s' := by
  have hahead : s'.ahead = s.ahead := congrArg Cursor.ahead hcursor
  refine ⟨by rw [hcursor, h.toList], ?_, ?_⟩
  · rw [hcursor, hahead]
    exact h.overrun
  · rw [hpos, hcursor, hahead]
    exact h.pos

/-- A single step, within the text or past its end. -/
theorem advance (h : Follows text s) : Follows text s.advance := by
  obtain ⟨⟨behind, ahead, overrun⟩, pos, tokens, errors⟩ := s
  obtain ⟨hlist, hoverrun, hpos⟩ := h
  cases ahead with
  | nil =>
    refine ⟨hlist, fun _ => rfl, ?_⟩
    change pos = (Position.start.behind behind.reverse []).right overrun
      at hpos
    show pos.right 1
      = (Position.start.behind behind.reverse []).right (overrun + 1)
    rw [hpos, Position.right_right]
  | cons c rest =>
    have hzero : overrun = 0 := by
      by_contra hne
      cases hoverrun hne
    subst hzero
    refine ⟨(Cursor.toList_advance _).trans hlist, fun hne => absurd rfl hne,
      ?_⟩
    change pos = _ at hpos
    show pos.after c rest.head?
      = (Position.start.behind (c :: behind).reverse rest).right 0
    rw [hpos, Position.right_zero, Position.right_zero, List.reverse_cons,
      Position.behind_concat]
    rfl

theorem advanceBy (h : Follows text s) (n : Nat) :
    Follows text (advanceBy n s) := by
  induction n generalizing s with
  | zero => exact h
  | succ n ih => exact ih h.advance

theorem push (h : Follows text s) (token : Token) :
    Follows text (s.push token) :=
  h.congr rfl rfl

theorem report (h : Follows text s) (pos : Position) (cause : Cause) :
    Follows text (s.report pos cause) :=
  h.congr rfl rfl

theorem skipComment (h : Follows text s) (opener closer : Text) :
    Follows text (s.skipComment opener closer).2 := by
  unfold Scanner.skipComment
  have hinside := h.advanceBy opener.length
  simp only
  split
  next => exact hinside.advanceBy _
  next => exact (hinside.advanceBy _).report ..

theorem scanItems (h : Follows text s) : Follows text s.scanItems := by
  fun_induction Scanner.scanItems s with
  | case1 s hahead => exact h
  | case2 s c rest hahead hlead ih => exact ih h.advance
  | case3 s c rest hahead style hlead skipped hclosed ih =>
    exact ih (h.skipComment ..)
  | case4 s c rest hahead style hlead skipped hclosed =>
    exact h.skipComment ..
  | case5 s c rest hahead kind more hlead ih =>
    exact ih ((h.advanceBy _).push _)

theorem scan (h : Follows text s) : Follows text s.scan.2 := by
  unfold Scanner.scan
  simp only
  split
  · exact h.scanItems.push _
  · exact h.scanItems

/-- Every operation that gives an answer keeps to the text. -/
theorem apply (h : Follows text s) {op : Operation} {answer : Answer}
    (hop : op.apply s = .ok (answer, s')) : Follows text s' := by
  cases op with
  | advance => cases hop; exact h.advance
  | peek offset =>
    change (s.peek offset).map _ = _ at hop
    cases hpeek : s.peek offset with
    | error fault => rw [hpeek] at hop; cases hop
    | ok c => rw [hpeek] at hop; cases hop; exact h
  | readWhile allowed => cases hop; exact h.advanceBy _
  | skipComment opener closer => cases hop; exact h.skipComment opener closer
  | scan => cases hop; exact h.scan
  | push token => cases hop; exact h.push token
  | report pos cause => cases hop; exact h.report pos cause
  | listing => cases hop; exact h
  | findings => cases hop; exact h

/-- How far a scanner has come tells what it has stepped over, what is ahead
of it, and how many steps it took past the end. -/
theorem parts (h : Follows text s) :
    text.take s.cursor.position = s.cursor.behind.reverse
      ∧ text[s.cursor.position]? = s.current?
      ∧ s.cursor.position - text.length = s.cursor.overrun := by
  obtain ⟨⟨behind, ahead, overrun⟩, pos, tokens, errors⟩ := s
  obtain ⟨rfl, hoverrun, -⟩ := h
  show (behind.reverse ++ ahead).take (behind.length + overrun) = _
    ∧ (behind.reverse ++ ahead)[behind.length + overrun]? = ahead.head?
    ∧ behind.length + overrun - (behind.reverse ++ ahead).length = overrun
  cases ahead with
  | nil =>
    rw [List.append_nil, List.length_reverse]
    refine ⟨List.take_of_length_le ?_, List.getElem?_eq_none ?_, ?_⟩
    · rw [List.length_reverse]
      omega
    · rw [List.length_reverse]
      omega
    · omega
  | cons c rest =>
    have hzero : overrun = 0 := by
      by_contra hne
      cases hoverrun hne
    subst hzero
    refine ⟨List.take_left' (by rw [List.length_reverse]; rfl), ?_, ?_⟩
    · rw [List.getElem?_append_right (by rw [List.length_reverse]; omega),
        List.length_reverse, Nat.add_zero, Nat.sub_self]
      rfl
    · rw [List.length_append, List.length_reverse, List.length_cons]
      omega

theorem pos_eq_stepped (h : Follows text s) :
    s.pos = .stepped s.cursor.behind.reverse s.current? s.cursor.overrun := by
  rw [h.pos, Position.behind_start_eq_stepped]
  apply Position.stepped_right
  intro hne
  rw [h.overrun hne]
  rfl

end Follows

-- ============================================================== whole drives

/-- The scanner after operations one after another, unless one of them
faults. -/
def drive (s : Scanner) : List Operation → Except Fault Scanner
  | [] => .ok s
  | op :: ops => (op.apply s).bind fun done => done.2.drive ops

theorem Follows.drive (h : Follows text s) {ops : List Operation}
    (hdrive : s.drive ops = .ok s') : Follows text s' := by
  induction ops generalizing s with
  | nil => cases hdrive; exact h
  | cons op ops ih =>
    unfold Scanner.drive at hdrive
    cases hop : op.apply s with
    | error fault => rw [hop] at hdrive; cases hdrive
    | ok done => rw [hop] at hdrive; exact ih (h.apply hop) hdrive

/-- Line and column are a function of how far a scanner has come, however it
is driven. After any operations without a fault the current character is the
one at the place, none past the end of the text; and line and column are
those that the characters up to the place tell, together with a line feed
behind a carriage return that is the last of them and with the number of
steps past the end. -/
theorem drive_keepsPlace (text : Text) (ops : List Operation) (s : Scanner)
    (h : (Scanner.ofText text).drive ops = .ok s) :
    s.current? = text[s.cursor.position]?
      ∧ s.pos = .stepped (text.take s.cursor.position)
          text[s.cursor.position]? (s.cursor.position - text.length) := by
  have hfollows := (Follows.ofText text).drive h
  obtain ⟨hover, hnext, hbeyond⟩ := hfollows.parts
  rw [hover, hnext, hbeyond]
  exact ⟨rfl, hfollows.pos_eq_stepped⟩

/-- A scanner that steps into the middle of a line break, scans the rest from
there, and skips a comment whose opening bracket is longer than what is
left. -/
theorem drive_keepsPlace_pastEnd :
    let text : Text := "a\r\n\rb"
    (∃ s, (Scanner.ofText text).drive [.advance, .advance] = .ok s
        ∧ s.current? = some (.char '\n') ∧ s.pos = ⟨1, 2⟩)
      ∧ ∃ s, (Scanner.ofText text).drive [.advance, .advance, .scan,
          .peek (-5), .skipComment "(*" "*)", .advance] = .ok s
        ∧ s.cursor.position = 8
        ∧ s.current? = none ∧ s.pos = ⟨3, 5⟩ := by
  intro text
  constructor
  · obtain ⟨hcurrent, hpos⟩ :=
      drive_keepsPlace text [.advance, .advance] _ rfl
    exact ⟨_, rfl, hcurrent.trans rfl, hpos.trans (by decide)⟩
  · let ops : List Operation := [.advance, .advance, .scan, .peek (-5),
      .skipComment "(*" "*)", .advance]
    have hplace : ((Scanner.ofText text).drive ops).map (·.cursor.position)
        = .ok 8 := by decide +kernel
    cases hdrive : (Scanner.ofText text).drive ops with
    | error fault =>
      rw [hdrive] at hplace
      cases hplace
    | ok s =>
      rw [hdrive] at hplace
      have hposition : s.cursor.position = 8 := Except.ok.inj hplace
      obtain ⟨hcurrent, hpos⟩ := drive_keepsPlace text ops s hdrive
      rw [hposition] at hcurrent hpos
      exact ⟨s, rfl, hposition, hcurrent.trans rfl,
        hpos.trans (by decide)⟩

end Scanner

end VarSection
