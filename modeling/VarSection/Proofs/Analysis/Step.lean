/-
The elementary steps of an analysis. `Step` lists all that an analysis ever
does to its state: it passes a lexeme, makes a finding at a lexeme it has
seen or right behind the one it passed last, sets or clears the recovery
mark, notes a number with too many digits or an array inside too many
others, enters a declaration or a symbol. Every reader is a sequence of such
steps (`steps_readType`, `steps_readDeclaration`, `steps_readSection`), so
whatever each step keeps is kept by the whole analysis, and no reader has to
be opened for it.

Inside its table an analysis has no other steps: the faults of a place
outside the table, or of a missing lexeme in front of the place, cannot be
noted, because the readers look for them only where they are found.
-/
import VarSection.Proofs.Analysis.Passage

namespace VarSection.Analysis

variable {a b c : Analysis} {t : Token} {rest : List Token}

-- ======================================================= what stands where

/-- The lexemes that an analysis has seen: the current one and all that it
has passed. -/
def seen (a : Analysis) : List Token := a.current :: a.cursor.behind

/-- A lexeme that is passed is the current one. -/
theorem behind_of_advance (ha : a.Inside)
    (hcursor : b.cursor = a.cursor.advance) :
    b.cursor.behind = a.current :: a.cursor.behind := by
  obtain ⟨rest, hrest⟩ := ha.exists_ahead
  rw [hcursor]
  unfold Cursor.advance
  rw [hrest]

/-- The word at the place comes on top of those behind it. -/
theorem arrayWords_behind_lt (hword : a.unreadKeyword "array" = true) :
    arrayWords a.cursor.behind < arrayWords a.cursor.toList := by
  unfold unreadKeyword at hword
  cases hahead : a.cursor.ahead with
  | nil =>
    rw [hahead] at hword
    cases hword
  | cons t rest =>
    rw [hahead, List.head?_cons, Option.any_some] at hword
    unfold arrayWords Cursor.toList
    have hcons := List.countP_cons_of_pos
      (p := fun t : Token => t.isKeyword "array") (l := rest) hword
    rw [hahead, List.countP_append, List.countP_reverse, hcons]
    omega

/-- Where the place is kept, what has been seen is kept. -/
theorem seen_congr (h : b.cursor = a.cursor) : b.seen = a.seen := by
  unfold seen
  rw [current_congr h, h]

theorem current_mem_seen (a : Analysis) : a.current ∈ a.seen :=
  List.mem_cons_self

theorem mem_seen_of_behind (h : t ∈ a.cursor.behind) : t ∈ a.seen :=
  List.mem_cons_of_mem _ h

/-- Inside a table a lexeme other than the mark of the end is behind the
place once it is passed. -/
theorem current_mem_behind_next (ha : a.Inside)
    (hend : a.current.isEnding = false) :
    a.current ∈ a.next.cursor.behind := by
  obtain ⟨rest, hrest⟩ := ha.exists_ahead
  rw [(passes_next hrest hend).behind]
  exact List.mem_cons_self

theorem isEnding_of_atInteger (h : a.atInteger = true) :
    a.current.isEnding = false := by
  unfold atInteger atKind at h
  rw [Bool.and_eq_true, beq_iff_eq] at h
  exact Token.isEnding_eq_false_of_kind (by rw [h.1]; decide)

theorem kind_of_atInteger (h : a.atInteger = true) :
    a.current.kind = .number := by
  unfold atInteger atKind at h
  rw [Bool.and_eq_true, beq_iff_eq] at h
  exact h.1

/-- At the word for an array that word is current and not the mark of the
end. -/
theorem current_of_unreadKeyword {word : Text}
    (h : a.unreadKeyword word = true) :
    a.current.isKeyword word = true ∧ a.current.isEnding = false := by
  unfold unreadKeyword at h
  cases hahead : a.cursor.ahead with
  | nil =>
    rw [hahead] at h
    cases h
  | cons t rest =>
    rw [hahead, List.head?_cons, Option.any_some] at h
    rw [current_of_ahead hahead]
    exact ⟨h, Token.isEnding_eq_false_of_kind (by
      rw [Token.kind_of_isKeyword h]; decide)⟩

theorem cursor_declareName (type : VarType) (a : Analysis) (n : Identifier) :
    (a.declareName type n).cursor = a.cursor :=
  cursor_declare [n] type a

/-- In front of the whole table no declaration can be left. -/
theorem synchronizeHere_of_front (ha : a.Inside)
    (h : a.cursor.behind.head? = none) :
    a.synchronizeHere = a.halt .nothingBefore := by
  unfold synchronizeHere
  simp only [ha.lookBack, ha.previous?, h]

/-- Behind a passed lexeme the rest of a declaration can be passed. -/
theorem synchronizeHere_of_behind (ha : a.Inside)
    (ht : a.cursor.behind.head? = some t) :
    a.synchronizeHere = a.synchronize t.line := by
  unfold synchronizeHere
  simp only [ha.lookBack, ha.previous?, ht]

theorem Inside.of_recovering (ha : a.Inside) (value : Bool) :
    Inside { a with recovering := value } := ha.congr rfl

theorem isEnding_of_unreadName (h : a.unreadName = true) :
    a.current.isEnding = false := by
  unfold unreadName at h
  cases hahead : a.cursor.ahead with
  | nil =>
    rw [hahead] at h
    cases h
  | cons t rest =>
    rw [hahead] at h
    rw [current_of_ahead hahead]
    exact Token.isEnding_eq_false_of_kind
      (by rw [beq_iff_eq.1 h]; decide)

/-- The table of an analysis around the current lexeme. -/
theorem Inside.toList_eq (ha : a.Inside) :
    ∃ rest, a.cursor.ahead = a.current :: rest
      ∧ a.cursor.toList = a.cursor.behind.reverse ++ a.current :: rest := by
  obtain ⟨rest, hrest⟩ := ha.exists_ahead
  exact ⟨rest, hrest, by unfold Cursor.toList; rw [hrest]⟩

theorem Inside.current_mem (ha : a.Inside) :
    a.current ∈ a.cursor.toList := by
  obtain ⟨rest, -, htable⟩ := ha.toList_eq
  rw [htable]
  exact List.mem_append_right _ List.mem_cons_self

theorem mem_toList_of_behind (h : t ∈ a.cursor.behind) :
    t ∈ a.cursor.toList :=
  List.mem_append_left _ (List.mem_reverse.2 h)

-- ======================================================== elementary steps

variable [NestingLimit]

/-- The faults that an analysis can note where it is: a number that it has
passed has too many digits, or an array begins at the place behind more
words for arrays than there is room for. -/
inductive Notes (a : Analysis) : Fault → Prop
  | digits {t : Token} (ht : t ∈ a.cursor.behind) (hkind : t.kind = .number)
      (hdigits : integerDigitsMax < Numeral.digitCount t.text) :
      a.Notes (.tooManyDigits (Numeral.digitCount t.text))
  | nesting (hword : a.unreadKeyword "array" = true)
      (hwords : nestingMax < arrayWords a.cursor.behind) :
      a.Notes .nestedTooDeep

/-- One elementary step of an analysis. -/
inductive Step : Analysis → Analysis → Prop
  | next (a : Analysis) : Step a a.next
  | report {a : Analysis} {t : Token} (ht : t ∈ a.seen) (cause : Cause) :
      Step a (a.report t.pos cause)
  | reportBehind {a : Analysis} {t : Token} {cause : Cause}
      (ht : a.cursor.behind.head? = some t)
      (hcause : cause = .colonExpected ∨ cause = .semicolonExpected) :
      Step a (a.report t.endPos cause)
  | setRecovering (a : Analysis) (value : Bool) :
      Step a { a with recovering := value }
  | halt {a : Analysis} {fault : Fault} (hnotes : a.Notes fault) :
      Step a (a.halt fault)
  | enter (a : Analysis) (d : Declaration) :
      Step a { a with declarations := d :: a.declarations }
  | define {a : Analysis} {s : Symbol Position}
      (hnew : (a.symbols.define s).1 = none) :
      Step a { a with symbols := (a.symbols.define s).2 }

/-- A sequence of elementary steps. -/
inductive Steps : Analysis → Analysis → Prop
  | refl {a : Analysis} : Steps a a
  | tail {a b c : Analysis} (hsteps : Steps a b) (hstep : Step b c) :
      Steps a c

theorem Steps.single (h : Step a b) : Steps a b := .tail .refl h

theorem Steps.trans (h : Steps a b) (h' : Steps b c) : Steps a c := by
  induction h' with
  | refl => exact h
  | tail _ hstep ih => exact ih.tail hstep

-- ============================================================ what steps keep

/-- A step keeps the place, passes the current lexeme, or stays at the mark
of the end. -/
theorem Step.cursor (h : Step a b) :
    b.cursor = a.cursor
      ∨ (a.current.isEnding = false ∧ b.cursor = a.cursor.advance) := by
  cases h with
  | next =>
    unfold Analysis.next
    split
    next => exact .inl rfl
    next hend => exact .inr ⟨Bool.eq_false_iff.2 hend, rfl⟩
  | report => exact .inl rfl
  | reportBehind => exact .inl rfl
  | setRecovering => exact .inl rfl
  | halt => exact .inl (cursor_halt ..)
  | enter => exact .inl rfl
  | define => exact .inl rfl

theorem Step.inside (h : Step a b) (ha : a.Inside) : b.Inside := by
  rcases h.cursor with hcursor | ⟨hend, hcursor⟩
  · exact ha.congr hcursor
  · obtain ⟨rest, hrest⟩ := ha.exists_ahead
    refine ((passes_next hrest hend).inside ha).congr ?_
    rw [hcursor]
    unfold Analysis.next
    rw [if_neg (Bool.eq_false_iff.1 hend)]

theorem Steps.inside (h : Steps a b) (ha : a.Inside) : b.Inside := by
  induction h with
  | refl => exact ha
  | tail _ hstep ih => exact hstep.inside ih

/-- The lexemes that have been seen stay so. -/
theorem Step.seen_sublist (h : Step a b) (ha : a.Inside) :
    a.seen.Sublist b.seen := by
  unfold seen
  rcases h.cursor with hcursor | ⟨-, hcursor⟩
  · have hsame : b.current :: b.cursor.behind
        = a.current :: a.cursor.behind := by
      rw [current_congr hcursor, hcursor]
    exact hsame ▸ List.Sublist.refl _
  · rw [behind_of_advance ha hcursor]
    exact List.sublist_cons_self ..

theorem Steps.seen_sublist (h : Steps a b) (ha : a.Inside) :
    a.seen.Sublist b.seen := by
  induction h with
  | refl => exact .refl _
  | tail hsteps hstep ih =>
    exact ih.trans (hstep.seen_sublist (hsteps.inside ha))

theorem Steps.mem_seen (h : Steps a b) (ha : a.Inside) (ht : t ∈ a.seen) :
    t ∈ b.seen :=
  (h.seen_sublist ha).subset ht

/-- The lexemes that have been passed stay so. -/
theorem Step.behind_suffix (h : Step a b) (ha : a.Inside) :
    a.cursor.behind <:+ b.cursor.behind := by
  rcases h.cursor with hcursor | ⟨-, hcursor⟩
  · exact hcursor ▸ List.suffix_rfl
  · rw [behind_of_advance ha hcursor]
    exact List.suffix_cons ..

theorem Steps.behind_suffix (h : Steps a b) (ha : a.Inside) :
    a.cursor.behind <:+ b.cursor.behind := by
  induction h with
  | refl => exact List.suffix_rfl
  | tail hsteps hstep ih =>
    exact ih.trans (hstep.behind_suffix (hsteps.inside ha))

theorem Step.mem_behind (h : Step a b) (ha : a.Inside)
    (ht : t ∈ a.cursor.behind) : t ∈ b.cursor.behind :=
  (h.behind_suffix ha).subset ht

theorem Steps.mem_behind (h : Steps a b) (ha : a.Inside)
    (ht : t ∈ a.cursor.behind) : t ∈ b.cursor.behind :=
  (h.behind_suffix ha).subset ht

theorem Steps.arrayWords_le (h : Steps a b) (ha : a.Inside) :
    arrayWords a.cursor.behind ≤ arrayWords b.cursor.behind :=
  (h.behind_suffix ha).sublist.countP_le

/-- Findings are only ever added. -/
theorem Step.errors_suffix (h : Step a b) : a.errors <:+ b.errors := by
  cases h with
  | next => unfold Analysis.next; split <;> exact List.suffix_rfl
  | report => exact List.suffix_cons ..
  | reportBehind => exact List.suffix_cons ..
  | setRecovering => exact List.suffix_rfl
  | halt => unfold Analysis.halt; split <;> exact List.suffix_rfl
  | enter => exact List.suffix_rfl
  | define => exact List.suffix_rfl

theorem Steps.errors_suffix (h : Steps a b) : a.errors <:+ b.errors := by
  induction h with
  | refl => exact List.suffix_rfl
  | tail _ hstep ih => exact ih.trans hstep.errors_suffix

/-- Without findings afterwards there were none before. -/
theorem Steps.errors_eq_nil (h : Steps a b) (hb : b.errors = []) :
    a.errors = [] := by
  have hsuffix := h.errors_suffix
  rw [hb] at hsuffix
  exact List.suffix_nil.1 hsuffix

/-- The table never changes. -/
theorem Step.toList (h : Step a b) : b.cursor.toList = a.cursor.toList := by
  rcases h.cursor with hcursor | ⟨-, hcursor⟩
  · rw [hcursor]
  · rw [hcursor, Cursor.toList_advance]

theorem Steps.toList (h : Steps a b) :
    b.cursor.toList = a.cursor.toList := by
  induction h with
  | refl => rfl
  | tail _ hstep ih => exact hstep.toList.trans ih

/-- Only a fault that can be noted is noted. -/
theorem Step.halt? (h : Step a b) :
    b.halt? = a.halt?
      ∨ ∃ fault, a.Notes fault
        ∧ b.halt? = some ⟨fault, a.symbols, a.declarations⟩ := by
  cases h with
  | next => left; unfold Analysis.next; split <;> rfl
  | report => exact .inl rfl
  | reportBehind => exact .inl rfl
  | setRecovering => exact .inl rfl
  | @halt fault hnotes =>
    unfold Analysis.halt
    split
    · exact .inl rfl
    · exact .inr ⟨fault, hnotes, rfl⟩
  | enter => exact .inl rfl
  | define => exact .inl rfl

/-- What can be noted of a table with short numbers is that its arrays are
nested too deep. -/
theorem Notes.eq_nestedTooDeep {fault : Fault} (h : a.Notes fault)
    (hshort : ∀ t ∈ a.cursor.toList, t.kind = .number →
      Numeral.digitCount t.text ≤ integerDigitsMax) :
    fault = .nestedTooDeep
      ∧ nestingMax + 1 < arrayWords a.cursor.toList := by
  cases h with
  | digits ht hkind hdigits =>
    exact absurd (hshort _ (List.mem_append_left _ (List.mem_reverse.2 ht))
      hkind) (Nat.not_le.2 hdigits)
  | nesting hword hwords =>
    have hlt := arrayWords_behind_lt hword
    exact ⟨rfl, by omega⟩

/-- A fault that is noted could be noted somewhere on the way. -/
theorem Steps.exists_notes (h : Steps a b) (ha : a.halt? = none)
    {note : Halt} (hnote : b.halt? = some note) :
    ∃ c, Steps a c ∧ Steps c b ∧ c.Notes note.fault := by
  induction h with
  | refl =>
    rw [ha] at hnote
    cases hnote
  | tail hsteps hstep ih =>
    rcases hstep.halt? with hsame | ⟨fault, hnotes, hsome⟩
    · obtain ⟨c, hc, hrest, hnotes⟩ := ih (hsame.symm.trans hnote)
      exact ⟨c, hc, hrest.tail hstep, hnotes⟩
    · rw [hsome] at hnote
      rw [← Option.some.inj hnote]
      exact ⟨_, hsteps, .single hstep, hnotes⟩

/-- The fault of a table with short numbers is that its arrays are nested
too deep, and then it has more words for arrays than there is room for. -/
theorem Steps.fault_eq (h : Steps a b) (ha : a.halt? = none)
    (hshort : ∀ t ∈ a.cursor.toList, t.kind = .number →
      Numeral.digitCount t.text ≤ integerDigitsMax)
    {note : Halt} (hnote : b.halt? = some note) :
    note.fault = .nestedTooDeep
      ∧ nestingMax + 1 < arrayWords a.cursor.toList := by
  obtain ⟨c, hc, -, hnotes⟩ := h.exists_notes ha hnote
  rw [← hc.toList] at hshort ⊢
  exact hnotes.eq_nestedTooDeep hshort

/-- In a table with short numbers and few arrays no fault is noted. -/
theorem Steps.halt?_eq_none (h : Steps a b) (ha : a.halt? = none)
    (hshort : ∀ t ∈ a.cursor.toList, t.kind = .number →
      Numeral.digitCount t.text ≤ integerDigitsMax)
    (hwords : arrayWords a.cursor.toList ≤ nestingMax + 1) :
    b.halt? = none := by
  cases hnote : b.halt? with
  | none => rfl
  | some note =>
    exact absurd (h.fault_eq ha hshort hnote).2 (Nat.not_lt.2 hwords)

/-- Without a fault afterwards there was none before. -/
theorem Step.unhalted (h : Step a b) (hb : b.halt? = none) :
    a.halt? = none := by
  rcases h.halt? with hsame | ⟨fault, -, hnote⟩
  · exact hsame.symm.trans hb
  · rw [hb] at hnote
    cases hnote

theorem Steps.unhalted (h : Steps a b) (hb : b.halt? = none) :
    a.halt? = none := by
  induction h with
  | refl => exact hb
  | tail _ hstep ih => exact ih (hstep.unhalted hb)

-- ==================================================== the basic operations

theorem steps_next (a : Analysis) : Steps a a.next := .single (.next a)

theorem steps_nextBy (n : Nat) (a : Analysis) : Steps a (nextBy n a) := by
  induction n generalizing a with
  | zero => exact .refl
  | succ n ih => exact (steps_next a).trans (ih a.next)

theorem steps_recover (a : Analysis) : Steps a a.recover :=
  .single (.setRecovering a true)

theorem steps_report (ht : t ∈ a.seen) (cause : Cause) :
    Steps a (a.report t.pos cause) :=
  .single (.report ht cause)

theorem steps_reportHere (a : Analysis) (cause : Cause) :
    Steps a (a.report a.current.pos cause) :=
  steps_report (current_mem_seen a) cause

theorem steps_expect (a : Analysis) (cause : Cause) :
    Steps a (a.expect a.current.pos cause) := by
  unfold expect
  split
  · exact .refl
  · exact steps_reportHere a cause

theorem steps_reportAfterPrevious (ha : a.Inside) {cause : Cause}
    (hcause : cause = .colonExpected ∨ cause = .semicolonExpected) :
    Steps a (a.reportAfterPrevious cause) := by
  unfold reportAfterPrevious
  simp only [ha.lookBack, ha.previous?]
  cases hhead : a.cursor.behind.head? with
  | none => exact steps_reportHere a cause
  | some t => exact .single (.reportBehind hhead hcause)

theorem steps_readInteger (ht : t ∈ a.cursor.behind)
    (hkind : t.kind = .number) : Steps a (a.readInteger t).2 := by
  unfold readInteger
  simp only
  split
  next hdigits => exact .single (.halt (.digits ht hkind hdigits))
  next => exact .refl

-- ======================================================= after a fault

theorem steps_passToken (h : a.cursor.ahead = t :: rest)
    (ht : t.isEnding = false) : Steps a (a.passToken t) := by
  unfold passToken
  split
  · refine (steps_next a).trans (steps_report ?_ _)
    apply mem_seen_of_behind
    rw [(passes_next h ht).behind]
    exact List.mem_cons_self
  · exact steps_next a

theorem steps_pass {run : List Token} (h : a.cursor.ahead = run ++ rest)
    (hrun : ∀ t ∈ run, t.isEnding = false) : Steps a (a.pass run) := by
  induction run generalizing a with
  | nil => exact .refl
  | cons t run ih =>
    have ht := hrun t List.mem_cons_self
    exact (steps_passToken h ht).trans
      (ih ((passes_passToken h ht).ahead_eq h) fun u hu =>
        hrun u (List.mem_cons_of_mem t hu))

theorem steps_reportUnknown (ha : a.Inside) (line : Int) :
    Steps a (a.reportUnknown line).2 := by
  unfold reportUnknown
  rw [ha.upcoming]
  obtain ⟨rest, hrest⟩ := List.takeWhile_prefix (l := a.cursor.ahead)
    (fun t : Token => t.kind == .unknown && t.line == line)
  exact steps_pass hrest.symm fun t ht =>
    (notEnding_of_mem_unknownRun ht).2.2

theorem steps_synchronize (ha : a.Inside) (line : Int) :
    Steps a (a.synchronize line) := by
  unfold synchronize
  rw [ha.upcoming]
  obtain ⟨rest, hrest⟩ := brokenRun_prefix line a.cursor.ahead
  have hpass := steps_pass hrest.symm fun t ht =>
    notEnding_of_mem_brokenRun ht
  simp only
  split
  · split
    · exact hpass.trans (steps_reportUnknown (hpass.inside ha) _)
    · exact hpass
  · exact hpass

theorem steps_skipToRangeBoundary (a : Analysis) :
    Steps a a.skipToRangeBoundary :=
  steps_nextBy ..

-- ================================================================ names

/-- The first lexeme of a name is passed at once. -/
theorem steps_readName_of_next (ha : a.Inside) :
    Steps a.next a.readName.2 := by
  unfold readName
  simp only
  have hmove :=
    steps_nextBy (gluedRun a.current a.next.upcoming).length a.next
  split
  · exact hmove
  · exact hmove.trans (steps_report
      (((steps_next a).trans hmove).mem_seen ha (current_mem_seen a)) _)

theorem steps_readName (ha : a.Inside) : Steps a a.readName.2 :=
  (steps_next a).trans (steps_readName_of_next ha)

theorem steps_abandonNames (a : Analysis) (comma : Token) :
    Steps a (a.abandonNames comma) := by
  unfold abandonNames
  have hreport := (steps_reportHere a .nameExpected).trans (steps_recover _)
  simp only
  split
  · exact hreport.trans (steps_next _)
  · exact hreport

theorem steps_readMoreNames (ha : a.Inside) :
    Steps a a.readMoreNames.2 := by
  fun_induction readMoreNames a with
  | case1 a hcomma hname name more ih =>
    have hname := (steps_next a).trans
      (steps_readName ((steps_next a).inside ha))
    exact hname.trans (ih (hname.inside ha))
  | case2 a hcomma hname =>
    exact (steps_next a).trans (steps_abandonNames ..)
  | case3 a hcomma => exact .refl

theorem steps_readNames (ha : a.Inside) : Steps a a.readNames.2 := by
  unfold readNames
  have hname := steps_readName ha
  exact hname.trans (steps_readMoreNames (hname.inside ha))

/-- A name stands where a lexeme was seen. -/
theorem exists_seen_of_readMoreNames (ha : a.Inside) :
    ∀ n ∈ a.readMoreNames.1, ∃ t ∈ a.readMoreNames.2.seen, t.pos = n.pos := by
  fun_induction readMoreNames a with
  | case1 a hcomma hname name more ih =>
    have hnext := steps_next a
    have hread := steps_readName (hnext.inside ha)
    have hinside := hread.inside (hnext.inside ha)
    intro n hn
    rcases List.mem_cons.1 hn with rfl | hn
    · refine ⟨a.next.current, ?_, rfl⟩
      exact (steps_readMoreNames hinside).mem_seen hinside
        (hread.mem_seen (hnext.inside ha) (current_mem_seen _))
    · exact ih hinside n hn
  | case2 a hcomma hname => exact fun n hn => absurd hn List.not_mem_nil
  | case3 a hcomma => exact fun n hn => absurd hn List.not_mem_nil

theorem exists_seen_of_readNames (ha : a.Inside) :
    ∀ n ∈ a.readNames.1, ∃ t ∈ a.readNames.2.seen, t.pos = n.pos := by
  have hname := steps_readName ha
  have hinside := hname.inside ha
  intro n hn
  rcases List.mem_cons.1 hn with rfl | hn
  · exact ⟨a.current, (steps_readMoreNames hinside).mem_seen hinside
      (hname.mem_seen ha (current_mem_seen a)), rfl⟩
  · exact exists_seen_of_readMoreNames hinside n hn

-- ================================================================ types

theorem steps_closeSize (size : Option Int) (a : Analysis) :
    Steps a (closeSize size a).2 := by
  unfold closeSize
  simp only
  split
  · exact steps_next a
  · exact (steps_expect a _).trans (steps_recover _)

theorem steps_passOnLine (ha : a.Inside) : Steps a a.passOnLine := by
  unfold passOnLine
  simp only [ha.lookBack]
  split
  · exact steps_next a
  · exact .refl

theorem steps_readStringType (ha : a.Inside) :
    Steps a a.readStringType.2 := by
  unfold readStringType
  split
  · exact .refl
  · have hopen := steps_next a
    have hinside := hopen.inside ha
    simp only
    split
    next hinteger =>
      have hend := isEnding_of_atInteger hinteger
      have hread := hopen.trans ((steps_next a.next).trans
        (steps_readInteger (current_mem_behind_next hinside hend)
          (kind_of_atInteger hinteger)))
      refine Steps.trans ?_ (steps_closeSize ..)
      split
      · exact hread
      · exact hread.trans (steps_report (mem_seen_of_behind
          ((steps_readInteger (current_mem_behind_next hinside hend)
            (kind_of_atInteger hinteger)).mem_behind
            ((steps_next a.next).inside hinside)
            (current_mem_behind_next hinside hend))) _)
    next hinteger =>
      have hreport := hopen.trans ((steps_reportHere a.next
        .sizeExpected).trans (steps_recover _))
      have hclose : ∀ d : Analysis, Steps a d →
          Steps a (if d.atSymbol "]" then closeSize none d
            else (.string none, d)).2 := by
        intro d hd
        split
        · exact hd.trans (steps_closeSize ..)
        · exact hd
      apply hclose
      split
      · exact hreport
      · exact hreport.trans (steps_passOnLine (hreport.inside ha))

theorem steps_refuseType (ha : a.Inside) : Steps a a.refuseType.2 := by
  unfold refuseType
  simp only
  refine Steps.trans ?_ (steps_recover _)
  split
  · exact steps_expect a _
  · have hreport := steps_reportHere a
      (if a.current.kind == .unknown then .unknownSymbol a.current.text
        else .invalidType a.current.text)
    exact hreport.trans (steps_passOnLine (hreport.inside ha))

theorem steps_readSimpleType (ha : a.Inside) :
    Steps a a.readSimpleType.2 := by
  unfold readSimpleType
  simp only
  split
  · exact steps_next a
  · split
    · exact (steps_next a).trans
        (steps_readStringType ((steps_next a).inside ha))
    · exact steps_refuseType ha

theorem steps_readRange (ha : a.Inside) : Steps a a.readRange.2 := by
  unfold readRange
  simp only
  split
  · exact (steps_reportHere a _).trans (steps_recover _)
  next hlow =>
    rw [Bool.not_eq_true', Bool.not_eq_false] at hlow
    have hlow' := current_mem_behind_next ha (isEnding_of_atInteger hlow)
    have hpass := steps_next a
    have hinside := hpass.inside ha
    split
    · exact hpass.trans
        ((steps_reportHere a.next _).trans (steps_recover _))
    · have hdots := hpass.trans (steps_next a.next)
      have hinside' := hdots.inside ha
      split
      · exact hdots.trans
          ((steps_reportHere a.next.next _).trans (steps_recover _))
      next hhigh =>
        rw [Bool.not_eq_true', Bool.not_eq_false] at hhigh
        have hhigh' := current_mem_behind_next hinside'
          (isEnding_of_atInteger hhigh)
        have hlast := steps_next a.next.next
        have hinside'' := hlast.inside hinside'
        have hlow'' := hlast.mem_behind hinside'
          ((steps_next a.next).mem_behind hinside hlow')
        have hfirst := steps_readInteger hlow'' (kind_of_atInteger hlow)
        have hsecond := steps_readInteger (hfirst.mem_behind hinside'' hhigh')
          (kind_of_atInteger hhigh)
        have hread := hdots.trans (hlast.trans (hfirst.trans hsecond))
        split
        · exact hread.trans (steps_report (mem_seen_of_behind
            ((hfirst.trans hsecond).mem_behind hinside'' hlow'')) _)
        · exact hread

theorem steps_readRangeOrSkip (ha : a.Inside) :
    Steps a a.readRangeOrSkip.2 := by
  unfold readRangeOrSkip
  simp only
  split
  · exact (steps_readRange ha).trans (steps_skipToRangeBoundary _)
  · exact steps_readRange ha

theorem steps_skipAfterRange (a : Analysis) : Steps a a.skipAfterRange := by
  unfold skipAfterRange
  exact (steps_expect a _).trans
    ((steps_recover _).trans (steps_skipToRangeBoundary _))

theorem steps_passBracket (a : Analysis) : Steps a a.passBracket := by
  unfold passBracket
  split
  · exact steps_next a
  · exact .refl

theorem steps_readRanges (ha : a.Inside) : Steps a a.readRanges.2 := by
  fun_induction readRanges a with
  | case1 a read a' hcomma more ih =>
    have hread := (steps_readRangeOrSkip ha).trans (steps_next _)
    exact hread.trans (ih (hread.inside ha))
  | case2 a read a' hcomma hend =>
    exact (steps_readRangeOrSkip ha).trans (steps_passBracket _)
  | case3 a read a' hcomma hend a'' hcomma' more ih =>
    have hread := (steps_readRangeOrSkip ha).trans
      ((steps_skipAfterRange _).trans (steps_next _))
    exact hread.trans (ih (hread.inside ha))
  | case4 a read a' hcomma hend a'' hcomma' =>
    exact (steps_readRangeOrSkip ha).trans
      ((steps_skipAfterRange _).trans (steps_passBracket _))

/-- The word that an array begins with is passed at once. -/
theorem steps_readArrayRanges_of_next (ha : a.Inside) :
    Steps a.next a.readArrayRanges.2 := by
  unfold readArrayRanges
  have hinside := (steps_next a).inside ha
  simp only
  split
  · have hopen := steps_next a.next
    exact hopen.trans (steps_readRanges (hopen.inside hinside))
  · have hreport := (steps_reportHere a.next
      .arrayBracketExpected).trans (steps_recover _)
    split
    · exact hreport.trans (steps_readRanges (hreport.inside hinside))
    · exact hreport.trans ((steps_skipToRangeBoundary _).trans
        (steps_passBracket _))

theorem steps_readArrayRanges (ha : a.Inside) :
    Steps a a.readArrayRanges.2 :=
  (steps_next a).trans (steps_readArrayRanges_of_next ha)

theorem steps_missingOf (a : Analysis) : Steps a a.missingOf := by
  unfold missingOf
  exact (steps_expect a _).trans (steps_recover _)

theorem Inside.descend (ha : a.Inside) (depth : Nat) :
    (a.descend depth).Inside :=
  ha.congr (cursor_descend ..)

/-- Where all arrays around an array have been passed, entering it is a
step. -/
theorem steps_descend {depth : Nat}
    (hword : a.unreadKeyword "array" = true)
    (hdepth : depth ≤ arrayWords a.cursor.behind) :
    Steps a (a.descend depth) := by
  unfold descend
  split
  next hroom =>
    exact .single (.halt (.nesting hword (Nat.lt_of_lt_of_le hroom hdepth)))
  next => exact .refl

/-- Entering an array and reading its ranges is a sequence of steps that
passes the word of the array. -/
theorem steps_enterArray {depth : Nat} (ha : a.Inside)
    (hword : a.unreadKeyword "array" = true)
    (hdepth : depth ≤ arrayWords a.cursor.behind) :
    Steps a (a.descend depth).readArrayRanges.2
      ∧ depth < arrayWords (a.descend depth).readArrayRanges.2.cursor.behind
      := by
  have hinside := ha.descend depth
  refine ⟨(steps_descend hword hdepth).trans
    (steps_readArrayRanges hinside), ?_⟩
  have hcurrent := current_of_unreadKeyword hword
  rw [← current_congr (cursor_descend depth a)] at hcurrent
  obtain ⟨rest, hrest⟩ := hinside.exists_ahead
  have hpassed : arrayWords (a.descend depth).next.cursor.behind
      = arrayWords a.cursor.behind + 1 := by
    rw [(passes_next hrest hcurrent.2).behind, cursor_descend]
    exact List.countP_cons_of_pos hcurrent.1
  have hle := (steps_readArrayRanges_of_next hinside).arrayWords_le
    ((steps_next _).inside hinside)
  omega

/-- Reading a type, or the elements of an array, is a sequence of
elementary steps, if the arrays around it have been passed. The two call
each other, and so do their proofs. -/
theorem steps_readType {depth : Nat} (ha : a.Inside)
    (hdepth : depth ≤ arrayWords a.cursor.behind) :
    Steps a (a.readType depth).2 := by
  revert ha hdepth
  refine readType.induct
    (fun depth a => a.Inside → depth ≤ arrayWords a.cursor.behind →
      Steps a (readType depth a).2)
    (fun depth ranges a => a.Inside →
      depth < arrayWords a.cursor.behind →
      Steps a (readElements depth ranges a).2)
    ?array ?array' ?simple ?of ?missing ?none depth a
  case array =>
    intro depth a harray ranges hnested ih ha hdepth
    rw [readType_of_nested hnested harray]
    obtain ⟨hranges, hpassed⟩ := steps_enterArray ha harray hdepth
    have helements := hranges.trans (ih (hranges.inside ha) hpassed)
    exact helements.trans
      (steps_report (helements.mem_seen ha (current_mem_seen a)) _)
  case array' =>
    intro depth a harray ranges hnested ih ha hdepth
    obtain rfl := Nat.eq_zero_of_not_pos hnested
    rw [readType_of_array harray]
    obtain ⟨hranges, hpassed⟩ := steps_enterArray ha harray hdepth
    exact hranges.trans (ih (hranges.inside ha) hpassed)
  case simple =>
    intro depth a harray ha _
    rw [readType_of_simple depth harray]
    exact steps_readSimpleType ha
  case of =>
    intro depth ranges a hof ih ha hdepth
    rw [readElements_of_of depth ranges hof]
    have hnext := steps_next a
    exact hnext.trans (ih (hnext.inside ha)
      (Nat.le_trans hdepth (hnext.arrayWords_le ha)))
  case missing =>
    intro depth ranges a hof hstarts ih ha hdepth
    rw [readElements_of_missing depth ranges hof hstarts]
    have hmissing := steps_missingOf a
    exact hmissing.trans (ih (hmissing.inside ha)
      (Nat.le_trans hdepth (hmissing.arrayWords_le ha)))
  case none =>
    intro depth ranges a hof hstarts _ _
    rw [readElements_of_none depth ranges hof hstarts]
    exact steps_missingOf a

theorem steps_readElements {depth : Nat} (ranges : List IndexRange)
    (ha : a.Inside) (hdepth : depth < arrayWords a.cursor.behind) :
    Steps a (a.readElements depth ranges).2 := by
  have hnext := steps_next a
  have hmissing := steps_missingOf a
  rw [readElements]
  split
  · exact hnext.trans (steps_readType (hnext.inside ha)
      (Nat.le_trans hdepth (hnext.arrayWords_le ha)))
  · split
    · exact hmissing.trans (steps_readType (hmissing.inside ha)
        (Nat.le_trans hdepth (hmissing.arrayWords_le ha)))
    · exact hmissing

/-- What is read of an array is read behind entering it. -/
theorem steps_readType_of_descend {depth : Nat} (ha : a.Inside)
    (hword : a.unreadKeyword "array" = true)
    (hdepth : depth ≤ arrayWords a.cursor.behind) :
    Steps (a.descend depth) (a.readType depth).2 := by
  have hinside := ha.descend depth
  have hranges := steps_readArrayRanges hinside
  obtain ⟨hentered, hpassed⟩ := steps_enterArray ha hword hdepth
  have helements := hranges.trans
    (steps_readElements (a.descend depth).readArrayRanges.1
      (hentered.inside ha) hpassed)
  rcases Nat.eq_zero_or_pos depth with rfl | hnested
  · rw [readType_of_array hword]
    exact helements
  · rw [readType_of_nested hnested hword]
    have hseen := helements.mem_seen hinside (current_mem_seen _)
    rw [current_congr (cursor_descend ..)] at hseen
    exact helements.trans (steps_report hseen _)

-- ================================================ declarations and sections

theorem steps_declareName {n : Identifier} (type : VarType)
    (ht : t ∈ a.seen) (hpos : t.pos = n.pos) :
    Steps a (a.declareName type n) := by
  unfold declareName
  split
  next first _ _ =>
    have hreport := steps_report ht (.redeclared n.name first.place)
    rw [hpos] at hreport
    exact hreport
  next symbols hdefine =>
    have hstep := Step.define (a := a) (s := ⟨n.name, type, n.pos⟩)
      (by rw [hdefine])
    rw [hdefine] at hstep
    exact .single hstep

theorem steps_declare {names : List Identifier} {type : VarType}
    (hnames : ∀ n ∈ names, ∃ t ∈ a.seen, t.pos = n.pos) :
    Steps a (a.declare names type) := by
  induction names generalizing a with
  | nil => exact .refl
  | cons n names ih =>
    rw [declare_cons]
    obtain ⟨t, ht, hpos⟩ := hnames n List.mem_cons_self
    refine (steps_declareName type ht hpos).trans (ih fun m hm => ?_)
    rw [seen_congr (cursor_declareName ..)]
    exact hnames m (List.mem_cons_of_mem n hm)

theorem steps_synchronizeHere (ha : a.Inside)
    (hbehind : a.cursor.behind ≠ []) : Steps a a.synchronizeHere := by
  cases hhead : a.cursor.behind.head? with
  | none => exact absurd (List.head?_eq_none_iff.1 hhead) hbehind
  | some t =>
    rw [synchronizeHere_of_behind ha hhead]
    exact steps_synchronize ha t.line

/-- Behind a passed lexeme the place stays behind one. -/
theorem Steps.behind_ne_nil (h : Steps a b) (ha : a.Inside)
    (hbehind : a.cursor.behind ≠ []) : b.cursor.behind ≠ [] := by
  obtain ⟨t, ht⟩ := List.exists_mem_of_ne_nil _ hbehind
  exact List.ne_nil_of_mem (h.mem_behind ha ht)

/-- Where a declaration ends, unknown symbols are reported first. -/
theorem steps_endDeclaration_of_unknown (ha : a.Inside)
    (hbehind : a.cursor.behind ≠ []) :
    Steps (a.reportUnknown a.current.line).2 a.endDeclaration := by
  unfold endDeclaration
  simp only
  have hread := steps_reportUnknown ha a.current.line
  have hinside := hread.inside ha
  have hbehind' := hread.behind_ne_nil ha hbehind
  split
  · have hnext := steps_next (a.reportUnknown a.current.line).2
    exact hnext.trans (steps_reportUnknown (hnext.inside hinside) _)
  · split
    · exact steps_synchronizeHere hinside hbehind'
    · have hcause : Cause.semicolonExpected = .colonExpected
          ∨ Cause.semicolonExpected = .semicolonExpected := .inr rfl
      have hreport := steps_reportAfterPrevious hinside hcause
      split
      · exact hreport
      · exact hreport.trans (steps_synchronizeHere
          (hreport.inside hinside) (hreport.behind_ne_nil hinside hbehind'))

theorem steps_endDeclaration (ha : a.Inside)
    (hbehind : a.cursor.behind ≠ []) : Steps a a.endDeclaration :=
  (steps_reportUnknown ha _).trans
    (steps_endDeclaration_of_unknown ha hbehind)

/-- In front of the colon, too, unknown symbols are reported first. -/
theorem steps_readTypePart_of_unknown (ha : a.Inside) :
    Steps (a.reportUnknown a.current.line).2 a.readTypePart.2 := by
  unfold readTypePart
  simp only
  have hinside := (steps_reportUnknown ha a.current.line).inside ha
  split
  · have hnext := steps_next (a.reportUnknown a.current.line).2
    exact hnext.trans (steps_readType (hnext.inside hinside)
      (Nat.zero_le _))
  · have hafter : ∀ d : Analysis,
        Steps (a.reportUnknown a.current.line).2 d →
        Steps (a.reportUnknown a.current.line).2
          (if (a.reportUnknown a.current.line).1 || d.startsType then
            readType 0 d else (.unknown, d.recover)).2 := by
      intro d hd
      split
      · exact hd.trans (steps_readType (hd.inside hinside) (Nat.zero_le _))
      · exact hd.trans (steps_recover d)
    apply hafter
    split
    · exact .refl
    · exact steps_reportAfterPrevious hinside (.inl rfl)

theorem steps_readTypePart (ha : a.Inside) : Steps a a.readTypePart.2 :=
  (steps_reportUnknown ha _).trans (steps_readTypePart_of_unknown ha)

/-- The names of a declaration pass at least its first lexeme. -/
theorem current_mem_behind_readNames (ha : a.Inside)
    (hend : a.current.isEnding = false) :
    a.current ∈ a.readNames.2.cursor.behind := by
  unfold readNames
  simp only
  have hname : a.current ∈ a.readName.2.cursor.behind :=
    (steps_readName_of_next ha).mem_behind ((steps_next a).inside ha)
      (current_mem_behind_next ha hend)
  have hread := (steps_readName ha).inside ha
  exact (steps_readMoreNames hread).mem_behind hread hname

/-- Behind its type a declaration is ended and entered. -/
theorem steps_enterParts (ha : a.Inside) (hend : a.current.isEnding = false) :
    Steps a.unmarked.readNames.2.readTypePart.2 a.readParts := by
  have hstart := ha.of_recovering false
  have hnamed := (steps_readNames hstart).inside hstart
  have hbehind := List.ne_nil_of_mem
    (current_mem_behind_readNames hstart hend)
  have htype := steps_readTypePart hnamed
  have hbehind' := htype.behind_ne_nil hnamed hbehind
  have hdone := steps_endDeclaration (htype.inside hnamed) hbehind'
  exact hdone.trans (.single (.enter _ _))

/-- The parts of a declaration, one after another. -/
theorem steps_readParts (ha : a.Inside) (hend : a.current.isEnding = false) :
    Steps a.unmarked.readNames.2 a.readParts := by
  have hstart := ha.of_recovering false
  have hnamed := (steps_readNames hstart).inside hstart
  exact (steps_readTypePart hnamed).trans (steps_enterParts ha hend)

theorem steps_unmarked (ha : a.Inside) : Steps a a.unmarked.readNames.2 :=
  (Steps.single (.setRecovering a false)).trans
    (steps_readNames (ha.of_recovering false))

/-- The names of a declaration are entered last. -/
theorem steps_declareParts (ha : a.Inside)
    (hend : a.current.isEnding = false) :
    Steps a.readParts a.readDeclaration := by
  have hstart := ha.of_recovering false
  have hnamed := (steps_unmarked ha).inside ha
  refine steps_declare fun n hn => ?_
  obtain ⟨t, ht, hpos⟩ := exists_seen_of_readNames hstart n hn
  exact ⟨t, (steps_readParts ha hend).mem_seen hnamed ht, hpos⟩

theorem steps_readDeclaration (ha : a.Inside)
    (hend : a.current.isEnding = false) :
    Steps a a.readDeclaration :=
  (steps_unmarked ha).trans
    ((steps_readParts ha hend).trans (steps_declareParts ha hend))

theorem steps_readBlock (ha : a.Inside) : Steps a a.readBlock := by
  fun_induction readBlock a with
  | case1 a hname ih =>
    have hread := steps_readDeclaration ha (isEnding_of_unreadName hname)
    exact hread.trans (ih (hread.inside ha))
  | case2 a hname => exact .refl

theorem steps_passStray (ha : a.Inside) : Steps a a.passStray := by
  unfold passStray
  simp only
  exact (steps_next a).trans
    (steps_report ((steps_next a).mem_seen ha (current_mem_seen a)) _)

theorem steps_readSection (ha : a.Inside) : Steps a a.readSection := by
  fun_induction readSection a with
  | case1 a hhead =>
    obtain ⟨rest, hrest⟩ := ha.exists_ahead
    rw [hrest] at hhead
    cases hhead
  | case2 a t hhead hend => exact .refl
  | case3 a t hhead hend hvar ih =>
    have hnext := steps_next a
    have hblock := hnext.trans (steps_readBlock (hnext.inside ha))
    exact hblock.trans (ih (hblock.inside ha))
  | case4 a t hhead hend hvar ih =>
    have hstray := steps_passStray ha
    exact hstray.trans (ih (hstray.inside ha))

/-- The analysis of a section ends at the first mark of the end. -/
theorem current_readSection (ha : a.Inside) :
    a.readSection.current.isEnding = true := by
  fun_induction readSection a with
  | case1 a hhead =>
    obtain ⟨rest, hrest⟩ := ha.exists_ahead
    rw [hrest] at hhead
    cases hhead
  | case2 a t hhead hend =>
    obtain ⟨rest, hrest⟩ := ha.exists_ahead
    rw [hrest] at hhead
    rw [Option.some.inj hhead]
    exact beq_iff_eq.2 hend
  | case3 a t hhead hend hvar ih =>
    have hnext := steps_next a
    exact ih ((hnext.trans (steps_readBlock (hnext.inside ha))).inside ha)
  | case4 a t hhead hend hvar ih =>
    exact ih ((steps_passStray ha).inside ha)

end VarSection.Analysis
