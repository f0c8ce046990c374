/-
The forms of lexemes, said of texts alone. They stand side by side here, in
no order (`Kind.Writes`), and which of them begins at a place is told by its
length: the longest one does (`Kind.Leads`).

The scanner tries the forms in an order of its own and never compares
lengths. It comes to the same (`Lead.leads_lexemeAt`), because a form that
is tried later either begins with another character or is shorter. Two
lexemes that both are the longest at one place are the same, so a rule that
asks for the longest leaves no choice; and what stands behind the longest
one does not go on with it (`Kind.Leads.stops`).
-/
import VarSection.Proofs.Scanner.Joining
import VarSection.Proofs.Scanner.Written

namespace VarSection

-- =================================================== the forms of lexemes

/-- What a lexeme of a class can be written as. -/
inductive Kind.Writes : Kind → Text → Prop
  | pair {w : Text} (hw : w ∈ twoCharSymbols) : Writes .symbol w
  | single {c : CodePoint} (hc : c ∈ singleCharSymbols) : Writes .symbol [c]
  | digits {w : Text} (hne : w ≠ []) (hw : ∀ c ∈ w, isDigit c = true) :
      Writes .number w
  | negative {w : Text} (hne : w ≠ []) (hw : ∀ c ∈ w, isDigit c = true) :
      Writes .number (.char '-' :: w)
  | keyword {w : Text} (hw : w.IsWord) (hlower : Text.lower w ∈ keywords) :
      Writes .keyword w
  | identifier {w : Text} (hw : w.IsWord)
      (hlower : Text.lower w ∉ keywords) : Writes .identifier w
  /-- a character that belongs to no other form and separates nothing -/
  | other {c : CodePoint} (hblank : isBlank c = false)
      (hsymbol : c ∉ singleCharSymbols) (hdigit : isDigit c = false)
      (hstart : isNameStart c = false) : Writes .unknown [c]

/-- A lexeme is the longest one that a text begins with. -/
structure Kind.Leads (kind : Kind) (w text : Text) : Prop where
  begins : w <+: text
  writes : kind.Writes w
  longest : ∀ kind' w', Kind.Writes kind' w' → w' <+: text →
    (kind' = kind ∧ w' = w) ∨ w'.length < w.length

namespace Kind

/-- A text begins with one longest lexeme at most. -/
theorem Leads.unique {kind kind' : Kind} {w w' text : Text}
    (h : kind.Leads w text) (h' : kind'.Leads w' text) :
    kind' = kind ∧ w' = w := by
  rcases h.longest kind' w' h'.writes h'.begins with hsame | hshorter
  · exact hsame
  · rcases h'.longest kind w h.writes h.begins with ⟨hkind, hw⟩ | hlonger
    · exact ⟨hkind.symm, hw.symm⟩
    · omega

namespace Writes

variable {kind : Kind} {w : Text}

/-- A word is a keyword or a name. -/
theorem word (hw : w.IsWord) : (Lead.wordKind w).Writes w := by
  unfold Lead.wordKind isKeyword
  split
  next hlower => exact .keyword hw (List.contains_iff_mem.1 hlower)
  next hlower => exact .identifier hw (mt List.contains_iff_mem.2 hlower)

/-- A lexeme begins with a character that is no blank. -/
theorem exists_cons (h : kind.Writes w) :
    ∃ c more, w = c :: more ∧ isBlank c = false := by
  have hsymbols : ∀ c ∈ singleCharSymbols, isBlank c = false := by decide
  have hpairs : ∀ pair ∈ twoCharSymbols,
      pair.head?.any (!isBlank ·) = true := by decide
  have hname : ∀ {c : CodePoint}, isNameStart c = true ∨ isDigit c = true →
      isBlank c = false := fun h =>
    Lead.isBlank_eq_false_of_isNameChar (Bool.or_eq_true_iff.2 h)
  have hword : w.IsWord → ∃ c more, w = c :: more ∧ isBlank c = false := by
    rintro ⟨hstart, -⟩
    cases w with
    | nil => cases hstart
    | cons c more => exact ⟨c, more, rfl, hname (.inl hstart)⟩
  cases h with
  | pair hw =>
    have hpair := hpairs w hw
    cases w with
    | nil => cases hpair
    | cons c more => exact ⟨c, more, rfl, by simpa using hpair⟩
  | single hc => exact ⟨_, [], rfl, hsymbols _ hc⟩
  | digits hne hw =>
    obtain ⟨c, more, rfl⟩ := List.exists_cons_of_ne_nil hne
    exact ⟨c, more, rfl, hname (.inr (hw c List.mem_cons_self))⟩
  | negative => exact ⟨_, _, rfl, by decide⟩
  | keyword hw => exact hword hw
  | identifier hw => exact hword hw
  | other hblank => exact ⟨_, [], rfl, hblank⟩

/-- No lexeme goes on with a character that begins anew. -/
theorem not_mem_tail {d : CodePoint} (hd : d.BeginsAnew)
    (h : kind.Writes w) : d ∉ w.tail := by
  obtain ⟨hname, hpairs, -⟩ := hd
  have hdigit : isDigit d = false := (Bool.or_eq_false_iff.1 hname).2
  have hword : w.IsWord → d ∉ w.tail := fun hw hmem => by
    rw [hw.chars d (List.mem_of_mem_tail hmem)] at hname
    cases hname
  cases h with
  | pair hw => exact hpairs w hw
  | single hc => exact List.not_mem_nil
  | digits hne hw =>
    intro hmem
    rw [hw d (List.mem_of_mem_tail hmem)] at hdigit
    cases hdigit
  | negative hne hw =>
    intro hmem
    rw [hw d hmem] at hdigit
    cases hdigit
  | keyword hw => exact hword hw
  | identifier hw => exact hword hw
  | other => exact List.not_mem_nil

end Writes

end Kind

-- ================================================== what the scanner tries

namespace Lead

variable {c : CodePoint} {rest more : Text} {kind : Kind}

/-- What is cut off a text by the rules of the scanner has one of the
forms. -/
theorem Cut.writes (h : Cut c rest kind more) (hblank : isBlank c = false) :
    kind.Writes (c :: more) := by
  have hrun : ∀ {p : CodePoint → Bool}, ∀ d ∈ rest.takeWhile p, p d = true :=
    fun d hd => List.all_eq_true.1 List.all_takeWhile d hd
  cases h with
  | pair hpair => exact .pair (List.contains_iff_mem.1 hpair)
  | negative hminus hdigit =>
    rw [hminus]
    refine .negative ?_ hrun
    cases rest with
    | nil => cases hdigit
    | cons d rest =>
      have hd : isDigit d = true := hdigit
      rw [List.takeWhile_cons_of_pos hd]
      exact List.cons_ne_nil _ _
  | symbol hsymbol => exact .single (List.contains_iff_mem.1 hsymbol)
  | number hdigit =>
    exact .digits (List.cons_ne_nil _ _)
      (List.forall_mem_cons.2 ⟨hdigit, hrun⟩)
  | word hstart =>
    refine .word ⟨hstart, List.forall_mem_cons.2 ⟨?_, hrun⟩⟩
    exact Bool.or_eq_true_iff.2 (.inl hstart)
  | unknown hsymbol hdigit hstart =>
    exact .other hblank (mt List.contains_iff_mem.2 (by rw [hsymbol]; decide))
      hdigit hstart

/-- A symbol that is cut off alone is classed as a symbol. -/
theorem Cut.kind_of_symbol (h : Cut c rest kind [])
    (hc : c ∈ singleCharSymbols) : kind = .symbol := by
  have hclass : ∀ d ∈ singleCharSymbols,
      isDigit d = false ∧ isNameStart d = false := by decide
  generalize hmore : ([] : Text) = more at h
  cases h with
  | pair => rfl
  | symbol => rfl
  | negative hminus hdigit =>
    cases rest with
    | nil => cases hdigit
    | cons d rest =>
      have hd : isDigit d = true := hdigit
      rw [List.takeWhile_cons_of_pos hd] at hmore
      cases hmore
  | number hdigit => rw [(hclass c hc).1] at hdigit; cases hdigit
  | word hstart => rw [(hclass c hc).2] at hstart; cases hstart
  | unknown hsymbol =>
    rw [List.contains_iff_mem.2 hc] at hsymbol
    cases hsymbol

/-- A character that belongs to no other form is classed as unknown. -/
theorem Cut.kind_of_other (h : Cut c rest kind more)
    (hsymbol : c ∉ singleCharSymbols) (hdigit : isDigit c = false)
    (hstart : isNameStart c = false) : kind = .unknown := by
  cases h with
  | pair hpair =>
    exact absurd (mem_singleCharSymbols_of_pair hpair c List.mem_cons_self)
      hsymbol
  | negative hminus => exact absurd (by rw [hminus]; decide) hsymbol
  | symbol hc => exact absurd (List.contains_iff_mem.1 hc) hsymbol
  | number hc => rw [hdigit] at hc; cases hc
  | word hc => rw [hstart] at hc; cases hc
  | unknown => rfl

theorem lexemeAt_of_pair (h : c :: rest.take 1 ∈ twoCharSymbols) :
    lexemeAt c rest = (.symbol, rest.take 1) := by
  unfold lexemeAt
  rw [if_pos (List.contains_iff_mem.2 h)]

theorem lexemeAt_of_negative (h : rest.head?.any isDigit = true) :
    lexemeAt (.char '-') rest = (.number, rest.takeWhile isDigit) := by
  have hheads : ∀ pair ∈ twoCharSymbols,
      pair.head? ≠ some (CodePoint.char '-') := by decide
  unfold lexemeAt
  rw [if_neg fun hpair => hheads _ (List.contains_iff_mem.1 hpair) rfl,
    if_pos (by rw [h]; rfl)]

/-- A form of one character is as long as the lexeme only where the lexeme is
that character. -/
theorem longest_of_single {kind' : Kind}
    (h : ∀ {kind : Kind}, Cut c rest kind [] → kind' = kind) :
    (kind' = (lexemeAt c rest).1 ∧ [c] = c :: (lexemeAt c rest).2)
      ∨ [c].length < (c :: (lexemeAt c rest).2).length := by
  have hcut := cut_lexemeAt c rest
  cases htaken : (lexemeAt c rest).2 with
  | nil =>
    rw [htaken] at hcut
    exact .inl ⟨h hcut, rfl⟩
  | cons d taken =>
    right
    rw [List.length_singleton, List.length_cons, List.length_cons]
    omega

/-- A run of characters of a set is as long as the lexeme only where it is
all that can be taken. -/
theorem longest_of_run {p : CodePoint → Bool} {kind' : Kind} {w : Text}
    (hw : ∀ d ∈ w, p d = true) (hbegins : w <+: rest)
    (htaken : (lexemeAt c rest).2 = rest.takeWhile p)
    (hkind : w = (lexemeAt c rest).2 → kind' = (lexemeAt c rest).1) :
    (kind' = (lexemeAt c rest).1 ∧ c :: w = c :: (lexemeAt c rest).2)
      ∨ (c :: w).length < (c :: (lexemeAt c rest).2).length := by
  have hlength : w = rest.takeWhile p
      ∨ w.length < (rest.takeWhile p).length := by
    obtain ⟨tail, rfl⟩ := hbegins
    rw [List.takeWhile_append_of_pos hw, List.length_append,
      List.self_eq_append_right]
    rcases Nat.eq_zero_or_pos (tail.takeWhile p).length with hzero | hpos
    · exact .inl (List.length_eq_zero_iff.1 hzero)
    · exact .inr (by omega)
  rw [← htaken] at hlength
  rcases hlength with hsame | hshorter
  · exact .inl ⟨hkind hsame, by rw [← hsame]⟩
  · exact .inr (Nat.succ_lt_succ hshorter)

/-- What the scanner cuts off a text is the longest lexeme that the text
begins with. -/
theorem leads_lexemeAt (hblank : isBlank c = false) (rest : Text) :
    (lexemeAt c rest).1.Leads (c :: (lexemeAt c rest).2) (c :: rest) := by
  have hcut := cut_lexemeAt c rest
  have htaken := lexemeAt_prefix c rest
  refine ⟨(List.prefix_cons_inj c).2 htaken, hcut.writes hblank,
    fun kind' w hwrites hbegins => ?_⟩
  obtain ⟨d, more, rfl, -⟩ := hwrites.exists_cons
  obtain ⟨rfl, hmore⟩ := List.cons_prefix_cons.1 hbegins
  have hword : Text.IsWord (d :: more) → kind' = wordKind (d :: more) →
      (kind' = (lexemeAt d rest).1 ∧ d :: more = d :: (lexemeAt d rest).2)
        ∨ (d :: more).length < (d :: (lexemeAt d rest).2).length := by
    rintro ⟨hstart, hchars⟩ hkind'
    obtain ⟨hkind, htaken⟩ := hcut.kind_of_isNameStart hstart
    refine longest_of_run (List.forall_mem_cons.1 hchars).2 hmore htaken ?_
    rintro rfl
    exact hkind'.trans hkind.symm
  generalize hw : d :: more = w at hwrites
  cases hwrites with
  | pair hpair =>
    have hlengths : ∀ pair ∈ twoCharSymbols, pair.length = 2 := by decide
    have hlength := hlengths w hpair
    obtain ⟨tail, rfl⟩ := hmore
    rw [← hw, List.length_cons, Nat.succ_inj] at hlength
    have htake : (more ++ tail).take 1 = more := by
      rw [← hlength, List.take_left]
    have hcontained : d :: (more ++ tail).take 1 ∈ twoCharSymbols := by
      rw [htake, hw]
      exact hpair
    rw [lexemeAt_of_pair hcontained, htake]
    exact .inl ⟨rfl, hw.symm⟩
  | single hc =>
    obtain ⟨rfl, rfl⟩ := List.cons.inj hw
    exact longest_of_single fun h => (h.kind_of_symbol hc).symm
  | digits _ hdigits =>
    subst hw
    obtain ⟨hd, hdigits⟩ := List.forall_mem_cons.1 hdigits
    obtain ⟨hkind, htaken⟩ := hcut.kind_of_isDigit hd
    exact longest_of_run hdigits hmore htaken fun _ => hkind.symm
  | negative hne hdigits =>
    obtain ⟨rfl, rfl⟩ := List.cons.inj hw
    have hhead : rest.head?.any isDigit = true := by
      obtain ⟨e, digits, rfl⟩ := List.exists_cons_of_ne_nil hne
      obtain ⟨tail, rfl⟩ := hmore
      exact hdigits e List.mem_cons_self
    have htaken := lexemeAt_of_negative hhead
    exact longest_of_run hdigits hmore (congrArg Prod.snd htaken) fun _ =>
      (congrArg Prod.fst htaken).symm
  | keyword hisWord hlower =>
    subst hw
    refine hword hisWord ?_
    unfold wordKind isKeyword
    rw [if_pos (List.contains_iff_mem.2 hlower)]
  | identifier hisWord hlower =>
    subst hw
    refine hword hisWord ?_
    unfold wordKind isKeyword
    rw [if_neg (mt List.contains_iff_mem.1 hlower)]
  | other _ hsymbol hdigit hstart =>
    obtain ⟨rfl, rfl⟩ := List.cons.inj hw
    exact longest_of_single fun h =>
      (h.kind_of_other hsymbol hdigit hstart).symm

end Lead

-- ================================================ where a lexeme ends

/-- What stands behind a lexeme does not go on with it. -/
structure Kind.Stops (kind : Kind) (w rest : Text) : Prop where
  number : kind = .number → rest.head?.any isDigit = false
  word : kind = .identifier ∨ kind = .keyword →
    rest.head?.any isNameChar = false
  minus : w = "-" → rest.head?.any isDigit = false
  colon : w = ":" → rest.head? ≠ some (.char '=')
  dot : w = "." → rest.head? ≠ some (.char '.')
  bracket : w = "(" → rest.head? ≠ some (.char '*')

namespace Kind

variable {kind : Kind} {c : CodePoint} {w rest : Text}

/-- The longest lexeme does not go on by a character that would make a lexeme
of it again. -/
theorem Leads.not_goesOn (h : kind.Leads w (w ++ rest)) {kind' : Kind}
    (hrest : rest.head? = some c) (hwrites : kind'.Writes (w ++ [c])) :
    False := by
  obtain ⟨more, rfl⟩ := List.head?_eq_some_iff.1 hrest
  have hbegins : w ++ [c] <+: w ++ c :: more :=
    (List.prefix_append_right_inj w).2 (List.prefix_append [c] more)
  rcases h.longest kind' _ hwrites hbegins with ⟨-, hsame⟩ | hshorter
  · exact absurd hsame (by simp)
  · rw [List.length_append] at hshorter
    omega

theorem Leads.head?_any_eq_false (h : kind.Leads w (w ++ rest))
    {p : CodePoint → Bool}
    (hp : ∀ c, p c = true → ∃ kind', Kind.Writes kind' (w ++ [c])) :
    rest.head?.any p = false := by
  cases hrest : rest.head? with
  | none => rfl
  | some c =>
    cases hc : p c with
    | false => exact hc
    | true =>
      obtain ⟨kind', hwrites⟩ := hp c hc
      exact (h.not_goesOn hrest hwrites).elim

theorem Leads.stops (h : kind.Leads w (w ++ rest))
    (hopening : ∀ style : CommentStyle, ¬ style.opener <+: w ++ rest) :
    kind.Stops w rest where
  number := by
    rintro rfl
    have hwrites := h.writes
    refine h.head?_any_eq_false fun c hc => ⟨.number, ?_⟩
    have hlast : ∀ {v : Text}, (∀ d ∈ v, isDigit d = true) →
        ∀ d ∈ v ++ [c], isDigit d = true := fun hv =>
      List.forall_mem_append.2 ⟨hv, List.forall_mem_singleton.2 hc⟩
    have hne : ∀ v : Text, v ++ [c] ≠ [] := fun v => List.concat_ne_nil c v
    cases hwrites with
    | digits _ hw => exact .digits (hne _) (hlast hw)
    | negative _ hw => exact .negative (hne _) (hlast hw)
  word := by
    intro hkind
    have hwrites := h.writes
    have hword : w.IsWord := by
      rcases hkind with rfl | rfl
      · cases hwrites with
        | identifier hw => exact hw
      · cases hwrites with
        | keyword hw => exact hw
    refine h.head?_any_eq_false fun c hc => ⟨_, Writes.word ⟨?_, ?_⟩⟩
    · rw [List.head?_append_of_ne_nil]
      · exact hword.start
      · rintro rfl
        exact absurd hword.start (by decide)
    · exact List.forall_mem_append.2
        ⟨hword.chars, List.forall_mem_singleton.2 hc⟩
  minus := by
    rintro rfl
    exact h.head?_any_eq_false fun c hc =>
      ⟨.number, .negative (List.cons_ne_nil c [])
        (List.forall_mem_singleton.2 hc)⟩
  colon := by
    rintro rfl hrest
    exact h.not_goesOn hrest (.pair (w := ":=") (by decide))
  dot := by
    rintro rfl hrest
    exact h.not_goesOn hrest (.pair (w := "..") (by decide))
  bracket := by
    rintro rfl hrest
    obtain ⟨more, rfl⟩ := List.head?_eq_some_iff.1 hrest
    exact hopening .stars (List.prefix_append (CommentStyle.opener .stars) more)

end Kind

end VarSection
