/-
What is skipped behind a broken declaration. Recovery on a line passes
lexemes of that line up to and including the first semicolon, and then the
unknown symbols that follow on the line. It stops in front of whatever may
belong to something else: the mark of the end, the word that opens a block,
another line, a declaration that seems to begin (`synchronize_skips`).

The run that is passed is told from the unread lexemes one by one, as a loop
over them would tell it (`synchronizedRun_of_stop`,
`synchronizedRun_of_semicolon`, `synchronizedRun_of_plain`). By induction
along these it is parted as `Skips` asks, and there is no other way to part
the unread lexemes so.
-/
import VarSection.Proofs.Analysis.Passage

namespace VarSection

/-- Whether recovery on a line may pass a lexeme, where `next` follows it: it
stands on the line, it is neither the mark of the end nor the word that opens
a block, and no declaration seems to begin with it. -/
structure Token.Skippable (t : Token) (line : Int) (next : Token) : Prop where
  onLine : t.line = line
  notEnding : t.isEnding = false
  notVar : t.isKeyword "var" = false
  notDeclaration : t.startsDeclaration next = false

namespace Analysis

variable {a : Analysis} {line : Int} {t : Token}
  {unread skipped trailing rest : List Token}

-- ==================================================== lexeme by lexeme

theorem brokenRun_of_stop (h : ¬t.Skippable line (rest.headD t)) :
    brokenRun line (t :: rest) = [] := by
  unfold brokenRun
  split
  · rfl
  next hstop =>
    simp only [Bool.or_eq_true, not_or, Bool.not_eq_true, bne_eq_false_iff_eq]
      at hstop
    obtain ⟨⟨⟨hend, hvar⟩, hline⟩, hstart⟩ := hstop
    exact absurd ⟨hline, hend, hvar, hstart⟩ h

theorem brokenRun_of_skippable (h : t.Skippable line (rest.headD t)) :
    brokenRun line (t :: rest)
      = if t.isSymbol ";" then [t] else t :: brokenRun line rest := by
  rw [brokenRun, if_neg]
  rw [h.notEnding, h.notVar, h.notDeclaration, bne_eq_false_iff_eq.2 h.onLine]
  decide

/-- In front of a lexeme that may not be passed nothing is. -/
theorem synchronizedRun_of_stop (h : ¬t.Skippable line (rest.headD t)) :
    synchronizedRun line (t :: rest) = [] := by
  unfold synchronizedRun
  rw [brokenRun_of_stop h]
  rfl

/-- A semicolon is passed, and the unknown symbols behind it on its line. -/
theorem synchronizedRun_of_semicolon (h : t.Skippable line (rest.headD t))
    (hsemicolon : t.isSymbol ";" = true) :
    synchronizedRun line (t :: rest) = t :: unknownRun line rest := by
  unfold synchronizedRun
  rw [brokenRun_of_skippable h, if_pos hsemicolon]
  show (if t.isSymbol ";" then [t] ++ unknownRun t.line rest else [t]) = _
  rw [if_pos hsemicolon, h.onLine]
  rfl

/-- Any other lexeme that may be passed is, and so is what is passed behind
it. -/
theorem synchronizedRun_of_plain (h : t.Skippable line (rest.headD t))
    (hplain : t.isSymbol ";" = false) :
    synchronizedRun line (t :: rest) = t :: synchronizedRun line rest := by
  unfold synchronizedRun
  rw [brokenRun_of_skippable h, if_neg (by rw [hplain]; decide)]
  cases hrun : brokenRun line rest with
  | nil =>
    show (if t.isSymbol ";" then _ else [t]) = _
    rw [if_neg (by rw [hplain]; decide)]
    rfl
  | cons u run =>
    simp only [List.getLast?_cons_cons, List.length_cons, List.drop_succ_cons]
    cases hlast : (u :: run).getLast? with
    | none => rfl
    | some last =>
      simp only
      split <;> rfl

-- ============================================================ the whole run

/-- Of unread lexemes recovery on a line passes `skipped`, up to and
including the first semicolon if there is one, and `trailing` behind it; the
rest stays unread. -/
structure Skips (line : Int) (unread skipped trailing rest : List Token) :
    Prop where
  unread_eq : unread = skipped ++ (trailing ++ rest)
  skippable : ∀ before t after, skipped = before ++ t :: after →
    t.Skippable line ((after ++ (trailing ++ rest)).headD t)
  firstSemicolon : ∀ t ∈ skipped.dropLast, t.isSymbol ";" = false
  unknownSymbols : ∀ t ∈ trailing, t.kind = .unknown ∧ t.line = line
  afterSemicolon : (∃ t ∈ skipped, t.isSymbol ";" = true) →
    ∀ t ∈ rest.head?, ¬(t.kind = .unknown ∧ t.line = line)
  withoutSemicolon : (∀ t ∈ skipped, t.isSymbol ";" = false) →
    trailing = [] ∧ ∃ t after, rest = t :: after
      ∧ ¬t.Skippable line (after.headD t)

namespace Skips

/-- Nothing is skipped in front of a lexeme that may not be passed. -/
theorem stop (h : ¬t.Skippable line (rest.headD t)) :
    Skips line (t :: rest) [] [] (t :: rest) where
  unread_eq := rfl
  skippable before u after hsplit := by
    have hne : before ++ u :: after ≠ [] := by simp
    exact absurd hsplit.symm hne
  firstSemicolon u hu := absurd hu List.not_mem_nil
  unknownSymbols u hu := absurd hu List.not_mem_nil
  afterSemicolon hclosed := by
    obtain ⟨u, hu, -⟩ := hclosed
    cases hu
  withoutSemicolon _ := ⟨rfl, t, rest, rfl, h⟩

/-- Behind a semicolon the unknown symbols of its line are skipped. -/
theorem semicolon (h : t.Skippable line (rest.headD t))
    (hsemicolon : t.isSymbol ";" = true) :
    ∃ after, Skips line (t :: rest) [t] (unknownRun line rest) after := by
  refine ⟨rest.dropWhile fun u => u.kind == .unknown && u.line == line, ?_⟩
  have hrest : unknownRun line rest
      ++ rest.dropWhile (fun u => u.kind == .unknown && u.line == line)
        = rest := List.takeWhile_append_dropWhile
  refine ⟨by rw [hrest]; rfl, fun before u after hsplit => ?_,
    fun u hu => absurd hu List.not_mem_nil,
    fun u hu => ?_, fun _ u hu hunknown => ?_, fun hopen => ?_⟩
  · cases before with
    | nil =>
      obtain ⟨rfl, rfl⟩ := List.cons.inj hsplit
      rw [hrest]
      exact h
    | cons v before => simp at hsplit
  · obtain ⟨hkind, hline, -⟩ := notEnding_of_mem_unknownRun hu
    exact ⟨hkind, hline⟩
  · have hstop := List.head?_dropWhile_not
      (fun u : Token => u.kind == .unknown && u.line == line) rest
    rw [Option.mem_def.1 hu] at hstop
    simp [hunknown.1, hunknown.2] at hstop
  · rw [hopen t List.mem_cons_self] at hsemicolon
    cases hsemicolon

/-- A lexeme other than a semicolon is skipped together with what is skipped
behind it. -/
theorem plain (h : t.Skippable line (unread.headD t))
    (hplain : t.isSymbol ";" = false)
    (hskips : Skips line unread skipped trailing rest) :
    Skips line (t :: unread) (t :: skipped) trailing rest where
  unread_eq := congrArg (t :: ·) hskips.unread_eq
  skippable before u after hsplit := by
    cases before with
    | nil =>
      obtain ⟨rfl, rfl⟩ := List.cons.inj hsplit
      rw [← hskips.unread_eq]
      exact h
    | cons v before =>
      exact hskips.skippable before u after (List.cons.inj hsplit).2
  firstSemicolon u hu := by
    cases skipped with
    | nil => cases hu
    | cons v skipped =>
      rcases List.mem_cons.1 hu with rfl | hu
      · exact hplain
      · exact hskips.firstSemicolon u hu
  unknownSymbols := hskips.unknownSymbols
  afterSemicolon hclosed := by
    obtain ⟨u, hu, hsemicolon⟩ := hclosed
    rcases List.mem_cons.1 hu with rfl | hu
    · rw [hplain] at hsemicolon
      cases hsemicolon
    · exact hskips.afterSemicolon ⟨u, hu, hsemicolon⟩
  withoutSemicolon hopen :=
    hskips.withoutSemicolon fun u hu => hopen u (List.mem_cons_of_mem t hu)

/-- In front of a mark of the end recovery has something to stop at. -/
theorem exists_of_ending (line : Int)
    (hend : ∃ t ∈ unread, t.isEnding = true) :
    ∃ skipped trailing rest, Skips line unread skipped trailing rest := by
  induction unread with
  | nil =>
    obtain ⟨t, ht, -⟩ := hend
    cases ht
  | cons t rest ih =>
    by_cases h : t.Skippable line (rest.headD t)
    · cases hsemicolon : t.isSymbol ";" with
      | true =>
        obtain ⟨after, hskips⟩ := semicolon h hsemicolon
        exact ⟨[t], _, after, hskips⟩
      | false =>
        obtain ⟨u, hu, hending⟩ := hend
        have hrest : u ∈ rest := by
          rcases List.mem_cons.1 hu with rfl | hu
          · rw [h.notEnding] at hending
            cases hending
          · exact hu
        obtain ⟨skipped, trailing, after, hskips⟩ := ih ⟨u, hrest, hending⟩
        exact ⟨t :: skipped, trailing, after, plain h hsemicolon hskips⟩
    · exact ⟨[], [], t :: rest, stop h⟩

/-- What is skipped behind the first lexeme. -/
theorem tail (hskips : Skips line unread (t :: skipped) trailing rest)
    (hplain : t.isSymbol ";" = false) :
    Skips line (skipped ++ (trailing ++ rest)) skipped trailing rest where
  unread_eq := rfl
  skippable before u after hsplit :=
    hskips.skippable (t :: before) u after (by rw [hsplit]; rfl)
  firstSemicolon u hu := by
    cases skipped with
    | nil => cases hu
    | cons v skipped =>
      exact hskips.firstSemicolon u (List.mem_cons_of_mem t hu)
  unknownSymbols := hskips.unknownSymbols
  afterSemicolon hclosed := by
    obtain ⟨u, hu, hsemicolon⟩ := hclosed
    exact hskips.afterSemicolon ⟨u, List.mem_cons_of_mem t hu, hsemicolon⟩
  withoutSemicolon hopen :=
    hskips.withoutSemicolon (List.forall_mem_cons.2 ⟨hplain, hopen⟩)

/-- Behind the first semicolon nothing but the trailing symbols is
skipped. -/
theorem eq_nil_of_semicolon
    (hskips : Skips line unread (t :: skipped) trailing rest)
    (hsemicolon : t.isSymbol ";" = true) :
    skipped = [] ∧ trailing = unknownRun line (trailing ++ rest) := by
  constructor
  · cases skipped with
    | nil => rfl
    | cons u skipped =>
      have hfirst := hskips.firstSemicolon t List.mem_cons_self
      rw [hfirst] at hsemicolon
      cases hsemicolon
  · have hall : ∀ u ∈ trailing,
        (u.kind == .unknown && u.line == line) = true := by
      intro u hu
      obtain ⟨hkind, hline⟩ := hskips.unknownSymbols u hu
      rw [hkind, hline, beq_self_eq_true, beq_self_eq_true]
      rfl
    have hstop : unknownRun line rest = [] := by
      cases rest with
      | nil => rfl
      | cons u rest =>
        have hother :=
          hskips.afterSemicolon ⟨t, List.mem_cons_self, hsemicolon⟩ u rfl
        refine List.takeWhile_cons_of_neg fun hunknown => hother ?_
        rwa [Bool.and_eq_true, beq_iff_eq, beq_iff_eq] at hunknown
    unfold unknownRun at hstop ⊢
    rw [List.takeWhile_append_of_pos hall, hstop, List.append_nil]

/-- Unread lexemes are parted in one way only. -/
theorem eq_brokenRun (hskips : Skips line unread skipped trailing rest) :
    skipped = brokenRun line unread
      ∧ skipped ++ trailing = synchronizedRun line unread := by
  induction skipped generalizing unread with
  | nil =>
    obtain ⟨rfl, t, after, rfl, hstop⟩ :=
      hskips.withoutSemicolon fun u hu => absurd hu List.not_mem_nil
    rw [hskips.unread_eq]
    exact ⟨(brokenRun_of_stop hstop).symm,
      (synchronizedRun_of_stop hstop).symm⟩
  | cons t skipped ih =>
    have hhead := hskips.skippable [] t skipped rfl
    rw [hskips.unread_eq, List.cons_append, brokenRun_of_skippable hhead]
    cases hsemicolon : t.isSymbol ";" with
    | true =>
      obtain ⟨rfl, htrailing⟩ := hskips.eq_nil_of_semicolon hsemicolon
      refine ⟨rfl, ?_⟩
      rw [synchronizedRun_of_semicolon hhead hsemicolon, List.nil_append,
        ← htrailing]
      rfl
    | false =>
      obtain ⟨hrun, hall⟩ := ih (hskips.tail hsemicolon)
      rw [synchronizedRun_of_plain hhead hsemicolon, ← hrun, ← hall]
      exact ⟨rfl, rfl⟩

end Skips

/-- Recovery on a line skips exactly what it may. From any place in a table
in front of its first mark of the end, or at it, recovery passes a run of the
lexemes ahead, and leaves all else as it was but for the findings: one for
each unknown symbol of the run, in order. Up to and including the first
semicolon each lexeme of the run may be passed; behind the semicolon come
only the unknown symbols that follow it on the line, all of them; and without
a semicolon the run ends in front of a lexeme that may not be passed. There
is only one run of this kind. -/
theorem synchronize_skips (ha : a.Inside) (line : Int) :
    ∃ skipped trailing,
      Passes a (skipped ++ trailing) (unknownFindings (skipped ++ trailing))
          (a.synchronize line)
        ∧ Skips line a.cursor.ahead skipped trailing
          (a.synchronize line).cursor.ahead
        ∧ ∀ skipped' trailing' rest',
          Skips line a.cursor.ahead skipped' trailing' rest' →
            skipped' = skipped ∧ trailing' = trailing := by
  obtain ⟨skipped, trailing, rest, hskips⟩ :=
    Skips.exists_of_ending line ha.ahead
  obtain ⟨hbroken, hrun⟩ := hskips.eq_brokenRun
  have hpasses := passes_synchronize ha line
  rw [← hrun] at hpasses
  have hrest : (a.synchronize line).cursor.ahead = rest :=
    hpasses.ahead_eq (by rw [hskips.unread_eq, List.append_assoc])
  refine ⟨skipped, trailing, hpasses, by rw [hrest]; exact hskips,
    fun skipped' trailing' rest' hskips' => ?_⟩
  obtain ⟨hbroken', hrun'⟩ := hskips'.eq_brokenRun
  have hsame : skipped' = skipped := hbroken'.trans hbroken.symm
  rw [← hrun, hsame] at hrun'
  exact ⟨hsame, List.append_cancel_left hrun'⟩

/-- The lexemes of `a ) # b; ? !` with `%` on the next line. -/
def brokenLine : List Token :=
  [⟨.identifier, "a", ⟨1, 1⟩⟩, ⟨.symbol, ")", ⟨1, 3⟩⟩,
    ⟨.unknown, "#", ⟨1, 5⟩⟩, ⟨.identifier, "b", ⟨1, 7⟩⟩,
    ⟨.symbol, ";", ⟨1, 8⟩⟩, ⟨.unknown, "?", ⟨1, 10⟩⟩,
    ⟨.unknown, "!", ⟨1, 12⟩⟩, ⟨.unknown, "%", ⟨2, 1⟩⟩, ⟨.ending, [], ⟨2, 2⟩⟩]

/-- From the bracket on recovery passes the name in front of the semicolon
and the unknown symbols of the line, but not the one on the next line. -/
theorem synchronize_skips_brokenLine :
    let a := (ofTable brokenLine).next
    a.Inside ∧ (a.synchronize 1).cursor.position = 7
      ∧ ∃ skipped trailing,
        skipped.map (·.text) = ([")", "#", "b", ";"] : List Text)
          ∧ trailing.map (·.text) = (["?", "!"] : List Text)
          ∧ Skips 1 a.cursor.ahead skipped trailing
            (a.synchronize 1).cursor.ahead
          ∧ (a.synchronize 1).findings
            = [⟨.syntactic, ⟨1, 5⟩, .unknownSymbol "#"⟩,
              ⟨.syntactic, ⟨1, 10⟩, .unknownSymbol "?"⟩,
              ⟨.syntactic, ⟨1, 12⟩, .unknownSymbol "!"⟩] := by
  intro a
  have ha : a.Inside :=
    ⟨rfl, by decide, ⟨.ending, [], ⟨2, 2⟩⟩, by decide, rfl⟩
  obtain ⟨skipped, trailing, hpasses, hskips, -⟩ := synchronize_skips ha 1
  obtain ⟨hbroken, hrun⟩ := hskips.eq_brokenRun
  have hskipped : skipped = (brokenLine.drop 1).take 4 :=
    hbroken.trans (by decide +kernel)
  rw [hskipped] at hrun
  have htrailing : trailing = (brokenLine.drop 5).take 2 :=
    List.append_cancel_left (hrun.trans (by decide +kernel))
  refine ⟨ha, by decide +kernel, skipped, trailing, ?_, ?_, hskips, ?_⟩
  · rw [hskipped]
    decide
  · rw [htrailing]
    decide
  · decide +kernel

end Analysis

end VarSection
