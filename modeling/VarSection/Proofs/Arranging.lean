/-
The order of a report. Findings are arranged by their places, and those at one
place stay in the order in which they were made. The two together leave no
choice: findings in reading order are determined by what lies at each place
(`eq_of_sameAt`). So arranging once more changes nothing, and findings made in
another order give the same report as long as those at one place are made in
the same order.

The headline speaks of the `Foremost` finding: none lies in front of it, and
none at its place was made earlier.
-/
import VarSection.Proofs.Scanner.Places
import VarSection.Report

namespace VarSection

-- ======================================================= places in order

namespace Position

variable {p q : Position}

theorem le_total (p q : Position) : (p.le q || q.le p) = true := by
  rw [Bool.or_eq_true, le_iff, le_iff]
  omega

theorem le_antisymm (h : p.le q = true) (h' : q.le p = true) : p = q := by
  rw [le_iff] at h h'
  cases p
  cases q
  simp only [mk.injEq] at h h' ⊢
  omega

/-- What does not lie in front lies behind. -/
theorem before_of_not_le (h : ¬ p.le q = true) : q.Before p := by
  rw [le_iff] at h
  unfold Before
  omega

end Position

namespace Report

variable {errors others : List Diagnostic} {d e : Diagnostic}

-- ================================================== findings at one place

/-- Whether two lists hold the same findings at each place, in the same
order. -/
def SameAt (errors others : List Diagnostic) : Prop :=
  ∀ p : Position, errors.filter (·.pos == p) = others.filter (·.pos == p)

theorem SameAt.symm (h : SameAt errors others) : SameAt others errors :=
  fun p => (h p).symm

/-- Each of the findings is found at its place in the other list. -/
theorem SameAt.mem (h : SameAt errors others) (hd : d ∈ errors) :
    d ∈ others := by
  have hmem : d ∈ errors.filter (·.pos == d.pos) := by
    simp [hd]
  rw [h d.pos] at hmem
  exact List.mem_of_mem_filter hmem

/-- What begins both lists can be left out. -/
theorem SameAt.tail (h : SameAt (d :: errors) (d :: others)) :
    SameAt errors others := by
  intro p
  have hp := h p
  rw [List.filter_cons, List.filter_cons] at hp
  by_cases hplace : (d.pos == p) = true
  · rw [if_pos hplace, if_pos hplace] at hp
    exact (List.cons.inj hp).2
  · rw [if_neg hplace, if_neg hplace] at hp
    exact hp

/-- Findings in reading order. -/
def InOrder (errors : List Diagnostic) : Prop :=
  errors.Pairwise fun d e => d.pos.le e.pos = true

theorem InOrder.le_head (h : InOrder (d :: errors)) (he : e ∈ d :: errors) :
    d.pos.le e.pos = true := by
  rcases List.mem_cons.1 he with rfl | he
  · exact Position.le_refl _
  · exact (List.pairwise_cons.1 h).1 e he

/-- In reading order findings are determined by what lies at each place. Of
two such lists neither can begin further on than the other, so they begin at
one place, and there with the same finding. -/
theorem eq_of_sameAt (h : InOrder errors) (h' : InOrder others)
    (hsame : SameAt errors others) : errors = others := by
  induction errors generalizing others with
  | nil =>
    cases others with
    | nil => rfl
    | cons e others =>
      exact absurd (hsame.symm.mem List.mem_cons_self) (by simp)
  | cons d errors ih =>
    cases others with
    | nil => exact absurd (hsame.mem List.mem_cons_self) (by simp)
    | cons e others =>
      have hle := h.le_head (hsame.symm.mem List.mem_cons_self)
      have hge := h'.le_head (hsame.mem List.mem_cons_self)
      have hplace : d.pos = e.pos := Position.le_antisymm hle hge
      have hfirst := hsame d.pos
      rw [List.filter_cons_of_pos (by simp),
        List.filter_cons_of_pos (by simp [hplace])] at hfirst
      obtain rfl : d = e := (List.cons.inj hfirst).1
      rw [ih (List.pairwise_cons.1 h).2 (List.pairwise_cons.1 h').2 hsame.tail]

-- ============================================================== arranging

theorem le_trans_pos (d e f : Diagnostic) (h : d.pos.le e.pos = true)
    (h' : e.pos.le f.pos = true) : d.pos.le f.pos = true :=
  Position.le_trans h h'

theorem le_total_pos (d e : Diagnostic) :
    (d.pos.le e.pos || e.pos.le d.pos) = true :=
  Position.le_total d.pos e.pos

theorem inOrder_arrange (errors : List Diagnostic) :
    InOrder (arrange errors) :=
  List.pairwise_mergeSort le_trans_pos le_total_pos errors

theorem perm_arrange (errors : List Diagnostic) :
    (arrange errors).Perm errors :=
  List.mergeSort_perm errors _

/-- Arranging keeps the order of findings at one place. They are in reading
order among themselves, so they stay a part of the list, and there are as many
of them as before. -/
theorem sameAt_arrange (errors : List Diagnostic) :
    SameAt (arrange errors) errors := by
  intro p
  have hplace : InOrder (errors.filter (·.pos == p)) := by
    apply List.pairwise_of_forall_mem_list
    intro d hd e he
    simp only [List.mem_filter, beq_iff_eq] at hd he
    rw [hd.2, he.2]
    exact Position.le_refl p
  have hkept : (errors.filter (·.pos == p)).Sublist (arrange errors) :=
    List.sublist_mergeSort le_trans_pos le_total_pos hplace
      List.filter_sublist
  have hsublist := hkept.filter (·.pos == p)
  rw [List.filter_filter] at hsublist
  simp only [Bool.and_self] at hsublist
  have hlength := ((perm_arrange errors).filter (·.pos == p)).length_eq
  exact (hsublist.eq_of_length hlength.symm).symm

/-- Arranging depends only on what lies at each place. -/
theorem arrange_eq_of_sameAt (h : SameAt others errors) :
    arrange others = arrange errors := by
  apply eq_of_sameAt (inOrder_arrange others) (inOrder_arrange errors)
  intro p
  rw [sameAt_arrange, sameAt_arrange, h]

-- ====================================================== the first finding

/-- A finding that comes before all others: those made earlier lie behind it,
and of those made later none lies in front of it. -/
def Foremost (first : Diagnostic) (errors : List Diagnostic) : Prop :=
  ∃ earlier later, errors = earlier ++ first :: later
    ∧ (∀ d ∈ earlier, first.pos.Before d.pos)
    ∧ ∀ d ∈ later, first.pos.le d.pos = true

theorem Foremost.le (h : Foremost d errors) (he : e ∈ errors) :
    d.pos.le e.pos = true := by
  obtain ⟨earlier, later, rfl, hearlier, hlater⟩ := h
  rcases List.mem_append.1 he with he | he
  · exact (hearlier e he).le
  · rcases List.mem_cons.1 he with rfl | he
    · exact Position.le_refl _
    · exact hlater e he

/-- At its place no finding was made earlier. -/
theorem Foremost.filter_eq (h : Foremost d errors) :
    ∃ later, errors.filter (·.pos == d.pos) = d :: later := by
  obtain ⟨earlier, later, rfl, hearlier, -⟩ := h
  have hnone : earlier.filter (·.pos == d.pos) = [] := by
    rw [List.filter_eq_nil_iff]
    intro e he hplace
    exact (hearlier e he).ne (beq_iff_eq.1 hplace).symm
  rw [List.filter_append, hnone, List.nil_append,
    List.filter_cons_of_pos (by simp)]
  exact ⟨_, rfl⟩

/-- Of any findings one is foremost. One more, made earlier than the others,
takes its place unless it lies further on. -/
theorem exists_foremost (h : errors ≠ []) :
    ∃ first, Foremost first errors := by
  induction errors with
  | nil => exact absurd rfl h
  | cons d errors ih =>
    by_cases hnil : errors = []
    · exact ⟨d, [], errors, rfl, by simp, by simp [hnil]⟩
    · obtain ⟨first, hfirst⟩ := ih hnil
      by_cases hle : d.pos.le first.pos = true
      · refine ⟨d, [], errors, rfl, by simp, fun e he => ?_⟩
        exact Position.le_trans hle (hfirst.le he)
      · obtain ⟨earlier, later, rfl, hearlier, hlater⟩ := hfirst
        refine ⟨first, d :: earlier, later, rfl, ?_, hlater⟩
        exact List.forall_mem_cons.2
          ⟨Position.before_of_not_le hle, hearlier⟩

/-- An arranged list begins with the foremost finding. -/
theorem Foremost.arrange_eq (h : Foremost d errors) :
    ∃ more, arrange errors = d :: more := by
  obtain ⟨later, hlater⟩ := h.filter_eq
  have hmem : d ∈ arrange errors := by
    apply (sameAt_arrange errors).symm.mem
    exact List.mem_of_mem_filter (hlater ▸ List.mem_cons_self)
  cases harrange : arrange errors with
  | nil =>
    rw [harrange] at hmem
    cases hmem
  | cons e more =>
    have horder := inOrder_arrange errors
    have hsame := sameAt_arrange errors d.pos
    rw [harrange] at hmem horder hsame
    have hle := h.le ((perm_arrange errors).mem_iff.1
      (harrange ▸ List.mem_cons_self))
    have hplace : d.pos = e.pos :=
      Position.le_antisymm hle (horder.le_head hmem)
    rw [hlater, List.filter_cons_of_pos (by simp [hplace])] at hsame
    exact ⟨more, by rw [(List.cons.inj hsame).1]⟩

end Report

-- =============================================================== reports

/-- The report on any findings tells of just these, in reading order, and of
those at one place in the order in which they were made. To arrange them once
more changes nothing, and it only matters in which order those at one place
were made. The headline is that of success where there are none, and otherwise
names line, column and message of the foremost one. -/
theorem report_arranged (errors : List Diagnostic)
    (symbols : SymbolTable Position) (declarations : List Declaration) :
    let report := Report.ofFindings errors symbols declarations
    report.errors.Perm errors
      ∧ report.errors.Pairwise (fun d e => d.pos.le e.pos = true)
      ∧ (∀ p : Position, report.errors.filter (·.pos == p)
          = errors.filter (·.pos == p))
      ∧ Report.ofFindings report.errors symbols declarations = report
      ∧ (∀ others : List Diagnostic,
          (∀ p : Position, others.filter (·.pos == p)
            = errors.filter (·.pos == p)) →
          Report.ofFindings others symbols declarations = report)
      ∧ (errors = [] → report.headline = Report.successMessage)
      ∧ (errors ≠ [] → ∃ first, Report.Foremost first errors)
      ∧ ∀ first, Report.Foremost first errors →
          report.headline = "❗ " ++ first.severity.title ++ " в строке "
            ++ Text.ofInt first.pos.line ++ ", позиция "
            ++ Text.ofInt first.pos.col ++ ": " ++ first.message := by
  intro report
  have hofFindings : ∀ others : List Diagnostic,
      Report.SameAt others errors →
      Report.ofFindings others symbols declarations = report := by
    intro others hsame
    show Report.mk _ _ _ = Report.mk _ _ _
    rw [Report.arrange_eq_of_sameAt hsame]
  refine ⟨Report.perm_arrange errors, Report.inOrder_arrange errors,
    Report.sameAt_arrange errors,
    hofFindings _ (Report.sameAt_arrange errors), hofFindings, ?_,
    Report.exists_foremost, ?_⟩
  · rintro rfl
    have herrors : report.errors = [] := List.mergeSort_nil
    unfold Report.headline
    rw [herrors]
  · intro first hfirst
    obtain ⟨more, hmore⟩ := hfirst.arrange_eq
    have herrors : report.errors = first :: more := hmore
    unfold Report.headline
    rw [herrors]
    rfl

/-- Two places with two findings each, one of them in front of all texts. What
is found at one place may be made between what is found at the other. -/
theorem report_arranged_ties :
    let name : Diagnostic := ⟨.syntactic, ⟨2, 3⟩, .nameExpected⟩
    let semicolon : Diagnostic := ⟨.syntactic, ⟨2, 3⟩, .semicolonExpected⟩
    let comment : Diagnostic := ⟨.lexical, ⟨-1, 7⟩, .unclosedComment⟩
    let remark : Diagnostic := ⟨.named "note", ⟨-1, 7⟩, .remark "why"⟩
    let report :=
      Report.ofFindings [semicolon, comment, name, remark] .empty []
    Report.Foremost comment [semicolon, comment, name, remark]
      ∧ Report.ofFindings [comment, semicolon, remark, name] .empty [] = report
      ∧ report.headline = "❗ Лексическая ошибка в строке -1, позиция 7: "
          ++ "Незакрытый комментарий" := by
  intro name semicolon comment remark report
  have hfirst : Report.Foremost comment
      [semicolon, comment, name, remark] := by
    refine ⟨[semicolon], [name, remark], rfl, ?_, ?_⟩
    · simp [Position.Before, comment, semicolon]
    · simp [Position.le, comment, name, remark]
  obtain ⟨-, -, -, -, hothers, -, -, hheadline⟩ :=
    report_arranged [semicolon, comment, name, remark] .empty []
  refine ⟨hfirst, hothers _ fun p => ?_, (hheadline _ hfirst).trans ?_⟩
  · by_cases hlow : (⟨2, 3⟩ : Position) = p
    · subst hlow
      rfl
    · by_cases hhigh : (⟨-1, 7⟩ : Position) = p
      · subst hhigh
        rfl
      · simp [name, semicolon, comment, remark, hlow, hhigh]
  · decide +kernel

end VarSection
