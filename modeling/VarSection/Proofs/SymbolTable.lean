/-
The table of symbols stands for a list. Whatever symbols are defined one
after another, the first one of a name wins: the table answers for each name
with it, and those that come later change nothing (`define_firstWins`).

A table keeps the symbols and the keys apart, so two things are kept beside
the answers: each symbol stands under the key of its own name, and no key
stands twice (`Keyed`). From these the listing of a table can be told, and it
is the list of what was defined with later symbols of a name erased.
-/
import VarSection.SymbolTable

namespace VarSection

variable {Place : Type}

namespace Symbol

/-- The key of a symbol: its name in lower case. -/
def key (s : Symbol Place) : Text := Text.lower s.name

/-- Whether a symbol has a name, in upper or lower case. -/
def isNamed (name : Text) (s : Symbol Place) : Bool :=
  s.key == Text.lower name

/-- Whether two symbols have one name, in upper or lower case. -/
def sameName (s s' : Symbol Place) : Bool := s.key == s'.key

end Symbol

namespace SymbolTable

variable {t : SymbolTable Place} {symbols : List (Symbol Place)}
  {s first : Symbol Place}

-- ===================================================== a single definition

/-- A name that is declared changes nothing. -/
theorem define_of_some (h : t.lookup s.name = some first) :
    t.define s = (some first, t) := by
  unfold lookup at h
  simp only [define, h]

/-- A new name is entered. -/
theorem define_of_none (h : t.lookup s.name = none) :
    t.define s = (none, ⟨(s.key, s) :: t.entries⟩) := by
  unfold lookup at h
  simp only [define, h]
  rfl

/-- A definition is answered as the name is before it. -/
theorem define_fst (t : SymbolTable Place) (s : Symbol Place) :
    (t.define s).1 = t.lookup s.name := by
  cases hfirst : t.lookup s.name with
  | some first => rw [define_of_some hfirst]
  | none => rw [define_of_none hfirst]

/-- A symbol that is entered answers to its own name, and to no other. -/
theorem lookup_cons (entries : List (Text × Symbol Place))
    (s : Symbol Place) (name : Text) :
    lookup ⟨(s.key, s) :: entries⟩ name
      = if s.isNamed name then some s else lookup ⟨entries⟩ name := by
  unfold lookup get? Symbol.isNamed
  rw [List.find?_cons]
  cases s.key == Text.lower name <;> rfl

-- ======================================================= what is answered

/-- A table answers for each name with the first of some symbols that has
the name. -/
def AnswersFor (t : SymbolTable Place) (symbols : List (Symbol Place)) :
    Prop :=
  ∀ name, t.lookup name = symbols.find? (·.isNamed name)

theorem answersFor_empty : (empty : SymbolTable Place).AnswersFor [] :=
  fun _ => rfl

/-- One more symbol answers only to its own name, and only if no symbol
before it does. -/
theorem AnswersFor.define (h : t.AnswersFor symbols) (s : Symbol Place) :
    (t.define s).2.AnswersFor (symbols ++ [s]) := by
  intro name
  rw [List.find?_append, List.find?_singleton, ← h name]
  cases hname : s.isNamed name with
  | false =>
    rw [if_neg Bool.false_ne_true, Option.or_none]
    cases hfirst : t.lookup s.name with
    | some first => rw [define_of_some hfirst]
    | none =>
      rw [define_of_none hfirst, lookup_cons, hname,
        if_neg Bool.false_ne_true]
  | true =>
    -- the name that is asked for is the name of the new symbol
    have hsame : t.lookup s.name = t.lookup name := by
      unfold lookup
      rw [show Text.lower s.name = Text.lower name from beq_iff_eq.1 hname]
    rw [if_pos rfl]
    cases hfirst : t.lookup s.name with
    | some first =>
      rw [define_of_some hfirst, ← hsame, hfirst]
      rfl
    | none =>
      rw [define_of_none hfirst, lookup_cons, hname, if_pos rfl, ← hsame,
        hfirst]
      rfl

-- ========================================================= what is listed

/-- Each symbol of a table stands under the key of its own name, and no key
stands twice. -/
structure Keyed (t : SymbolTable Place) : Prop where
  key : ∀ entry ∈ t.entries, entry.1 = entry.2.key
  nodup : (t.entries.map (·.1)).Nodup

theorem keyed_empty : (empty : SymbolTable Place).Keyed :=
  ⟨fun _ h => absurd h List.not_mem_nil, .nil⟩

/-- A name is declared just when its key is in the table. -/
theorem contains_iff_mem_keys (t : SymbolTable Place) (name : Text) :
    t.contains name = true ↔ Text.lower name ∈ t.keys := by
  unfold contains lookup get? keys
  rw [Option.isSome_map, List.find?_isSome, List.mem_reverse, List.mem_map]
  simp only [beq_iff_eq]

theorem lookup_eq_none_iff (t : SymbolTable Place) (name : Text) :
    t.lookup name = none ↔ Text.lower name ∉ t.keys := by
  rw [← contains_iff_mem_keys, contains, Bool.not_eq_true,
    Option.isSome_eq_false_iff, Option.isNone_iff_eq_none]

theorem Keyed.define (h : t.Keyed) (s : Symbol Place) :
    (t.define s).2.Keyed := by
  cases hfirst : t.lookup s.name with
  | some first =>
    rw [define_of_some hfirst]
    exact h
  | none =>
    rw [define_of_none hfirst]
    have hnew : s.key ∉ t.entries.map (·.1) := by
      rw [lookup_eq_none_iff, keys, List.mem_reverse] at hfirst
      exact hfirst
    exact ⟨List.forall_mem_cons.2 ⟨rfl, h.key⟩,
      List.nodup_cons.2 ⟨hnew, h.nodup⟩⟩

/-- A table lists its keys as it lists its symbols. -/
theorem Keyed.keys_eq (h : t.Keyed) : t.keys = t.toList.map Symbol.key := by
  unfold keys toList
  rw [List.map_reverse, List.map_map]
  congr 1
  exact List.map_congr_left h.key

/-- A name is declared just when some symbol of the table has it. -/
theorem Keyed.any_sameName (h : t.Keyed) (s : Symbol Place) :
    (t.entries.map (·.2)).any s.sameName = (t.lookup s.name).isSome := by
  rw [← contains, Bool.eq_iff_iff, contains_iff_mem_keys, h.keys_eq]
  unfold toList Symbol.sameName
  rw [List.any_eq_true, List.map_reverse, List.mem_reverse, List.mem_map]
  simp only [beq_iff_eq]
  exact exists_congr fun s' => and_congr_right fun _ => eq_comm

-- ==================================================== any number of them

/-- The table in which symbols are defined one after another, behind those
of a table. -/
def defineAll (t : SymbolTable Place) (symbols : List (Symbol Place)) :
    SymbolTable Place :=
  symbols.foldl (fun t s => (t.define s).2) t

/-- The library erases what has been seen from the front, and keeps what it
has seen latest first, as a table does. -/
theorem Keyed.toList_defineAll (h : t.Keyed)
    (symbols : List (Symbol Place)) :
    (t.defineAll symbols).toList
      = List.eraseDupsBy.loop Symbol.sameName symbols
          (t.entries.map (·.2)) := by
  induction symbols generalizing t with
  | nil => rfl
  | cons s symbols ih =>
    show ((t.define s).2.defineAll symbols).toList = _
    rw [ih (h.define s), List.eraseDupsBy.loop, h.any_sameName]
    cases hfirst : t.lookup s.name with
    | some first =>
      rw [define_of_some hfirst]
      rfl
    | none =>
      rw [define_of_none hfirst]
      rfl

theorem AnswersFor.defineAll (h : t.AnswersFor symbols)
    (more : List (Symbol Place)) :
    (t.defineAll more).AnswersFor (symbols ++ more) := by
  induction more generalizing t symbols with
  | nil =>
    rw [List.append_nil]
    exact h
  | cons s more ih =>
    rw [List.append_cons]
    exact ih (h.define s)

theorem Keyed.defineAll (h : t.Keyed) (symbols : List (Symbol Place)) :
    (t.defineAll symbols).Keyed := by
  induction symbols generalizing t with
  | nil => exact h
  | cons s symbols ih => exact ih (h.define s)

/-- The first symbol of a name wins. After any symbols were defined one after
another, a table answers for each name with the first of them that has it,
and has the name just when its key is there; one more definition is answered
in the same way, and where the name is declared it leaves the table as it
is. The table lists those first symbols in the order in which they were
defined, each under the key of its own name, and no key twice. -/
theorem define_firstWins (symbols : List (Symbol Place)) :
    let t := (empty : SymbolTable Place).defineAll symbols
    (∀ name, t.lookup name = symbols.find? (·.isNamed name)
        ∧ t.contains name = (t.lookup name).isSome
        ∧ (t.contains name = true ↔ Text.lower name ∈ t.keys))
      ∧ (∀ s, (t.define s).1 = symbols.find? (·.isNamed s.name)
        ∧ ((t.define s).1 = none ↔ Text.lower s.name ∉ t.keys)
        ∧ ((t.define s).1 ≠ none → (t.define s).2 = t))
      ∧ t.toList = symbols.eraseDupsBy Symbol.sameName
      ∧ t.keys = t.toList.map (fun s => Text.lower s.name)
      ∧ t.keys.Nodup
      ∧ t.size = t.toList.length := by
  intro t
  have hanswers : t.AnswersFor symbols := answersFor_empty.defineAll symbols
  have hkeyed : t.Keyed := keyed_empty.defineAll symbols
  refine ⟨fun name => ⟨hanswers name, rfl, contains_iff_mem_keys t name⟩,
    fun s => ⟨?_, ?_, ?_⟩, keyed_empty.toList_defineAll symbols,
    hkeyed.keys_eq, (List.reverse_perm _).nodup_iff.2 hkeyed.nodup, ?_⟩
  · rw [define_fst]
    exact hanswers s.name
  · rw [define_fst]
    exact lookup_eq_none_iff t s.name
  · intro hfirst
    rw [define_fst] at hfirst
    obtain ⟨first, hfirst⟩ := Option.ne_none_iff_exists'.1 hfirst
    rw [define_of_some hfirst]
  · unfold size toList
    rw [List.length_reverse, List.length_map]

/-- A sigma that ends a name is another letter than one within it. -/
example :
    let t := (empty : SymbolTable Nat).defineAll
      [⟨"ΟΔΟΣ", .unknown, 0⟩, ⟨"οδοσ", .unknown, 1⟩, ⟨"Οδος", .unknown, 2⟩]
    t.toList.map (·.place) = [0, 1]
      ∧ (t.lookup "ΟδοΣ").map (·.place) = some 0
      ∧ t.contains "ΟΔΟΣΑ" = false := by
  decide +kernel

end SymbolTable

end VarSection
