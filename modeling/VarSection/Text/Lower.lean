/-
Lower-casing of a whole text by the full rules of Unicode. Two rules go
beyond a map on characters: the dotted capital I becomes two characters,
and a capital sigma becomes the final form at the end of a word, that is,
when a letter with case stands before it and none behind it, with
case-ignorable characters passed over on both sides.
-/
import VarSection.Text.Lower.Table

namespace VarSection.Text

/-- Whether a run holds the code point. -/
def CaseRun.holds (run : CaseRun) (n : Nat) : Bool :=
  run.first ≤ n && n ≤ run.last && (n - run.first) % run.step == 0

/-- The lower-case counterpart of a character, itself where it has none.
Letters of ASCII need no table. -/
def lowerSimple (c : Char) : Char :=
  if c.toNat < 128 then c.toLower
  else
    match caseRuns.find? (·.holds c.toNat) with
    | some run => Char.ofNat (c.toNat + run.shift).toNat
    | none => c

/-- The lower case of a code point on its own. -/
def lowerChar : CodePoint → Text
  | .char c => if c = 'İ' then ['i', '\u0307'] else [lowerSimple c]
  | .half n => [.half n]

/-- A letter with case, as far as the end of a word is concerned. -/
def isCased (c : CodePoint) : Bool :=
  casedRanges.contains c

/-- A character passed over when the end of a word is looked for. -/
def isCaseIgnorable (c : CodePoint) : Bool :=
  caseIgnorableRanges.contains c

/-- Whether the next character that is not case-ignorable has case. -/
def meetsCased (text : Text) : Bool :=
  ((text.dropWhile isCaseIgnorable).head?).any isCased

/-- Whether a sigma between `before` (nearest character first) and `after`
ends a word. -/
def endsWord (before after : Text) : Bool :=
  meetsCased before && !meetsCased after

/-- The lower case of a sigma between `before` and `after`. -/
def lowerSigma (before after : Text) : CodePoint :=
  if endsWord before after then 'ς' else 'σ'

/-- Lower case of `text`, where `before` stands in front of it, nearest
character first. -/
def lowerAfter (before : Text) : Text → Text
  | [] => []
  | c :: rest =>
    (if c = 'Σ' then [lowerSigma before rest] else lowerChar c) ++
      lowerAfter (c :: before) rest

/-- The lower case of a text. -/
def lower (text : Text) : Text := lowerAfter [] text

end VarSection.Text
