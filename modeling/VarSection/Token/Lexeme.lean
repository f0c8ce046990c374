/-
What begins at the head of a text: a blank, a comment or a lexeme. A
comment goes before every lexeme, and of the lexemes the longest wins: a
symbol of two characters before one of one, a minus sign with digits
behind it as a number, a word or a number as far as it reaches. Any
character that begins nothing else is a lexeme of its own.
-/
import VarSection.Token

namespace VarSection

/-- The two ways to bracket a comment. -/
inductive CommentStyle where
  | braces
  | stars
deriving DecidableEq

namespace CommentStyle

/-- The bracket that opens a comment. -/
def opener : CommentStyle → Text
  | .braces => ['{']
  | .stars => ['(', '*']

/-- The bracket that closes a comment. -/
def closer : CommentStyle → Text
  | .braces => ['}']
  | .stars => ['*', ')']

/-- The comment that opens at the head of a text. -/
def opening? (text : Text) : Option CommentStyle :=
  [braces, stars].find? fun style => style.opener.isPrefixOf text

end CommentStyle

/-- What begins at the head of a text. A lexeme consists of the first
character and of `more`. -/
inductive Lead where
  | blank
  | comment (style : CommentStyle)
  | lexeme (kind : Kind) (more : Text)
deriving DecidableEq

namespace Lead

/-- The class of a word. -/
def wordKind (word : Text) : Kind :=
  if isKeyword word then .keyword else .identifier

/-- The lexeme at the head of the text `c :: rest`, comments and blanks
aside: its class, and what of `rest` belongs to it. -/
def lexemeAt (c : CodePoint) (rest : Text) : Kind × Text :=
  if twoCharSymbols.contains (c :: rest.take 1) then (.symbol, rest.take 1)
  else if c = '-' && rest.head?.any isDigit then
    (.number, rest.takeWhile isDigit)
  else if singleCharSymbols.contains c then (.symbol, [])
  else if isDigit c then (.number, rest.takeWhile isDigit)
  else if isNameStart c then
    let more := rest.takeWhile isNameChar
    (wordKind (c :: more), more)
  else (.unknown, [])

/-- What begins at the head of the text `c :: rest`. -/
def read (c : CodePoint) (rest : Text) : Lead :=
  if isBlank c then .blank
  else
    match CommentStyle.opening? (c :: rest) with
    | some style => .comment style
    | none => .lexeme (lexemeAt c rest).1 (lexemeAt c rest).2

end Lead

end VarSection
