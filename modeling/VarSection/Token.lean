/-
Lexemes: the words, numbers and symbols of a source text, each with the
place where it begins. The table of a text ends with a mark of its end.
-/
import VarSection.Position
import VarSection.Text.Quoted
import VarSection.Vocabulary

namespace VarSection

/-- The classes of lexemes. -/
inductive Kind where
  | keyword
  | identifier
  | number
  | symbol
  /-- a character that begins no lexeme of the language -/
  | unknown
  /-- the end of the text -/
  | ending
deriving DecidableEq, Inhabited

/-- How a class is written in listings. -/
def Kind.name : Kind → Text
  | .keyword => "KEYWORD"
  | .identifier => "IDENT"
  | .number => "NUMBER"
  | .symbol => "SYMBOL"
  | .unknown => "UNKNOWN"
  | .ending => "EOF"

/-- All classes of lexemes. -/
def Kind.all : List Kind :=
  [.keyword, .identifier, .number, .symbol, .unknown, .ending]

/-- The class written in a given way. -/
def Kind.ofName? (name : Text) : Option Kind :=
  Kind.all.find? fun kind => kind.name == name

/-- A lexeme: its class, its text as written, and where it begins. -/
structure Token where
  kind : Kind
  text : Text
  pos : Position
deriving DecidableEq, Inhabited

namespace Token

/-- The line a lexeme stands on. -/
def line (t : Token) : Int := t.pos.line

/-- The column right behind a lexeme. -/
def endCol (t : Token) : Int := t.pos.col + t.text.length

/-- The place right behind a lexeme, on the line where it begins. -/
def endPos (t : Token) : Position := ⟨t.pos.line, t.endCol⟩

/-- Whether a lexeme is the given keyword, in upper or lower case. -/
def isKeyword (t : Token) (word : Text) : Bool :=
  t.kind == .keyword && Text.lower t.text == word

/-- Whether a lexeme is the given symbol. -/
def isSymbol (t : Token) (symbol : Text) : Bool :=
  t.kind == .symbol && t.text == symbol

/-- Whether a lexeme is the mark of the end. -/
def isEnding (t : Token) : Bool := t.kind == .ending

/-- A lexeme in words: class, quoted text and place. -/
def written (t : Token) : Text :=
  t.kind.name ++ " " ++ Text.quoted t.text ++ " (" ++ t.pos.written ++ ")"

/-- The mark of the end of a text that holds nothing else. -/
def emptyEnding : Token := ⟨.ending, [], .start⟩

end Token

end VarSection
