/-
Findings about a text: what was found, where, and how it is worded. A
finding is kept as its cause; the wording is one function of the cause
(`Cause.message`).
-/
import VarSection.Position

namespace VarSection

/-- The stage that a finding belongs to. -/
inductive Severity where
  | lexical
  | syntactic
  /-- a stage known by its name only -/
  | named (name : Text)
deriving DecidableEq, Inhabited

namespace Severity

/-- How a stage is written in reports. -/
def name : Severity → Text
  | .lexical => "lexical"
  | .syntactic => "syntax"
  | .named name => name

/-- The stage written in a given way. -/
def ofName (name : Text) : Severity :=
  if name = "lexical" then .lexical
  else if name = "syntax" then .syntactic
  else .named name

/-- The part of the checker that reports findings of a stage. -/
def source (s : Severity) : Text :=
  if s = .lexical then "lexer" else "parser"

/-- How a finding of a stage is called in a headline. -/
def title : Severity → Text
  | .lexical => "Лексическая ошибка"
  | .syntactic => "Синтаксическая ошибка"
  | .named _ => "Ошибка"

end Severity

/-- What can be wrong with a text. -/
inductive Cause where
  | unclosedComment
  | unknownSymbol (text : Text)
  | unexpectedToken (text : Text)
  | invalidName (text : Text)
  | nameExpected
  | colonExpected
  | semicolonExpected
  | redeclared (name : Text) (first : Position)
  | typeExpected
  | invalidType (text : Text)
  | nestedArray
  | sizeExpected
  | sizeOutOfRange (size : Int)
  | sizeBracketExpected
  | arrayBracketExpected
  | lowerBoundExpected
  | dotsExpected
  | upperBoundExpected
  | boundsInverted (low high : Int)
  | commaOrBracketExpected
  | ofExpected
  /-- a finding in words of its own -/
  | remark (text : Text)
deriving DecidableEq, Inhabited

/-- The wording of a finding. The places and numbers in it have no more
digits than an integer may have. -/
def Cause.message : Cause → Text
  | .unclosedComment => "Незакрытый комментарий"
  | .unknownSymbol text => "Недопустимый символ '" ++ text ++ "'"
  | .unexpectedToken text =>
    "Неожиданный токен '" ++ text ++ "': ожидается 'var'"
  | .invalidName text => "Недопустимое имя переменной '" ++ text ++ "'"
  | .nameExpected => "Ожидается имя переменной"
  | .colonExpected => "Ожидается ':' после списка имен"
  | .semicolonExpected => "Ожидается ';'"
  | .redeclared name first =>
    "Повторное объявление '" ++ name ++ "' (ранее объявлено в строке " ++
      Text.ofInt first.line ++ ", позиция " ++ Text.ofInt first.col ++ ")"
  | .typeExpected => "Ожидается описание типа"
  | .invalidType text => "Недопустимый тип '" ++ text ++ "'"
  | .nestedArray => "Тип элементов массива не может быть массивом"
  | .sizeExpected => "Ожидается размер строки (целое число)"
  | .sizeOutOfRange size =>
    "Размер строки " ++ Text.ofInt size ++ " вне диапазона 1..255"
  | .sizeBracketExpected => "Ожидается ']' после размера строки"
  | .arrayBracketExpected => "Ожидается '[' после 'array'"
  | .lowerBoundExpected =>
    "Ожидается нижняя граница диапазона (целое число)"
  | .dotsExpected => "Ожидается '..' в диапазоне"
  | .upperBoundExpected =>
    "Ожидается верхняя граница диапазона (целое число)"
  | .boundsInverted low high =>
    "Нижняя граница диапазона " ++ Text.ofInt low ++ " больше верхней " ++
      Text.ofInt high
  | .commaOrBracketExpected => "Ожидается ',' или ']'"
  | .ofExpected => "Ожидается 'of'"
  | .remark text => text

/-- A finding at a place of the text. -/
structure Diagnostic where
  severity : Severity
  pos : Position
  cause : Cause
deriving DecidableEq, Inhabited

namespace Diagnostic

/-- The wording of a finding, without its place. -/
def message (d : Diagnostic) : Text := d.cause.message

/-- A finding in words: place and message. -/
def written (d : Diagnostic) : Text :=
  "Ошибка (" ++ d.pos.written ++ "): " ++ d.message

end Diagnostic

end VarSection
