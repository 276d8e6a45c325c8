/-
Why a text is not JSON, and where.

A reader stops with a cause, the text from the offending place on and the number of bytes of it that
count as read. Lines and columns are worked out from that only when a message is due: lines start
at one, and a column is the number of bytes of its line that have been read.
-/

set_option autoImplicit false

namespace Agenda.Json

/-- Why a text is not JSON. -/
inductive Cause where
  | endInList
  | endInObject
  | endInString
  | endInValue
  | expectedColon
  | expectedCommaOrBracket
  | expectedCommaOrBrace
  | expectedWord
  | expectedValue
  | invalidEscape
  | invalidNumber
  | numberOutOfRange
  | controlCharacter
  | keyNotString
  | loneSurrogate
  | trailingComma
  | trailingCharacters
  | unfinishedSurrogate
  | tooDeep
deriving DecidableEq

/-- The wording of a cause. -/
def Cause.text : Cause → String
  | endInList => "EOF while parsing a list"
  | endInObject => "EOF while parsing an object"
  | endInString => "EOF while parsing a string"
  | endInValue => "EOF while parsing a value"
  | expectedColon => "expected `:`"
  | expectedCommaOrBracket => "expected `,` or `]`"
  | expectedCommaOrBrace => "expected `,` or `\x7d`"
  | expectedWord => "expected ident"
  | expectedValue => "expected value"
  | invalidEscape => "invalid escape"
  | invalidNumber => "invalid number"
  | numberOutOfRange => "number out of range"
  | controlCharacter => "control character (\\u0000-\\u001F) found while parsing a string"
  | keyNotString => "key must be a string"
  | loneSurrogate => "lone leading surrogate in hex escape"
  | trailingComma => "trailing comma"
  | trailingCharacters => "trailing characters"
  | unfinishedSurrogate => "unexpected end of hex escape"
  | tooDeep => "recursion limit exceeded"

/-- Where reading stopped: the text from the offending place on, and how many bytes of it count as
read. -/
structure Stop where
  cause : Cause
  rest : List Char
  counted : Nat

/-- A line, and the number of its bytes that have been read. -/
structure Position where
  line : Nat
  column : Nat
deriving DecidableEq

/-- The position after one more character. -/
def Position.next (p : Position) (c : Char) : Position :=
  if c = '\n' then ⟨p.line + 1, 0⟩ else ⟨p.line, p.column + c.utf8Size⟩

/-- The position after some bytes of a text; a character may be cut in two. -/
def Position.advance (p : Position) : List Char → Nat → Position
  | [], _ => p
  | c :: rest, bytes =>
    if bytes < c.utf8Size then ⟨p.line, p.column + bytes⟩
    else (p.next c).advance rest (bytes - c.utf8Size)

/-- Why and where a text is not JSON. -/
structure SyntaxError where
  cause : Cause
  position : Position
deriving DecidableEq

/-- Finds the place of a stop in the whole text. -/
def Stop.locate (stop : Stop) (text : List Char) : SyntaxError :=
  let before := text.take (text.length - stop.rest.length)
  let start := before.foldl Position.next ⟨1, 0⟩
  ⟨stop.cause, start.advance stop.rest stop.counted⟩

/-- The message of a syntax error. -/
def SyntaxError.message (e : SyntaxError) : String :=
  e.cause.text ++ " at line " ++ toString e.position.line ++ " column " ++
    toString e.position.column

end Agenda.Json
