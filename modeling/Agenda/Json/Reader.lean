/-
Reading JSON text.

A reader takes the text that is left and gives a value and what is left after it, or stops. Arrays
and objects nest at most 127 deep, so the reader of values is built level by level: a value of level
`n + 1` reads its parts with the reader of level `n`, and there is nothing left to measure but the
number of parts. Each of them takes at least one character, so the length of the whole text bounds
them all.

Numbers are not rounded in one step. Digits are gathered into a significand of 64 bits; digits that
no longer fit only move the exponent, and the significand is scaled as `Double.scale` says.
-/
import Agenda.Json.SyntaxError
import Agenda.Json.Value
import Agenda.Text.Bytes

set_option autoImplicit false

namespace Agenda.Json

/-- A step of reading: from the text that is left to a result and what is left after it. -/
abbrev Reader (α : Type) := List Char → Except Stop (α × List Char)

namespace Reader

/-- Stops at a place whose first byte has been looked at. -/
def stopAt {α : Type} (cause : Cause) (rest : List Char) : Except Stop α :=
  .error ⟨cause, rest, 1⟩

/-- Stops before the first byte of a place. -/
def stopBefore {α : Type} (cause : Cause) (rest : List Char) : Except Stop α :=
  .error ⟨cause, rest, 0⟩

/-- The four characters that may stand between tokens. -/
def isSpace (c : Char) : Bool := c = ' ' || c = '\t' || c = '\n' || c = '\r'

/-- What is left after white space. -/
def skipSpace (cs : List Char) : List Char := cs.dropWhile isSpace

/-! ## Words -/

/-- The remaining letters of a word, and the value it stands for. -/
def word (value : Json) : List Char → Reader Json
  | [], cs => .ok (value, cs)
  | _ :: _, [] => stopBefore .endInValue []
  | e :: expected, c :: cs =>
    if c = e then word value expected cs else stopAt .expectedWord (c :: cs)

/-! ## Numbers -/

/-- Significands stay below this bound. -/
def significandBound : Nat := Nat.pow 2 64

/-- Exponents stay below this bound in magnitude. -/
def exponentBound : Nat := Nat.pow 2 31

/-- Takes digits into a significand for as long as they fit, and counts those that are left out. -/
def gather : Nat → List Char → Nat × Nat
  | n, [] => (n, 0)
  | n, c :: cs =>
    let m := n * 10 + (Numeral.digit? c).getD 0
    if m < significandBound then gather m cs else (n, cs.length + 1)

/-- The exponent kept within the bounds of a 32-bit integer. -/
def clampExponent (e : Int) : Int := max (-exponentBound) (min e (exponentBound - 1))

/-- The double with this significand and exponent. -/
def scaled (negative : Bool) (significand : Nat) (exponent : Int) : Reader Number := fun cs =>
  match Double.scale negative significand exponent with
  | some x => .ok (.float x, cs)
  | none => stopBefore .numberOutOfRange cs

/-- The further digits of an exponent; none as soon as they leave the bound, and then the text after
the digit that left it. -/
def exponentDigits : Nat → List Char → Option Nat × List Char
  | n, [] => (some n, [])
  | n, c :: cs =>
    match Numeral.digit? c with
    | some d => if n * 10 + d < exponentBound then exponentDigits (n * 10 + d) cs else (none, cs)
    | none => (some n, c :: cs)

/-- The sign of an exponent, a plus where none is written. -/
def exponentSign : List Char → Bool × List Char
  | '+' :: cs => (false, cs)
  | '-' :: cs => (true, cs)
  | cs => (false, cs)

/-- An exponent after its `e`, and the number that it ends. An exponent beyond the bound makes the
number zero, or too large. -/
def exponent (negative : Bool) (significand : Nat) (start : Int) : Reader Number := fun cs =>
  let (below, cs) := exponentSign cs
  match cs with
  | [] => stopBefore .endInValue []
  | c :: rest =>
    match Numeral.digit? c with
    | none => stopAt .invalidNumber (c :: rest)
    | some d =>
      match exponentDigits d rest with
      | (some e, rest) =>
        scaled negative significand (clampExponent (if below then start - e else start + e)) rest
      | (none, rest) =>
        if significand ≠ 0 ∧ ¬ below then stopBefore .numberOutOfRange rest
        else .ok (.float (.zero negative), rest.dropWhile Numeral.isDigit)

/-- What may follow the digits of a number that is no integer: an exponent, or nothing. -/
def exponentOrEnd (negative : Bool) (significand : Nat) (start : Int) : Reader Number := fun cs =>
  match cs with
  | 'e' :: rest => exponent negative significand start rest
  | 'E' :: rest => exponent negative significand start rest
  | _ => scaled negative significand start cs

/-- The digits after a decimal point. Those that no longer fit the significand are left out. -/
def fraction (negative : Bool) (significand : Nat) (start : Int) : Reader Number := fun cs =>
  let digits := cs.takeWhile Numeral.isDigit
  let rest := cs.dropWhile Numeral.isDigit
  if digits.isEmpty then
    match rest with
    | [] => stopBefore .endInValue []
    | _ => stopAt .invalidNumber rest
  else
    let (n, leftOut) := gather significand digits
    exponentOrEnd negative n (start - (digits.length - leftOut : Nat)) rest

/-- What follows the digits of the whole part: a fraction, an exponent, or nothing. Digits that did
not fit the significand have moved the exponent, and the number is no integer then. -/
def afterWhole (negative : Bool) (significand : Nat) (dropped : Nat) : Reader Number := fun cs =>
  match cs with
  | '.' :: rest => fraction negative significand dropped rest
  | _ =>
    if dropped = 0 ∧ cs.head? ≠ some 'e' ∧ cs.head? ≠ some 'E' then
      match Number.ofDigits? negative significand with
      | some n => .ok (n, cs)
      | none => stopBefore .numberOutOfRange cs
    else exponentOrEnd negative significand dropped cs

/-- A number after its sign. A leading zero stands alone. -/
def number (negative : Bool) : Reader Number := fun cs =>
  match cs with
  | [] => stopBefore .endInValue []
  | c :: rest =>
    match Numeral.digit? c with
    | none => stopAt .invalidNumber cs
    | some 0 =>
      if (rest.head?.bind Numeral.digit?).isSome then stopAt .invalidNumber rest
      else afterWhole negative 0 0 rest
    | some _ =>
      let (n, leftOut) := gather 0 (cs.takeWhile Numeral.isDigit)
      afterWhole negative n leftOut (cs.dropWhile Numeral.isDigit)

/-! ## Strings -/

/-- The value of a hexadecimal digit. -/
def hexDigit? (c : Char) : Option Nat :=
  if '0' ≤ c ∧ c ≤ '9' then some (c.toNat - '0'.toNat)
  else if 'a' ≤ c ∧ c ≤ 'f' then some (c.toNat - 'a'.toNat + 10)
  else if 'A' ≤ c ∧ c ≤ 'F' then some (c.toNat - 'A'.toNat + 10)
  else none

/-- The value of four hexadecimal digits at the front. -/
def fourHexDigits? : List Char → Option (Nat × List Char)
  | a :: b :: c :: d :: rest => do
    let a ← hexDigit? a
    let b ← hexDigit? b
    let c ← hexDigit? c
    let d ← hexDigit? d
    pure (((a * 16 + b) * 16 + c) * 16 + d, rest)
  | _ => none

/-- Four hexadecimal digits. Other text is looked at four bytes long, as far as there are four. -/
def codeUnit : Reader Nat := fun cs =>
  match fourHexDigits? cs with
  | some r => .ok r
  | none =>
    if Bytes.count (cs.take 4) < 4 then stopBefore .endInString []
    else .error ⟨.invalidEscape, cs, 4⟩

/-- A character that must come next within the escape of a surrogate pair. -/
def surrogateMark (mark : Char) : Reader Unit := fun cs =>
  match cs with
  | [] => stopBefore .endInString []
  | c :: rest => if c = mark then .ok ((), rest) else stopAt .unfinishedSurrogate cs

/-- The character of a `\u` escape: one code unit, or two that are a surrogate pair. -/
def unicodeEscape : Reader Char := fun cs => do
  let (high, rest) ← codeUnit cs
  if 0xDC00 ≤ high ∧ high ≤ 0xDFFF then stopBefore .loneSurrogate rest
  else if high < 0xD800 ∨ 0xDBFF < high then .ok (Char.ofNat high, rest)
  else
    let (_, rest) ← surrogateMark '\\' rest
    let (_, rest) ← surrogateMark 'u' rest
    let (low, rest) ← codeUnit rest
    if low < 0xDC00 ∨ 0xDFFF < low then stopBefore .loneSurrogate rest
    else .ok (Char.ofNat (0x10000 + (high - 0xD800) * 0x400 + (low - 0xDC00)), rest)

/-- What a character after a backslash stands for, the code escape apart. -/
def plainEscape? : Char → Option Char
  | '"' => some '"'
  | '\\' => some '\\'
  | '/' => some '/'
  | 'b' => some '\x08'
  | 'f' => some '\x0c'
  | 'n' => some '\n'
  | 'r' => some '\r'
  | 't' => some '\t'
  | _ => none

/-- An escape after its backslash. -/
def escape : Reader Char := fun cs =>
  match cs with
  | [] => stopBefore .endInString []
  | c :: rest =>
    if c = 'u' then unicodeEscape rest
    else match plainEscape? c with
      | some d => .ok (d, rest)
      | none => stopAt .invalidEscape cs

/-- The rest of a string after its opening quote. The first argument bounds the number of
characters. -/
def stringWithin : Nat → Reader (List Char)
  | 0, _ => stopBefore .endInString []
  | _ + 1, [] => stopBefore .endInString []
  | fuel + 1, c :: rest =>
    if c = '"' then .ok ([], rest)
    else if c = '\\' then do
      let (d, rest) ← escape rest
      let (ds, rest) ← stringWithin fuel rest
      .ok (d :: ds, rest)
    else if c.toNat < 0x20 then stopAt .controlCharacter (c :: rest)
    else do
      let (ds, rest) ← stringWithin fuel rest
      .ok (c :: ds, rest)

/-- The rest of a string after its opening quote, in a text of at most `size` characters. -/
def stringBody (size : Nat) : Reader String := fun cs => do
  let (ds, rest) ← stringWithin (size + 1) cs
  .ok (String.ofList ds, rest)

/-! ## Arrays and objects -/

/-- The elements after an opening bracket or a comma, up to the closing bracket. `first` says that
no element came before, so that the bracket may close at once. -/
def elementsWithin (item : Reader Json) : Nat → Bool → Reader (List Json)
  | 0, _, _ => stopBefore .endInList []
  | fuel + 1, first, cs => do
    let start ← match skipSpace cs with
      | [] => stopBefore .endInList []
      | ']' :: rest => pure (.inl rest)
      | ',' :: rest =>
        if first then pure (.inr (',' :: rest))
        else match skipSpace rest with
          | [] => stopBefore .endInValue []
          | ']' :: rest => stopAt .trailingComma (']' :: rest)
          | rest => pure (.inr rest)
      | rest => if first then pure (.inr rest) else stopAt .expectedCommaOrBracket rest
    match (start : List Char ⊕ List Char) with
    | .inl rest => .ok ([], rest)
    | .inr rest =>
      let (v, rest) ← item rest
      let (vs, rest) ← elementsWithin item fuel false rest
      .ok (v :: vs, rest)

/-- A key after its opening quote, the colon after it and the value. -/
def member (size : Nat) (item : Reader Json) : Reader (String × Json) := fun cs => do
  let (key, rest) ← stringBody size cs
  match skipSpace rest with
  | [] => stopBefore .endInObject []
  | ':' :: rest =>
    let (v, rest) ← item rest
    .ok ((key, v), rest)
  | rest => stopAt .expectedColon rest

/-- The members after an opening brace or a comma, up to the closing brace. -/
def membersWithin (size : Nat) (item : Reader Json) :
    Nat → Bool → Reader (List (String × Json))
  | 0, _, _ => stopBefore .endInObject []
  | fuel + 1, first, cs => do
    let start ← match skipSpace cs with
      | [] => stopBefore .endInObject []
      | '}' :: rest => pure (.inl rest)
      | ',' :: rest =>
        if first then stopAt .keyNotString (',' :: rest)
        else match skipSpace rest with
          | [] => stopBefore .endInValue []
          | '"' :: rest => pure (.inr rest)
          | '}' :: rest => stopAt .trailingComma ('}' :: rest)
          | rest => stopAt .keyNotString rest
      | '"' :: rest =>
        if first then pure (.inr rest) else stopAt .expectedCommaOrBrace ('"' :: rest)
      | rest => stopAt (if first then .keyNotString else .expectedCommaOrBrace) rest
    match (start : List Char ⊕ List Char) with
    | .inl rest => .ok ([], rest)
    | .inr rest =>
      let (m, rest) ← member size item rest
      let (ms, rest) ← membersWithin size item fuel false rest
      .ok (m :: ms, rest)

/-! ## Values -/

/-- A value whose parts, if it has any, are read with `item`; without one it may not have parts. -/
def valueOver (size : Nat) (item : Option (Reader Json)) : Reader Json := fun cs =>
  match skipSpace cs with
  | [] => stopBefore .endInValue []
  | 'n' :: rest => word .null ['u', 'l', 'l'] rest
  | 't' :: rest => word (.bool true) ['r', 'u', 'e'] rest
  | 'f' :: rest => word (.bool false) ['a', 'l', 's', 'e'] rest
  | '-' :: rest => do
    let (n, rest) ← number true rest
    .ok (.number n, rest)
  | '"' :: rest => do
    let (s, rest) ← stringBody size rest
    .ok (.string s, rest)
  | '[' :: rest =>
    match item with
    | none => stopAt .tooDeep ('[' :: rest)
    | some item => do
      let (vs, rest) ← elementsWithin item (size + 1) true rest
      .ok (.array vs, rest)
  | '{' :: rest =>
    match item with
    | none => stopAt .tooDeep ('{' :: rest)
    | some item => do
      let (ms, rest) ← membersWithin size item (size + 1) true rest
      .ok (.object (Table.ofList ms), rest)
  | c :: rest =>
    if Numeral.isDigit c then do
      let (n, rest) ← number false (c :: rest)
      .ok (.number n, rest)
    else stopAt .expectedValue (c :: rest)

/-- A value that nests at most so many levels deep, in a text of at most `size` characters. -/
def value (size : Nat) : Nat → Reader Json
  | 0 => valueOver size none
  | depth + 1 => valueOver size (some (value size depth))

end Reader

/-- The greatest depth of nesting that is read. -/
def maxDepth : Nat := 127

/-- Reads a whole text as one value. -/
def read (text : String) : Except SyntaxError Json :=
  let cs := text.toList
  let result := do
    let (v, rest) ← Reader.value cs.length maxDepth cs
    match Reader.skipSpace rest with
    | [] => .ok v
    | rest => Reader.stopAt .trailingCharacters rest
  result.mapError (·.locate cs)

end Agenda.Json
