import Seismic.Json.Number

/-!
# Token — the lexical elements of JSON

A text is cut into punctuation, strings and words. A word is a longest run of other characters; it
has to be a literal name or a numeral. A string may spell any code unit as `\u` and four digits; two
units that make up a surrogate pair stand for one character, and a surrogate without its partner
stands for none.

The lexer is a machine that reads one character at a time.
-/

namespace Seismic.Json

/-- A lexical element. A string has no text if it holds half of a surrogate pair. -/
inductive Token where
  | openArray
  | closeArray
  | openObject
  | closeObject
  | comma
  | colon
  | null
  | bool (value : Bool)
  | number (value : Number)
  | string (text : Option String)
deriving DecidableEq

namespace Token

/-! ## Strings -/

/-- One element of a string as it is written: a character, or a code unit by its number. -/
inductive Piece where
  | char (c : Char)
  | unit (value : Nat)

/-- The high half of a surrogate pair. -/
def isHigh (u : Nat) : Bool := 0xD800 ≤ u && u < 0xDC00

/-- The low half of a surrogate pair. -/
def isLow (u : Nat) : Bool := 0xDC00 ≤ u && u < 0xE000

def chars? : List Piece → Option (List Char)
  | [] => some []
  | .char c :: rest => (chars? rest).map (c :: ·)
  | .unit high :: .unit low :: rest =>
    if isHigh high && isLow low then
      (chars? rest).map (Char.ofNat (0x10000 + (high - 0xD800) * 0x400 + (low - 0xDC00)) :: ·)
    else if isHigh high || isLow high then none
    else (chars? (.unit low :: rest)).map (Char.ofNat high :: ·)
  | .unit u :: rest =>
    if isHigh u || isLow u then none else (chars? rest).map (Char.ofNat u :: ·)

/-- The character that a backslash and a letter stand for. -/
def escaped? : Char → Option Char
  | '"' => some '"'
  | '\\' => some '\\'
  | '/' => some '/'
  | 'b' => some '\x08'
  | 'f' => some '\x0c'
  | 'n' => some '\n'
  | 'r' => some '\r'
  | 't' => some '\t'
  | _ => none

def hexDigit? (c : Char) : Option Nat :=
  if c.isDigit then some (c.toNat - '0'.toNat)
  else if 'a' ≤ c && c ≤ 'f' then some (c.toNat - 'a'.toNat + 10)
  else if 'A' ≤ c && c ≤ 'F' then some (c.toNat - 'A'.toNat + 10)
  else none

/-! ## Words -/

def ofWord? (word : List Char) : Option Token :=
  if word = ['n', 'u', 'l', 'l'] then some .null
  else if word = ['t', 'r', 'u', 'e'] then some (.bool true)
  else if word = ['f', 'a', 'l', 's', 'e'] then some (.bool false)
  else (Number.ofChars? word).map .number

/-- The token of a character that is one by itself. -/
def ofPunctuation? : Char → Option Token
  | '[' => some .openArray
  | ']' => some .closeArray
  | '{' => some .openObject
  | '}' => some .closeObject
  | ',' => some .comma
  | ':' => some .colon
  | _ => none

/-- A character that may stand between tokens. -/
def isBlank (c : Char) : Bool := c = ' ' || c = '\n' || c = '\t' || c = '\r'

/-! ## The machine -/

/-- Where the lexer stands; what has been read of a token is kept last character first. -/
inductive Mode where
  | between
  | word (read : List Char)
  | text (read : List Piece)
  | escape (read : List Piece)
  | unit (read : List Piece) (digits : Nat) (value : Nat)

def start (c : Char) : List Token × Mode :=
  if isBlank c then ([], .between)
  else if c = '"' then ([], .text [])
  else match ofPunctuation? c with
    | some token => ([token], .between)
    | none => ([], .word [c])

def endsWord (c : Char) : Bool := isBlank c || c = '"' || (ofPunctuation? c).isSome

/-- Reads a character: the tokens it completes, and the next mode. -/
def step : Mode → Char → Option (List Token × Mode)
  | .between, c => some (start c)
  | .word read, c =>
    if endsWord c then
      (ofWord? read.reverse).map fun token => (token :: (start c).1, (start c).2)
    else some ([], .word (c :: read))
  | .text read, c =>
    if c = '"' then
      some ([.string ((chars? read.reverse).map String.ofList)], .between)
    else if c = '\\' then some ([], .escape read)
    else if c.toNat < 0x20 then none
    else some ([], .text (.char c :: read))
  | .escape read, c =>
    if c = 'u' then some ([], .unit read 4 0)
    else (escaped? c).map fun c => ([], .text (.char c :: read))
  | .unit read digits value, c =>
    (hexDigit? c).map fun digit =>
      let value := value * 16 + digit
      if digits ≤ 1 then ([], .text (.unit value :: read)) else ([], .unit read (digits - 1) value)

def finish : Mode → Option (List Token)
  | .between => some []
  | .word read => (ofWord? read.reverse).map ([·])
  | .text _ | .escape _ | .unit _ _ _ => none

/-- Reads characters; `done` holds the tokens before them, last first. -/
def read? (done : List Token) : Mode → List Char → Option (List Token)
  | mode, [] => (finish mode).map fun last => done.reverse ++ last
  | mode, c :: rest =>
    (step mode c).bind fun (tokens, mode) => read? (tokens.reverse ++ done) mode rest

def ofText? (text : String) : Option (List Token) := read? [] .between text.toList

end Token

end Seismic.Json
