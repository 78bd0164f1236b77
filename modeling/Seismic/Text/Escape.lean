/-!
# Escape — texts cut at separators, and separators written as pairs

A request line is a list of fields between single spaces, so two spaces in a row hold an empty
field between them. Cutting and joining are inverse as long as no field contains the separator.

A metadata record is one line of `key=value` fields between commas. Keys and values may hold
anything, so three characters are written as pairs: a backslash as two, a comma as a backslash and
`c`, a newline as a backslash and `n`. A record is cut at the commas that no backslash precedes and
its fields are read back.
-/

namespace Seismic.Text

/-- A text without the characters at its end that satisfy `p`. -/
def trimEnd (p : Char → Bool) (text : List Char) : List Char :=
  (text.reverse.dropWhile p).reverse

/-- The fields of a text between separators; a text without one is a single field. -/
def fields (separator : Char) (text : String) : List String :=
  (text.toList.splitOn separator).map String.ofList

/-- Fields put together with a separator between each two. -/
def join (separator : Char) (fields : List String) : String :=
  String.ofList ([separator].intercalate (fields.map String.toList))

end Seismic.Text

namespace Seismic.Escape

/-! ## One text -/

/-- How one character is written. -/
def encodeChar : Char → List Char
  | '\\' => ['\\', '\\']
  | ',' => ['\\', 'c']
  | '\n' => ['\\', 'n']
  | c => [c]

def encode (text : List Char) : List Char := text.flatMap encodeChar

/-- Reads a written text. A pair that stands for nothing is kept as it is, and so is a backslash at
the end. -/
def decode : List Char → List Char
  | [] => []
  | '\\' :: 'c' :: rest => ',' :: decode rest
  | '\\' :: 'n' :: rest => '\n' :: decode rest
  | '\\' :: '\\' :: rest => '\\' :: decode rest
  | '\\' :: c :: rest => '\\' :: c :: decode rest
  | c :: rest => c :: decode rest

def escape (text : String) : String := String.ofList (encode text.toList)

def unescape (text : String) : String := String.ofList (decode text.toList)

/-! ## Records -/

def pair (key value : String) : String := escape key ++ "=" ++ escape value

/-- Puts characters in front of the first field. -/
def prepend (text : List Char) : List (List Char) → List (List Char)
  | [] => [text]
  | field :: fields => (text ++ field) :: fields

/-- Cuts a record at its bare commas, leaving the fields written. There is always one field more
than there are bare commas. -/
def cut : List Char → List (List Char)
  | [] => [[]]
  | '\\' :: c :: rest => prepend ['\\', c] (cut rest)
  | ',' :: rest => [] :: cut rest
  | c :: rest => prepend [c] (cut rest)

/-- The fields of a record, read back. The text after the last comma is a field only if it is not
empty. -/
def splitRecord (record : String) : List String :=
  let fields := cut record.toList
  let fields := if fields.getLast? = some [] then fields.dropLast else fields
  fields.map fun field => String.ofList (decode field)

/-- A record of fields that are already written. -/
def record (fields : List String) : String := Text.join ',' fields

end Seismic.Escape
