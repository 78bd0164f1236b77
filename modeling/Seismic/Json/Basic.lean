import Seismic.Json.Token

/-!
# Json — documents

A document keeps everything its text says: the order of an object's entries, keys that are given
twice, numerals of any size, and strings without a text. Whether any of this matters is decided by
whoever reads a value, so that a part nobody reads only has to be well-formed.

The reader is a machine over tokens with the containers that are still open on a stack, and so its
depth is not bounded.
-/

namespace Seismic

inductive Json where
  | null
  | bool (value : Bool)
  | number (value : Json.Number)
  | string (text : Option String)
  | array (items : List Json)
  | object (entries : List (Option String × Json))

namespace Json

/-! ## Reading tokens -/

/-- A container that is still open; what it holds is kept last first. -/
inductive Frame where
  | array (items : List Json)
  /-- An object within the value of `key`. -/
  | object (entries : List (Option String × Json)) (key : Option String)

inductive State where
  /-- Before a value. -/
  | value (stack : List Frame)
  /-- Behind the opening of an array. -/
  | opened (stack : List Frame)
  /-- Before a key; an object that has just been opened may also end. -/
  | key (entries : List (Option String × Json)) (mayEnd : Bool) (stack : List Frame)
  /-- Behind a key. -/
  | colon (entries : List (Option String × Json)) (key : Option String) (stack : List Frame)
  /-- Behind a value. -/
  | after (value : Json) (stack : List Frame)

/-- Reads the first token of a value. -/
def startValue (stack : List Frame) : Token → Option State
  | .openArray => some (.opened stack)
  | .openObject => some (.key [] true stack)
  | .null => some (.after .null stack)
  | .bool b => some (.after (.bool b) stack)
  | .number n => some (.after (.number n) stack)
  | .string t => some (.after (.string t) stack)
  | .closeArray | .closeObject | .comma | .colon => none

def step : State → Token → Option State
  | .value stack, token => startValue stack token
  | .opened stack, .closeArray => some (.after (.array []) stack)
  | .opened stack, token => startValue (.array [] :: stack) token
  | .key entries _ stack, .string key => some (.colon entries key stack)
  | .key _ true stack, .closeObject => some (.after (.object []) stack)
  | .colon entries key stack, .colon => some (.value (.object entries key :: stack))
  | .after v (.array items :: stack), .comma => some (.value (.array (v :: items) :: stack))
  | .after v (.array items :: stack), .closeArray =>
    some (.after (.array (v :: items).reverse) stack)
  | .after v (.object entries key :: stack), .comma =>
    some (.key ((key, v) :: entries) false stack)
  | .after v (.object entries key :: stack), .closeObject =>
    some (.after (.object ((key, v) :: entries).reverse) stack)
  | _, _ => none

def ofText? (text : String) : Option Json := do
  let tokens ← Token.ofText? text
  match ← tokens.foldlM step (.value []) with
  | .after document [] => some document
  | _ => none

end Json

end Seismic
