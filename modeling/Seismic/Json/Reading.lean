import Seismic.Json.Basic
import Seismic.Table

/-!
# Reading — values out of documents

A reader for a kind of value is a function from documents that fails where the document is not of
that kind. `fields?` takes the named fields of a record apart; a record may be written as an object
or as the array of its fields in their order.
-/

namespace Seismic.Json

/-! ## Single values -/

def text? : Json → Option String
  | string text => text
  | _ => none

def float? : Json → Option Binary64
  | number n => n.float?
  | _ => none

def int32? : Json → Option Int32
  | number n =>
    (n.int?.filter fun i => Int32.minValue.toInt ≤ i && i ≤ Int32.maxValue.toInt).map Int32.ofInt
  | _ => none

def optional? {α : Type} (read : Json → Option α) : Json → Option (Option α)
  | null => some none
  | json => (read json).map some

/-! ## Collections -/

def list? {α : Type} (read : Json → Option α) : Json → Option (List α)
  | array items => items.mapM read
  | _ => none

def entries? : Json → Option (List (String × Json))
  | object entries => entries.mapM fun (key, value) => key.map (·, value)
  | _ => none

/-- Texts by key; of a key that is given twice the last one counts. -/
def textTable? (json : Json) : Option (Table String String) := do
  let entries ← json.entries?
  let entries ← entries.mapM fun (key, value) => value.text?.map (key, ·)
  some (.ofList entries)

/-! ## Records -/

/-- The value of a named field, or that it is absent; fails if it is given twice. -/
def field? (entries : List (String × Json)) (name : String) : Option (Option Json) :=
  match entries.filter fun e => e.1 = name with
  | [] => some none
  | [(_, value)] => some (some value)
  | _ => none

/-- The fields of a record by their names. An object may have other entries; an array may not have
more, but the last ones may be absent. -/
def fields? (names : List String) : Json → Option (List (Option Json))
  | array items =>
    if items.length ≤ names.length then some ((List.range names.length).map (items[·]?)) else none
  | json => json.entries?.bind fun entries => names.mapM (field? entries)

/-- A field that has to be there. -/
def required {α : Type} (read : Json → Option α) (field : Option Json) : Option α :=
  field.bind read

/-- A field that stands for `default` where it is absent. -/
def defaulted {α : Type} (default : α) (read : Json → Option α) : Option Json → Option α
  | none => some default
  | some json => read json

/-! ## Whole values -/

/-- Whether every number in a document has a value, every string has a text, and at most `levels`
containers lie within each other. -/
def isProper : Nat → Json → Bool
  | _, null | _, bool _ => true
  | _, number n => n.float?.isSome
  | _, string text => text.isSome
  | 0, array _ | 0, object _ => false
  | levels + 1, array items => items.all (isProper levels)
  | levels + 1, object entries =>
    entries.all fun (key, value) => key.isSome && isProper levels value

end Seismic.Json
