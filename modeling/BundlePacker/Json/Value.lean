import BundlePacker.Json.Document
import BundlePacker.Json.ReadError

/-!
# Values that are printed

What is given to a printer is not a document yet.  A map may have any value as a key, and JSON has
texts as names only, so that a map with another key can not be printed.
-/

namespace BundlePacker.Json

/-- A value that may be printed as JSON. -/
inductive Value where
  | text (content : String)
  | list (items : List Value)
  /-- Fields with names that are fixed. -/
  | record (fields : List (String × Value))
  /-- Keys with the values that belong to them. -/
  | map (pairs : List (Value × Value))

namespace Value

mutual

/-- The document that a value is printed as. -/
def document? : Value → Except ReadError Document
  | .text content => .ok (.text content)
  | .list items => do
    let documents ← documents? items
    .ok (.list documents)
  | .record fields => do
    let members ← fieldMembers? fields
    .ok (.object members)
  | .map pairs => do
    let members ← pairMembers? pairs
    .ok (.object members)

/-- The documents of the items of a list. -/
def documents? : List Value → Except ReadError (List Document)
  | [] => .ok []
  | item :: rest => do
    let document ← document? item
    let others ← documents? rest
    .ok (document :: others)

/-- The members of an object for the fields of a record. -/
def fieldMembers? : List (String × Value) → Except ReadError (List (String × Document))
  | [] => .ok []
  | (name, value) :: rest => do
    let document ← document? value
    let others ← fieldMembers? rest
    .ok ((name, document) :: others)

/-- The members of an object for the pairs of a map. -/
def pairMembers? : List (Value × Value) → Except ReadError (List (String × Document))
  | [] => .ok []
  | (.text name, value) :: rest => do
    let document ← document? value
    let others ← pairMembers? rest
    .ok ((name, document) :: others)
  | _ :: _ => .error .keyExpected

end

variable {α : Type}

/-- A list is printed when each of its items is. -/
theorem documents?_map {value : α → Value} {document : α → Document}
    (each : ∀ item, (value item).document? = .ok (document item)) (items : List α) :
    documents? (items.map value) = .ok (items.map document) := by
  induction items with
  | nil => rfl
  | cons item rest hypothesis =>
      simp [documents?, each, hypothesis, Bind.bind, Except.bind]

/-- A map with texts as its keys is printed when each of its values is. -/
theorem pairMembers?_map {name : α → String} {value : α → Value} {document : α → Document}
    (each : ∀ item, (value item).document? = .ok (document item)) (items : List α) :
    pairMembers? (items.map fun item => (.text (name item), value item)) =
      .ok (items.map fun item => (name item, document item)) := by
  induction items with
  | nil => rfl
  | cons item rest hypothesis =>
      simp [pairMembers?, each, hypothesis, Bind.bind, Except.bind]

end Value

end BundlePacker.Json
