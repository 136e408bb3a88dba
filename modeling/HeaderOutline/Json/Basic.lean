import HeaderOutline.Text.Basic
/-!
# JSON values

Values of the format that descriptions are written in. Objects keep their fields in order.
-/

namespace HeaderOutline

inductive Json where
  | null
  | bool (value : Bool)
  | int (value : Int)
  | string (text : Text)
  | array (items : List Json)
  | object (fields : List (Text × Json))
  deriving Repr, Inhabited

namespace Json

def ofOption {α : Type} (encode : α → Json) : Option α → Json
  | none => .null
  | some a => encode a

def ofList {α : Type} (encode : α → Json) (items : List α) : Json := .array (items.map encode)

/-- A text, or null. -/
def text? (text : Option Text) : Json := ofOption .string text

def texts (items : List Text) : Json := ofList .string items

/-- A field under a fixed key. -/
def field (key : String) (value : Json) : Text × Json := (key.toList, value)

/-- A field with a list that is left out when it is empty. -/
def fieldUnlessEmpty {α : Type} (key : String) (encode : α → Json) (items : List α) : List (Text × Json) :=
  if items.isEmpty then [] else [field key (ofList encode items)]

end Json

end HeaderOutline
