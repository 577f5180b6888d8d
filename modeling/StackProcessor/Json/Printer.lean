import StackProcessor.Decimal.Layout
import StackProcessor.Json.Quoted

/-!
# StackProcessor — JSON text

`Json.render` writes a value without blanks, and the members of an object in the order of their
keys. A floating-point number is written in the fewest digits that read back
(`Decimal.renderFloat`), with all its places within the range of `floatStyle`.
-/

namespace StackProcessor.Json

/-- Numbers from `1e-5` to below `1e16` are written with all their places. -/
def floatStyle : Decimal.Style := ⟨-5, 15⟩

/-- A number as text. -/
def Number.render : Number → String
  | integer n => toString n
  | float x => Decimal.renderFloat floatStyle x

mutual

/-- The value as text. -/
def render : Json → String
  | null => "null"
  | bool b => if b then "true" else "false"
  | number n => n.render
  | string s => renderString s
  | array items => "[" ++ ",".intercalate (renderItems items) ++ "]"
  | object members => "\x7b" ++ ",".intercalate (renderMembers members) ++ "\x7d"

/-- The texts of the items of an array. -/
def renderItems : List Json → List String
  | [] => []
  | item :: rest => item.render :: renderItems rest

/-- The texts of the members of an object. -/
def renderMembers : List (String × Json) → List String
  | [] => []
  | (key, value) :: rest => (renderString key ++ ":" ++ value.render) :: renderMembers rest

end

end StackProcessor.Json
