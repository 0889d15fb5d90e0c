import Mathlib.Data.List.Basic

/-!
# JSON values

What the readers of the adapters and of the pack actions see of a JSON document. A number is
kept as its text. The names of an object are unique.
-/

namespace Exocortex

inductive JsonValue where
  | null
  | bool (value : Bool)
  | number (text : String)
  | string (text : String)
  | array (items : List JsonValue)
  | object (fields : List (String × JsonValue))

namespace JsonValue

/-- The value under a name; only an object has any. -/
def get (name : String) : JsonValue → Option JsonValue
  | .object fields => (fields.find? (·.1 = name)).map (·.2)
  | _ => none

def asStr : JsonValue → Option String
  | .string text => some text
  | _ => none

def asArray : JsonValue → Option (List JsonValue)
  | .array items => some items
  | _ => none

end JsonValue

end Exocortex
