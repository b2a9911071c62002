import Mathlib.Data.List.Basic

/-! # Texts of the codec `sonic`

Configurations, properties and replies are JSON texts. The codec is a parameter: what `Marshal`
makes of a value, and what `Unmarshal` makes of a text. What it has to satisfy is said where it is
used.
-/

namespace Voce

/-- `Marshal` and `Unmarshal` at one type, or `Raw` and `Get` at that of syntax trees. -/
structure Sonic (Value Text : Type) where
  marshal : Value → Except String Text
  unmarshal : Text → Except String Value

/-- A JSON value. Whatever is not an object is left whole. -/
inductive Json (Atom : Type) where
  | atom (value : Atom)
  | object (members : List (String × Json Atom))

namespace Json

mutual

/-- The compact text of a value whose atoms are texts. Nothing in the keys is escaped. -/
def text : Json String → String
  | .atom value => value
  | .object members => "\x7b" ++ textMembers members ++ "\x7d"

def textMembers : List (String × Json String) → String
  | [] => ""
  | [(key, value)] => "\"" ++ key ++ "\":" ++ text value
  | (key, value) :: rest => "\"" ++ key ++ "\":" ++ text value ++ "," ++ textMembers rest

end

def utf8 (value : Json String) : List UInt8 := value.text.toUTF8.toList

end Json

namespace Sonic

/-- A codec that writes every value and reads the texts of the given ones. -/
def reading (values : List (Json String)) : Sonic (Json String) (List UInt8) where
  marshal value := .ok value.utf8
  unmarshal text :=
    match values[(values.map Json.utf8).idxOf text]? with
    | none => .error "unknown text"
    | some value => .ok value

theorem unmarshal_reading {values : List (Json String)} {value} {i : Nat}
    (hi : values[i]? = some value) (hindex : (values.map Json.utf8).idxOf value.utf8 = i) :
    (reading values).unmarshal value.utf8 = .ok value := by
  simp only [reading, hindex, hi]

end Sonic

end Voce
