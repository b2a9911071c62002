import Mathlib.Data.List.DropRight

/-! # White space

`unicode.IsSpace` and `strings.TrimSpace`, on the characters of a text and on its bytes. In UTF-8
no character begins within another one, so a space is trimmed with all of its bytes.
-/

namespace Voce

open List

def spaces : List Nat :=
  [0x09, 0x0a, 0x0b, 0x0c, 0x0d, 0x20, 0x85, 0xa0, 0x1680, 0x2000, 0x2001, 0x2002, 0x2003, 0x2004,
    0x2005, 0x2006, 0x2007, 0x2008, 0x2009, 0x200a, 0x2028, 0x2029, 0x202f, 0x205f, 0x3000]

def isSpace (r : Char) : Bool := r.toNat ∈ spaces

def trimSpace (s : List Char) : List Char := (s.dropWhile isSpace).rdropWhile isSpace

/-- A text that is trimmed to nothing has nothing but white space. -/
theorem forall_isSpace_of_trimSpace {s : List Char} (hblank : trimSpace s = []) :
    ∀ r ∈ s, isSpace r = true := by
  rw [trimSpace, rdropWhile_eq_nil_iff] at hblank
  intro r hr
  rw [← takeWhile_append_dropWhile (p := isSpace) (l := s), mem_append] at hr
  exact hr.elim mem_takeWhile_imp (hblank r)

/-- Take off any of the words that a text begins with, and go on. A round takes a byte at least. -/
def trimWords (words : List (List UInt8)) : Nat → List UInt8 → List UInt8
  | 0, s => s
  | fuel + 1, s =>
    match words.find? (·.isPrefixOf s) with
    | none => s
    | some word => trimWords words fuel (s.drop word.length)

def trimSpaceBytes (s : List UInt8) : List UInt8 :=
  let words := spaces.map fun n => String.utf8EncodeChar (Char.ofNat n)
  let left := trimWords words s.length s
  (trimWords (words.map reverse) left.length left.reverse).reverse

end Voce
