/-!
White space as the Unicode standard defines it, and the blank texts it makes up. A field that must
be filled in may hold anything but a blank text.
-/
namespace AlertDesk.Text

/-- The characters with the Unicode property White_Space, in order. -/
def whiteSpace : List Nat :=
  [0x09, 0x0A, 0x0B, 0x0C, 0x0D, 0x20, 0x85, 0xA0, 0x1680, 0x2000, 0x2001, 0x2002, 0x2003, 0x2004,
    0x2005, 0x2006, 0x2007, 0x2008, 0x2009, 0x200A, 0x2028, 0x2029, 0x202F, 0x205F, 0x3000]

def isWhite (c : Char) : Bool := whiteSpace.contains c.toNat

def isBlank (s : String) : Bool := s.toList.all isWhite

def skipWhite (cs : List Char) : List Char := cs.dropWhile isWhite

example : whiteSpace.length = 25 := rfl
example : isWhite '\u3000' = true ∧ isWhite '\u200b' = false ∧ isWhite '\ufeff' = false := by decide

end AlertDesk.Text
