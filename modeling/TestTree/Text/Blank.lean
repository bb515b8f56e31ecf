import TestTree.Text.Basic

namespace TestTree.Text

/-- The characters with the Unicode property White_Space. -/
def blankCodes : List Nat := [
  0x09, 0x0A, 0x0B, 0x0C, 0x0D, 0x20, 0x85, 0xA0, 0x1680, 0x2000, 0x2001, 0x2002, 0x2003, 0x2004,
  0x2005, 0x2006, 0x2007, 0x2008, 0x2009, 0x200A, 0x2028, 0x2029, 0x202F, 0x205F, 0x3000]

def isBlank (c : Char) : Bool := blankCodes.contains c.toNat

def trimStart (text : Text) : Text := text.dropWhile isBlank

def trimEnd (text : Text) : Text := (text.reverse.dropWhile isBlank).reverse

def trim (text : Text) : Text := trimEnd (trimStart text)

def isAllBlank (text : Text) : Bool := text.all isBlank

/-- The maximal runs of characters that are not white space. -/
def words (text : Text) : List Text := (pieces isBlank text).filter (!·.isEmpty)

/-- The words with one space between neighbours. -/
def collapse (text : Text) : Text := join [' '] (words text)

/-- The text without its last word and without the white space around that word. -/
def dropLastWord (text : Text) : Text :=
  (((text.reverse.dropWhile isBlank).dropWhile fun c => !isBlank c).dropWhile isBlank).reverse

/-- Equality up to the case of ASCII letters. -/
def equalIgnoringAsciiCase (a b : Text) : Bool := a.map Char.toLower == b.map Char.toLower

end TestTree.Text
