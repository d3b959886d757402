/-!
# Blank characters

Names and typed-in literals are trimmed of blanks at both ends before they are read. A blank is
a character of Unicode's white-space classes, which include the four ASCII separators
`U+001C … U+001F` but not the zero-width space.

* `isBlank` is the class, `trim` cuts it off at both ends;
* `isNumberBlank` is the smaller class allowed around a number on the command line.
-/

namespace BlockProgram.Text

/-- The blanks beyond ASCII: next line, no-break space and Unicode's other spaces and line
separators. -/
def wideBlanks : List Nat :=
  [0x85, 0xA0, 0x1680, 0x2000, 0x2001, 0x2002, 0x2003, 0x2004, 0x2005, 0x2006, 0x2007, 0x2008,
    0x2009, 0x200A, 0x2028, 0x2029, 0x202F, 0x205F, 0x3000]

/-- The blanks around a number: space, the ASCII controls from tab to carriage return, and the
wide blanks. -/
def isNumberBlank (c : Char) : Bool :=
  c == ' ' || (9 ≤ c.toNat && c.toNat ≤ 13) || wideBlanks.contains c.toNat

/-- The blanks around a name or literal: those around a number and the four ASCII
separators. -/
def isBlank (c : Char) : Bool :=
  isNumberBlank c || (0x1C ≤ c.toNat && c.toNat ≤ 0x1F)

/-- The characters left after cutting those of a class off at both ends. -/
def trimBy (blank : Char → Bool) (cs : List Char) : List Char :=
  ((cs.dropWhile blank).reverse.dropWhile blank).reverse

/-- A text without the blanks at its ends. -/
def trim (s : String) : String := String.ofList (trimBy isBlank s.toList)

end BlockProgram.Text
