/-! # White space

The Unicode white-space characters and the trims that drop them. Configuration values are
trimmed on both sides and comment lines on the right.
-/

namespace BeanCodegen.Text

/-- The Unicode white-space characters: the ASCII tab, line feed, vertical tab, form feed,
carriage return and space, next line, no-break space, the Ogham space mark, the spaces from
en quad to hair space, the line and paragraph separators, the narrow no-break space, the
medium mathematical space and the ideographic space. -/
def isBlank (c : Char) : Bool :=
  let n := c.toNat
  (0x09 ≤ n && n ≤ 0x0D) || n = 0x20 || n = 0x85 || n = 0xA0 || n = 0x1680 ||
  (0x2000 ≤ n && n ≤ 0x200A) || n = 0x2028 || n = 0x2029 || n = 0x202F || n = 0x205F ||
  n = 0x3000

/-- Drops white space at the end of a character list. -/
def dropBlankEnd (cs : List Char) : List Char :=
  (cs.reverse.dropWhile isBlank).reverse

/-- Drops white space at the end of a text. -/
def trimBlankEnd (s : String) : String := String.ofList (dropBlankEnd s.toList)

/-- Drops white space at both ends of a text. -/
def trimBlank (s : String) : String :=
  String.ofList (dropBlankEnd (s.toList.dropWhile isBlank))

/-- Every character that core counts as white space is white space here. -/
theorem isBlank_of_isWhitespace {c : Char} (h : c.isWhitespace = true) : isBlank c = true := by
  simp only [Char.isWhitespace, Bool.or_eq_true, decide_eq_true_eq] at h
  rcases h with ((h | h) | h) | h <;> subst h <;> decide

end BeanCodegen.Text
