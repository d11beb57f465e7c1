/-
ResponsiveImage/Text/Blank.lean

White space by the Unicode property White_Space, and trimming it.

The table has 25 characters, among them the ASCII ones from tab to carriage
return, the next-line control U+0085, the no-break space U+00A0 and the
ideographic space U+3000.  It leaves out the zero-width characters U+200B and
U+FEFF and the ASCII separators U+001C to U+001F.
-/

namespace ResponsiveImage

/-- White space. -/
def isBlank (c : Char) : Bool :=
  let n := c.toNat
  (0x09 ≤ n && n ≤ 0x0D) || n == 0x20 || n == 0x85 || n == 0xA0 || n == 0x1680 ||
    (0x2000 ≤ n && n ≤ 0x200A) || n == 0x2028 || n == 0x2029 || n == 0x202F || n == 0x205F ||
    n == 0x3000

/-! ### Trimming -/

/-- A text without the white space in front. -/
def trimStart (text : List Char) : List Char := text.dropWhile isBlank

/-- A text without the white space behind. -/
def trimEnd (text : List Char) : List Char := (trimStart text.reverse).reverse

/-- A text without the white space at both ends. -/
def trim (text : List Char) : List Char := trimEnd (trimStart text)

/-! ### Small laws -/

@[simp] theorem trimStart_nil : trimStart [] = [] := rfl

theorem trimStart_cons_of_blank {c : Char} (h : isBlank c = true) (text : List Char) :
    trimStart (c :: text) = trimStart text := by simp [trimStart, h]

theorem trimStart_cons_of_not_blank {c : Char} (h : isBlank c = false) (text : List Char) :
    trimStart (c :: text) = c :: text := by simp [trimStart, h]

end ResponsiveImage
