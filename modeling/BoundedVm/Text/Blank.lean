/-! # Blank characters and trimming

`isBlank` is the Unicode property White_Space, given by its code points. `trim` cuts a run of blank
characters off both ends of a text and leaves blanks in the middle alone. -/

namespace BoundedVm

/-- The Unicode property White_Space: the five controls from tab to carriage return, the space, the
next-line control, and the space, line and paragraph separators. -/
def isBlank (c : Char) : Bool :=
  let n := c.toNat
  (9 ≤ n && n ≤ 13) || n == 0x20 || n == 0x85 || n == 0xA0 || n == 0x1680
    || (0x2000 ≤ n && n ≤ 0x200A) || n == 0x2028 || n == 0x2029 || n == 0x202F || n == 0x205F
    || n == 0x3000

/-- The text without the blank characters at its two ends. -/
def trim (text : List Char) : List Char :=
  ((text.dropWhile isBlank).reverse.dropWhile isBlank).reverse

@[simp] theorem trim_nil : trim [] = [] := rfl

end BoundedVm
