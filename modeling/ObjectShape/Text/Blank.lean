/-!
# White space

The characters with the Unicode property White_Space, and cutting them off the ends of a text.
-/

namespace ObjectShape.Text

set_option autoImplicit false

/-- The Unicode property White_Space. -/
def isBlank (c : Char) : Bool :=
  let code := c.toNat
  (0x09 ≤ code && code ≤ 0x0D) || code == 0x20 || code == 0x85 || code == 0xA0 || code == 0x1680 ||
    (0x2000 ≤ code && code ≤ 0x200A) || code == 0x2028 || code == 0x2029 || code == 0x202F ||
    code == 0x205F || code == 0x3000

def dropBlanks (chars : List Char) : List Char :=
  chars.dropWhile isBlank

def trim (chars : List Char) : List Char :=
  (dropBlanks (dropBlanks chars).reverse).reverse

end ObjectShape.Text
