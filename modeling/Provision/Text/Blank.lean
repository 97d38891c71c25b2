/-!
# White space

The characters that separate words in any script, and the text without those at its ends.
-/

namespace Provision.Blank

/-- The characters of the Unicode property of white space. -/
def holds (c : Char) : Bool :=
  let n := c.toNat
  (9 ≤ n && n ≤ 13) || n == 0x20 || n == 0x85 || n == 0xA0 || n == 0x1680 ||
    (0x2000 ≤ n && n ≤ 0x200A) || n == 0x2028 || n == 0x2029 || n == 0x202F || n == 0x205F ||
    n == 0x3000

/-- The characters without white space at either end. -/
def trimList (cs : List Char) : List Char :=
  ((cs.dropWhile holds).reverse.dropWhile holds).reverse

/-- The text without white space at either end. -/
def trim (s : String) : String := String.ofList (trimList s.toList)

end Provision.Blank
