/-!
# Blank characters

The characters with the Unicode property `White_Space`, and rows of characters stripped of them at
both ends.

**Results.**
* `isBlank`: the property, from its table of ten ranges;
* `trim`: what is left between the blanks in front and the blanks behind.
-/

namespace MeshExchange
namespace Blank

/-- The ranges of code points with the property `White_Space`, in ascending order. -/
def ranges : List (Nat × Nat) :=
  [(0x09, 0x0D), (0x20, 0x20), (0x85, 0x85), (0xA0, 0xA0), (0x1680, 0x1680),
   (0x2000, 0x200A), (0x2028, 0x2029), (0x202F, 0x202F), (0x205F, 0x205F), (0x3000, 0x3000)]

/-- Whether a character is white space. -/
def isBlank (c : Char) : Bool :=
  ranges.any fun (low, high) => low ≤ c.toNat && c.toNat ≤ high

/-- A row of characters without the blanks in front. -/
def trimStart (cs : List Char) : List Char := cs.dropWhile isBlank

/-- A row of characters without the blanks at either end. -/
def trim (cs : List Char) : List Char := (trimStart (trimStart cs).reverse).reverse

end Blank
end MeshExchange
