/-!
# Words in frames

A frame is a row of bytes; a word of two bytes goes low byte first.

**Results.**
* `Frame`: the bytes of a frame;
* `Word.bytes`, `Word.ofBytes`: a word as its two bytes, and back;
* `Word.ofBytes_low_high`, `Word.low_ofBytes`, `Word.high_ofBytes`: neither way loses anything.
-/

namespace MeshExchange

/-- The bytes of a frame in order of transmission. -/
abbrev Frame := List UInt8

namespace Word

section Bytes

/-- The low byte of a word. -/
def low (w : UInt16) : UInt8 := UInt8.ofNat w.toNat

/-- The high byte of a word. -/
def high (w : UInt16) : UInt8 := UInt8.ofNat (w.toNat / 256)

/-- The bytes of a word in order of transmission. -/
def bytes (w : UInt16) : Frame := [low w, high w]

/-- The word with a given low byte and high byte. -/
def ofBytes (low high : UInt8) : UInt16 := UInt16.ofNat (low.toNat + 256 * high.toNat)

end Bytes

section Laws

@[simp]
theorem ofBytes_low_high (w : UInt16) : ofBytes (low w) (high w) = w := by
  have bound := w.toNat_lt
  apply UInt16.toNat_inj.1
  simp only [ofBytes, low, high, UInt16.toNat_ofNat', UInt8.toNat_ofNat']
  omega

@[simp]
theorem low_ofBytes (l h : UInt8) : low (ofBytes l h) = l := by
  have boundLow := l.toNat_lt
  have boundHigh := h.toNat_lt
  apply UInt8.toNat_inj.1
  simp only [ofBytes, low, UInt16.toNat_ofNat', UInt8.toNat_ofNat']
  omega

@[simp]
theorem high_ofBytes (l h : UInt8) : high (ofBytes l h) = h := by
  have boundLow := l.toNat_lt
  have boundHigh := h.toNat_lt
  apply UInt8.toNat_inj.1
  simp only [ofBytes, high, UInt16.toNat_ofNat', UInt8.toNat_ofNat']
  omega

end Laws

end Word
end MeshExchange
