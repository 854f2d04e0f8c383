import Mathlib.Data.List.Induction
import Mathlib.Data.List.TakeWhile
import MeshExchange.Text.Blank
import MeshExchange.Text.Decimal

/-!
# Numerals between blanks

A numeral is one or more decimal digits behind at most one sign. What a row of characters is read as is
said here without a reader: by the digits one after the other, and by the blanks that may stand around.

**Results.**
* `Decimal.Denotes`, `Decimal.value?_eq_some_iff`: rows of digits, and the numbers that they denote;
* `Decimal.Numeral`, `Decimal.signed?_eq_some_iff`: the same behind at most one sign;
* `Blank.Strips`, `Blank.trim_eq_iff`: what is left of a row between the blanks at its ends.
-/

namespace MeshExchange
namespace Decimal

/-- A row of digits denotes a number. -/
inductive Denotes : List Char → Nat → Prop
  | one {d : Nat} (hd : d < 10) : Denotes [digit d] d
  | more {cs : List Char} {n d : Nat} (h : Denotes cs n) (hd : d < 10) :
      Denotes (cs ++ [digit d]) (10 * n + d)

/-- A row of digits behind at most one sign denotes an integer. -/
inductive Numeral : List Char → Int → Prop
  | plain {cs : List Char} {n : Nat} (h : Denotes cs n) : Numeral cs n
  | plus {cs : List Char} {n : Nat} (h : Denotes cs n) : Numeral ('+' :: cs) n
  | minus {cs : List Char} {n : Nat} (h : Denotes cs n) : Numeral ('-' :: cs) (-n)

section Digits

variable {c : Char} {cs : List Char} {d n : Nat}

theorem digitValue?_eq_some_iff : digitValue? c = some d ↔ d < 10 ∧ c = digit d := by
  constructor
  · intro h
    unfold digitValue? at h
    split at h
    · next hc =>
        obtain ⟨hlow, hhigh⟩ : 48 ≤ c.toNat ∧ c.toNat ≤ 57 := hc
        have hd : c.toNat - 48 = d := Option.some.inj h
        refine ⟨by omega, ?_⟩
        have hsum : '0'.toNat + d = c.toNat := by
          change 48 + d = c.toNat
          omega
        rw [digit, hsum, Char.ofNat_toNat]
    · cases h
  · rintro ⟨hd, rfl⟩
    exact digitValue?_digit hd

/-- One more digit behind a row that is not empty. -/
theorem value?_concat (hcs : cs ≠ []) :
    value? (cs ++ [c]) = (value? cs).bind fun n => (digitValue? c).map (10 * n + ·) := by
  obtain ⟨b, bs, rfl⟩ := List.exists_cons_of_ne_nil hcs
  change extend 0 (b :: bs ++ [c]) = (extend 0 (b :: bs)).bind _
  rw [extend_append]
  congr 1
  funext n
  cases hc : digitValue? c <;> simp [extend, hc]

theorem Denotes.ne_nil (h : Denotes cs n) : cs ≠ [] := by
  cases h <;> simp

theorem Denotes.value?_eq (h : Denotes cs n) : value? cs = some n := by
  induction h with
  | @one d hd => simp [value?, extend, digitValue?_digit hd]
  | more h hd ih =>
      rw [value?_concat h.ne_nil, ih, digitValue?_digit hd]
      rfl

theorem denotes_of_value? (h : value? cs = some n) : Denotes cs n := by
  -- the last digit of a row is the lowest, so the row is taken apart from its end
  induction cs using List.reverseRecOn generalizing n with
  | nil => cases h
  | append_singleton cs c ih =>
      by_cases hcs : cs = []
      · subst hcs
        obtain ⟨d, hd, hn⟩ := Option.bind_eq_some_iff.1 (show (digitValue? c).bind _ = some n from h)
        obtain ⟨hlt, rfl⟩ := digitValue?_eq_some_iff.1 hd
        obtain rfl : d = n := by simpa [extend] using hn
        exact .one hlt
      · rw [value?_concat hcs] at h
        obtain ⟨m, hm, h⟩ := Option.bind_eq_some_iff.1 h
        obtain ⟨d, hd, rfl⟩ := Option.map_eq_some_iff.1 h
        obtain ⟨hlt, rfl⟩ := digitValue?_eq_some_iff.1 hd
        exact .more (ih hm) hlt

/-- **Rows of digits** are read as the numbers that they denote. -/
theorem value?_eq_some_iff : value? cs = some n ↔ Denotes cs n :=
  ⟨denotes_of_value?, Denotes.value?_eq⟩

theorem Denotes.exists_head (h : Denotes cs n) : ∃ d < 10, cs.head? = some (digit d) := by
  induction h with
  | @one d hd => exact ⟨d, hd, rfl⟩
  | more h _ ih =>
      obtain ⟨d, hd, hhead⟩ := ih
      exact ⟨d, hd, by rw [List.head?_append, hhead, Option.some_or]⟩

theorem Denotes.exists_last (h : Denotes cs n) : ∃ d < 10, cs.getLast? = some (digit d) := by
  cases h with
  | one hd => exact ⟨n, hd, rfl⟩
  | more h hd => exact ⟨_, hd, List.getLast?_concat⟩

end Digits

section Signs

variable {cs : List Char} {n : Int}

/-- Digits without a sign in front of them. -/
theorem signed?_eq_value? (hm : cs.head? ≠ some '-') (hp : cs.head? ≠ some '+') :
    signed? cs = (value? cs).map fun n => (n : Int) := by
  unfold signed?
  split
  · exact absurd rfl hm
  · exact absurd rfl hp
  · rfl

theorem Numeral.signed?_eq (h : Numeral cs n) : signed? cs = some n := by
  cases h with
  | plain h =>
      obtain ⟨d, hd, hhead⟩ := h.exists_head
      obtain ⟨hm, hp⟩ := digit_ne_sign hd
      rw [signed?_eq_value? (by simpa [hhead] using hm) (by simpa [hhead] using hp), h.value?_eq]
      rfl
  | plus h =>
      rw [signed?, h.value?_eq]
      rfl
  | minus h =>
      rw [signed?, h.value?_eq]
      rfl

theorem exists_denotes {f : Int → Int} (h : ((value? cs).map fun m => f m) = some n) :
    ∃ m, Denotes cs m ∧ f m = n := by
  cases hm : value? cs with
  | none => simp [hm] at h
  | some m => exact ⟨m, denotes_of_value? hm, by simpa [hm] using h⟩

/-- **Numerals** are read as the integers that they denote, and nothing else is read. -/
theorem signed?_eq_some_iff : signed? cs = some n ↔ Numeral cs n := by
  refine ⟨fun h => ?_, Numeral.signed?_eq⟩
  unfold signed? at h
  split at h
  · obtain ⟨m, hm, rfl⟩ := exists_denotes h
    exact .minus hm
  · obtain ⟨m, hm, rfl⟩ := exists_denotes h
    exact .plus hm
  · obtain ⟨m, hm, rfl⟩ := exists_denotes (f := id) h
    exact .plain hm

/-- No numeral begins or ends with a blank. -/
theorem Numeral.not_isBlank (h : Numeral cs n) :
    (∀ c ∈ cs.head?, Blank.isBlank c = false) ∧ ∀ c ∈ cs.getLast?, Blank.isBlank c = false := by
  have hdigit : ∀ d : Fin 10, Blank.isBlank (digit d.val) = false := by decide
  have hlast {cs : List Char} {n : Nat} (h : Denotes cs n) :
      ∀ c ∈ cs.getLast?, Blank.isBlank c = false := by
    obtain ⟨d, hd, hlast⟩ := h.exists_last
    rw [hlast]
    rintro c ⟨⟩
    exact hdigit ⟨d, hd⟩
  cases h with
  | plain h =>
      obtain ⟨d, hd, hhead⟩ := h.exists_head
      refine ⟨?_, hlast h⟩
      rw [hhead]
      rintro c ⟨⟩
      exact hdigit ⟨d, hd⟩
  | plus h | minus h =>
      refine ⟨by simp; decide, ?_⟩
      rw [List.getLast?_cons_of_ne_nil h.ne_nil]
      exact hlast h

end Signs

end Decimal

namespace Blank

/-- A row of characters is another one with blanks around it, at whose ends there are none. -/
structure Strips (cs core : List Char) : Prop where
  exists_blanks : ∃ front back, cs = front ++ core ++ back ∧ (∀ c ∈ front, isBlank c = true) ∧
    ∀ c ∈ back, isBlank c = true
  head : ∀ c ∈ core.head?, isBlank c = false
  last : ∀ c ∈ core.getLast?, isBlank c = false

section Trimming

variable {cs core front : List Char}

theorem trimStart_of_head (h : ∀ c ∈ cs.head?, isBlank c = false) : trimStart cs = cs := by
  cases cs with
  | nil => rfl
  | cons c cs => simp [trimStart, h c rfl]

theorem trimStart_append (h : ∀ c ∈ front, isBlank c = true) :
    trimStart (front ++ cs) = trimStart cs :=
  List.dropWhile_append_of_pos h

theorem exists_trimStart (cs : List Char) :
    ∃ front, cs = front ++ trimStart cs ∧ (∀ c ∈ front, isBlank c = true) ∧
      ∀ c ∈ (trimStart cs).head?, isBlank c = false := by
  refine ⟨cs.takeWhile isBlank, List.takeWhile_append_dropWhile.symm, ?_, ?_⟩
  · exact fun c hc => List.mem_takeWhile_imp hc
  · intro c hc
    have hhead := List.head?_dropWhile_not isBlank cs
    rw [show cs.dropWhile isBlank = trimStart cs from rfl, Option.mem_def.1 hc] at hhead
    simpa using hhead

theorem Strips.trim_eq (h : Strips cs core) : trim cs = core := by
  obtain ⟨⟨front, back, rfl, hfront, hback⟩, hhead, hlast⟩ := h
  have hcore : trimStart core.reverse = core.reverse :=
    trimStart_of_head (by simpa [List.head?_reverse] using hlast)
  cases hnil : core with
  | nil =>
      have hblank : trimStart (front ++ ([] : List Char) ++ back) = [] := by
        rw [List.append_nil, trimStart_append hfront, ← List.append_nil back, trimStart_append hback]
        rfl
      rw [trim, hblank]
      rfl
  | cons c rest =>
      rw [← hnil, trim, List.append_assoc, trimStart_append hfront]
      have hstart : trimStart (core ++ back) = core ++ back := by
        refine trimStart_of_head fun x hx => hhead x ?_
        rw [hnil] at hx ⊢
        exact hx
      rw [hstart, List.reverse_append, trimStart_append (by simpa using hback), hcore,
        List.reverse_reverse]

theorem strips_trim (cs : List Char) : Strips cs (trim cs) := by
  obtain ⟨front, hcs, hfront, hhead⟩ := exists_trimStart cs
  obtain ⟨back, hback', hback, hlast⟩ := exists_trimStart (trimStart cs).reverse
  have hsplit : trimStart cs = trim cs ++ back.reverse := by
    rw [trim, ← List.reverse_append, ← hback', List.reverse_reverse]
  refine ⟨⟨front, back.reverse, ?_, hfront, by simpa using hback⟩, ?_, ?_⟩
  · rw [List.append_assoc, ← hsplit, ← hcs]
  · intro c hc
    refine hhead c ?_
    rw [hsplit, List.head?_append, Option.mem_def.1 hc]
    rfl
  · simpa [trim, List.getLast?_reverse] using hlast

/-- **What is left of a row** is the part between its blanks. -/
theorem trim_eq_iff : trim cs = core ↔ Strips cs core :=
  ⟨fun h => h ▸ strips_trim cs, Strips.trim_eq⟩

end Trimming

end Blank
end MeshExchange
