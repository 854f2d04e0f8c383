import MeshExchange.Proofs.Json.Grammar

/-!
# What is written is read again

**Results.**
* `Json.holds_escape`, `Json.numeral_ofInt`: strings and integers as they are written;
* `Json.spells_write`: the text of a value spells it;
* `Json.parse_write`: it is read as that value, whatever blanks are put around it.
-/

namespace MeshExchange

namespace Decimal

/-- Only zero begins with a zero. -/
theorem head?_ofNat_ne (n : Nat) (h : n ≠ 0) : (ofNat n).head? ≠ some '0' := by
  rw [ofNat]
  split
  · next hlt =>
      have hall : ∀ d : Fin 10, d.val ≠ 0 → digit d.val ≠ '0' := by decide
      simpa using hall ⟨n, hlt⟩ h
  · have hhead := head?_ofNat_ne (n / 10) (by omega)
    obtain ⟨d, -, hd⟩ := head?_ofNat (n / 10)
    rw [List.head?_append, hd, Option.some_or, ← hd]
    exact hhead
termination_by n
decreasing_by omega

end Decimal

namespace Json

section Numbers

theorem whole_ofNat (n : Nat) : Whole (Decimal.ofNat n) n where
  denotes := Decimal.denotes_of_value? (Decimal.value?_ofNat n)
  eq_zero h := by
    by_cases hn : n = 0
    · subst hn
      rw [Decimal.ofNat]
      rfl
    · exact absurd h (Decimal.head?_ofNat_ne n hn)

/-- Integers are written as numbers. -/
theorem numeral_ofInt (n : Int) : Numeral (Decimal.ofInt n) (.integer n) := by
  cases n with
  | ofNat n => exact .plain (.integer (whole_ofNat n) (by simp))
  | negSucc n => exact .minus (.integer (whole_ofNat (n + 1)) (by simp))

/-- A number that is no integer, as it is written. -/
theorem numeral_zero : Numeral ['0', '.', '0'] .fraction := by
  have hwhole := whole_ofNat 0
  rw [Decimal.ofNat] at hwhole
  exact .plain (.fraction hwhole (.digits (digits_of_denotes hwhole.denotes)) .nothing (by simp))

end Numbers

section Strings

variable {c : Char} {cs : List Char} {ps : List Piece}

/-- A character is written as one piece that denotes it. -/
theorem exists_piece (c : Char) : ∃ p, (∀ cs ps, Quoted cs ps → Quoted (escape c ++ cs) (p :: ps)) ∧
    ∀ ps cs, Denotes ps cs → Denotes (p :: ps) (c :: cs) := by
  have hletter {e : Char} (he : escaped? e = some c) :
      ∃ p, (∀ cs ps, Quoted cs ps → Quoted (['\\', e] ++ cs) (p :: ps)) ∧
        ∀ ps cs, Denotes ps cs → Denotes (p :: ps) (c :: cs) :=
    ⟨.char c, fun _ _ h => .letter he h, fun _ _ h => .char h⟩
  unfold escape
  split
  · next h => exact hletter (by rw [h]; rfl)
  split
  · next h => exact hletter (by rw [h]; rfl)
  split
  · next h => exact hletter (by rw [h]; rfl)
  split
  · next h => exact hletter (by rw [h]; rfl)
  split
  · next h => exact hletter (by rw [h]; rfl)
  split
  · next h => exact hletter (by rw [h]; rfl)
  split
  · next h => exact hletter (by rw [h]; rfl)
  split
  · next hlow =>
      have hunit : unit? '0' '0' (Hexadecimal.lowerDigit (c.toNat / 16))
          (Hexadecimal.lowerDigit (c.toNat % 16)) = some c.toNat := by
        have hzero : Hexadecimal.value? '0' = some 0 := rfl
        have hhigh := Hexadecimal.value?_lowerDigit (show c.toNat / 16 < 16 by omega)
        have hrest := Hexadecimal.value?_lowerDigit (show c.toNat % 16 < 16 by omega)
        have hsum : ((0 * 16 + 0) * 16 + c.toNat / 16) * 16 + c.toNat % 16 = c.toNat := by omega
        simp only [unit?, hzero, hhigh, hrest, Option.bind_eq_bind, Option.bind_some, hsum]
        rfl
      refine ⟨.unit c.toNat, fun _ _ h => .unit hunit h, fun ps cs h => ?_⟩
      have hdenotes := Denotes.unit (n := c.toNat) (by simp [isHigh]; omega) (by simp [isLow]; omega) h
      rwa [Char.ofNat_toNat] at hdenotes
  · next hquote hslash _ _ _ _ _ hlow =>
      exact ⟨.char c, fun _ _ h => .plain (Nat.le_of_not_lt hlow) hquote hslash h,
        fun _ _ h => .char h⟩

/-- **A text is held** by what is written for it between quotes, whatever characters it has. -/
theorem holds_escape (s : String) : Holds (s.toList.flatMap escape) (some s) := by
  have hchars (cs : List Char) : ∃ ps, Quoted (cs.flatMap escape) ps ∧ Denotes ps cs := by
    induction cs with
    | nil => exact ⟨[], .nil, .nil⟩
    | cons c cs ih =>
        obtain ⟨ps, hq, hd⟩ := ih
        obtain ⟨p, hp, hp'⟩ := exists_piece c
        exact ⟨p :: ps, by simpa using hp _ _ hq, hp' _ _ hd⟩
  obtain ⟨ps, hq, hd⟩ := hchars s.toList
  have hholds := Holds.text hq hd
  rwa [String.ofList_toList] at hholds

/-- The first half of a pair alone holds no text. -/
theorem holds_half : Holds ['\\', 'u', 'd', '8', '0', '0'] none := by
  have hquoted : Quoted ['\\', 'u', 'd', '8', '0', '0'] [.unit 0xD800] := .unit (by decide) .nil
  refine .noText hquoted fun cs hd => ?_
  cases hd with
  | unit hh => exact absurd hh (by decide)

/-- A string as it is written, between its quotes. -/
theorem exists_writeText (t : Option String) :
    ∃ body, writeText t = '"' :: (body ++ ['"']) ∧ Holds body t := by
  cases t with
  | some s => exact ⟨_, rfl, holds_escape s⟩
  | none => exact ⟨_, rfl, holds_half⟩

end Strings

section Values

mutual

/-- **The text of a value** spells it. -/
theorem spells_write : ∀ j : Json, Spells (write j) j
  | .null => .null
  | .bool true => .yes
  | .bool false => .no
  | .integer n => .number (numeral_ofInt n)
  | .fraction => .number numeral_zero
  | .text t => by
      obtain ⟨body, ht, hbody⟩ := exists_writeText t
      rw [write, ht]
      exact .text hbody
  | .array [] => .noItems (show Spaces [] by simp [Spaces])
  | .array (j :: js) => .items (spellsItems_write (j :: js) (by simp))
  | .object [] => .noMembers (show Spaces [] by simp [Spaces])
  | .object (m :: ms) => .members (spellsMembers_write (m :: ms) (by simp))

theorem spellsItems_write : ∀ js : List Json, js ≠ [] → SpellsItems (writeItems js) js
  | [], h => absurd rfl h
  | [j], _ => .last (spells_write j) (.refl _)
  | j :: j' :: js, _ =>
      .more (spells_write j) (.refl _) (spellsItems_write (j' :: js) (by simp))

theorem spellsMembers_write : ∀ ms : List (Option String × Json), ms ≠ [] →
    SpellsMembers (writeMembers ms) ms
  | [], h => absurd rfl h
  | [(t, j)], _ => by
      obtain ⟨body, ht, hbody⟩ := exists_writeText t
      rw [writeMembers, ht]
      exact .last hbody (.refl _) (spells_write j) (.refl _)
  | (t, j) :: m :: ms, _ => by
      obtain ⟨body, ht, hbody⟩ := exists_writeText t
      have hspells := SpellsMembers.more hbody (.refl _) (spells_write j) (.refl _)
        (spellsMembers_write (m :: ms) (by simp))
      rw [← ht] at hspells
      simpa [writeMembers] using hspells

end

/-- The text of a value, with blanks around it, is a text of this value. -/
theorem document_write {j : Json} {cs : List Char} (h : Padded j.write cs) : Document cs j :=
  ⟨_, spells_write j, h⟩

/-- **What is written is read again.** -/
theorem parse_write (j : Json) : parse j.write = some j :=
  parse_eq_some_iff.2 (document_write (.refl _))

end Values

end Json
end MeshExchange
