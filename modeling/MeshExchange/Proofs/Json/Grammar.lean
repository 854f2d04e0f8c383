import Mathlib.Tactic.IntervalCases
import MeshExchange.Proofs.Json.Tokens

/-!
# JSON texts

A text in JSON is a value with blanks around it. Values are literals, numbers, strings, and arrays and
objects, whose items and members stand between commas with blanks around each.

**Method.** The grammar is a relation between characters and the values that they spell. The reader has as
many levels as it is given; with at least as many as there are characters it reads what the grammar
allows, and with any number of them nothing else. Both are shown by induction on the levels, for values,
items and members at once.

**Results.**
* `Json.Spells`, `Json.SpellsItems`, `Json.SpellsMembers`: the grammar;
* `Json.Document`: a whole text;
* `Json.parse_eq_some_iff`: the texts of the grammar, and no others, are read, as what they spell.
-/

namespace MeshExchange
namespace Json

/-- Characters with blanks around them. -/
def Padded (core cs : List Char) : Prop :=
  ∃ front back, cs = front ++ (core ++ back) ∧ Spaces front ∧ Spaces back

mutual

/-- Characters spell a value. -/
inductive Spells : List Char → Json → Prop
  | null : Spells ['n', 'u', 'l', 'l'] .null
  | yes : Spells ['t', 'r', 'u', 'e'] (.bool true)
  | no : Spells ['f', 'a', 'l', 's', 'e'] (.bool false)
  | number {cs : List Char} {j : Json} (h : Numeral cs j) : Spells cs j
  | text {body : List Char} {t : Option String} (h : Holds body t) :
      Spells ('"' :: (body ++ ['"'])) (.text t)
  | noItems {ws : List Char} (h : Spaces ws) : Spells ('[' :: (ws ++ [']'])) (.array [])
  | items {cs : List Char} {js : List Json} (h : SpellsItems cs js) :
      Spells ('[' :: (cs ++ [']'])) (.array js)
  | noMembers {ws : List Char} (h : Spaces ws) : Spells ('\x7b' :: (ws ++ ['\x7d'])) (.object [])
  | members {cs : List Char} {ms : List (Option String × Json)} (h : SpellsMembers cs ms) :
      Spells ('\x7b' :: (cs ++ ['\x7d'])) (.object ms)

/-- Characters spell the items of an array, at least one. -/
inductive SpellsItems : List Char → List Json → Prop
  | last {core cs : List Char} {j : Json} (h : Spells core j) (hp : Padded core cs) :
      SpellsItems cs [j]
  | more {core cs rest : List Char} {j : Json} {js : List Json} (h : Spells core j)
      (hp : Padded core cs) (hrest : SpellsItems rest js) : SpellsItems (cs ++ ',' :: rest) (j :: js)

/-- Characters spell the members of an object, at least one. -/
inductive SpellsMembers : List Char → List (Option String × Json) → Prop
  | last {body key core cs : List Char} {t : Option String} {j : Json} (ht : Holds body t)
      (hk : Padded ('"' :: (body ++ ['"'])) key) (h : Spells core j) (hp : Padded core cs) :
      SpellsMembers (key ++ ':' :: cs) [(t, j)]
  | more {body key core cs rest : List Char} {t : Option String} {j : Json}
      {ms : List (Option String × Json)} (ht : Holds body t)
      (hk : Padded ('"' :: (body ++ ['"'])) key) (h : Spells core j) (hp : Padded core cs)
      (hrest : SpellsMembers rest ms) : SpellsMembers (key ++ ':' :: (cs ++ ',' :: rest)) ((t, j) :: ms)

end

/-- A text holds a value and nothing else. -/
def Document (cs : List Char) (j : Json) : Prop := ∃ core, Spells core j ∧ Padded core cs

section Heads

variable {cs ws rest : List Char} {c : Char} {j : Json} {js : List Json}
  {ms : List (Option String × Json)} {fuel : Nat}

theorem Padded.refl (cs : List Char) : Padded cs cs := ⟨[], [], by simp, by simp [Spaces], by simp [Spaces]⟩

theorem Padded.length_le {core : List Char} (h : Padded core cs) : core.length ≤ cs.length := by
  obtain ⟨front, back, rfl, -, -⟩ := h
  simp only [List.length_append]
  omega

/-- A character that a value may begin with. -/
def isOpening (c : Char) : Bool := !isSpace c && c != ']' && c != '\x7d'

theorem exists_head_of_numeral (h : Numeral cs j) :
    ∃ c rest, cs = c :: rest ∧ (c = '-' ∨ ∃ d < 10, c = Decimal.digit d) := by
  cases h with
  | plain h =>
      obtain ⟨d, hd, rest, rfl⟩ := h.exists_head
      exact ⟨_, _, rfl, .inr ⟨d, hd, rfl⟩⟩
  | minus h => exact ⟨_, _, rfl, .inl rfl⟩

theorem Spells.exists_head (h : Spells cs j) : ∃ c rest, cs = c :: rest ∧ isOpening c = true := by
  have hdigit : ∀ d : Fin 10, isOpening (Decimal.digit d.val) = true := by decide
  cases h with
  | number h =>
      obtain ⟨c, rest, rfl, rfl | ⟨d, hd, rfl⟩⟩ := exists_head_of_numeral h
      · exact ⟨_, _, rfl, rfl⟩
      · exact ⟨_, _, rfl, hdigit ⟨d, hd⟩⟩
  | _ => exact ⟨_, _, rfl, rfl⟩

theorem stops_append (hws : Spaces ws) (hr : Stops rest) : Stops (ws ++ rest) := by
  cases ws with
  | nil => exact hr
  | cons c ws =>
      rintro _ ⟨⟩
      have hc := hws c List.mem_cons_self
      simp only [isSpace, Bool.or_eq_true, beq_iff_eq] at hc
      rcases hc with ((rfl | rfl) | rfl) | rfl <;> exact ⟨rfl, by decide⟩

theorem skip_cons (hc : isSpace c = false) : skip (c :: cs) = c :: cs :=
  skip_of_head (by simpa using hc)

theorem skip_append_cons (hws : Spaces ws) (hc : isSpace c = false) :
    skip (ws ++ c :: cs) = c :: cs := by
  rw [skip_append hws, skip_cons hc]

theorem skip_skip (cs : List Char) : skip (skip cs) = skip cs := by
  obtain ⟨ws, hcs, hws⟩ := exists_skip cs
  conv_rhs => rw [hcs, skip_append hws]

theorem readValue_skip (fuel : Nat) (cs : List Char) : readValue fuel (skip cs) = readValue fuel cs := by
  cases fuel with
  | zero => rfl
  | succ fuel => rw [readValue, readValue, skip_skip]

theorem readItems_skip (fuel : Nat) (cs : List Char) : readItems fuel (skip cs) = readItems fuel cs := by
  cases fuel with
  | zero => rfl
  | succ fuel => rw [readItems, readItems, readValue_skip]

theorem readMembers_skip (fuel : Nat) (cs : List Char) :
    readMembers fuel (skip cs) = readMembers fuel cs := by
  cases fuel with
  | zero => rfl
  | succ fuel => rw [readMembers, readMembers, skip_skip]

theorem readValue_text (fuel : Nat) {body : List Char} {t : Option String} (h : Holds body t)
    (rest : List Char) :
    readValue (fuel + 1) ('"' :: (body ++ '"' :: rest)) = some (.text t, rest) := by
  have hread : readText (body ++ '"' :: rest) = some (t, rest) :=
    readText_eq_some_iff.2 ⟨body, rfl, h⟩
  rw [readValue, skip_cons rfl]
  simp only [hread]
  rfl

theorem readValue_number (h : Numeral cs j) (hr : Stops rest) :
    readValue (fuel + 1) (cs ++ rest) = some (j, rest) := by
  rw [← h.readNumber_eq hr]
  obtain ⟨c, cs, rfl, rfl | ⟨d, hd, rfl⟩⟩ := exists_head_of_numeral h
  · rfl
  · interval_cases d <;> rfl

theorem readValue_array (h : ∀ rest, skip cs ≠ ']' :: rest) :
    readValue (fuel + 1) ('[' :: cs) =
      (readItems fuel cs).map fun found => (.array found.1, found.2) := by
  rw [readValue, skip_cons rfl]
  simp only [readItems_skip]

theorem readValue_object (h : ∀ rest, skip cs ≠ '\x7d' :: rest) :
    readValue (fuel + 1) ('\x7b' :: cs) =
      (readMembers fuel cs).map fun found => (.object found.1, found.2) := by
  rw [readValue, skip_cons rfl]
  simp only [readMembers_skip]

end Heads

section Completeness

variable {cs : List Char} {j : Json} {js : List Json} {ms : List (Option String × Json)} {fuel : Nat}

/-- With so many levels the reader finds what the grammar allows. -/
structure Finds (fuel : Nat) : Prop where
  value {cs ws rest : List Char} {j : Json} (h : Spells cs j) (hlen : cs.length ≤ fuel)
    (hws : Spaces ws) (hr : Stops rest) : readValue fuel (ws ++ (cs ++ rest)) = some (j, rest)
  items {cs : List Char} {js : List Json} (h : SpellsItems cs js) (hlen : cs.length < fuel)
    (rest : List Char) : readItems fuel (cs ++ ']' :: rest) = some (js, rest)
  members {cs : List Char} {ms : List (Option String × Json)} (h : SpellsMembers cs ms)
    (hlen : cs.length < fuel) (rest : List Char) :
    readMembers fuel (cs ++ '\x7d' :: rest) = some (ms, rest)

theorem stops_cons {c : Char} {rest : List Char}
    (h : isDigit c = false ∧ c ≠ '.' ∧ c ≠ 'e' ∧ c ≠ 'E') : Stops (c :: rest) := by
  rintro _ ⟨⟩
  exact h

/-- A value with blanks around it, before a character that ends it. -/
theorem Finds.padded (hf : Finds fuel) {core cs : List Char} {c : Char} {j : Json}
    (h : Spells core j) (hp : Padded core cs) (hlen : cs.length ≤ fuel)
    (hc : isSpace c = false ∧ isDigit c = false ∧ c ≠ '.' ∧ c ≠ 'e' ∧ c ≠ 'E') (rest : List Char) :
    ∃ rest', readValue fuel (cs ++ c :: rest) = some (j, rest') ∧ skip rest' = c :: rest := by
  have hcore := hp.length_le
  obtain ⟨front, back, rfl, hfront, hback⟩ := hp
  refine ⟨back ++ c :: rest, ?_, skip_append_cons hback hc.1⟩
  have hstops : Stops (back ++ c :: rest) := stops_append hback (stops_cons hc.2)
  have hread := hf.value h (by omega) hfront hstops
  simpa using hread

theorem SpellsItems.skip_ne (h : SpellsItems cs js) (tail rest : List Char) :
    skip (cs ++ tail) ≠ ']' :: rest := by
  have hpadded {core cs tail : List Char} {j : Json} (h : Spells core j) (hp : Padded core cs) :
      skip (cs ++ tail) ≠ ']' :: rest := by
    obtain ⟨front, back, rfl, hfront, -⟩ := hp
    obtain ⟨c, core, rfl, hc⟩ := h.exists_head
    obtain ⟨⟨hspace, hclose⟩, -⟩ : (isSpace c = false ∧ c ≠ ']') ∧ c ≠ '\x7d' := by
      simpa [isOpening] using hc
    rw [List.append_assoc, List.cons_append, List.cons_append, skip_append_cons hfront hspace]
    exact fun heq => hclose (List.cons.inj heq).1
  cases h with
  | last h hp => exact hpadded h hp
  | more h hp hrest =>
      rw [List.append_assoc]
      exact hpadded h hp

theorem SpellsMembers.skip_ne (h : SpellsMembers cs ms) (tail rest : List Char) :
    skip (cs ++ tail) ≠ '\x7d' :: rest := by
  have hpadded {body key tail : List Char} (hk : Padded ('"' :: (body ++ ['"'])) key) :
      skip (key ++ tail) ≠ '\x7d' :: rest := by
    obtain ⟨front, back, rfl, hfront, -⟩ := hk
    rw [List.append_assoc, List.cons_append, List.cons_append, skip_append_cons hfront rfl]
    exact fun heq => absurd (List.cons.inj heq).1 (by decide)
  cases h with
  | last _ hk | more _ hk =>
      rw [List.append_assoc]
      exact hpadded hk

theorem Finds.zero : Finds 0 where
  value h hlen := by
    obtain ⟨c, rest, rfl, -⟩ := h.exists_head
    cases hlen
  items _ hlen _ := absurd hlen (Nat.not_lt_zero _)
  members _ hlen _ := absurd hlen (Nat.not_lt_zero _)

theorem Finds.value_succ (hf : Finds fuel) {cs ws rest : List Char} {j : Json} (h : Spells cs j)
    (hlen : cs.length ≤ fuel + 1) (hws : Spaces ws) (hr : Stops rest) :
    readValue (fuel + 1) (ws ++ (cs ++ rest)) = some (j, rest) := by
  rw [← readValue_skip, skip_append hws, readValue_skip]
  cases h with
  | null | yes | no => rfl
  | number h => exact readValue_number h hr
  | text h =>
      have hread := readValue_text fuel h rest
      simpa using hread
  | noItems hws =>
      rw [List.cons_append, readValue, skip_cons rfl, List.append_assoc]
      simp only [List.singleton_append, skip_append_cons hws (c := ']') rfl]
  | noMembers hws =>
      rw [List.cons_append, readValue, skip_cons rfl, List.append_assoc]
      simp only [List.singleton_append, skip_append_cons hws (c := '\x7d') rfl]
  | items h =>
      have hread := hf.items h (by simp at hlen; omega) rest
      rw [List.cons_append, List.append_assoc, readValue_array fun rest => h.skip_ne _ rest,
        List.singleton_append, hread]
      rfl
  | members h =>
      have hread := hf.members h (by simp at hlen; omega) rest
      rw [List.cons_append, List.append_assoc, readValue_object fun rest => h.skip_ne _ rest,
        List.singleton_append, hread]
      rfl

theorem Finds.items_succ (hf : Finds fuel) {cs : List Char} {js : List Json}
    (h : SpellsItems cs js) (hlen : cs.length < fuel + 1) (rest : List Char) :
    readItems (fuel + 1) (cs ++ ']' :: rest) = some (js, rest) := by
  cases h with
  | last h hp =>
      obtain ⟨rest', hread, hskip⟩ :=
        hf.padded (c := ']') h hp (Nat.le_of_lt_succ hlen) (by decide) rest
      rw [readItems, hread]
      simp only [Option.bind_eq_bind, Option.bind_some, hskip]
  | @more _ cs tail _ _ h hp hrest =>
      simp only [List.length_append, List.length_cons] at hlen
      obtain ⟨rest', hread, hskip⟩ :=
        hf.padded (c := ',') h hp (by omega) (by decide) (tail ++ ']' :: rest)
      have htail := hf.items hrest (by omega) rest
      rw [readItems, List.append_assoc, List.cons_append, hread]
      simp only [Option.bind_eq_bind, Option.bind_some, hskip, htail]
      rfl

/-- A key with blanks around it, before the colon. -/
theorem readMembers_key {body key : List Char} {t : Option String} (ht : Holds body t)
    (hk : Padded ('"' :: (body ++ ['"'])) key) (rest : List Char) :
    ∃ rest' rest'', skip (key ++ ':' :: rest) = '"' :: rest' ∧
      readText rest' = some (t, rest'') ∧ skip rest'' = ':' :: rest := by
  obtain ⟨front, back, rfl, hfront, hback⟩ := hk
  refine ⟨body ++ '"' :: (back ++ ':' :: rest), back ++ ':' :: rest, ?_,
    readText_eq_some_iff.2 ⟨body, rfl, ht⟩, skip_append_cons hback rfl⟩
  rw [List.append_assoc, List.cons_append, List.cons_append, skip_append_cons hfront rfl]
  simp

theorem Finds.members_succ (hf : Finds fuel) {cs : List Char} {ms : List (Option String × Json)}
    (h : SpellsMembers cs ms) (hlen : cs.length < fuel + 1) (rest : List Char) :
    readMembers (fuel + 1) (cs ++ '\x7d' :: rest) = some (ms, rest) := by
  cases h with
  | @last _ key _ cs _ _ ht hk h hp =>
      simp only [List.length_append, List.length_cons] at hlen
      obtain ⟨r, r', hquote, htext, hcolon⟩ := readMembers_key ht hk (cs ++ '\x7d' :: rest)
      obtain ⟨r'', hread, hskip⟩ :=
        hf.padded (c := '\x7d') h hp (by omega) (by decide) rest
      rw [readMembers, List.append_assoc, List.cons_append, hquote]
      simp only [htext, hcolon, hread, hskip, Option.bind_eq_bind, Option.bind_some]
  | @more _ key _ cs tail _ _ _ ht hk h hp hrest =>
      simp only [List.length_append, List.length_cons] at hlen
      obtain ⟨r, r', hquote, htext, hcolon⟩ :=
        readMembers_key ht hk (cs ++ ',' :: (tail ++ '\x7d' :: rest))
      obtain ⟨r'', hread, hskip⟩ :=
        hf.padded (c := ',') h hp (by omega) (by decide) (tail ++ '\x7d' :: rest)
      have htail := hf.members hrest (by omega) rest
      rw [readMembers, List.append_assoc, List.cons_append, List.append_assoc, List.cons_append, hquote]
      simp only [htext, hcolon, hread, hskip, htail, Option.bind_eq_bind, Option.bind_some]
      rfl

theorem finds (fuel : Nat) : Finds fuel := by
  induction fuel with
  | zero => exact .zero
  | succ fuel ih => exact ⟨ih.value_succ, ih.items_succ, ih.members_succ⟩

end Completeness

section Soundness

variable {cs : List Char} {j : Json} {js : List Json} {ms : List (Option String × Json)} {fuel : Nat}

/-- With so many levels the reader finds nothing but what the grammar allows. -/
structure Keeps (fuel : Nat) : Prop where
  value {cs rest : List Char} {j : Json} (h : readValue fuel cs = some (j, rest)) :
    ∃ ws core, cs = ws ++ (core ++ rest) ∧ Spaces ws ∧ Spells core j
  items {cs rest : List Char} {js : List Json} (h : readItems fuel cs = some (js, rest)) :
    ∃ body, cs = body ++ ']' :: rest ∧ SpellsItems body js
  members {cs rest : List Char} {ms : List (Option String × Json)}
    (h : readMembers fuel cs = some (ms, rest)) :
    ∃ body, cs = body ++ '\x7d' :: rest ∧ SpellsMembers body ms

theorem Keeps.zero : Keeps 0 where
  value h := by cases h
  items h := by cases h
  members h := by cases h

theorem Keeps.value_succ (hk : Keeps fuel) {cs rest : List Char} {j : Json}
    (h : readValue (fuel + 1) cs = some (j, rest)) :
    ∃ ws core, cs = ws ++ (core ++ rest) ∧ Spaces ws ∧ Spells core j := by
  obtain ⟨ws, hcs, hws⟩ := exists_skip cs
  suffices hcore : ∃ core, skip cs = core ++ rest ∧ Spells core j by
    obtain ⟨core, hcore, hj⟩ := hcore
    exact ⟨ws, core, by rw [← hcore, ← hcs], hws, hj⟩
  rw [readValue] at h
  generalize skip cs = cs at h
  -- the first characters decide between literals, texts, arrays, objects and, for the rest, numbers
  split at h
  · obtain ⟨rfl, rfl⟩ : .null = j ∧ _ = rest := by simpa using h
    exact ⟨_, rfl, .null⟩
  · obtain ⟨rfl, rfl⟩ : .bool true = j ∧ _ = rest := by simpa using h
    exact ⟨_, rfl, .yes⟩
  · obtain ⟨rfl, rfl⟩ : .bool false = j ∧ _ = rest := by simpa using h
    exact ⟨_, rfl, .no⟩
  · obtain ⟨⟨t, rest⟩, htext, h⟩ := Option.map_eq_some_iff.1 h
    obtain ⟨rfl, rfl⟩ : .text t = j ∧ rest = _ := by simpa using h
    obtain ⟨body, rfl, ht⟩ := readText_eq_some_iff.1 htext
    exact ⟨'"' :: (body ++ ['"']), by simp, .text ht⟩
  · next cs =>
      obtain ⟨ws, hcs, hws⟩ := exists_skip cs
      split at h
      · next hclose =>
          obtain ⟨rfl, rfl⟩ : .array [] = j ∧ _ = rest := by simpa using h
          exact ⟨'[' :: (ws ++ [']']), by rw [hcs, hclose]; simp, .noItems hws⟩
      · rw [readItems_skip] at h
        obtain ⟨⟨js, rest⟩, hitems, h⟩ := Option.map_eq_some_iff.1 h
        obtain ⟨rfl, rfl⟩ : .array js = j ∧ rest = _ := by simpa using h
        obtain ⟨body, rfl, hbody⟩ := hk.items hitems
        exact ⟨'[' :: (body ++ [']']), by simp, .items hbody⟩
  · next cs =>
      obtain ⟨ws, hcs, hws⟩ := exists_skip cs
      split at h
      · next hclose =>
          obtain ⟨rfl, rfl⟩ : .object [] = j ∧ _ = rest := by simpa using h
          exact ⟨'\x7b' :: (ws ++ ['\x7d']), by rw [hcs, hclose]; simp, .noMembers hws⟩
      · rw [readMembers_skip] at h
        obtain ⟨⟨ms, rest⟩, hmembers, h⟩ := Option.map_eq_some_iff.1 h
        obtain ⟨rfl, rfl⟩ : .object ms = j ∧ rest = _ := by simpa using h
        obtain ⟨body, rfl, hbody⟩ := hk.members hmembers
        exact ⟨'\x7b' :: (body ++ ['\x7d']), by simp, .members hbody⟩
  · obtain ⟨body, rfl, hbody⟩ := exists_numeral h
    exact ⟨body, rfl, .number hbody⟩

/-- A value up to a character behind the blanks that follow it. -/
theorem Keeps.padded (hk : Keeps fuel) {cs rest rest' : List Char} {c : Char} {j : Json}
    (h : readValue fuel cs = some (j, rest)) (hskip : skip rest = c :: rest') :
    ∃ core body, cs = body ++ c :: rest' ∧ Spells core j ∧ Padded core body := by
  obtain ⟨ws, core, rfl, hws, hcore⟩ := hk.value h
  obtain ⟨back, hback, hspaces⟩ := exists_skip rest
  refine ⟨core, ws ++ (core ++ back), ?_, hcore, ws, back, rfl, hws, hspaces⟩
  rw [← hskip, List.append_assoc, List.append_assoc, ← hback]

theorem Keeps.items_succ (hk : Keeps fuel) {cs rest : List Char} {js : List Json}
    (h : readItems (fuel + 1) cs = some (js, rest)) :
    ∃ body, cs = body ++ ']' :: rest ∧ SpellsItems body js := by
  simp only [readItems, Option.bind_eq_bind, Option.bind_eq_some_iff, Prod.exists] at h
  obtain ⟨j, r, hread, h⟩ := h
  split at h
  · next hskip =>
      obtain ⟨rfl, rfl⟩ : [j] = js ∧ _ = rest := by simpa using h
      obtain ⟨core, body, rfl, hcore, hp⟩ := hk.padded hread hskip
      exact ⟨body, rfl, .last hcore hp⟩
  · next tail hskip =>
      obtain ⟨js, hitems, rfl⟩ : ∃ js', readItems fuel tail = some (js', rest) ∧ j :: js' = js := by
        simpa [Option.bind_eq_some_iff] using h
      obtain ⟨core, body, rfl, hcore, hp⟩ := hk.padded hread hskip
      obtain ⟨body', rfl, hbody⟩ := hk.items hitems
      exact ⟨body ++ ',' :: body', by simp, .more hcore hp hbody⟩
  · cases h

/-- What is read up to a colon is a key with blanks around it. -/
theorem exists_key {r r' rest : List Char} {t : Option String} (hquote : skip cs = '"' :: r)
    (htext : readText r = some (t, r')) (hcolon : skip r' = ':' :: rest) :
    ∃ body key, cs = key ++ ':' :: rest ∧ Holds body t ∧ Padded ('"' :: (body ++ ['"'])) key := by
  obtain ⟨body, rfl, ht⟩ := readText_eq_some_iff.1 htext
  obtain ⟨front, hfront, hspaces⟩ := exists_skip cs
  obtain ⟨back, hback, hspaces'⟩ := exists_skip r'
  refine ⟨body, front ++ ('"' :: (body ++ ['"']) ++ back), ?_, ht, front, back, rfl, hspaces, hspaces'⟩
  rw [hfront, hquote, hback, hcolon]
  simp

theorem Keeps.members_succ (hk : Keeps fuel) {cs rest : List Char}
    {ms : List (Option String × Json)} (h : readMembers (fuel + 1) cs = some (ms, rest)) :
    ∃ body, cs = body ++ '\x7d' :: rest ∧ SpellsMembers body ms := by
  rw [readMembers] at h
  split at h
  · next hquote =>
      simp only [Option.bind_eq_bind, Option.bind_eq_some_iff, Prod.exists] at h
      obtain ⟨t, r, htext, h⟩ := h
      split at h
      · next hcolon =>
          obtain ⟨body, key, rfl, ht, hkey⟩ := exists_key hquote htext hcolon
          simp only [Option.bind_eq_some_iff, Prod.exists] at h
          obtain ⟨j, r, hread, h⟩ := h
          split at h
          · next hskip =>
              obtain ⟨rfl, rfl⟩ : [(t, j)] = ms ∧ _ = rest := by simpa using h
              obtain ⟨core, value, rfl, hcore, hp⟩ := hk.padded hread hskip
              exact ⟨_, by simp, .last ht hkey hcore hp⟩
          · next tail hskip =>
              obtain ⟨ms, hmembers, rfl⟩ :
                  ∃ ms', readMembers fuel tail = some (ms', rest) ∧ (t, j) :: ms' = ms := by
                simpa [Option.bind_eq_some_iff] using h
              obtain ⟨core, value, rfl, hcore, hp⟩ := hk.padded hread hskip
              obtain ⟨body', rfl, hbody⟩ := hk.members hmembers
              exact ⟨_, by simp, .more ht hkey hcore hp hbody⟩
          · cases h
      · cases h
  · cases h

theorem keeps (fuel : Nat) : Keeps fuel := by
  induction fuel with
  | zero => exact .zero
  | succ fuel ih => exact ⟨ih.value_succ, ih.items_succ, ih.members_succ⟩

end Soundness

section Texts

variable {cs : List Char} {j j' : Json}

/-- **JSON texts**, and no others, are read, as what they spell. -/
theorem parse_eq_some_iff : parse cs = some j ↔ Document cs j := by
  constructor
  · intro h
    simp only [parse, Option.bind_eq_some_iff, Prod.exists] at h
    obtain ⟨j', rest, hread, h⟩ := h
    split at h
    · next hrest =>
        obtain rfl : j' = j := by simpa using h
        obtain ⟨ws, core, rfl, hws, hcore⟩ := (keeps _).value hread
        obtain ⟨back, hback, hspaces⟩ := exists_skip rest
        rw [List.isEmpty_iff.1 hrest, List.append_nil] at hback
        exact ⟨core, hcore, ws, rest, rfl, hws, hback ▸ hspaces⟩
    · cases h
  · rintro ⟨core, hcore, front, back, rfl, hfront, hback⟩
    have hstops : Stops back := by
      rw [← List.append_nil back]
      exact stops_append hback (by simp [Stops])
    have hread := (finds (depthBound (front ++ (core ++ back)))).value hcore
      (by simp [depthBound]; omega) hfront hstops
    have hskip : skip back = [] := by
      rw [← List.append_nil back, skip_append hback]
      rfl
    simp only [parse, hread, Option.bind_some, hskip]
    rfl

/-- A text holds one value at most. -/
theorem Document.unique (h : Document cs j) (h' : Document cs j') : j = j' :=
  Option.some.inj ((parse_eq_some_iff.2 h).symm.trans (parse_eq_some_iff.2 h'))

end Texts

end Json
end MeshExchange
