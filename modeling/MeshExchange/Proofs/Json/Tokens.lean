import MeshExchange.Json.Reader
import MeshExchange.Proofs.Text.Numerals

/-!
# Strings and numbers in JSON

A string may hold a character as it is, behind a backslash, or as a unit of two bytes in hexadecimal; a
character beyond two bytes is a pair of units. A number has digits without a zero in front of others, and
behind them perhaps a fraction and an exponent.

**Method.** Each kind of token is described by the characters that it is made of, without what follows it.
The reader is related to this in both directions. A string ends by itself, so for strings the two are one
equivalence. A number ends where nothing follows that could belong to it (`Stops`).

**Results.**
* `Json.Spaces`, `Json.skip_append`: blanks between tokens;
* `Json.Quoted`, `Json.Denotes`, `Json.Holds`: what stands between quotes, and the text that it holds;
* `Json.readText_eq_some_iff`: strings, and nothing else, are read as the text that they hold;
* `Json.Numeral`, `Json.Numeral.readNumber_eq`, `Json.exists_numeral`: numbers, and nothing else, are
  read as far as they go.
-/

namespace MeshExchange
namespace Json

section Spacing

/-- Blanks between tokens. -/
def Spaces (cs : List Char) : Prop := ∀ c ∈ cs, isSpace c = true

variable {cs ws : List Char}

theorem skip_append (h : Spaces ws) : skip (ws ++ cs) = skip cs :=
  List.dropWhile_append_of_pos h

theorem skip_of_head (h : ∀ c ∈ cs.head?, isSpace c = false) : skip cs = cs := by
  cases cs with
  | nil => rfl
  | cons c cs => simp [skip, h c rfl]

theorem exists_skip (cs : List Char) : ∃ ws, cs = ws ++ skip cs ∧ Spaces ws :=
  ⟨cs.takeWhile isSpace, List.takeWhile_append_dropWhile.symm, fun _ hc => List.mem_takeWhile_imp hc⟩

end Spacing

section Strings

/-- What may stand between quotes, and the pieces it is made of. -/
inductive Quoted : List Char → List Piece → Prop
  | nil : Quoted [] []
  | plain {c : Char} {cs : List Char} {ps : List Piece} (hc : 0x20 ≤ c.toNat) (hq : c ≠ '"')
      (hb : c ≠ '\\') (h : Quoted cs ps) : Quoted (c :: cs) (.char c :: ps)
  | letter {e c : Char} {cs : List Char} {ps : List Piece} (he : escaped? e = some c)
      (h : Quoted cs ps) : Quoted ('\\' :: e :: cs) (.char c :: ps)
  | unit {a b c d : Char} {n : Nat} {cs : List Char} {ps : List Piece} (hn : unit? a b c d = some n)
      (h : Quoted cs ps) : Quoted ('\\' :: 'u' :: a :: b :: c :: d :: cs) (.unit n :: ps)

/-- Pieces denote characters: a unit stands for itself, two halves of a pair for one character. -/
inductive Denotes : List Piece → List Char → Prop
  | nil : Denotes [] []
  | char {c : Char} {ps : List Piece} {cs : List Char} (h : Denotes ps cs) :
      Denotes (.char c :: ps) (c :: cs)
  | unit {n : Nat} {ps : List Piece} {cs : List Char} (hh : isHigh n = false) (hl : isLow n = false)
      (h : Denotes ps cs) : Denotes (.unit n :: ps) (Char.ofNat n :: cs)
  | pair {high low : Nat} {ps : List Piece} {cs : List Char} (hh : isHigh high = true)
      (hl : isLow low = true) (h : Denotes ps cs) :
      Denotes (.unit high :: .unit low :: ps)
        (Char.ofNat (0x10000 + (high - 0xD800) * 0x400 + (low - 0xDC00)) :: cs)

/-- What stands between quotes holds a text, or none if half of a pair stands alone. -/
inductive Holds : List Char → Option String → Prop
  | text {body : List Char} {ps : List Piece} {cs : List Char} (hq : Quoted body ps)
      (hd : Denotes ps cs) : Holds body (some (String.ofList cs))
  | noText {body : List Char} {ps : List Piece} (hq : Quoted body ps) (hd : ∀ cs, ¬ Denotes ps cs) :
      Holds body none

variable {cs body rest : List Char} {ps : List Piece} {t : Option String}

theorem exists_quoted_of_pieces (h : pieces cs = some (ps, rest)) :
    ∃ body, cs = body ++ '"' :: rest ∧ Quoted body ps := by
  fun_induction pieces cs generalizing ps rest with
  | case1 => cases h
  | case2 tail =>
      obtain ⟨rfl, rfl⟩ : [] = ps ∧ tail = rest := by simpa using h
      exact ⟨[], rfl, .nil⟩
  | case3 a b c d tail ih =>
      obtain ⟨n, hn, ps, hps, rfl⟩ : ∃ n, unit? a b c d = some n ∧
          ∃ ps', pieces tail = some (ps', rest) ∧ .unit n :: ps' = ps := by
        simpa [Option.bind_eq_some_iff] using h
      obtain ⟨body, rfl, hbody⟩ := ih hps
      exact ⟨'\\' :: 'u' :: a :: b :: c :: d :: body, rfl, .unit hn hbody⟩
  | case4 e tail _ ih =>
      obtain ⟨c, hc, ps, hps, rfl⟩ : ∃ c, escaped? e = some c ∧
          ∃ ps', pieces tail = some (ps', rest) ∧ .char c :: ps' = ps := by
        simpa [Option.bind_eq_some_iff] using h
      obtain ⟨body, rfl, hbody⟩ := ih hps
      exact ⟨'\\' :: e :: body, rfl, .letter hc hbody⟩
  | case5 => cases h
  | case6 c tail hquote hunit hescape hlow ih =>
      obtain ⟨ps, hps, rfl⟩ : ∃ ps', pieces tail = some (ps', rest) ∧ .char c :: ps' = ps := by
        simpa [Option.bind_eq_some_iff] using h
      obtain ⟨body, rfl, hbody⟩ := ih hps
      refine ⟨c :: body, rfl, .plain (Nat.le_of_not_lt hlow) hquote ?_ hbody⟩
      -- a backslash has something behind it, at least the closing quote
      rintro rfl
      cases body with
      | nil => exact hescape _ _ rfl rfl
      | cons e body => exact hescape _ _ rfl rfl

theorem Quoted.pieces_eq (h : Quoted body ps) : pieces (body ++ '"' :: rest) = some (ps, rest) := by
  induction h with
  | nil => rfl
  | @plain c cs ps hc hq hb h ih =>
      rw [List.cons_append, pieces, if_neg (Nat.not_lt.2 hc), ih]
      · rfl
      · exact hq
      · exact fun _ _ _ _ _ hc' _ => hb hc'
      · exact fun _ _ hc' _ => hb hc'
  | @letter e c cs ps he h ih =>
      have hu : e ≠ 'u' := by
        rintro rfl
        cases he
      rw [List.cons_append, List.cons_append, pieces, he, ih]
      · rfl
      · exact fun _ _ _ _ _ he' _ => hu he'
  | unit hn h ih =>
      simp only [List.cons_append, pieces, hn, ih]
      rfl

/-- **What stands up to the closing quote** is read piece by piece. -/
theorem pieces_eq_some_iff :
    pieces cs = some (ps, rest) ↔ ∃ body, cs = body ++ '"' :: rest ∧ Quoted body ps := by
  refine ⟨exists_quoted_of_pieces, ?_⟩
  rintro ⟨body, rfl, h⟩
  exact h.pieces_eq

/-- Pieces are read as the characters that they denote. -/
theorem characters_eq_some_iff : characters ps = some cs ↔ Denotes ps cs := by
  constructor
  · intro h
    fun_induction characters ps generalizing cs with
    | case1 =>
        obtain rfl : [] = cs := by simpa using h
        exact .nil
    | case2 c ps ih =>
        obtain ⟨cs, hcs, rfl⟩ := Option.map_eq_some_iff.1 h
        exact .char (ih hcs)
    | case3 high low ps hh hl ih =>
        obtain ⟨cs, hcs, rfl⟩ := Option.map_eq_some_iff.1 h
        exact .pair hh hl (ih hcs)
    | case4 | case5 => cases h
    | case6 n low ps hh hl ih =>
        obtain ⟨cs, hcs, rfl⟩ := Option.map_eq_some_iff.1 h
        exact .unit (by simpa using hh) (by simpa using hl) (ih hcs)
    | case7 => cases h
    | case8 n ps _ hn ih =>
        obtain ⟨hh, hl⟩ : isHigh n = false ∧ isLow n = false := by simpa using hn
        obtain ⟨cs, hcs, rfl⟩ := Option.map_eq_some_iff.1 h
        exact .unit hh hl (ih hcs)
  · intro h
    induction h with
    | nil => rfl
    | char h ih => simp [characters, ih]
    | pair hh hl h ih => simp [characters, hh, hl, ih]
    | @unit n ps cs hh hl h ih =>
        cases ps with
        | nil => simp_all [characters]
        | cons q ps =>
            cases q with
            | char c => simp_all [characters]
            | unit low => simp_all [characters]

/-- **A string** is read up to its closing quote, as the text that it holds. -/
theorem readText_eq_some_iff :
    readText cs = some (t, rest) ↔ ∃ body, cs = body ++ '"' :: rest ∧ Holds body t := by
  have hread : readText cs = some (t, rest) ↔
      ∃ ps, pieces cs = some (ps, rest) ∧ (characters ps).map String.ofList = t := by
    simp [readText, Prod.ext_iff]
  rw [hread]
  constructor
  · rintro ⟨ps, hps, rfl⟩
    obtain ⟨body, hbody, hq⟩ := pieces_eq_some_iff.1 hps
    refine ⟨body, hbody, ?_⟩
    cases hcs : characters ps with
    | some cs => exact .text hq (characters_eq_some_iff.1 hcs)
    | none =>
        refine .noText hq fun cs hd => ?_
        rw [characters_eq_some_iff.2 hd] at hcs
        cases hcs
  · rintro ⟨body, hbody, h⟩
    cases h with
    | text hq hd =>
        exact ⟨_, pieces_eq_some_iff.2 ⟨body, hbody, hq⟩, by rw [characters_eq_some_iff.2 hd]; rfl⟩
    | @noText ps hq hd =>
        refine ⟨_, pieces_eq_some_iff.2 ⟨body, hbody, hq⟩, ?_⟩
        cases hcs : characters ps with
        | some cs => exact absurd (characters_eq_some_iff.1 hcs) (hd cs)
        | none => rfl

end Strings

section Numbers

/-- One or more digits. -/
structure Digits (cs : List Char) : Prop where
  ne_nil : cs ≠ []
  all : ∀ c ∈ cs, isDigit c = true

/-- The digits of a number, without a zero in front of others. -/
structure Whole (cs : List Char) (n : Nat) : Prop where
  denotes : Decimal.Denotes cs n
  eq_zero : cs.head? = some '0' → cs = ['0']

/-- Digits behind a point, or nothing. -/
inductive Fraction : List Char → Prop
  | nothing : Fraction []
  | digits {ds : List Char} (h : Digits ds) : Fraction ('.' :: ds)

/-- Digits behind a letter and perhaps a sign, or nothing. -/
inductive Exponent : List Char → Prop
  | nothing : Exponent []
  | digits {e : Char} {sign ds : List Char} (he : e = 'e' ∨ e = 'E')
      (hs : sign = [] ∨ sign = ['+'] ∨ sign = ['-']) (h : Digits ds) : Exponent (e :: (sign ++ ds))

/-- A number without its sign; what is written with a fraction or an exponent is no integer, and neither
is minus zero. -/
inductive Magnitude (negative : Bool) : List Char → Json → Prop
  | integer {ds : List Char} {n : Nat} (h : Whole ds n) (hn : negative = true → n ≠ 0) :
      Magnitude negative ds (.integer (if negative then -(n : Int) else n))
  | fraction {ds f e : List Char} {n : Nat} (h : Whole ds n) (hf : Fraction f) (he : Exponent e)
      (hne : f ≠ [] ∨ e ≠ [] ∨ negative = true ∧ n = 0) :
      Magnitude negative (ds ++ (f ++ e)) .fraction

/-- A number. -/
inductive Numeral : List Char → Json → Prop
  | plain {cs : List Char} {j : Json} (h : Magnitude false cs j) : Numeral cs j
  | minus {cs : List Char} {j : Json} (h : Magnitude true cs j) : Numeral ('-' :: cs) j

/-- Where a number has come to its end: nothing follows that could belong to it. -/
def Stops (cs : List Char) : Prop :=
  ∀ c ∈ cs.head?, isDigit c = false ∧ c ≠ '.' ∧ c ≠ 'e' ∧ c ≠ 'E'

variable {c : Char} {cs ds f e rest : List Char} {n : Nat} {b negative : Bool} {j : Json}

theorem isDigit_digit {d : Nat} (hd : d < 10) : isDigit (Decimal.digit d) = true := by
  have hall : ∀ d : Fin 10, isDigit (Decimal.digit d.val) = true := by decide
  exact hall ⟨d, hd⟩

theorem digits_of_denotes (h : Decimal.Denotes ds n) : Digits ds := by
  refine ⟨h.ne_nil, ?_⟩
  induction h with
  | one hd => simpa using isDigit_digit hd
  | more h hd ih =>
      intro c hc
      rcases List.mem_append.1 hc with hc | hc
      · exact ih c hc
      · rw [List.mem_singleton.1 hc]
        exact isDigit_digit hd

theorem Digits.digits_eq (h : Digits ds) (hr : ∀ c ∈ rest.head?, isDigit c = false) :
    digits (ds ++ rest) = some (ds, rest) := by
  have htake : (ds ++ rest).takeWhile isDigit = ds := by
    rw [List.takeWhile_append_of_pos h.all]
    cases rest with
    | nil => simp
    | cons c rest => simp [hr c rfl]
  have hdrop : (ds ++ rest).dropWhile isDigit = rest := by
    rw [List.dropWhile_append_of_pos h.all]
    cases rest with
    | nil => rfl
    | cons c rest => simp [hr c rfl]
  unfold digits
  rw [htake, hdrop]
  cases hds : ds with
  | nil => exact absurd hds h.ne_nil
  | cons d ds => rfl

theorem of_digits (h : digits cs = some (ds, rest)) : cs = ds ++ rest ∧ Digits ds := by
  unfold digits at h
  split at h
  · cases h
  · next hne =>
      obtain ⟨rfl, rfl⟩ : cs.takeWhile isDigit = ds ∧ cs.dropWhile isDigit = rest := by
        simpa using h
      exact ⟨List.takeWhile_append_dropWhile.symm, hne, fun c hc => List.mem_takeWhile_imp hc⟩

theorem Whole.wholeDigits_eq (h : Whole ds n) (hr : ∀ c ∈ rest.head?, isDigit c = false) :
    wholeDigits (ds ++ rest) = some (ds, rest) := by
  rw [wholeDigits, (digits_of_denotes h.denotes).digits_eq hr, Option.bind_some]
  split
  · next hds =>
      have hzero := h.eq_zero
      simp_all
  · rfl

theorem of_wholeDigits (h : wholeDigits cs = some (ds, rest)) :
    cs = ds ++ rest ∧ (ds.head? = some '0' → ds = ['0']) := by
  obtain ⟨⟨ds', rest'⟩, hdigits, h⟩ := Option.bind_eq_some_iff.1 h
  split at h
  · cases h
  · next hno =>
      obtain ⟨rfl, rfl⟩ : ds' = ds ∧ rest' = rest := by simpa using h
      refine ⟨(of_digits hdigits).1, fun hhead => ?_⟩
      cases ds' with
      | nil => cases hhead
      | cons d ds' =>
          obtain rfl : d = '0' := by simpa using hhead
          cases ds' with
          | nil => rfl
          | cons d' ds' => exact (hno _ _ _ rfl).elim

theorem Fraction.skipFraction_eq (h : Fraction f) (hr : ∀ c ∈ rest.head?, isDigit c = false ∧ c ≠ '.') :
    skipFraction (f ++ rest) = some (!f.isEmpty, rest) := by
  cases h with
  | nothing =>
      cases rest with
      | nil => rfl
      | cons c rest =>
          rw [List.nil_append, skipFraction]
          · rfl
          · rintro rest' ⟨⟩
            exact (hr '.' rfl).2 rfl
  | digits h =>
      rw [List.cons_append, skipFraction, h.digits_eq fun c hc => (hr c hc).1]
      rfl

theorem of_skipFraction (h : skipFraction cs = some (b, rest)) :
    ∃ f, cs = f ++ rest ∧ Fraction f ∧ (b = true ↔ f ≠ []) := by
  unfold skipFraction at h
  split at h
  · next cs =>
      obtain ⟨⟨ds, rest⟩, hdigits, h⟩ := Option.map_eq_some_iff.1 h
      obtain ⟨rfl, rfl⟩ : true = b ∧ rest = _ := by simpa using h
      obtain ⟨rfl, hds⟩ := of_digits hdigits
      exact ⟨'.' :: ds, rfl, .digits hds, by simp⟩
  · obtain ⟨rfl, rfl⟩ : false = b ∧ cs = rest := by simpa using h
    exact ⟨[], rfl, .nothing, by simp⟩

theorem skipSign_append {sign : List Char} (hs : sign = [] ∨ sign = ['+'] ∨ sign = ['-'])
    (h : Digits ds) : skipSign (sign ++ ds ++ rest) = ds ++ rest := by
  rcases hs with rfl | rfl | rfl
  · obtain ⟨d, ds, rfl⟩ := List.exists_cons_of_ne_nil h.ne_nil
    have hd := h.all d List.mem_cons_self
    rw [List.nil_append, List.cons_append, skipSign]
    · rintro rest' ⟨⟩
      cases hd
    · rintro rest' ⟨⟩
      cases hd
  · rfl
  · rfl

theorem exists_skipSign (cs : List Char) :
    ∃ sign, cs = sign ++ skipSign cs ∧ (sign = [] ∨ sign = ['+'] ∨ sign = ['-']) := by
  unfold skipSign
  split
  · exact ⟨['+'], rfl, .inr (.inl rfl)⟩
  · exact ⟨['-'], rfl, .inr (.inr rfl)⟩
  · exact ⟨[], rfl, .inl rfl⟩

theorem Exponent.skipExponent_eq (h : Exponent e) (hr : Stops rest) :
    skipExponent (e ++ rest) = some (!e.isEmpty, rest) := by
  cases h with
  | nothing =>
      cases rest with
      | nil => rfl
      | cons c rest =>
          obtain ⟨-, -, hlow, hhigh⟩ := hr c rfl
          rw [List.nil_append, skipExponent]
          · rfl
          · rintro rest' ⟨⟩
            exact hlow rfl
          · rintro rest' ⟨⟩
            exact hhigh rfl
  | digits he hs h =>
      have hds := h.digits_eq fun c hc => (hr c hc).1
      rcases he with rfl | rfl
      · simp only [List.cons_append, skipExponent, skipSign_append hs h, hds]
        rfl
      · simp only [List.cons_append, skipExponent, skipSign_append hs h, hds]
        rfl

theorem of_skipExponent (h : skipExponent cs = some (b, rest)) :
    ∃ e, cs = e ++ rest ∧ Exponent e ∧ (b = true ↔ e ≠ []) := by
  have hdigits {letter : Char} {cs : List Char} (hl : letter = 'e' ∨ letter = 'E')
      (h : ((digits (skipSign cs)).map fun found => (true, found.2)) = some (b, rest)) :
      ∃ e, letter :: cs = e ++ rest ∧ Exponent e ∧ (b = true ↔ e ≠ []) := by
    obtain ⟨⟨ds, rest⟩, hds, h⟩ := Option.map_eq_some_iff.1 h
    obtain ⟨rfl, rfl⟩ : true = b ∧ rest = _ := by simpa using h
    obtain ⟨sign, hsign, hs⟩ := exists_skipSign cs
    obtain ⟨hcs, hds⟩ := of_digits hds
    refine ⟨letter :: (sign ++ ds), ?_, .digits hl hs hds, by simp⟩
    rw [List.cons_append, List.append_assoc, ← hcs, ← hsign]
  unfold skipExponent at h
  split at h
  · exact hdigits (.inl rfl) h
  · exact hdigits (.inr rfl) h
  · obtain ⟨rfl, rfl⟩ : false = b ∧ cs = rest := by simpa using h
    exact ⟨[], rfl, .nothing, by simp⟩

/-- What may follow the digits of a number is no digit itself. -/
theorem isDigit_head_of_tail (hf : Fraction f) (he : Exponent e) (hr : Stops rest) :
    ∀ c ∈ (f ++ (e ++ rest)).head?, isDigit c = false := by
  cases hf with
  | digits => rintro c ⟨⟩; rfl
  | nothing =>
      cases he with
      | nothing => exact fun c hc => (hr c hc).1
      | digits he => rcases he with rfl | rfl <;> · rintro c ⟨⟩; rfl

theorem head_of_exponent (he : Exponent e) (hr : Stops rest) :
    ∀ c ∈ (e ++ rest).head?, isDigit c = false ∧ c ≠ '.' := by
  cases he with
  | nothing => exact fun c hc => ⟨(hr c hc).1, (hr c hc).2.1⟩
  | digits he => rcases he with rfl | rfl <;> · rintro c ⟨⟩; exact ⟨rfl, by decide⟩

theorem readMagnitude_eq (negative : Bool) (h : Whole ds n) (hf : Fraction f) (he : Exponent e)
    (hr : Stops rest) :
    readMagnitude negative (ds ++ (f ++ (e ++ rest))) =
      if f ≠ [] ∨ e ≠ [] ∨ negative = true ∧ n = 0 then some (.fraction, rest)
      else some (.integer (if negative then -(n : Int) else n), rest) := by
  have hwhole := h.wholeDigits_eq (isDigit_head_of_tail hf he hr)
  have hfraction := hf.skipFraction_eq (head_of_exponent he hr)
  simp only [readMagnitude, hwhole, hfraction, he.skipExponent_eq hr, h.denotes.value?_eq,
    Option.bind_eq_bind, Option.bind_some]
  cases f <;> cases e <;> simp

theorem Magnitude.readMagnitude_eq (h : Magnitude negative cs j) (hr : Stops rest) :
    readMagnitude negative (cs ++ rest) = some (j, rest) := by
  cases h with
  | integer h hn =>
      have hread := Json.readMagnitude_eq negative h .nothing .nothing hr
      rw [List.nil_append, List.nil_append] at hread
      rw [hread, if_neg]
      simpa using hn
  | fraction h hf he hne =>
      have hread := Json.readMagnitude_eq negative h hf he hr
      rw [List.append_assoc, List.append_assoc, hread, if_pos hne]

theorem exists_magnitude (h : readMagnitude negative cs = some (j, rest)) :
    ∃ body, cs = body ++ rest ∧ Magnitude negative body j := by
  simp only [readMagnitude, Option.bind_eq_bind, Option.bind_eq_some_iff, Prod.exists] at h
  obtain ⟨ds, r, hwhole, b, r', hfraction, b', r'', hexponent, n, hn, h⟩ := h
  obtain ⟨rfl, hzero⟩ := of_wholeDigits hwhole
  obtain ⟨f, rfl, hf, hb⟩ := of_skipFraction hfraction
  obtain ⟨e, rfl, he, hb'⟩ := of_skipExponent hexponent
  have hds : Whole ds n := ⟨Decimal.denotes_of_value? hn, hzero⟩
  split at h
  · next hne =>
      obtain ⟨rfl, rfl⟩ : .fraction = j ∧ r'' = rest := by simpa using h
      refine ⟨ds ++ (f ++ e), by simp, .fraction hds hf he ?_⟩
      simpa [hb, hb', or_assoc] using hne
  · next hno =>
      obtain ⟨rfl, rfl⟩ : .integer _ = j ∧ r'' = rest := by simpa using h
      obtain ⟨rfl, rfl, hn⟩ : f = [] ∧ e = [] ∧ (negative = true → n ≠ 0) := by
        simpa [hb, hb', not_or, and_assoc] using hno
      exact ⟨ds, rfl, .integer hds hn⟩

theorem Whole.exists_head (h : Whole ds n) : ∃ d < 10, ∃ cs, ds = Decimal.digit d :: cs := by
  obtain ⟨d, hd, hhead⟩ := h.denotes.exists_head
  exact ⟨d, hd, List.head?_eq_some_iff.1 hhead⟩

theorem Magnitude.exists_head (h : Magnitude negative cs j) :
    ∃ d < 10, ∃ cs', cs = Decimal.digit d :: cs' := by
  cases h with
  | integer h _ => exact h.exists_head
  | fraction h =>
      obtain ⟨d, hd, ds, rfl⟩ := h.exists_head
      exact ⟨d, hd, _, rfl⟩

/-- **A number** is read as far as it goes. -/
theorem Numeral.readNumber_eq (h : Numeral cs j) (hr : Stops rest) :
    readNumber (cs ++ rest) = some (j, rest) := by
  cases h with
  | plain h =>
      have hread := h.readMagnitude_eq hr
      obtain ⟨d, hd, cs, rfl⟩ := h.exists_head
      rwa [List.cons_append, readNumber]
      exact fun rest' heq => (Decimal.digit_ne_sign hd).1 (List.cons.inj heq).1
  | minus h => exact h.readMagnitude_eq hr

theorem exists_numeral (h : readNumber cs = some (j, rest)) :
    ∃ body, cs = body ++ rest ∧ Numeral body j := by
  unfold readNumber at h
  split at h
  · obtain ⟨body, rfl, hbody⟩ := exists_magnitude h
    exact ⟨'-' :: body, rfl, .minus hbody⟩
  · obtain ⟨body, rfl, hbody⟩ := exists_magnitude h
    exact ⟨body, rfl, .plain hbody⟩

end Numbers

end Json
end MeshExchange
