import Mathlib.Data.List.Forall2
import MeshExchange.Logging.Filter

/-!
# Which log filter counts

Two environment variables may hold a filter, a general one and one of this library. The settings take
the second before the first, and the filter that is built takes the first before the settings; between
them a filter that is none is passed over. So the general variable counts if it holds a filter, the other
one if that does, and the default only if neither is set.

**Method.** What words spell a filter is said without a reader: words between commas, each of which spells
an item. Reading then is a relation that can be argued about in either direction.

**Results.**
* `Filter.Spells`, `Filter.parse_eq_ok_iff`: the words that are filters, and no others, are read;
* `Filter.Chosen`, `Filter.build_ofEnvironment_eq_iff`: which filter an environment chooses, or none;
* `Filter.IsHighest`, `Filter.maxLevel_eq_iff`: the level of a filter;
* `Filter.precedence`: all of it, for every environment.
-/

namespace MeshExchange

namespace Level

/-- A word names a level: by its name in any case, or by its number. -/
def Named (l : Level) (word : List Char) : Prop :=
  word.map LogSettings.lower = l.name.toList ∨ word = Decimal.ofNat l.verbosity

instance (l : Level) (word : List Char) : Decidable (l.Named word) :=
  inferInstanceAs (Decidable (_ ∨ _))

variable {l l' : Level} {word : List Char}

/-- The words of a level in lower case. -/
def spellings (l : Level) : List (List Char) := [l.name.toList, Decimal.ofNat l.verbosity]

theorem mem_all (l : Level) : l ∈ all := by
  cases l <;> decide

theorem Named.map_lower_mem (h : l.Named word) : word.map LogSettings.lower ∈ l.spellings := by
  have hnumber : ∀ l ∈ all, (Decimal.ofNat l.verbosity).map LogSettings.lower ∈ l.spellings := by
    decide +kernel
  rcases h with h | rfl
  · simp [spellings, h]
  · exact hnumber l (mem_all l)

/-- No word names two levels. -/
theorem Named.unique (h : l.Named word) (h' : l'.Named word) : l = l' := by
  have hapart : ∀ l ∈ all, ∀ l' ∈ all, ∀ w ∈ l.spellings, w ∈ l'.spellings → l = l' := by
    decide +kernel
  exact hapart l (mem_all l) l' (mem_all l') _ h.map_lower_mem h'.map_lower_mem

theorem Named.ne_nil (h : l.Named word) : word ≠ [] := by
  rintro rfl
  have hnonempty : ∀ l ∈ all, [] ∉ l.spellings := by decide +kernel
  exact hnonempty l (mem_all l) h.map_lower_mem

theorem Named.not_mem (h : l.Named word) : '=' ∉ word := by
  intro hmem
  have hno : ∀ l ∈ all, ∀ w ∈ l.spellings, '=' ∉ w := by decide +kernel
  exact hno l (mem_all l) _ h.map_lower_mem (List.mem_map.2 ⟨'=', hmem, rfl⟩)

/-- The words that name levels, and no others, are read. -/
theorem ofWord?_eq_some_iff : ofWord? word = some l ↔ l.Named word := by
  have hread {l : Level} (h : ofWord? word = some l) : l.Named word := by
    have hnamed := List.find?_some h
    exact of_decide_eq_true hnamed
  refine ⟨hread, fun h => ?_⟩
  cases hfound : ofWord? word with
  | none =>
      have hno := List.find?_eq_none.1 hfound l (mem_all l)
      exact absurd (decide_eq_true h) hno
  | some l' => rw [(hread hfound).unique h]

theorem ofWord?_eq_none_iff : ofWord? word = none ↔ ∀ l : Level, ¬ l.Named word := by
  rw [Option.eq_none_iff_forall_ne_some]
  exact forall_congr' fun l => not_congr ofWord?_eq_some_iff

section Order

variable {a b : Level}

theorem verbosity_injective (h : a.verbosity = b.verbosity) : a = b := by
  cases a <;> cases b <;> first | rfl | cases h

theorem verbosity_max : (max a b).verbosity = Nat.max a.verbosity b.verbosity := by
  unfold max
  split
  · next h => exact (Nat.max_eq_right h).symm
  · next h => exact (Nat.max_eq_left (Nat.le_of_not_le h)).symm

end Order

end Level

namespace Directive

/-- A word names a target. -/
structure IsName (word : List Char) : Prop where
  ne_nil : word ≠ []
  chars : ∀ c ∈ word, Filter.isNameChar c = true

/-- A word spells an item of a filter. -/
inductive Spelled : List Char → Directive → Prop
  | level {word : List Char} {l : Level} (h : l.Named word) : Spelled word ⟨none, l⟩
  | target {word : List Char} (hname : IsName word) (h : ∀ l : Level, ¬ l.Named word) :
      Spelled word ⟨some (String.ofList word), .trace⟩
  | bounded {target word : List Char} {l : Level} (hname : IsName target) (h : l.Named word) :
      Spelled (target ++ '=' :: word) ⟨some (String.ofList target), l⟩
  | unbounded {target : List Char} (hname : IsName target) :
      Spelled (target ++ ['=']) ⟨some (String.ofList target), .trace⟩

variable {word : List Char} {d : Directive}

/-- An equals sign ends a name. -/
theorem IsName.not_mem (h : IsName word) : '=' ∉ word := by
  intro hmem
  have hchar := h.chars '=' hmem
  exact absurd hchar (by decide)

theorem Spelled.ne_nil (h : Spelled word d) : word ≠ [] := by
  cases h with
  | level h => exact h.ne_nil
  | target hname => exact hname.ne_nil
  | bounded | unbounded => simp

end Directive

namespace Filter

variable {cs word : List Char} {words : String} {f f' : Filter} {d : Directive}
  {items : List (List Char)} {fault : LogFault} {env : Environment}

/-- Words between commas spell a filter, one item each; empty words do not count. -/
def Spells (words : String) (f : Filter) : Prop :=
  ∃ items : List (List Char), words.toList = [','].intercalate items ∧ (∀ item ∈ items, ',' ∉ item) ∧
    List.Forall₂ Directive.Spelled (items.filter (!·.isEmpty)) f

section Items

theorem levelBehind_eq_some_iff {l : Level} :
    levelBehind word = some l ↔ l.Named word ∨ word = [] ∧ l = .trace := by
  unfold levelBehind
  cases word with
  | nil =>
      have hno : ¬ l.Named [] := fun h => h.ne_nil rfl
      simp [hno, eq_comm]
  | cons c cs => simp [Level.ofWord?_eq_some_iff]

theorem readTarget_eq_some_iff {target : String} :
    readTarget word = some target ↔ Directive.IsName word ∧ String.ofList word = target := by
  have hname : (!word.isEmpty && word.all isNameChar) = true ↔ Directive.IsName word := by
    rw [Bool.and_eq_true, List.all_eq_true]
    exact ⟨fun ⟨hne, hall⟩ => ⟨by simpa using hne, hall⟩, fun h => ⟨by simpa using h.ne_nil, h.chars⟩⟩
  by_cases h : Directive.IsName word
  · rw [readTarget, if_pos (hname.2 h), Option.some.injEq]
    exact ⟨fun heq => ⟨h, heq⟩, And.right⟩
  · rw [readTarget, if_neg (mt hname.1 h)]
    exact iff_of_false (by simp) fun hn => h hn.1

/-- An equals sign is where a word is divided. -/
theorem readItem_append_cons (h : '=' ∉ cs) :
    readItem (cs ++ '=' :: word) =
      (readTarget cs).bind fun target => (levelBehind word).map fun l => ⟨some target, l⟩ := by
  have hcs : ∀ c ∈ cs, (c != '=') = true := fun c hc => bne_iff_ne.2 fun hc' => h (hc' ▸ hc)
  have hbehind : (cs ++ '=' :: word).dropWhile (· != '=') = '=' :: word := by
    rw [List.dropWhile_append_of_pos hcs]
    rfl
  have hfront : (cs ++ '=' :: word).takeWhile (· != '=') = cs := by
    rw [List.takeWhile_append_of_pos hcs]
    exact List.append_nil cs
  simp only [readItem, hbehind, hfront]

theorem readItem_of_not_mem (h : '=' ∉ cs) :
    readItem cs = (Level.ofWord? cs).elim
      ((readTarget cs).map fun target => ⟨some target, .trace⟩) fun l => some ⟨none, l⟩ := by
  have hall : cs.dropWhile (· != '=') = [] := by
    rw [← List.append_nil cs, List.dropWhile_append_of_pos]
    · rfl
    · exact fun c hc => bne_iff_ne.2 fun hc' => h (hc' ▸ hc)
  simp only [readItem, hall]
  cases Level.ofWord? cs <;> rfl

/-- **The words that spell items**, and no others, are read. -/
theorem readItem_eq_some_iff : readItem cs = some d ↔ Directive.Spelled cs d := by
  constructor
  · intro h
    by_cases heq : '=' ∈ cs
    · obtain ⟨word, behind, rfl, hno⟩ := List.eq_append_cons_of_mem heq
      rw [readItem_append_cons hno] at h
      obtain ⟨target, htarget, h⟩ := Option.bind_eq_some_iff.1 h
      obtain ⟨l, hl, rfl⟩ := Option.map_eq_some_iff.1 h
      obtain ⟨hname, rfl⟩ := readTarget_eq_some_iff.1 htarget
      rcases levelBehind_eq_some_iff.1 hl with hl | ⟨rfl, rfl⟩
      · exact .bounded hname hl
      · exact .unbounded hname
    · rw [readItem_of_not_mem heq] at h
      cases hl : Level.ofWord? cs with
      | some l =>
          obtain rfl : ⟨none, l⟩ = d := by simpa [hl] using h
          exact .level (Level.ofWord?_eq_some_iff.1 hl)
      | none =>
          rw [hl] at h
          obtain ⟨target, htarget, rfl⟩ := Option.map_eq_some_iff.1 h
          obtain ⟨hname, rfl⟩ := readTarget_eq_some_iff.1 htarget
          exact .target hname (Level.ofWord?_eq_none_iff.1 hl)
  · intro h
    cases h with
    | level h =>
        rw [readItem_of_not_mem h.not_mem, Level.ofWord?_eq_some_iff.2 h]
        rfl
    | target hname h =>
        rw [readItem_of_not_mem hname.not_mem, Level.ofWord?_eq_none_iff.2 h,
          readTarget_eq_some_iff.2 ⟨hname, rfl⟩]
        rfl
    | bounded hname h =>
        rw [readItem_append_cons hname.not_mem, readTarget_eq_some_iff.2 ⟨hname, rfl⟩,
          levelBehind_eq_some_iff.2 (.inl h)]
        rfl
    | unbounded hname =>
        rw [readItem_append_cons hname.not_mem, readTarget_eq_some_iff.2 ⟨hname, rfl⟩,
          levelBehind_eq_some_iff.2 (.inr ⟨rfl, rfl⟩)]
        rfl

end Items

section Lists

/-- Dividing at a separator is the division of lists. -/
theorem splitOn_eq (separator : Char) (cs : List Char) :
    splitOn separator cs = cs.splitOn separator := by
  induction cs with
  | nil => rfl
  | cons c cs ih =>
      rw [List.splitOn_eq_splitOnP] at ih ⊢
      rw [List.splitOnP_cons_eq_if_modifyHead, splitOn, ih]
      simp only [beq_iff_eq]
      split
      · rfl
      · cases hparts : cs.splitOnP (· == separator) with
        | nil => exact absurd hparts (List.splitOnP_ne_nil _ _)
        | cons part parts => rfl

theorem not_mem_of_mem_splitOn {separator : Char} {part : List Char}
    (h : part ∈ splitOn separator cs) : separator ∉ part := by
  induction cs generalizing part with
  | nil =>
      obtain rfl : part = [] := by simpa [splitOn] using h
      simp
  | cons c cs ih =>
      simp only [splitOn] at h
      split at h
      · rcases List.mem_cons.1 h with rfl | h
        · simp
        · exact ih h
      · next hc =>
          cases hparts : splitOn separator cs with
          | nil =>
              obtain rfl : part = [c] := by simpa [hparts] using h
              simpa using Ne.symm hc
          | cons first parts =>
              rw [hparts] at h ih
              rcases List.mem_cons.1 h with rfl | h
              · simpa [Ne.symm hc] using ih List.mem_cons_self
              · exact ih (List.mem_cons_of_mem _ h)

theorem mapM_readItem_eq_some_iff :
    items.mapM readItem = some f ↔ List.Forall₂ Directive.Spelled items f := by
  induction items generalizing f with
  | nil => simp [eq_comm]
  | cons item items ih =>
      simp only [List.mapM_cons, Option.bind_eq_bind, Option.bind_eq_some_iff, readItem_eq_some_iff,
        ih, List.forall₂_cons_left_iff, Option.pure_def, Option.some.injEq]
      constructor
      · rintro ⟨d, hd, f, hf, rfl⟩
        exact ⟨d, f, hd, hf, rfl⟩
      · rintro ⟨d, f, hd, hf, rfl⟩
        exact ⟨d, hd, f, hf, rfl⟩

theorem parse_ne_error (h : fault ≠ .badFilter) : parse words ≠ .error fault := by
  unfold parse
  split
  · simp
  · simpa using h.symm

/-- **The words that spell filters**, and no others, are read. -/
theorem parse_eq_ok_iff : parse words = .ok f ↔ Spells words f := by
  have hread : parse words = .ok f ↔
      ((splitOn ',' words.toList).filter (!·.isEmpty)).mapM readItem = some f := by
    unfold parse
    split <;> simp_all
  rw [hread, mapM_readItem_eq_some_iff]
  constructor
  · intro h
    refine ⟨splitOn ',' words.toList, ?_, fun item hitem => not_mem_of_mem_splitOn hitem, h⟩
    rw [splitOn_eq, List.intercalate_splitOn]
  · rintro ⟨items, hwords, hcomma, h⟩
    cases items with
    | nil =>
        rw [hwords]
        exact h
    | cons item items => rwa [hwords, splitOn_eq, List.splitOn_intercalate ',' hcomma (by simp)]

theorem parse_eq_error_iff : parse words = .error .badFilter ↔ ∀ f, ¬ Spells words f := by
  simp only [← parse_eq_ok_iff]
  cases h : parse words with
  | ok f => simp
  | error fault =>
      by_cases hf : fault = .badFilter
      · simp [hf]
      · exact absurd h (parse_ne_error hf)

end Lists

section Levels

/-- A level is that of an item, and no item has a more verbose one. -/
structure IsHighest (f : Filter) (l : Level) : Prop where
  exists_mem : ∃ d ∈ f, d.level = l
  le : ∀ d ∈ f, d.level.verbosity ≤ l.verbosity

theorem IsHighest.unique {l l' : Level} (h : IsHighest f l) (h' : IsHighest f l') : l = l' := by
  obtain ⟨d, hd, rfl⟩ := h.exists_mem
  obtain ⟨d', hd', rfl⟩ := h'.exists_mem
  exact Level.verbosity_injective (Nat.le_antisymm (h'.le d hd) (h.le d' hd'))

theorem IsHighest.of_perm {l : Level} (h : IsHighest f l) (hf : f'.Perm f) : IsHighest f' l := by
  obtain ⟨d, hd, hl⟩ := h.exists_mem
  exact ⟨⟨d, hf.mem_iff.2 hd, hl⟩, fun d hd => h.le d (hf.mem_iff.1 hd)⟩

theorem foldl_max_mem (a : Level) (ls : List Level) : ls.foldl Level.max a ∈ a :: ls := by
  induction ls generalizing a with
  | nil => simp
  | cons l ls ih =>
      have hmax : Level.max a l = a ∨ Level.max a l = l := by
        unfold Level.max
        split <;> simp
      rw [List.foldl_cons]
      rcases List.mem_cons.1 (ih (Level.max a l)) with h | h
      · rw [h]
        rcases hmax with ha | ha <;> simp [ha]
      · exact List.mem_cons_of_mem _ (List.mem_cons_of_mem _ h)

theorem le_foldl_max (a : Level) (ls : List Level) :
    ∀ l ∈ a :: ls, l.verbosity ≤ (ls.foldl Level.max a).verbosity := by
  induction ls generalizing a with
  | nil => simp
  | cons b ls ih =>
      have hfirst := ih (Level.max a b) _ List.mem_cons_self
      rw [Level.verbosity_max] at hfirst
      intro l hl
      rcases List.mem_cons.1 hl with rfl | hl
      · exact Nat.le_trans (Nat.le_max_left _ _) hfirst
      rcases List.mem_cons.1 hl with rfl | hl
      · exact Nat.le_trans (Nat.le_max_right _ _) hfirst
      · exact ih _ l (List.mem_cons_of_mem _ hl)

theorem isHighest_maxLevel (hf : f ≠ []) : IsHighest f (maxLevel f) := by
  have hlevel : maxLevel f = (f.map Directive.level).foldl Level.max .off := by
    simp [maxLevel, hf]
  have hle : ∀ d ∈ f, d.level.verbosity ≤ (maxLevel f).verbosity := fun d hd => by
    rw [hlevel]
    exact le_foldl_max _ _ _ (List.mem_cons_of_mem _ (List.mem_map_of_mem hd))
  refine ⟨?_, hle⟩
  have hmem := foldl_max_mem .off (f.map Directive.level)
  rw [← hlevel] at hmem
  rcases List.mem_cons.1 hmem with hoff | hmem
  · -- nothing is logged, so the first item logs nothing
    obtain ⟨d, rest, rfl⟩ := List.exists_cons_of_ne_nil hf
    have hd := hle d List.mem_cons_self
    rw [hoff] at hd
    exact ⟨d, List.mem_cons_self, hoff ▸ Level.verbosity_injective (Nat.le_zero.1 hd)⟩
  · exact List.mem_map.1 hmem

/-- **The level of a filter** is the most verbose one of its items. -/
theorem maxLevel_eq_iff (hf : f ≠ []) {l : Level} : maxLevel f = l ↔ IsHighest f l :=
  ⟨fun h => h ▸ isHighest_maxLevel hf, (isHighest_maxLevel hf).unique⟩

/-- Items as words, each with what it spells. -/
def AreItems (items : List (List Char × Directive)) : Prop :=
  ∀ item ∈ items, ',' ∉ item.1 ∧ Directive.Spelled item.1 item.2

/-- The words of items between commas. -/
def join (items : List (List Char × Directive)) : String :=
  String.ofList ([','].intercalate (items.map (·.1)))

/-- Items between commas are a filter. -/
theorem parse_join {items : List (List Char × Directive)} (h : AreItems items) :
    parse (join items) = .ok (items.map (·.2)) := by
  have hwords : ∀ word ∈ items.map (·.1), ',' ∉ word ∧ word ≠ [] := by
    intro word hword
    obtain ⟨item, hitem, rfl⟩ := List.mem_map.1 hword
    exact ⟨(h item hitem).1, (h item hitem).2.ne_nil⟩
  have hall : (items.map (·.1)).filter (!·.isEmpty) = items.map (·.1) :=
    List.filter_eq_self.2 fun word hword => by simpa using (hwords word hword).2
  refine parse_eq_ok_iff.2
    ⟨items.map (·.1), by simp [join], fun word hword => (hwords word hword).1, ?_⟩
  rw [hall, List.forall₂_map_left_iff, List.forall₂_map_right_iff, List.forall₂_same]
  exact fun item hitem => (h item hitem).2

end Levels

section Choice

/-- A variable holds a filter. -/
def Holds (env : Environment) (name : String) : Prop :=
  ∃ words f, env name = some words ∧ Spells words f

/-- What an environment chooses: a filter, or none. -/
inductive Chosen (env : Environment) : Except LogFault Filter → Prop
  | general {words : String} {f : Filter} (hset : env "RUST_LOG" = some words)
      (hf : Spells words f) : Chosen env (.ok f)
  | own {words : String} {f : Filter} (hno : ¬ Holds env "RUST_LOG")
      (hset : env "DPA_LOG_LEVEL" = some words) (hf : Spells words f) : Chosen env (.ok f)
  | default {f : Filter} (hno : env "RUST_LOG" = none) (hno' : env "DPA_LOG_LEVEL" = none)
      (hf : Spells "info" f) : Chosen env (.ok f)
  | refused (hset : env "RUST_LOG" ≠ none ∨ env "DPA_LOG_LEVEL" ≠ none)
      (hno : ¬ Holds env "RUST_LOG") (hno' : ¬ Holds env "DPA_LOG_LEVEL") :
      Chosen env (.error .badFilter)

variable {s : LogSettings} {r : Except LogFault Filter}

/-- A filter in the general variable counts, whatever the settings are. -/
theorem build_of_spells (hset : env "RUST_LOG" = some words) (hf : Spells words f) :
    build env s = .ok f := by
  simp only [build, hset, Option.map_some, parse_eq_ok_iff.2 hf]

/-- Without one the settings count. -/
theorem build_of_not_holds (h : ¬ Holds env "RUST_LOG") : build env s = parse s.level := by
  unfold build
  split
  · next f hf =>
      obtain ⟨words, hset, hf⟩ := Option.map_eq_some_iff.1 hf
      exact absurd ⟨words, f, hset, parse_eq_ok_iff.1 hf⟩ h
  · rfl

theorem parse_of_not_holds {name : String} (hset : env name = some words)
    (h : ¬ Holds env name) : parse words = .error .badFilter :=
  parse_eq_error_iff.2 fun f hf => h ⟨words, f, hset, hf⟩

theorem not_holds_of_eq_none {name : String} (h : env name = none) : ¬ Holds env name := by
  rintro ⟨words, f, hset, -⟩
  simp [h] at hset

theorem exists_spells_info : ∃ f, Spells "info" f :=
  ⟨_, parse_eq_ok_iff.1 (show parse "info" = .ok [⟨none, .info⟩] by decide +kernel)⟩

theorem Chosen.build_eq (h : Chosen env r) : build env (LogSettings.ofEnvironment env) = r := by
  cases h with
  | general hset hf => exact build_of_spells hset hf
  | own hno hset hf =>
      rw [build_of_not_holds hno]
      simpa [LogSettings.ofEnvironment, hset] using parse_eq_ok_iff.2 hf
  | default hno hno' hf =>
      rw [build_of_not_holds (not_holds_of_eq_none hno)]
      simpa [LogSettings.ofEnvironment, hno, hno'] using parse_eq_ok_iff.2 hf
  | refused hset hno hno' =>
      rw [build_of_not_holds hno]
      -- the level is what the own variable is set to, or else what the general one is
      cases hown : env "DPA_LOG_LEVEL" with
      | some words =>
          simpa [LogSettings.ofEnvironment, hown] using parse_of_not_holds hown hno'
      | none =>
          obtain ⟨words, hgeneral⟩ :=
            Option.ne_none_iff_exists'.1 (hset.resolve_right (not_not_intro hown))
          simpa [LogSettings.ofEnvironment, hown, hgeneral] using parse_of_not_holds hgeneral hno

theorem exists_chosen (env : Environment) : ∃ r, Chosen env r := by
  by_cases hgeneral : Holds env "RUST_LOG"
  · obtain ⟨words, f, hset, hf⟩ := hgeneral
    exact ⟨_, .general hset hf⟩
  by_cases hown : Holds env "DPA_LOG_LEVEL"
  · obtain ⟨words, f, hset, hf⟩ := hown
    exact ⟨_, .own hgeneral hset hf⟩
  by_cases hset : env "RUST_LOG" ≠ none ∨ env "DPA_LOG_LEVEL" ≠ none
  · exact ⟨_, .refused hset hgeneral hown⟩
  · obtain ⟨hno, hno'⟩ : env "RUST_LOG" = none ∧ env "DPA_LOG_LEVEL" = none := by simpa using hset
    obtain ⟨f, hf⟩ := exists_spells_info
    exact ⟨_, .default hno hno' hf⟩

/-- **The filter of an environment**, built from the settings of the same environment. -/
theorem build_ofEnvironment_eq_iff :
    build env (LogSettings.ofEnvironment env) = r ↔ Chosen env r := by
  refine ⟨?_, Chosen.build_eq⟩
  rintro rfl
  obtain ⟨r, hr⟩ := exists_chosen env
  rwa [hr.build_eq]

theorem exists_build_eq_error_iff :
    (∃ fault, build env (LogSettings.ofEnvironment env) = .error fault) ↔
      (env "RUST_LOG" ≠ none ∨ env "DPA_LOG_LEVEL" ≠ none) ∧ ¬ Holds env "RUST_LOG" ∧
        ¬ Holds env "DPA_LOG_LEVEL" := by
  simp only [build_ofEnvironment_eq_iff]
  constructor
  · rintro ⟨fault, h⟩
    cases h with
    | refused hset hno hno' => exact ⟨hset, hno, hno'⟩
  · rintro ⟨hset, hno, hno'⟩
    exact ⟨_, .refused hset hno hno'⟩

/-- **Which log filter counts**: that of the general variable, or else of the own one, or else the
default if neither is set; and its level is the most verbose one of its items, in whatever order. -/
theorem precedence (env : Environment) :
    (∀ r, build env (LogSettings.ofEnvironment env) = r ↔ Chosen env r) ∧
    ((∃ fault, build env (LogSettings.ofEnvironment env) = .error fault) ↔
      (env "RUST_LOG" ≠ none ∨ env "DPA_LOG_LEVEL" ≠ none) ∧ ¬ Holds env "RUST_LOG" ∧
        ¬ Holds env "DPA_LOG_LEVEL") ∧
    (Holds env "RUST_LOG" → ∀ (value : Option String) (s : LogSettings),
      build (Function.update env "DPA_LOG_LEVEL" value) s =
        build env (LogSettings.ofEnvironment env)) ∧
    ∀ items, AreItems items → items ≠ [] →
      ∃ f, parse (join items) = .ok f ∧ IsHighest (items.map (·.2)) (maxLevel f) ∧
        ∀ items', items'.Perm items →
          ∃ f', parse (join items') = .ok f' ∧ maxLevel f' = maxLevel f := by
  refine ⟨fun r => build_ofEnvironment_eq_iff, exists_build_eq_error_iff, ?_, ?_⟩
  · rintro ⟨words, f, hset, hf⟩ value s
    have hupdate : Function.update env "DPA_LOG_LEVEL" value "RUST_LOG" = some words := by
      rw [Function.update_of_ne (by decide), hset]
    rw [build_of_spells hupdate hf, build_of_spells hset hf]
  · intro items hitems hne
    have hhighest : IsHighest (items.map (·.2)) (maxLevel (items.map (·.2))) :=
      isHighest_maxLevel (by simpa using hne)
    refine ⟨_, parse_join hitems, hhighest, fun items' hperm => ?_⟩
    have hitems' : AreItems items' := fun item hitem => hitems item (hperm.mem_iff.1 hitem)
    have hne' : items'.map (·.2) ≠ [] := by
      simpa using fun h => hne (List.perm_nil.1 (h ▸ hperm).symm)
    exact ⟨_, parse_join hitems', (maxLevel_eq_iff hne').2 (hhighest.of_perm (hperm.map _))⟩

/-- An environment in which the general variable alone is set. -/
def general (words : String) : Environment := fun name => if name = "RUST_LOG" then some words else none

/-- With a filter in the general variable the own one does not count, even if it holds none; and the level
of two items is the more verbose one. -/
theorem precedence_general :
    build (Function.update (general "warn") "DPA_LOG_LEVEL" (some "a=b")) { level := "off" } =
        build (general "warn") (LogSettings.ofEnvironment (general "warn")) ∧
      ∃ f, parse "warn,a=debug" = .ok f ∧ IsHighest [⟨none, .warn⟩, ⟨some "a", .debug⟩] (maxLevel f) := by
  have hholds : Holds (general "warn") "RUST_LOG" :=
    ⟨"warn", [⟨none, .warn⟩], rfl, parse_eq_ok_iff.1 (by decide +kernel)⟩
  have hitems : AreItems
      [("warn".toList, ⟨none, .warn⟩), ("a=debug".toList, ⟨some "a", .debug⟩)] := by
    have hwarn : readItem "warn".toList = some ⟨none, .warn⟩ := by decide +kernel
    have hdebug : readItem "a=debug".toList = some ⟨some "a", .debug⟩ := by decide +kernel
    rintro item (_ | ⟨_, _ | ⟨_, ⟨⟩⟩⟩)
    · exact ⟨by decide, readItem_eq_some_iff.1 hwarn⟩
    · exact ⟨by decide, readItem_eq_some_iff.1 hdebug⟩
  obtain ⟨f, hf, hhighest, -⟩ :=
    (precedence (general "warn")).2.2.2 _ hitems (by simp)
  exact ⟨(precedence (general "warn")).2.2.1 hholds _ _, f, by simpa [join] using hf, hhighest⟩

end Choice

end Filter
end MeshExchange
