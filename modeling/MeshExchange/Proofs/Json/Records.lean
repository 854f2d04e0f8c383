import Mathlib.Data.List.Nodup
import Mathlib.Data.List.Perm.Subperm
import MeshExchange.Proofs.Json.Writing
import MeshExchange.Json.Schema

/-!
# Records and what is read for them

A layout lists the entries of a record: the name, the type and the value of each. A schema follows a
layout if its fields are the entries, setting one of them takes the values of its type and changes
nothing else, and a record is known by the values of its entries.

**Method.** The members of an object are put into a record one after the other. By induction on the members,
with any record to begin with and any names set before, all of them can be put exactly if they fit the
layout and set no name again, and each entry then has the value that a member gives it, or the one it had.
An array is read as the object that has the names of the leading entries for its items.

**Results.**
* `Schema.RoundTrips`, `Schema.Follows.roundTrips`: records are read back from what is written for them,
  from the array of their values, and from objects with their members in any order;
* `Schema.Overlays`, `Schema.Follows.overlays`: if fields may be missing, what is given replaces what is
  there beforehand, and nothing else;
* `Schema.Demands`, `Schema.Follows.demands`: if none may be missing, all of them are given.
-/

namespace MeshExchange

section Types

/-- The types of fields. -/
inductive FieldType
  | byte
  | word
  | long
  | truth
  | text
  | bytes

/-- The values of a type: integers within bounds, truth values, texts, and rows of bytes. -/
def FieldType.Admits : FieldType → Json → Prop
  | .byte, j => ∃ n : Nat, n < 2 ^ 8 ∧ j = .integer n
  | .word, j => ∃ n : Nat, n < 2 ^ 16 ∧ j = .integer n
  | .long, j => ∃ n : Int, -2 ^ 63 ≤ n ∧ n < 2 ^ 63 ∧ j = .integer n
  | .truth, j => ∃ b : Bool, j = .bool b
  | .text, j => ∃ t : String, j = .text (some t)
  | .bytes, j => ∃ ns : List Nat, (∀ n ∈ ns, n < 2 ^ 8) ∧ j = .array (ns.map fun n : Nat => .integer n)

theorem FieldType.not_admits_null (t : FieldType) : ¬ t.Admits .null := by
  cases t <;> simp [Admits]

end Types

namespace Schema

section Layouts

/-- An entry of records of type `α`. -/
structure Entry (α : Type) where
  name : String
  type : FieldType
  value : α → Json

variable {α : Type}

/-- The members of an object fit a layout: their names are texts, no entry is given twice, and what is
given for an entry is of its type. -/
structure Fits (es : List (Entry α)) (ms : List (Option String × Json)) : Prop where
  named : ∀ m ∈ ms, m.1 ≠ none
  once : ∀ e ∈ es, (ms.map (·.1)).count (some e.name) ≤ 1
  typed : ∀ e ∈ es, ∀ j, (some e.name, j) ∈ ms → e.type.Admits j

/-- The items of an array fit a layout: they are no more than its entries, and of their types. -/
structure FitsItems (es : List (Entry α)) (items : List Json) : Prop where
  length_le : items.length ≤ es.length
  typed : ∀ p ∈ es.zip items, p.1.type.Admits p.2

/-- A field is what an entry of a layout says. -/
structure Implements (es : List (Entry α)) (f : Field α) (e : Entry α) : Prop where
  name : f.name = e.name
  get : f.get = e.value
  admits_value : ∀ a, e.type.Admits (e.value a)
  isSome_put : ∀ j a, (f.put j a).isSome ↔ e.type.Admits j
  value_put : ∀ {j a b}, f.put j a = some b → e.value b = j
  frame_put : ∀ {j a b}, f.put j a = some b → ∀ e' ∈ es, e'.name ≠ e.name → e'.value b = e'.value a

/-- A schema follows a layout. -/
structure Follows (s : Schema α) (es : List (Entry α)) : Prop where
  fields : List.Forall₂ (Implements es) s.fields es
  nodup : (es.map (·.name)).Nodup
  ext : ∀ {a b : α}, (∀ e ∈ es, e.value a = e.value b) → a = b

end Layouts

section Fitting

variable {α : Type} {es : List (Entry α)} {e : Entry α} {ms : List (Option String × Json)} {j : Json}
  {items : List Json}

/-- Whether members fit, one by one: a member is of the type of the entry that it is given for, and no later
member is given for it again. -/
theorem fits_cons_iff {key : Option String} :
    Fits es ((key, j) :: ms) ↔
      key ≠ none ∧ (∀ e ∈ es, key = some e.name → e.type.Admits j ∧ some e.name ∉ ms.map (·.1)) ∧
        Fits es ms := by
  constructor
  · intro h
    refine ⟨h.named _ List.mem_cons_self, fun e he hkey => ⟨?_, ?_⟩, ?_, ?_, ?_⟩
    · exact h.typed e he j (by simp [hkey])
    · have honce := h.once e he
      simp only [List.map_cons, hkey, List.count_cons_self] at honce
      rw [← List.count_eq_zero]
      omega
    · exact fun m hm => h.named m (List.mem_cons_of_mem _ hm)
    · exact fun e he => List.count_le_count_cons.trans (h.once e he)
    · exact fun e he j hj => h.typed e he j (List.mem_cons_of_mem _ hj)
  · rintro ⟨hkey, hhead, hfit⟩
    refine ⟨?_, fun e he => ?_, fun e he j' hj' => ?_⟩
    · simpa [hkey] using hfit.named
    · by_cases hname : key = some e.name
      · simp [hname, List.count_eq_zero.2 (hhead e he hname).2]
      · simpa [List.count_cons_of_ne hname] using hfit.once e he
    · rcases List.mem_cons.1 hj' with heq | hj'
      · obtain ⟨hname, rfl⟩ := Prod.mk.inj heq
        exact (hhead e he hname.symm).1
      · exact hfit.typed e he j' hj'

theorem fits_nil : Fits es [] := ⟨by simp, by simp, by simp⟩

theorem lookup_cons_of_ne {k k' : Option String} (hne : k' ≠ k) :
    ((k, j) :: ms).lookup k' = ms.lookup k' := by
  rw [List.lookup_cons, beq_eq_false_iff_ne.2 hne]

theorem lookup_eq_none {k : Option String} (hk : k ∉ ms.map (·.1)) : ms.lookup k = none := by
  rw [List.lookup_eq_none_iff]
  intro m hm
  exact bne_iff_ne.2 fun heq => hk (heq ▸ List.mem_map_of_mem hm)

/-- A member for an entry is the one found under its name. -/
theorem lookup_eq_some (hfit : Fits es ms) (he : e ∈ es) (hj : (some e.name, j) ∈ ms) :
    ms.lookup (some e.name) = some j := by
  induction ms with
  | nil => simp at hj
  | cons m ms ih =>
      obtain ⟨key, j'⟩ := m
      obtain ⟨-, hhead, hrest⟩ := fits_cons_iff.1 hfit
      rcases List.mem_cons.1 hj with heq | hj
      · obtain ⟨rfl, rfl⟩ := Prod.mk.inj heq
        exact List.lookup_cons_self
      · have hne : some e.name ≠ key := fun hname =>
          (hhead e he hname.symm).2 (List.mem_map_of_mem hj)
        rw [lookup_cons_of_ne hne, ih hrest hj]

/-- Items with the names of the leading entries. -/
def named (names : List String) (items : List Json) : List (Option String × Json) :=
  (names.map some).zip items

theorem named_cons (name : String) (names : List String) (item : Json) (items : List Json) :
    named (name :: names) (item :: items) = (some name, item) :: named names items :=
  rfl

/-- The member of an entry's name holds the item in the entry's place. -/
theorem mem_named_iff (hnodup : (es.map (·.name)).Nodup) (he : e ∈ es) :
    (some e.name, j) ∈ named (es.map (·.name)) items ↔ (e, j) ∈ es.zip items := by
  rw [named, List.map_map, List.zip_map_left, List.mem_map]
  constructor
  · rintro ⟨⟨e', j'⟩, hmem, heq⟩
    obtain ⟨hname, rfl⟩ := Prod.mk.inj heq
    obtain rfl := List.inj_on_of_nodup_map hnodup (List.of_mem_zip hmem).1 he (Option.some.inj hname)
    exact hmem
  · exact fun hmem => ⟨(e, j), hmem, rfl⟩

theorem map_fst_named (names : List String) (items : List Json) :
    (named names items).map (·.1) = (names.take items.length).map some := by
  induction names generalizing items with
  | nil => simp [named]
  | cons name names ih =>
      cases items with
      | nil => simp [named]
      | cons item items => simpa [named_cons] using ih items

theorem FitsItems.fits (hnodup : (es.map (·.name)).Nodup) (h : FitsItems es items) :
    Fits es (named (es.map (·.name)) items) where
  named m hm := by
    obtain ⟨name, -, hname⟩ := List.mem_map.1 (List.of_mem_zip (a := m.1) (b := m.2) hm).1
    simp [← hname]
  once e he := by
    rw [map_fst_named]
    refine List.nodup_iff_count_le_one.1 ?_ _
    exact (hnodup.sublist (List.take_sublist _ _)).map (Option.some_injective _)
  typed e he j hj := h.typed _ ((mem_named_iff hnodup he).1 hj)

theorem lookup_named {names : List String} (hnodup : names.Nodup) (items : List Json) {i : Nat}
    (hi : i < names.length) : (named names items).lookup (some names[i]) = items[i]? := by
  induction names generalizing items i with
  | nil => simp at hi
  | cons name names ih =>
      obtain ⟨hnotin, hnodup⟩ := List.nodup_cons.1 hnodup
      cases items with
      | nil => simp [named]
      | cons item items =>
          rw [named_cons]
          cases i with
          | zero => exact List.lookup_cons_self
          | succ i =>
              have hi : i < names.length := Nat.lt_of_succ_lt_succ hi
              have hne : names[i] ≠ name := fun heq => hnotin (heq ▸ List.getElem_mem hi)
              rw [List.getElem_cons_succ, lookup_cons_of_ne (by simpa using hne), ih hnodup items hi,
                List.getElem?_cons_succ]

end Fitting

variable {α : Type} {s : Schema α} {es : List (Entry α)} {a b : α}
  {ms : List (Option String × Json)} {items : List Json}

section Fields

theorem Follows.names_eq (h : s.Follows es) : s.fields.map (·.name) = es.map (·.name) := by
  rw [← List.forall₂_eq_eq_eq, List.forall₂_map_left_iff, List.forall₂_map_right_iff]
  exact h.fields.imp fun _ _ hf => hf.name

theorem Follows.nodup_names (h : s.Follows es) : (s.fields.map (·.name)).Nodup :=
  h.names_eq ▸ h.nodup

/-- A record is written as an object with a member for each entry. -/
theorem Follows.write_eq (h : s.Follows es) (a : α) :
    s.write a = .object (es.map fun e => (some e.name, e.value a)) := by
  rw [write, Json.object.injEq, ← List.forall₂_eq_eq_eq, List.forall₂_map_left_iff,
    List.forall₂_map_right_iff]
  exact h.fields.imp fun f e hf => by rw [hf.name, hf.get]

theorem Follows.eq_of_name (h : s.Follows es) {e e' : Entry α} (he : e ∈ es) (he' : e' ∈ es)
    (hname : e.name = e'.name) : e = e' :=
  List.inj_on_of_nodup_map h.nodup he he' hname

theorem field?_name (hnodup : (s.fields.map (·.name)).Nodup) {f : Field α} (hf : f ∈ s.fields) :
    s.field? f.name = some f := by
  obtain ⟨g, hg⟩ : ∃ g, s.field? f.name = some g := by
    rw [← Option.isSome_iff_exists, field?, List.find?_isSome]
    exact ⟨f, hf, by simp⟩
  have hname : g.name = f.name := by simpa using List.find?_some hg
  rw [hg, List.inj_on_of_nodup_map hnodup (List.mem_of_find?_eq_some hg) hf hname]

theorem Follows.exists_field (h : s.Follows es) {e : Entry α} (he : e ∈ es) :
    ∃ f, s.field? e.name = some f ∧ Implements es f e := by
  obtain ⟨i, hi, rfl⟩ := List.getElem_of_mem he
  have hi' : i < s.fields.length := h.fields.length_eq ▸ hi
  have himpl : Implements es s.fields[i] es[i] := h.fields.get hi' hi
  refine ⟨s.fields[i], ?_, himpl⟩
  rw [← himpl.name]
  exact field?_name h.nodup_names (List.getElem_mem hi')

theorem Follows.admits_value (h : s.Follows es) {e : Entry α} (he : e ∈ es) (a : α) :
    e.type.Admits (e.value a) := by
  obtain ⟨f, -, himpl⟩ := h.exists_field he
  exact himpl.admits_value a

theorem Follows.field?_eq_none (h : s.Follows es) {key : String} (hkey : ∀ e ∈ es, e.name ≠ key) :
    s.field? key = none := by
  have hnot : key ∉ s.fields.map (·.name) := by
    rw [h.names_eq]
    simpa using hkey
  simpa [field?, List.find?_eq_none] using hnot

end Fields

section Members

variable {e : Entry α} {key : String} {j : Json} {seen seen' : List String}

theorem Follows.putMember_of_ne (h : s.Follows es) (hkey : ∀ e ∈ es, e.name ≠ key) :
    s.putMember (a, seen) (some key, j) = some (a, seen) := by
  simp [putMember, h.field?_eq_none hkey]

theorem Follows.exists_putMember (h : s.Follows es) (he : e ∈ es) (hunseen : e.name ∉ seen)
    (hj : e.type.Admits j) (a : α) :
    ∃ b, s.putMember (a, seen) (some e.name, j) = some (b, e.name :: seen) ∧ e.value b = j ∧
      ∀ e' ∈ es, e'.name ≠ e.name → e'.value b = e'.value a := by
  obtain ⟨f, hf, himpl⟩ := h.exists_field he
  obtain ⟨b, hb⟩ := Option.isSome_iff_exists.1 ((himpl.isSome_put j a).2 hj)
  exact ⟨b, by simp [putMember, hf, hunseen, hb], himpl.value_put hb, himpl.frame_put hb⟩

theorem Follows.of_putMember (h : s.Follows es) (he : e ∈ es) {st : α × List String}
    (hput : s.putMember (a, seen) (some e.name, j) = some st) :
    e.name ∉ seen ∧ e.type.Admits j ∧ st.2 = e.name :: seen := by
  obtain ⟨f, hf, himpl⟩ := h.exists_field he
  simp only [putMember, Option.bind_some, hf] at hput
  split at hput
  · cases hput
  next hunseen =>
    obtain ⟨b, hb, rfl⟩ := Option.map_eq_some_iff.1 hput
    exact ⟨hunseen, (himpl.isSome_put j a).1 (by simp [hb]), rfl⟩

/-- Members that fit, and set no name again, are put into a record: every entry then has the value that
is given for it, if there is one. -/
theorem Follows.exists_foldlM (h : s.Follows es) (hfit : Fits es ms) (a : α) (seen : List String)
    (hfresh : ∀ e ∈ es, e.name ∈ seen → some e.name ∉ ms.map (·.1)) :
    ∃ b seen', ms.foldlM s.putMember (a, seen) = some (b, seen') ∧
      (∀ e ∈ es, e.name ∈ seen' ↔ e.name ∈ seen ∨ some e.name ∈ ms.map (·.1)) ∧
      ∀ e ∈ es, e.value b = (ms.lookup (some e.name)).getD (e.value a) := by
  induction ms generalizing a seen with
  | nil => exact ⟨a, seen, rfl, by simp, by simp⟩
  | cons m ms ih =>
      obtain ⟨key, j⟩ := m
      obtain ⟨hkey, hhead, hrest⟩ := fits_cons_iff.1 hfit
      obtain ⟨key, rfl⟩ := Option.ne_none_iff_exists'.1 hkey
      by_cases hknown : ∃ e ∈ es, e.name = key
      · obtain ⟨e, he, rfl⟩ := hknown
        obtain ⟨hj, hlast⟩ := hhead e he rfl
        obtain ⟨a', hstep, hvalue, hframe⟩ :=
          h.exists_putMember he (fun hmem => hfresh e he hmem (by simp)) hj a
        obtain ⟨b, seen', hfold, hseen, hvalues⟩ := ih hrest a' (e.name :: seen) fun e' he' hmem => by
          rcases List.mem_cons.1 hmem with hname | hmem
          · exact hname ▸ hlast
          · exact fun hin => hfresh e' he' hmem (List.mem_cons_of_mem _ hin)
        refine ⟨b, seen', ?_, fun e' he' => ?_, fun e' he' => ?_⟩
        · rw [List.foldlM_cons, hstep]
          exact hfold
        · simp only [hseen e' he', List.map_cons, List.mem_cons, Option.some.injEq]
          tauto
        · -- no later member is given for this entry, so its value stays
          rw [hvalues e' he']
          by_cases hname : e'.name = e.name
          · obtain rfl := h.eq_of_name he' he hname
            rw [lookup_eq_none hlast, List.lookup_cons_self]
            exact hvalue
          · rw [lookup_cons_of_ne (by simpa using hname), hframe e' he' hname]
      · replace hknown : ∀ e ∈ es, e.name ≠ key := by simpa using hknown
        obtain ⟨b, seen', hfold, hseen, hvalues⟩ := ih hrest a seen fun e he hmem hin =>
          hfresh e he hmem (List.mem_cons_of_mem _ hin)
        refine ⟨b, seen', ?_, fun e he => ?_, fun e he => ?_⟩
        · rw [List.foldlM_cons, h.putMember_of_ne hknown]
          exact hfold
        · simp [hseen e he, hknown e he]
        · rw [hvalues e he, lookup_cons_of_ne (by simpa using hknown e he)]

/-- Members that can be put into a record fit, and set no name again. -/
theorem Follows.fits_of_foldlM (h : s.Follows es)
    (hfold : ms.foldlM s.putMember (a, seen) = some (b, seen')) :
    Fits es ms ∧ ∀ e ∈ es, e.name ∈ seen → some e.name ∉ ms.map (·.1) := by
  induction ms generalizing a seen with
  | nil => exact ⟨fits_nil, by simp⟩
  | cons m ms ih =>
      obtain ⟨_ | key, j⟩ := m
      · simp [putMember] at hfold
      rw [List.foldlM_cons] at hfold
      by_cases hknown : ∃ e ∈ es, e.name = key
      · obtain ⟨e, he, rfl⟩ := hknown
        obtain ⟨⟨a', seen₁⟩, hstep, hrest⟩ := Option.bind_eq_some_iff.1 hfold
        obtain ⟨hunseen, hj, rfl⟩ := h.of_putMember he hstep
        obtain ⟨hfit, hfresh⟩ := ih hrest
        refine ⟨fits_cons_iff.2 ⟨by simp, fun e' he' hname => ?_, hfit⟩, fun e' he' hmem => ?_⟩
        · obtain rfl := h.eq_of_name he he' (Option.some.inj hname)
          exact ⟨hj, hfresh e he List.mem_cons_self⟩
        · have hne : e'.name ≠ e.name := fun hname => hunseen (hname ▸ hmem)
          simpa [hne] using hfresh e' he' (List.mem_cons_of_mem _ hmem)
      · replace hknown : ∀ e ∈ es, e.name ≠ key := by simpa using hknown
        rw [h.putMember_of_ne hknown] at hfold
        obtain ⟨hfit, hfresh⟩ := ih hfold
        refine ⟨fits_cons_iff.2 ⟨by simp, fun e he hname => ?_, hfit⟩, fun e he hmem => ?_⟩
        · exact absurd (Option.some.inj hname).symm (hknown e he)
        · simpa [hknown e he] using hfresh e he hmem

/-- **An object that fits is read**, if it gives all the entries that may not be missing. -/
theorem Follows.exists_readMembers (h : s.Follows es) (hfit : Fits es ms)
    (hall : s.isComplete = true → ∀ e ∈ es, some e.name ∈ ms.map (·.1)) :
    ∃ a, s.readMembers ms = some a ∧
      ∀ e ∈ es, e.value a = (ms.lookup (some e.name)).getD (e.value s.base) := by
  obtain ⟨a, seen, hfold, hseen, hvalue⟩ := h.exists_foldlM hfit s.base [] (by simp)
  refine ⟨a, ?_, hvalue⟩
  have hgiven : s.isComplete = true → ∀ name ∈ s.fields.map (·.name), name ∈ seen := by
    rw [h.names_eq]
    rintro hcomplete _ hname
    obtain ⟨e, he, rfl⟩ := List.mem_map.1 hname
    exact (hseen e he).2 (.inr (hall hcomplete e he))
  simp only [readMembers, hfold, Option.bind_some]
  rw [if_neg]
  simpa [-not_forall] using hgiven

/-- **An object that is read fits**, and gives all the entries that may not be missing. -/
theorem Follows.fits_of_readMembers (h : s.Follows es) (hread : s.readMembers ms = some a) :
    Fits es ms ∧ (s.isComplete = true → ∀ e ∈ es, some e.name ∈ ms.map (·.1)) := by
  obtain ⟨⟨b, seen⟩, hfold, hread⟩ := Option.bind_eq_some_iff.1 hread
  obtain ⟨hfit, -⟩ := h.fits_of_foldlM hfold
  obtain ⟨b', seen', hfold', hseen, -⟩ := h.exists_foldlM hfit s.base [] (by simp)
  obtain ⟨rfl, rfl⟩ := Prod.mk.inj (Option.some.inj (hfold.symm.trans hfold'))
  refine ⟨hfit, fun hcomplete e he => ?_⟩
  have hread : (∀ f ∈ s.fields, f.name ∈ seen) ∧ b = a := by simpa [hcomplete] using hread
  have hname : e.name ∈ s.fields.map (·.name) := h.names_eq ▸ List.mem_map_of_mem he
  obtain ⟨f, hf, hname⟩ := List.mem_map.1 hname
  simpa using (hseen e he).1 (hname ▸ hread.1 f hf)

end Members

section Items

/-- Items go into the fields that are left, as members of their names would: these are none of the names
seen so far. -/
theorem foldlM_named (hnodup : (s.fields.map (·.name)).Nodup) {fs : List (Field α)}
    (hfs : fs ⊆ s.fields) (hdistinct : (fs.map (·.name)).Nodup) (items : List Json) (a : α)
    (seen : List String) (hfresh : ∀ f ∈ fs, f.name ∉ seen) (hle : items.length ≤ fs.length) :
    (named (fs.map (·.name)) items).foldlM s.putMember (a, seen) =
      (putItems fs items a).map fun b =>
        (b, ((fs.map (·.name)).take items.length).reverse ++ seen) := by
  induction fs generalizing items a seen with
  | nil =>
      obtain rfl := List.length_eq_zero_iff.1 (Nat.le_zero.1 hle)
      simp [named, putItems]
  | cons f fs ih =>
      cases items with
      | nil => simp [named, putItems]
      | cons item items =>
          obtain ⟨hf, hfs⟩ := List.cons_subset.1 hfs
          obtain ⟨hnotin, hdistinct⟩ := List.nodup_cons.1 hdistinct
          have hstep : s.putMember (a, seen) (some f.name, item) =
              (f.put item a).map fun b => (b, f.name :: seen) := by
            simp [putMember, field?_name hnodup hf, hfresh f List.mem_cons_self]
          have hfresh' : ∀ g ∈ fs, g.name ∉ f.name :: seen := fun g hg hmem => by
            rcases List.mem_cons.1 hmem with hname | hmem
            · exact hnotin (List.mem_map.2 ⟨g, hg, hname⟩)
            · exact hfresh g (List.mem_cons_of_mem _ hg) hmem
          rw [List.map_cons, named_cons, List.foldlM_cons, hstep, putItems]
          cases f.put item a with
          | none => rfl
          | some b =>
              have hrest := ih hfs hdistinct items b (f.name :: seen) hfresh' (Nat.le_of_succ_le_succ hle)
              simpa using hrest

theorem forall_mem_take_iff {names : List String} (hnodup : names.Nodup) (n : Nat) :
    (∀ name ∈ names, name ∈ names.take n) ↔ names.length ≤ n := by
  constructor
  · intro hsub
    have hle := (List.subperm_of_subset hnodup hsub).length_le
    simp only [List.length_take] at hle
    omega
  · intro hle name hname
    rwa [List.take_of_length_le hle]

/-- An array is read as the object that has the names of the leading entries for its items. -/
theorem readItems_eq (hnodup : (s.fields.map (·.name)).Nodup) (hle : items.length ≤ s.fields.length) :
    s.readItems items = s.readMembers (named (s.fields.map (·.name)) items) := by
  have hall : (s.fields.all fun f => f.name ∈ ((s.fields.map (·.name)).take items.length).reverse ++ []) =
      !decide (items.length < s.fields.length) := by
    have hiff := forall_mem_take_iff hnodup items.length
    simp only [List.forall_mem_map, List.length_map] at hiff
    rw [Bool.eq_iff_iff]
    simpa using hiff
  rw [readItems, readMembers, foldlM_named hnodup (List.Subset.refl _) hnodup items s.base [] (by simp) hle]
  cases putItems s.fields items s.base with
  | none => simp
  | some b => simp only [Option.map_some, Option.bind_some, hall, Bool.not_not]

theorem putItems_of_lt {fs : List (Field α)} (hlt : fs.length < items.length) (a : α) :
    putItems fs items a = none := by
  induction fs generalizing items a with
  | nil =>
      cases items with
      | nil => simp at hlt
      | cons item items => rfl
  | cons f fs ih =>
      cases items with
      | nil => simp at hlt
      | cons item items =>
          simp [putItems, ih (Nat.lt_of_succ_lt_succ hlt)]

/-- **An array that fits is read**, if it has all the items that may not be missing: they replace the
values of the leading entries. -/
theorem Follows.exists_readItems (h : s.Follows es) (hfit : FitsItems es items)
    (hall : s.isComplete = true → items.length = es.length) :
    ∃ a, s.readItems items = some a ∧
      es.map (·.value a) = items ++ (es.drop items.length).map (·.value s.base) := by
  have hfits := hfit.fits h.nodup
  obtain ⟨a, hread, hvalue⟩ := h.exists_readMembers hfits fun hcomplete e he => by
    rw [map_fst_named, hall hcomplete, List.take_of_length_le (by simp)]
    exact List.mem_map_of_mem (List.mem_map_of_mem he)
  refine ⟨a, ?_, ?_⟩
  · rw [readItems_eq h.nodup_names (h.fields.length_eq ▸ hfit.length_le), h.names_eq, hread]
  · refine List.ext_getElem ?_ fun i hi _ => ?_
    · have := hfit.length_le
      simp only [List.length_map, List.length_append, List.length_drop]
      omega
    rw [List.length_map] at hi
    have hlookup := lookup_named h.nodup items (i := i) (by simpa using hi)
    rw [List.getElem_map] at hlookup
    rw [List.getElem_map, hvalue _ (List.getElem_mem hi), hlookup, List.getElem_append]
    split
    next hlt => rw [List.getElem?_eq_getElem hlt, Option.getD_some]
    next hge =>
      rw [List.getElem?_eq_none (by omega), Option.getD_none, List.getElem_map, List.getElem_drop]
      congr 2
      omega

/-- **An array that is read fits**, and has all the items that may not be missing. -/
theorem Follows.fitsItems_of_readItems (h : s.Follows es) (hread : s.readItems items = some a) :
    FitsItems es items ∧ (s.isComplete = true → items.length = es.length) := by
  have hlength : s.fields.length = es.length := h.fields.length_eq
  obtain ⟨hshort, hput⟩ : (s.isComplete = true → s.fields.length ≤ items.length) ∧
      putItems s.fields items s.base = some a := by simpa [readItems] using hread
  have hle : items.length ≤ s.fields.length := by
    by_contra hlt
    simp [putItems_of_lt (Nat.lt_of_not_le hlt)] at hput
  rw [readItems_eq h.nodup_names hle, h.names_eq] at hread
  obtain ⟨hfit, -⟩ := h.fits_of_readMembers hread
  refine ⟨⟨hlength ▸ hle, fun p hp => ?_⟩, fun hcomplete => ?_⟩
  · have he := (List.of_mem_zip (a := p.1) (b := p.2) hp).1
    exact hfit.typed _ he _ ((mem_named_iff h.nodup he).2 hp)
  · exact hlength ▸ Nat.le_antisymm hle (hshort hcomplete)

end Items

section Texts

/-- A record read from a text. -/
def ofText? (s : Schema α) (text : List Char) : Option α := (Json.parse text).bind s.read

/-- Records are read back from the text that is written for them, from an array of the values of their
entries, and from an object with a member for each entry, in any order and among any members whose names
are other texts; but not from an object with a name that is no text. -/
structure RoundTrips (s : Schema α) (es : List (Entry α)) : Prop where
  written : ∀ a, s.ofText? (s.write a).write = some a
  items : ∀ a text, Json.Document text (.array (es.map (·.value a))) → s.ofText? text = some a
  members : ∀ a text ms, Json.Document text (.object ms) → (∀ m ∈ ms, m.1 ≠ none) →
    (ms.filter fun m => m.1 ∈ es.map fun e => some e.name).Perm
      (es.map fun e => (some e.name, e.value a)) →
    s.ofText? text = some a
  unnamed : ∀ text ms j, Json.Document text (.object ms) → (none, j) ∈ ms → s.ofText? text = none

/-- What no record is read from: objects that give an entry twice or a value that is not of its type,
null included, or that have a name that is no text; arrays with too many items, or with one that is not
of the type of its entry. -/
structure Refuses (s : Schema α) (es : List (Entry α)) : Prop where
  repeated : ∀ text ms, Json.Document text (.object ms) → ∀ e ∈ es,
    1 < (ms.map (·.1)).count (some e.name) → s.ofText? text = none
  mistyped : ∀ text ms, Json.Document text (.object ms) → ∀ e ∈ es, ∀ j, (some e.name, j) ∈ ms →
    ¬ e.type.Admits j → s.ofText? text = none
  null : ∀ text ms, Json.Document text (.object ms) → ∀ e ∈ es, (some e.name, .null) ∈ ms →
    s.ofText? text = none
  unnamed : ∀ text ms j, Json.Document text (.object ms) → (none, j) ∈ ms → s.ofText? text = none
  tooLong : ∀ text items, Json.Document text (.array items) → es.length < items.length →
    s.ofText? text = none
  mistypedItem : ∀ text items, Json.Document text (.array items) → ∀ p ∈ es.zip items,
    ¬ p.1.type.Admits p.2 → s.ofText? text = none

/-- What fits is read, and replaces the values that are there beforehand: those of the entries that an
object names, or those of the leading entries for an array. -/
structure Overlays (s : Schema α) (es : List (Entry α)) (base : α) : Prop extends Refuses s es where
  members : ∀ text ms, Json.Document text (.object ms) → Fits es ms →
    ∃ a, s.ofText? text = some a ∧
      ∀ e ∈ es, e.value a = (ms.lookup (some e.name)).getD (e.value base)
  items : ∀ text items, Json.Document text (.array items) → FitsItems es items →
    ∃ a, s.ofText? text = some a ∧
      es.map (·.value a) = items ++ (es.drop items.length).map (·.value base)

/-- What fits is read if it gives all the entries, and only then. -/
structure Demands (s : Schema α) (es : List (Entry α)) : Prop extends Refuses s es where
  members : ∀ text ms, Json.Document text (.object ms) → Fits es ms →
    (∀ e ∈ es, some e.name ∈ ms.map (·.1)) →
    ∃ a, s.ofText? text = some a ∧ ∀ e ∈ es, ms.lookup (some e.name) = some (e.value a)
  missing : ∀ text ms, Json.Document text (.object ms) → ∀ e ∈ es, some e.name ∉ ms.map (·.1) →
    s.ofText? text = none
  items : ∀ text items, Json.Document text (.array items) → FitsItems es items →
    items.length = es.length → ∃ a, s.ofText? text = some a ∧ es.map (·.value a) = items
  tooShort : ∀ text items, Json.Document text (.array items) → items.length < es.length →
    s.ofText? text = none

variable {text : List Char} {j : Json}

theorem ofText?_eq (hdoc : Json.Document text j) : s.ofText? text = s.read j := by
  rw [ofText?, Json.parse_eq_some_iff.2 hdoc, Option.bind_some]

theorem Follows.ofText?_members (h : s.Follows es) (hdoc : Json.Document text (.object ms))
    (hread : s.ofText? text = some a) :
    Fits es ms ∧ (s.isComplete = true → ∀ e ∈ es, some e.name ∈ ms.map (·.1)) :=
  h.fits_of_readMembers (ofText?_eq hdoc ▸ hread)

theorem Follows.ofText?_items (h : s.Follows es) (hdoc : Json.Document text (.array items))
    (hread : s.ofText? text = some a) :
    FitsItems es items ∧ (s.isComplete = true → items.length = es.length) :=
  h.fitsItems_of_readItems (ofText?_eq hdoc ▸ hread)

section Mixtures

variable {e : Entry α}

/-- Of members that are mixed with those of a record, the ones for an entry hold its value. -/
theorem Follows.mem_iff_of_perm (h : s.Follows es) (hperm :
    (ms.filter fun m => m.1 ∈ es.map fun e => some e.name).Perm
      (es.map fun e => (some e.name, e.value a))) (he : e ∈ es) :
    (some e.name, j) ∈ ms ↔ j = e.value a := by
  have hmem : (some e.name, j) ∈ ms ↔
      (some e.name, j) ∈ es.map fun e => (some e.name, e.value a) := by
    rw [← hperm.mem_iff, List.mem_filter]
    simpa using fun _ => ⟨e, he, rfl⟩
  rw [hmem, List.mem_map]
  constructor
  · rintro ⟨e', he', heq⟩
    obtain ⟨hname, rfl⟩ := Prod.mk.inj heq
    rw [h.eq_of_name he' he (Option.some.inj hname)]
  · rintro rfl
    exact ⟨e, he, rfl⟩

theorem Follows.fits_of_perm (h : s.Follows es) (hnamed : ∀ m ∈ ms, m.1 ≠ none) (hperm :
    (ms.filter fun m => m.1 ∈ es.map fun e => some e.name).Perm
      (es.map fun e => (some e.name, e.value a))) :
    Fits es ms where
  named := hnamed
  once e he := by
    have hnodup : (es.map fun e => some e.name).Nodup := by
      simpa [Function.comp_def] using h.nodup.map (Option.some_injective _)
    have hkeys : ((ms.map (·.1)).filter fun key => key ∈ es.map fun e => some e.name).Perm
        (es.map fun e => some e.name) := by
      rw [List.filter_map]
      simpa [Function.comp_def] using hperm.map (·.1)
    have hcount := List.count_filter (l := ms.map (·.1))
      (p := fun key => decide (key ∈ es.map fun e => some e.name)) (a := some e.name)
      (by simpa using ⟨e, he, rfl⟩)
    rw [← hcount, hkeys.count_eq]
    exact List.nodup_iff_count_le_one.1 hnodup _
  typed e he j hj := by
    obtain rfl := (h.mem_iff_of_perm hperm he).1 hj
    exact h.admits_value he a

/-- An object whose members of the entries' names are those of a record is read as this record. -/
theorem Follows.readMembers_of_perm (h : s.Follows es) (hnamed : ∀ m ∈ ms, m.1 ≠ none) (hperm :
    (ms.filter fun m => m.1 ∈ es.map fun e => some e.name).Perm
      (es.map fun e => (some e.name, e.value a))) :
    s.readMembers ms = some a := by
  have hfit := h.fits_of_perm hnamed hperm
  have hgiven : ∀ e ∈ es, (some e.name, e.value a) ∈ ms := fun e he =>
    (h.mem_iff_of_perm hperm he).2 rfl
  obtain ⟨b, hread, hvalue⟩ := h.exists_readMembers hfit fun _ e he =>
    List.mem_map_of_mem (hgiven e he)
  have heq : b = a := h.ext fun e he => by
    rw [hvalue e he, lookup_eq_some hfit he (hgiven e he), Option.getD_some]
  rw [hread, heq]

end Mixtures

theorem Follows.read_write (h : s.Follows es) (a : α) : s.read (s.write a) = some a := by
  rw [h.write_eq]
  refine h.readMembers_of_perm (by simp) (.of_eq (List.filter_eq_self.2 ?_))
  simpa using fun e he => ⟨e, he, rfl⟩

/-- **Records are read back** in each of their forms. -/
theorem Follows.roundTrips (h : s.Follows es) : s.RoundTrips es where
  written a := by rw [ofText?, Json.parse_write, Option.bind_some, h.read_write]
  items a text hdoc := by
    have hfit : FitsItems es (es.map (·.value a)) := by
      refine ⟨by simp, fun p hp => ?_⟩
      rw [← List.map_prod_left_eq_zip] at hp
      obtain ⟨e, he, rfl⟩ := List.mem_map.1 hp
      exact h.admits_value he a
    obtain ⟨b, hread, hvalues⟩ := h.exists_readItems hfit fun _ => List.length_map _
    have heq : b = a := h.ext fun e he => by
      simp only [List.length_map, List.drop_length, List.map_nil, List.append_nil] at hvalues
      exact List.map_inj_left.1 hvalues e he
    rw [ofText?_eq hdoc, read, hread, heq]
  members a text ms hdoc hnamed hperm := by
    rw [ofText?_eq hdoc]
    exact h.readMembers_of_perm hnamed hperm
  unnamed text ms j hdoc hmem := by
    rw [Option.eq_none_iff_forall_ne_some]
    exact fun a hread => (h.ofText?_members hdoc hread).1.named _ hmem rfl

theorem Follows.refuses (h : s.Follows es) : s.Refuses es where
  repeated text ms hdoc e he hcount := by
    rw [Option.eq_none_iff_forall_ne_some]
    exact fun a hread => Nat.not_le.2 hcount ((h.ofText?_members hdoc hread).1.once e he)
  mistyped text ms hdoc e he j hj hnot := by
    rw [Option.eq_none_iff_forall_ne_some]
    exact fun a hread => hnot ((h.ofText?_members hdoc hread).1.typed e he j hj)
  null text ms hdoc e he hnull := by
    rw [Option.eq_none_iff_forall_ne_some]
    exact fun a hread =>
      e.type.not_admits_null ((h.ofText?_members hdoc hread).1.typed e he .null hnull)
  unnamed := h.roundTrips.unnamed
  tooLong text items hdoc hlt := by
    rw [Option.eq_none_iff_forall_ne_some]
    exact fun a hread => Nat.not_le.2 hlt (h.ofText?_items hdoc hread).1.length_le
  mistypedItem text items hdoc p hp hnot := by
    rw [Option.eq_none_iff_forall_ne_some]
    exact fun a hread => hnot ((h.ofText?_items hdoc hread).1.typed p hp)

/-- **What is given replaces what is there beforehand**, if fields may be missing. -/
theorem Follows.overlays (h : s.Follows es) (hgaps : s.isComplete = false) :
    s.Overlays es s.base where
  toRefuses := h.refuses
  members text ms hdoc hfit := by
    rw [ofText?_eq hdoc]
    exact h.exists_readMembers hfit (by simp [hgaps])
  items text items hdoc hfit := by
    rw [ofText?_eq hdoc]
    exact h.exists_readItems hfit (by simp [hgaps])

/-- **All entries are given** to what is read, if no field may be missing. -/
theorem Follows.demands (h : s.Follows es) (hall : s.isComplete = true) : s.Demands es where
  toRefuses := h.refuses
  members text ms hdoc hfit hgiven := by
    obtain ⟨a, hread, hvalue⟩ := h.exists_readMembers hfit fun _ => hgiven
    refine ⟨a, (ofText?_eq hdoc).trans hread, fun e he => ?_⟩
    obtain ⟨⟨_, j⟩, hmem, rfl⟩ := List.mem_map.1 (hgiven e he)
    rw [hvalue e he, lookup_eq_some hfit he hmem, Option.getD_some]
  missing text ms hdoc e he hnot := by
    rw [Option.eq_none_iff_forall_ne_some]
    exact fun a hread => hnot ((h.ofText?_members hdoc hread).2 hall e he)
  items text items hdoc hfit hlength := by
    obtain ⟨a, hread, hvalues⟩ := h.exists_readItems hfit fun _ => hlength
    refine ⟨a, (ofText?_eq hdoc).trans hread, ?_⟩
    simpa [hlength] using hvalues
  tooShort text items hdoc hlt := by
    rw [Option.eq_none_iff_forall_ne_some]
    exact fun a hread => Nat.ne_of_lt hlt ((h.ofText?_items hdoc hread).2 hall)

end Texts

end Schema
end MeshExchange
