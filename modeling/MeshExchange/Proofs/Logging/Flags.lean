import Mathlib.Logic.Function.Basic
import MeshExchange.Logging.Basic
import MeshExchange.Proofs.Text.Numerals

/-!
# Flags that say neither yes nor no

A flag of the environment that is no word for yes or no leaves the console on, as if it were not set. It
does not do so with the form of the records: that is JSON in a container if its flag is not set, and plain
if the flag cannot be told.

**Results.**
* `LogSettings.Says`, `LogSettings.flag_eq_iff`: what a flag says, and what it counts as;
* `LogSettings.ofEnvironment_unrecognised`: what an unrecognised flag does to the settings;
* `LogSettings.unrecognised_ne_unset`: in a container it is not as good as none.
-/

namespace MeshExchange
namespace LogSettings

/-- The words for yes, and those for no. -/
def words : Bool → List String
  | true => ["true", "1", "yes", "on"]
  | false => ["false", "0", "no", "off"]

/-- A value says yes or no: between blanks stands a word for it, in any case. -/
def Says (value : String) (b : Bool) : Prop :=
  ∃ core, Blank.Strips value.toList core ∧ String.ofList (core.map lower) ∈ words b

variable {value : String} {b default : Bool}

theorem says_iff :
    Says value b ↔ String.ofList ((Blank.trim value.toList).map lower) ∈ words b := by
  constructor
  · rintro ⟨core, hcore, hword⟩
    rwa [hcore.trim_eq]
  · exact fun h => ⟨_, Blank.strips_trim _, h⟩

/-- No value says yes and no. -/
theorem Says.unique {b' : Bool} (h : Says value b) (h' : Says value b') : b = b' := by
  have hapart : ∀ b b' : Bool, ∀ w ∈ words b, w ∈ words b' → b = b' := by decide
  exact hapart b b' _ (says_iff.1 h) (says_iff.1 h')

theorem Says.flag_eq (h : Says value b) : flag value default = b := by
  have hword := says_iff.1 h
  cases b with
  | true => exact if_pos hword
  | false =>
      have hno : ¬ Says value true := fun h' => Bool.noConfusion (h.unique h')
      exact (if_neg fun hw => hno (says_iff.2 hw)).trans (if_pos hword)

theorem flag_eq_default (h : ∀ b, ¬ Says value b) : flag value default = default :=
  (if_neg fun hw => h true (says_iff.2 hw)).trans (if_neg fun hw => h false (says_iff.2 hw))

/-- **A flag** counts as what it says, or else as its default. -/
theorem flag_eq_iff :
    flag value default = b ↔ Says value b ∨ (∀ b', ¬ Says value b') ∧ default = b := by
  constructor
  · rintro rfl
    by_cases h : ∃ b, Says value b
    · obtain ⟨b, hb⟩ := h
      exact .inl (hb.flag_eq ▸ hb)
    · have hno : ∀ b, ¬ Says value b := not_exists.1 h
      exact .inr ⟨hno, (flag_eq_default hno).symm⟩
  · rintro (h | ⟨hno, rfl⟩)
    · exact h.flag_eq
    · exact flag_eq_default hno

section Environments

variable {env : Environment}

theorem ofEnvironment_console (flag : Option String) :
    ofEnvironment (Function.update env "DPA_CONSOLE_OUTPUT" flag) =
      { ofEnvironment env with console := (flag.map (LogSettings.flag · true)).getD true } := by
  simp [ofEnvironment, isContainer]

theorem ofEnvironment_json (flag : Option String) :
    ofEnvironment (Function.update env "DPA_JSON_LOGS" flag) =
      { ofEnvironment env with
        json := (flag.map (LogSettings.flag · false)).getD (isContainer env) } := by
  simp [ofEnvironment, isContainer]

/-- **A flag that says neither yes nor no** counts as unset for the console. For the form of the records
it counts as no, which is as good as unset outside of containers and nowhere else. -/
theorem ofEnvironment_unrecognised (env : Environment) (h : ∀ b, ¬ Says value b) :
    ofEnvironment (Function.update env "DPA_CONSOLE_OUTPUT" (some value)) =
      ofEnvironment (Function.update env "DPA_CONSOLE_OUTPUT" none) ∧
    ofEnvironment (Function.update env "DPA_JSON_LOGS" (some value)) =
      { ofEnvironment (Function.update env "DPA_JSON_LOGS" none) with json := false } ∧
    (ofEnvironment (Function.update env "DPA_JSON_LOGS" (some value)) =
      ofEnvironment (Function.update env "DPA_JSON_LOGS" none) ↔ isContainer env = false) := by
  have hconsole : LogSettings.flag value true = true := flag_eq_default h
  have hjson : LogSettings.flag value false = false := flag_eq_default h
  simp only [ofEnvironment_console, ofEnvironment_json, Option.map_some, Option.map_none,
    Option.getD_some, Option.getD_none, hconsole, hjson, true_and]
  constructor
  · intro heq
    exact (congrArg LogSettings.json heq).symm
  · intro hno
    rw [hno]

/-- A container in which nothing else is set. -/
def container : Environment := fun name => if name = "DOCKER_CONTAINER" then some "" else none

theorem not_says_maybe : ∀ b, ¬ Says "maybe" b := by
  simp only [says_iff]
  decide +kernel

/-- In a container records are not written as JSON if the flag cannot be told. -/
theorem ofEnvironment_unrecognised_maybe :
    (∀ b, ¬ Says "maybe" b) ∧
    ofEnvironment (Function.update container "DPA_CONSOLE_OUTPUT" (some "maybe")) =
      ofEnvironment (Function.update container "DPA_CONSOLE_OUTPUT" none) ∧
    ofEnvironment (Function.update container "DPA_JSON_LOGS" (some "maybe")) =
      { ofEnvironment (Function.update container "DPA_JSON_LOGS" none) with json := false } :=
  have h := ofEnvironment_unrecognised container not_says_maybe
  ⟨not_says_maybe, h.1, h.2.1⟩

/-- **An unrecognised flag is not as good as none**: in a container the records are plain with it, and
JSON without it. -/
theorem unrecognised_ne_unset :
    (∀ b, ¬ Says "maybe" b) ∧
    (ofEnvironment (Function.update container "DPA_JSON_LOGS" (some "maybe"))).json = false ∧
    (ofEnvironment (Function.update container "DPA_JSON_LOGS" none)).json = true :=
  ⟨not_says_maybe, by decide +kernel, by decide +kernel⟩

end Environments

end LogSettings
end MeshExchange
