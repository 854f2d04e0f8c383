import MeshExchange.Proofs.Settings.Validity
import MeshExchange.Proofs.Text.Numerals
import MeshExchange.Settings.Environment

/-!
# Where settings come from

Each of the five times is set by an environment variable of its own, if the value of that variable is a
number, and is the default otherwise. A machine is created with them if none is negative; the first that
is negative is what is complained of.

**Method.** The five fields are a type, so that what is said of one of them is said of all. The checks
of a machine are the same check made of one field after the other.

**Results.**
* `Settings.Field`: the five times, each with its variable and its name in faults;
* `Settings.Denotes`, `Settings.number?_eq_some_iff`: the values that are numbers;
* `Settings.FirstNegative`, `Settings.create_eq_error_iff`: when a machine is refused, and why;
* `Settings.ofEnvironment_faithful`: what an environment makes of the fields and of the machine.
-/

namespace MeshExchange
namespace Settings

/-- The five times. -/
inductive Field
  | confirmationWait
  | responseBase
  | stateChangeTimeout
  | joinGracePeriod
  | sendWaitTimeout
  deriving DecidableEq, Repr

namespace Field

/-- The fields in the order of their declaration. -/
def all : List Field :=
  [.confirmationWait, .responseBase, .stateChangeTimeout, .joinGracePeriod, .sendWaitTimeout]

/-- What a field is set to. -/
def of (s : Settings) : Field → Int64
  | .confirmationWait => s.confirmationWait
  | .responseBase => s.responseBase
  | .stateChangeTimeout => s.stateChangeTimeout
  | .joinGracePeriod => s.joinGracePeriod
  | .sendWaitTimeout => s.sendWaitTimeout

/-- The environment variable of a field. -/
def key : Field → String
  | .confirmationWait => "DPA_CONFIRMATION_TIMEOUT_MS"
  | .responseBase => "DPA_RESPONSE_BASE_TIMEOUT_MS"
  | .stateChangeTimeout => "DPA_STATE_CHANGE_TIMEOUT_MS"
  | .joinGracePeriod => "DPA_JOIN_GRACE_PERIOD_MS"
  | .sendWaitTimeout => "DPA_SEND_WAIT_TIMEOUT_MS"

/-- What faults call a field. -/
def name : Field → String
  | .confirmationWait => "time_to_wait_for_confirmation"
  | .responseBase => "base_time_to_wait_for_response"
  | .stateChangeTimeout => "state_change_timeout"
  | .joinGracePeriod => "join_grace_period"
  | .sendWaitTimeout => "send_wait_timeout"

/-- The time that a machine goes by. -/
def inForce {L : Type} (m : Machine L) : Field → Duration
  | .confirmationWait => m.timing.confirmationWait
  | .responseBase => m.timing.responseBase
  | .stateChangeTimeout => m.settings.stateChangeLimit
  | .joinGracePeriod => m.settings.joinGrace
  | .sendWaitTimeout => m.settings.sendWait

theorem mem_all (f : Field) : f ∈ all := by
  cases f <;> decide

end Field

section Reading

variable {value : String} {n : Int64} {env : Environment}

/-- The value of a variable denotes a number: between blanks stands its numeral. -/
def Denotes (value : String) (n : Int64) : Prop :=
  ∃ core, Blank.Strips value.toList core ∧ Decimal.Numeral core n.toInt

/-- **The values that are numbers**, and no others, are read. -/
theorem number?_eq_some_iff : number? value = some n ↔ Denotes value n := by
  unfold number? Denotes
  rw [Option.bind_eq_some_iff]
  constructor
  · rintro ⟨m, hm, hn⟩
    split at hn
    · next hrange =>
        cases hn
        have hlow : -2 ^ 63 ≤ m := hrange.1
        have hhigh : m ≤ 2 ^ 63 - 1 := hrange.2
        refine ⟨_, Blank.strips_trim _, ?_⟩
        rw [Int64.toInt_ofInt_of_le hlow (by omega)]
        exact Decimal.signed?_eq_some_iff.1 hm
    · cases hn
  · rintro ⟨core, hcore, hnumeral⟩
    refine ⟨n.toInt, ?_, ?_⟩
    · rw [hcore.trim_eq]
      exact hnumeral.signed?_eq
    · rw [if_pos ⟨n.minValue_le_toInt, n.toInt_le⟩, Int64.ofInt_toInt]

-- The largest number that fits, behind a sign and zeros, with blanks around it.
example : number? "\u2003+09223372036854775807\n" = some Int64.maxValue := by decide +kernel

-- A sign without digits, and one more than fits.
example : number? "-" = none ∧ number? "9223372036854775808" = none := by decide +kernel

/-- A field is what its own variable says, whatever the others are. -/
theorem of_ofEnvironment_eq (env : Environment) (f : Field) :
    f.of (ofEnvironment env) = numberOf env f.key (f.of {}) := by
  cases f <;> rfl

theorem of_ofEnvironment_of_denotes {f : Field} (hv : env f.key = some value)
    (hn : Denotes value n) : f.of (ofEnvironment env) = n := by
  rw [of_ofEnvironment_eq, numberOf, hv, Option.bind_some, number?_eq_some_iff.2 hn]
  rfl

theorem of_ofEnvironment_of_not_denotes {f : Field}
    (h : ∀ value n, env f.key = some value → ¬ Denotes value n) :
    f.of (ofEnvironment env) = f.of {} := by
  have hnone : (env f.key).bind number? = none := by
    refine Option.eq_none_iff_forall_ne_some.2 fun n hn => ?_
    obtain ⟨value, hv, hn⟩ := Option.bind_eq_some_iff.1 hn
    exact h value n hv (number?_eq_some_iff.1 hn)
  rw [of_ofEnvironment_eq, numberOf, hnone]
  rfl

end Reading

section Checking

variable {s : Settings} {f : Field} {fs : List Field} {fault : Fault} {L : Type} {m : Machine L}

/-- A field is the first in order with a negative time. -/
structure FirstNegative (s : Settings) (f : Field) : Prop where
  neg : (f.of s).toInt < 0
  first : ∃ before after, Field.all = before ++ f :: after ∧ ∀ g ∈ before, 0 ≤ (g.of s).toInt

/-- The check of a field. -/
def check (s : Settings) (f : Field) : Except Fault Unit := Timing.checkNonNegative f.name (f.of s)

theorem check_of_nonneg (h : 0 ≤ (f.of s).toInt) : s.check f = .ok () :=
  checkNonNegative_eq_ok_iff.2 h

theorem check_of_neg (h : (f.of s).toInt < 0) :
    s.check f = .error (.invalidArgument (.negative f.name (f.of s).toInt)) :=
  if_pos h

/-- The fields are checked in order. -/
theorem validate_eq_forM (s : Settings) : s.validate = Field.all.forM s.check := by
  have hlast (x : Except Fault Unit) : (x >>= fun _ => pure ()) = x := bind_pure x
  simp only [Field.all, List.forM_eq_forM, List.forM_cons, List.forM_nil, hlast]
  rfl

/-- The first check that fails decides. -/
theorem forM_check_eq_error_iff :
    fs.forM s.check = .error fault ↔ ∃ before f after, fs = before ++ f :: after ∧
      (∀ g ∈ before, 0 ≤ (g.of s).toInt) ∧ (f.of s).toInt < 0 ∧
      fault = .invalidArgument (.negative f.name (f.of s).toInt) := by
  induction fs with
  | nil =>
      constructor
      · intro h
        cases h
      · rintro ⟨before, f, after, h, -⟩
        simp at h
  | cons f fs ih =>
      rw [List.forM_eq_forM, List.forM_cons]
      by_cases hf : (f.of s).toInt < 0
      · rw [check_of_neg hf]
        constructor
        · intro h
          cases h
          exact ⟨[], f, fs, rfl, by simp, hf, rfl⟩
        · rintro ⟨before, g, after, h, hbefore, -, rfl⟩
          cases before with
          | nil =>
              cases h
              rfl
          | cons g' before =>
              cases h
              have hnonneg := hbefore f (by simp)
              omega
      · have hnonneg : 0 ≤ (f.of s).toInt := Int.not_lt.1 hf
        rw [check_of_nonneg hnonneg]
        refine Iff.trans ih ?_
        constructor
        · rintro ⟨before, g, after, rfl, hbefore, hg⟩
          refine ⟨f :: before, g, after, rfl, ?_, hg⟩
          exact List.forall_mem_cons.2 ⟨hnonneg, hbefore⟩
        · rintro ⟨before, g, after, h, hbefore, hg, hfault⟩
          cases before with
          | nil =>
              cases h
              exact absurd hg hf
          | cons g' before =>
              cases h
              exact ⟨before, g, after, rfl, (List.forall_mem_cons.1 hbefore).2, hg, hfault⟩

/-- **Why settings are refused**: the first negative time in order is the fault. -/
theorem validate_eq_error_iff :
    s.validate = .error fault ↔ ∃ f, s.FirstNegative f ∧
      fault = .invalidArgument (.negative f.name (f.of s).toInt) := by
  rw [validate_eq_forM, forM_check_eq_error_iff]
  constructor
  · rintro ⟨before, f, after, hall, hbefore, hneg, hfault⟩
    exact ⟨f, ⟨hneg, before, after, hall, hbefore⟩, hfault⟩
  · rintro ⟨f, ⟨hneg, before, after, hall, hbefore⟩, hfault⟩
    exact ⟨before, f, after, hall, hbefore, hneg, hfault⟩

theorem isNonNegative_iff : s.IsNonNegative ↔ ∀ f : Field, 0 ≤ (f.of s).toInt := by
  constructor
  · rintro ⟨h₁, h₂, h₃, h₄, h₅⟩ f
    cases f with
    | confirmationWait => exact h₁
    | responseBase => exact h₂
    | stateChangeTimeout => exact h₃
    | joinGracePeriod => exact h₄
    | sendWaitTimeout => exact h₅
  · intro h
    exact ⟨h .confirmationWait, h .responseBase, h .stateChangeTimeout, h .joinGracePeriod,
      h .sendWaitTimeout⟩

/-- Beyond the checks nothing is refused. -/
theorem create_eq_error_iff :
    (Machine.create s : Except Fault (Machine L)) = .error fault ↔ s.validate = .error fault := by
  cases hv : s.validate with
  | ok _ =>
      rw [(validate_eq_ok_iff.1 hv).create_eq]
      simp
  | error fault' =>
      simp [Machine.create, hv, bind, Except.bind]

theorem create_eq_ok_iff :
    (Machine.create s : Except Fault (Machine L)) = .ok m ↔
      s.IsNonNegative ∧ m = { settings := s, timing := s.timing } := by
  constructor
  · intro h
    have hs : s.IsNonNegative := by
      refine validate_eq_ok_iff.1 ?_
      cases hv : s.validate with
      | ok _ => rfl
      | error fault =>
          rw [create_eq_error_iff.2 hv] at h
          cases h
    rw [hs.create_eq] at h
    cases h
    exact ⟨hs, rfl⟩
  · rintro ⟨hs, rfl⟩
    exact hs.create_eq

/-- A time that is not negative is not cut off. -/
theorem clampedMillis_eq {ms : Int64} (h : 0 ≤ ms.toInt) :
    (Timing.clampedMillis ms : Int) = ms.toInt * 1000000 := by
  have hnat : (ms.toInt.toNat : Int) = ms.toInt := Int.toNat_of_nonneg h
  change ((ms.toInt.toNat * 1000000 : Nat) : Int) = ms.toInt * 1000000
  rw [Int.natCast_mul, hnat]
  rfl

theorem inForce_eq (hs : s.IsNonNegative) (f : Field) :
    (f.inForce ({ settings := s, timing := s.timing } : Machine L) : Int) =
      (f.of s).toInt * 1000000 := by
  have hf := isNonNegative_iff.1 hs f
  cases f <;> exact clampedMillis_eq hf

end Checking

section Environments

variable {env : Environment} {f : Field} {n : Int64} {value : String}

/-- What an environment says of a field: the number that its variable is set to, or else the default. -/
inductive Says (env : Environment) (f : Field) : Int64 → Prop
  | set {value : String} {n : Int64} (hv : env f.key = some value) (hn : Denotes value n) :
      Says env f n
  | unset (h : ∀ value n, env f.key = some value → ¬ Denotes value n) : Says env f (f.of {})

theorem of_ofEnvironment_eq_iff : f.of (ofEnvironment env) = n ↔ Says env f n := by
  constructor
  · rintro rfl
    by_cases h : ∃ value n, env f.key = some value ∧ Denotes value n
    · obtain ⟨value, n, hv, hn⟩ := h
      rw [of_ofEnvironment_of_denotes hv hn]
      exact .set hv hn
    · have hno : ∀ value n, env f.key = some value → ¬ Denotes value n :=
        fun value n hv hn => h ⟨value, n, hv, hn⟩
      rw [of_ofEnvironment_of_not_denotes hno]
      exact .unset hno
  · intro h
    cases h with
    | set hv hn => exact of_ofEnvironment_of_denotes hv hn
    | unset h => exact of_ofEnvironment_of_not_denotes h

/-- A number that is printed in decimal, with blanks around it or without, denotes itself. -/
theorem denotes_of_ofInt {front back : List Char}
    (hv : value.toList = front ++ Decimal.ofInt n.toInt ++ back)
    (hfront : ∀ c ∈ front, Blank.isBlank c = true) (hback : ∀ c ∈ back, Blank.isBlank c = true) :
    Denotes value n := by
  have hnumeral := Decimal.signed?_eq_some_iff.1 (Decimal.signed?_ofInt n.toInt)
  obtain ⟨hhead, hlast⟩ := hnumeral.not_isBlank
  exact ⟨_, ⟨⟨front, back, hv, hfront, hback⟩, hhead, hlast⟩, hnumeral⟩

/-- **From the environment to the machine**: each field is what its own variable says; a machine is
refused for its first negative time and nothing else, and it goes by the times exactly. -/
theorem ofEnvironment_faithful (L : Type) (env : Environment) :
    (∀ (f : Field) (n : Int64), f.of (ofEnvironment env) = n ↔ Says env f n) ∧
    (∀ (f : Field) (n : Int64) (value : String) (front back : List Char),
      env f.key = some value → value.toList = front ++ Decimal.ofInt n.toInt ++ back →
      (∀ c ∈ front, Blank.isBlank c = true) → (∀ c ∈ back, Blank.isBlank c = true) →
      f.of (ofEnvironment env) = n) ∧
    (∀ fault, (Machine.create (ofEnvironment env) : Except Fault (Machine L)) = .error fault ↔
      ∃ f, FirstNegative (ofEnvironment env) f ∧
        fault = .invalidArgument (.negative f.name (f.of (ofEnvironment env)).toInt)) ∧
    ((∃ m : Machine L, Machine.create (ofEnvironment env) = .ok m) ↔
      ∀ f : Field, 0 ≤ (f.of (ofEnvironment env)).toInt) ∧
    ∀ m : Machine L, Machine.create (ofEnvironment env) = .ok m →
      m.settings = ofEnvironment env ∧ Timing.ofSettings (ofEnvironment env) = .ok m.timing ∧
        ∀ f : Field, (f.inForce m : Int) = (f.of (ofEnvironment env)).toInt * 1000000 := by
  refine ⟨fun f n => of_ofEnvironment_eq_iff, ?_, ?_, ?_, ?_⟩
  · intro f n value front back hv htext hfront hback
    exact of_ofEnvironment_of_denotes hv (denotes_of_ofInt htext hfront hback)
  · intro fault
    rw [create_eq_error_iff, validate_eq_error_iff]
  · simp only [create_eq_ok_iff, exists_and_left, exists_eq, and_true, isNonNegative_iff]
  · intro m hm
    obtain ⟨hs, rfl⟩ := create_eq_ok_iff.1 hm
    exact ⟨rfl, hs.ofSettings_eq, inForce_eq hs⟩

end Environments

end Settings
end MeshExchange
