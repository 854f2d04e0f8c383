import MeshExchange.Address
import MeshExchange.Phase
import MeshExchange.Time

/-!
# Faults

Why an operation was refused, as a cause with the data that describes it. The wording of every fault
is in `Fault.message` and nowhere else.

**Results.**
* `Fault.message`: the text of a fault;
* `Fault.isContractViolation`, `Fault.isStateTimeout`: the two refusals of a running machine.
-/

namespace MeshExchange

/-- The operations that the machine's worker carries out. -/
inductive Operation
  | newRequest
  | confirmationReceived
  | responseReceived
  | resetAfterError
  deriving DecidableEq, Repr

/-- The name of an operation in messages. -/
def Operation.name : Operation → String
  | .newRequest => "new_request"
  | .confirmationReceived => "confirmation_received"
  | .responseReceived => "response_received"
  | .resetAfterError => "reset_after_error"

/-- Why a setting is refused. -/
inductive SettingFault
  /-- A time below zero. -/
  | negative (name : String) (ms : Int)
  /-- Any other reason, in words. -/
  | stated (reason : String)
  deriving DecidableEq, Repr

/-- Why a frame cannot be written or read. -/
inductive FrameFault
  | reservedTarget (address : Address)
  | dataTooLong (length : Nat) (limit : Nat)
  | replyTooShort (length : Nat) (header : Nat)
  | confirmationTooShort (length : Nat)
  | requestTooShort (length : Nat)
  /-- Any other reason, in words. -/
  | stated (reason : String)
  deriving DecidableEq, Repr

/-- Why a frame does not leave. -/
inductive SendFault
  | transportDown
  | pumpStopped
  /-- Any other reason, in words. -/
  | stated (reason : String)
  deriving DecidableEq, Repr

/-- Why an operation is refused. -/
inductive Fault
  /-- The phase does not allow the operation. -/
  | contractViolation (operation : Operation) (phase : Phase)
  /-- The event came after its wait had ended. -/
  | stateTimeout (phase : Phase)
  | invalidArgument (cause : SettingFault)
  /-- No answer within the guard time. -/
  | stateChangeTimeout (limit : Duration)
  | alreadyStarted
  | notRunning
  | frame (cause : FrameFault)
  | send (cause : SendFault)
  deriving DecidableEq, Repr

section Wording

/-- The reason in words. -/
def SettingFault.message : SettingFault → String
  | .negative name ms =>
      name ++ " cannot be negative: " ++ String.ofList (Decimal.ofInt ms) ++ " ms"
  | .stated reason => reason

/-- A count in decimal. -/
def FrameFault.count (n : Nat) : String := String.ofList (Decimal.ofNat n)

/-- The reason in words. -/
def FrameFault.message : FrameFault → String
  | .reservedTarget address => "reserved address " ++ address.text ++ " is not a valid target"
  | .dataTooLong length limit => "request data too long: " ++ count length ++ " > " ++ count limit
  | .replyTooShort length header =>
      "frame too short: " ++ count length ++ " bytes, header needs " ++ count header
  | .confirmationTooShort length => "confirmation data too short: " ++ count length ++ " bytes"
  | .requestTooShort length => "request frame too short: " ++ count length ++ " bytes"
  | .stated reason => reason

/-- The reason in words. -/
def SendFault.message : SendFault → String
  | .transportDown => "mock transport down"
  | .pumpStopped => "mesh pump stopped"
  | .stated reason => reason

/-- The text of a fault. -/
def Fault.message : Fault → String
  | .contractViolation operation phase =>
      "Contract violation: " ++ operation.name ++ " not allowed in phase " ++ phase.banner
  | .stateTimeout phase => "State timed out before the event was accepted, now in " ++ phase.banner
  | .invalidArgument cause => "Invalid argument: " ++ cause.message
  | .stateChangeTimeout limit => "Worker did not acknowledge state change within " ++ limit.text
  | .alreadyStarted => "Protocol state machine already started"
  | .notRunning => "Protocol state machine is not running"
  | .frame cause => "Frame error: " ++ cause.message
  | .send cause => "Send error: " ++ cause.message

end Wording

section Refusals

/-- A caller used an operation in a phase that has no place for it. -/
def Fault.isContractViolation : Fault → Bool
  | .contractViolation _ _ => true
  | _ => false

/-- An event lost against the end of its wait. -/
def Fault.isStateTimeout : Fault → Bool
  | .stateTimeout _ => true
  | _ => false

end Refusals

section Outcomes

/-- Two outcomes are the same success or the same fault. -/
instance decEqOutcome {ε α : Type} [DecidableEq ε] [DecidableEq α] : DecidableEq (Except ε α)
  | .ok a, .ok b => decidable_of_iff (a = b) (by simp)
  | .error e, .error f => decidable_of_iff (e = f) (by simp)
  | .ok _, .error _ => isFalse (by simp)
  | .error _, .ok _ => isFalse (by simp)

end Outcomes

end MeshExchange
