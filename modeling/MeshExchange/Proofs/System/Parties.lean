import Mathlib.Logic.Function.Basic
import MeshExchange.Proofs.Machine.Mail
import MeshExchange.Proofs.System.Sparing

/-!
# Who waits for a reply

The callers and the pump have at most one command on its way each. Whatever happens besides the worker
either leaves all commands alone, or it is one of these parties that submits a command, hands it in, or
learns what became of it.

**Results.**
* `Party`, `System.pending?`: the parties, and the command that each has on its way;
* `System.Advances`, `System.advances_of_advance`: the steps of a caller;
* `System.Pumps`, `System.pumps_of_deliver`: the steps of the pump;
* `System.Deals`, `System.deals_of_step`: what a step that is no pass of the worker does about the
  commands.
-/

namespace MeshExchange

/-- Those who submit commands. -/
inductive Party
  | caller (i : Nat)
  | pump
  deriving DecidableEq, Repr

namespace Stage

/-- The command that a caller has on its way. -/
def pending? : Stage → Option Pending
  | .commanding p | .announced _ p => some p
  | _ => none

/-- Whether a caller has no command on its way and no frame to hand over. -/
def isPlain : Stage → Bool
  | .commanding _ | .announced _ _ | .transmitting _ _ => false
  | _ => true

theorem pending?_eq_none_of_isPlain {stage : Stage} (h : stage.isPlain = true) :
    stage.pending? = none := by
  cases stage <;> first | rfl | cases h

end Stage

/-- How a sender's call ends, once its frame was handed to the link. -/
def Answer.ofTransmission (phase : Phase) : Except Fault Unit → Answer
  | .ok _ => .entered phase
  | .error fault => .refused fault

/-- The command that the pump has on its way. -/
def Pump.pending? : Pump → Option Pending
  | .handing _ p => some p
  | _ => none

namespace Machine

variable {L : Type} {m m' : Machine L}

/-- What leaves the commands of a machine alone, or drops all of them for good. -/
structure Quiet (m m' : Machine L) : Prop where
  mailbox : m'.mailbox = m.mailbox ∨ m'.mailbox = m.mailbox.close
  replies : m'.replies = m.replies
  closed : m.status.isClosed = true → m'.status.isClosed = true
  dropped : m'.status.isClosed = true → m.status.isClosed = true ∨ m'.mailbox.contents = []
  /-- The commands of a machine that runs are kept. -/
  kept : m.status = .running → m'.mailbox = m.mailbox

namespace Quiet

/-- Only what has nothing to do with commands is changed. -/
theorem of_eq (hb : m'.mailbox = m.mailbox) (hr : m'.replies = m.replies)
    (hs : m'.status = m.status) : Quiet m m' :=
  ⟨.inl hb, hr, fun h => hs ▸ h, fun h => .inl (hs ▸ h), fun _ => hb⟩

theorem refl (m : Machine L) : Quiet m m := of_eq rfl rfl rfl

theorem of_start {hasExecutor : Bool} (h : m.start hasExecutor = .ok m') : Quiet m m' := by
  obtain ⟨hs, rfl⟩ := start_eq_ok h
  exact ⟨.inl rfl, rfl, by simp [hs, Status.isClosed], by simp [Status.isClosed], fun _ => rfl⟩

theorem of_destroy (m : Machine L) : Quiet m m.destroy := by
  unfold destroy
  split
  · next hs =>
      exact ⟨.inl rfl, rfl, by simp [hs, Status.isClosed], by simp [Status.isClosed], fun _ => rfl⟩
  · next hs => exact ⟨.inr rfl, rfl, fun _ => rfl, fun _ => .inr rfl, fun hr => by simp [hs] at hr⟩
  · next hs => exact ⟨.inr rfl, rfl, fun _ => rfl, fun _ => .inr rfl, fun hr => by simp [hs] at hr⟩
  · exact .refl m
  · exact .refl m

theorem of_setTime {f : Timing.Field} {ms : Int64} (h : m.setTime f ms = .ok m') : Quiet m m' := by
  obtain ⟨timing, rfl⟩ := exists_timing_of_setTime h
  exact .of_eq rfl rfl rfl

end Quiet
end Machine

namespace System

section Quietness

/-- What touches neither the commands nor the deliveries nor the journal. -/
structure Quiet (s s' : System) : Prop where
  machine : s.machine.Quiet s'.machine
  callers : s'.callers = s.callers
  pump : s'.pump = s.pump
  journal : s'.journal = s.journal
  now : s'.now = s.now
  deliveries : s'.deliveries = s.deliveries

variable {s s' : System}

theorem Quiet.of_machine {m : Machine Observer} (h : s.machine.Quiet m) :
    Quiet s { s with machine := m } := ⟨h, rfl, rfl, rfl, rfl, rfl⟩

theorem Quiet.refl (s : System) : Quiet s s := .of_machine (.refl _)

theorem change_quiet {r : Except Fault (Machine Observer)} {stage : Stage}
    (hr : ∀ m, r = .ok m → s.machine.Quiet m) (h : s.change r = (stage, s')) :
    Quiet s s' ∧ stage.isPlain = true := by
  cases r with
  | ok m =>
      cases h
      exact ⟨.of_machine (hr m rfl), rfl⟩
  | error fault =>
      cases h
      exact ⟨.refl s, rfl⟩

theorem command_cases {c : Command} {stage : Stage} (h : s.command c = (stage, s')) :
    (∃ p m, s.machine.submit c s.now = .ok (p, m) ∧ stage = .commanding p ∧
        s' = { s with machine := m }) ∨
      (stage = .finished s.now (.refused .notRunning) ∧ s' = s) := by
  unfold command at h
  split at h
  · next p m hm =>
      cases h
      exact .inl ⟨p, m, hm, rfl, rfl⟩
  · next fault hf =>
      cases h
      rw [(Machine.submit_eq_error hf).2]
      exact .inr ⟨rfl, rfl⟩

theorem seek_cases {sending : Sending} {stage : Stage} (h : s.seek sending = (stage, s')) :
    s' = s ∧ ((∃ limit giveUp, stage = .seeking sending limit giveUp) ∨
      stage = .finished s.now (.refused .notRunning)) := by
  unfold seek at h
  split at h <;> cases h
  · exact ⟨rfl, .inl ⟨_, _, rfl⟩⟩
  · exact ⟨rfl, .inr rfl⟩

theorem isPlain_of_seek {sending : Sending} {stage : Stage} (h : s.seek sending = (stage, s')) :
    Quiet s s' ∧ stage.isPlain = true := by
  obtain ⟨rfl, ⟨limit, giveUp, rfl⟩ | rfl⟩ := seek_cases h
  · exact ⟨.refl s', rfl⟩
  · exact ⟨.refl s', rfl⟩

/-- How a call begins. -/
inductive Begins (s : System) : Call → Stage → System → Prop
  | commands {call : Call} {c : Command} {p : Pending} {m : Machine Observer}
      (h : s.machine.submit c s.now = .ok (p, m)) :
      Begins s call (.commanding p) { s with machine := m }
  /-- A receiver is emptied. -/
  | drains {name : String} {o : Observer} (h : s.observer? .forwarding name = some o) :
      Begins s (.drain name) (.finished s.now (.drained (s.waitingNotifications o)))
        (s.record (.drained o))
  | plain {call : Call} {stage : Stage} {s' : System} (hs : stage.isPlain = true)
      (h : s.Quiet s') : Begins s call stage s'

theorem begins_of_begin {call : Call} {stage : Stage} (h : s.begin call = (stage, s')) :
    s.Begins call stage s' := by
  have hcommand {c : Command} (h : s.command c = (stage, s')) : s.Begins call stage s' := by
    rcases command_cases h with ⟨p, m, hm, rfl, rfl⟩ | ⟨rfl, rfl⟩
    · exact .commands hm
    · exact .plain rfl (.refl s')
  cases call with
  | newRequest r => exact hcommand h
  | confirmation c receivedAt => exact hcommand h
  | response length receivedAt => exact hcommand h
  | reset => exact hcommand h
  | receive frame receivedAt =>
      simp only [begin] at h
      split at h
      · exact hcommand h
      · cases h
        exact .plain rfl (.refl s)
  | send r =>
      simp only [begin] at h
      split at h
      · obtain ⟨hq, hs⟩ := isPlain_of_seek h
        exact .plain hs hq
      · cases h
        exact .plain rfl (.refl s)
  | drain name =>
      simp only [begin] at h
      split at h
      · next o ho =>
          cases h
          exact .drains ho
      · cases h
        exact .plain rfl (.refl s)
  | start hasExecutor =>
      obtain ⟨hq, hs⟩ := change_quiet (fun m hm => .of_start hm) h
      exact .plain hs hq
  | setTime f ms =>
      obtain ⟨hq, hs⟩ := change_quiet (fun m hm => .of_setTime hm) h
      exact .plain hs hq
  | destroy =>
      simp only [begin] at h
      split at h <;> cases h <;> exact .plain rfl (.of_machine (.of_destroy _))
  | register kind name =>
      cases h
      exact .plain rfl ⟨.of_eq rfl rfl rfl, rfl, rfl, rfl, rfl, rfl⟩
  | unregister =>
      cases h
      exact .plain rfl (.of_machine (.of_eq rfl rfl rfl))
  | setBehaviour behaviour =>
      cases h
      exact .plain rfl ⟨.refl _, rfl, rfl, rfl, rfl, rfl⟩
  | waitFree limit =>
      simp only [begin] at h
      split at h <;> cases h <;> exact .plain rfl (.refl s)
  | sleep | waitPhase | inspect | counts | sent =>
      cases h
      exact .plain rfl (.refl s)

end Quietness

section Advancing

/-- The steps of a caller. -/
inductive Advances (s : System) : Stage → Stage → System → Prop
  | plain {stage stage' : Stage} {s' : System} (hs : stage.isPlain = true)
      (hs' : stage'.isPlain = true) (h : s.Quiet s') : Advances s stage stage' s'
  | commands {due : Instant} {call : Call} {c : Command} {p : Pending} {m : Machine Observer}
      (h : s.machine.submit c s.now = .ok (p, m)) :
      Advances s (.planned due call) (.commanding p) { s with machine := m }
  | drains {due : Instant} {name : String} {o : Observer}
      (h : s.observer? .forwarding name = some o) :
      Advances s (.planned due (.drain name))
        (.finished s.now (.drained (s.waitingNotifications o))) (s.record (.drained o))
  | announces {sending : Sending} {p : Pending} {m : Machine Observer}
      (h : s.machine.submit (.newRequest sending.request) s.now = .ok (p, m)) :
      Advances s (.announcing sending) (.announced sending p) { s with machine := m }
  | handsIn {stage : Stage} {p : Pending} {m : Machine Observer} (hp : stage.pending? = some p)
      (h : s.machine.pursue p s.now = some (none, m)) :
      Advances s stage stage { s with machine := m }
  | replied {p : Pending} {reply : Reply} {m : Machine Observer}
      (h : s.machine.pursue p s.now = some (some reply, m)) :
      Advances s (.commanding p) (.finished s.now (.ofReply p.command reply))
        { s with machine := m }
  | accepted {sending : Sending} {p : Pending} {phase : Phase} {m : Machine Observer}
      (h : s.machine.pursue p s.now = some (some (.ok phase), m)) :
      Advances s (.announced sending p) (.transmitting sending phase) { s with machine := m }
  | declined {sending : Sending} {p : Pending} {fault : Fault} {m : Machine Observer}
      {stage' : Stage} (h : s.machine.pursue p s.now = some (some (.error fault), m))
      (hs' : (∃ limit giveUp, stage' = .seeking sending limit giveUp) ∨
        ∃ fault, stage' = .finished s.now (.refused fault)) :
      Advances s (.announced sending p) stage' { s with machine := m }
  | transmits (sending : Sending) (phase : Phase) (outcome : Except Fault Unit)
      (deliveries : List Delivery) :
      Advances s (.transmitting sending phase) (.finished s.now (.ofTransmission phase outcome))
        { s.record (.transmitted sending.frame outcome) with deliveries }

variable {s s' : System} {stage stage' : Stage}

theorem advances_of_afterAnnouncement {sending : Sending} {p : Pending} {reply : Reply}
    {m : Machine Observer} (hp : s.machine.pursue p s.now = some (some reply, m))
    (h : { s with machine := m }.afterAnnouncement sending reply = (stage', s')) :
    s.Advances (.announced sending p) stage' s' := by
  unfold afterAnnouncement at h
  split at h
  · cases h
    exact .accepted hp
  · split at h
    · obtain ⟨rfl, ⟨limit, giveUp, rfl⟩ | rfl⟩ := seek_cases h
      · exact .declined hp (.inl ⟨_, _, rfl⟩)
      · exact .declined hp (.inr ⟨_, rfl⟩)
    · cases h
      exact .declined hp (.inr ⟨_, rfl⟩)

/-- A wait that ends leaves everything alone. -/
theorem advances_of_wait (hs : stage.isPlain = true)
    (h : stage'.isPlain = true ∧ s' = s) : s.Advances stage stage' s' := by
  obtain ⟨hs', rfl⟩ := h
  exact .plain hs hs' (.refl s')

theorem advances_of_advance (h : s.advance stage = some (stage', s')) :
    s.Advances stage stage' s' := by
  cases stage with
  | planned due call =>
      simp only [advance] at h
      split at h
      · cases begins_of_begin (Option.some.inj h) with
        | commands hm => exact .commands hm
        | drains ho => exact .drains ho
        | plain hs' hq => exact .plain rfl hs' hq
      · cases h
  | sleeping due =>
      simp only [advance] at h
      split at h <;> cases h
      exact advances_of_wait rfl ⟨rfl, rfl⟩
  | commanding pending =>
      obtain ⟨⟨reply, m⟩, hp, hm⟩ := Option.map_eq_some_iff.1 h
      cases reply with
      | none =>
          cases hm
          exact .handsIn rfl hp
      | some reply =>
          cases hm
          exact .replied hp
  | waitingFree limit giveUp =>
      simp only [advance] at h
      split at h
      · cases h
        exact advances_of_wait rfl ⟨rfl, rfl⟩
      · cases h
        exact advances_of_wait rfl ⟨rfl, rfl⟩
      · split at h <;> cases h
        exact advances_of_wait rfl ⟨rfl, rfl⟩
  | waitingPhase target giveUp =>
      simp only [advance] at h
      split at h
      · cases h
        exact advances_of_wait rfl ⟨rfl, rfl⟩
      · split at h <;> cases h
        exact advances_of_wait rfl ⟨rfl, rfl⟩
  | joining giveUp =>
      simp only [advance] at h
      split at h <;> cases h
      exact advances_of_wait rfl ⟨rfl, rfl⟩
  | seeking sending limit giveUp =>
      simp only [advance] at h
      split at h
      · cases h
        exact advances_of_wait rfl ⟨rfl, rfl⟩
      · cases h
        exact advances_of_wait rfl ⟨rfl, rfl⟩
      · split at h <;> cases h
        exact advances_of_wait rfl ⟨rfl, rfl⟩
  | announcing sending =>
      simp only [advance] at h
      split at h
      · next p m hm =>
          cases h
          exact .announces hm
      · cases h
        exact advances_of_wait rfl ⟨rfl, rfl⟩
  | announced sending pending =>
      obtain ⟨⟨reply, m⟩, hp, hm⟩ := Option.map_eq_some_iff.1 h
      cases reply with
      | none =>
          cases hm
          exact .handsIn rfl hp
      | some reply => exact advances_of_afterAnnouncement hp hm
  | transmitting sending phase =>
      have h' := Option.some.inj h
      unfold transmit at h'
      split at h'
      · next ds hd =>
          cases h'
          exact .transmits sending phase (.ok ()) _
      · next fault hf =>
          cases h'
          exact .transmits sending phase (.error fault) s.deliveries
  | finished instant answer => cases h

end Advancing

section Pumping

/-- The steps of the pump. -/
inductive Pumps (s : System) : System → Prop
  | plain {s' : System} (hp : s.pump.pending? = none) (hp' : s'.pump.pending? = none)
      (hm : s'.machine = s.machine) (hc : s'.callers = s.callers)
      (hj : ∃ l, s'.journal = s.journal ++ l ∧ ∀ x ∈ l, ∃ d outcome, x.2 = .handedOver d outcome) :
      Pumps s s'
  | submits {d : Delivery} {c : Command} {p : Pending} {m : Machine Observer}
      (hp : s.pump.pending? = none) (h : s.machine.submit c s.now = .ok (p, m)) :
      Pumps s { s with machine := m, pump := .handing d p }
  | handsIn {p : Pending} {m : Machine Observer} (hp : s.pump.pending? = some p)
      (h : s.machine.pursue p s.now = some (none, m)) : Pumps s { s with machine := m }
  | learns {d : Delivery} {p : Pending} {reply : Reply} {m : Machine Observer}
      (hp : s.pump.pending? = some p) (h : s.machine.pursue p s.now = some (some reply, m)) :
      Pumps s ({ s with machine := m }.handOver d reply)

variable {s s' : System}

theorem pumps_of_deliver (h : s.deliver = some s') : s.Pumps s' := by
  unfold deliver at h
  split at h
  · next hp =>
      split at h <;> cases h
      exact .plain (by simp [hp, Pump.pending?]) rfl rfl rfl ⟨[], by simp, by simp⟩
  · next d hp =>
      have hp' : s.pump.pending? = none := by
        simp [hp, Pump.pending?]
      split at h
      · split at h
        · cases h
          exact .plain hp' rfl rfl rfl ⟨[_], rfl, by simp⟩
        · split at h
          · next p m hm =>
              cases h
              exact .submits hp' hm
          · cases h
            exact .plain hp' rfl rfl rfl ⟨[_], rfl, by simp⟩
      · cases h
  · next d p hp =>
      have hp' : s.pump.pending? = some p := by
        simp [hp, Pump.pending?]
      obtain ⟨⟨reply, m⟩, hpursue, hm⟩ := Option.map_eq_some_iff.1 h
      cases reply with
      | none =>
          cases hm
          exact .handsIn hp' hpursue
      | some reply =>
          cases hm
          exact .learns hp' hpursue

end Pumping

section Dealing

/-- The command that a party has on its way. -/
def pending? (s : System) : Party → Option Pending
  | .caller i => s.callers[i]?.bind Stage.pending?
  | .pump => s.pump.pending?

/-- What happens to the commands besides the worker. -/
inductive Deals (s s' : System) : Prop
  | rests (h : s.machine.Quiet s'.machine) (hp : s'.pending? = s.pending?)
  | submits {x : Party} {c : Command} {p : Pending} (hx : s.pending? x = none)
      (h : s.machine.submit c s.now = .ok (p, s'.machine))
      (hp : s'.pending? = Function.update s.pending? x (some p))
  | handsIn {x : Party} {p : Pending} (hx : s.pending? x = some p)
      (h : s.machine.pursue p s.now = some (none, s'.machine)) (hp : s'.pending? = s.pending?)
  | learns {x : Party} {p : Pending} {reply : Reply} (hx : s.pending? x = some p)
      (h : s.machine.pursue p s.now = some (some reply, s'.machine))
      (hp : s'.pending? = Function.update s.pending? x none)

variable {s s' s₁ : System} {stage stage' : Stage} {i : Nat}

theorem pending?_caller (hi : s.callers[i]? = some stage) :
    s.pending? (.caller i) = stage.pending? := by
  simp [pending?, hi]

/-- Only the caller that takes a step may have another command on its way after it. -/
theorem pending?_set (hi : s.callers[i]? = some stage) (hc : s₁.callers = s.callers)
    (hp : s₁.pump = s.pump) :
    pending? { s₁ with callers := s₁.callers.set i stage' } =
      Function.update s.pending? (.caller i) stage'.pending? := by
  have hlt : i < s.callers.length := (List.getElem?_eq_some_iff.1 hi).1
  funext x
  cases x with
  | pump => simp [pending?, hp, Function.update]
  | caller j =>
      by_cases hij : i = j
      · subst hij
        simp [pending?, hc, hlt, Function.update]
      · have hne : Party.caller j ≠ .caller i := by
          simpa using Ne.symm hij
        simp [pending?, hc, List.getElem?_set_ne hij, Function.update, hne]

theorem pending?_pump (hc : s'.callers = s.callers) :
    s'.pending? = Function.update s.pending? .pump s'.pump.pending? := by
  funext x
  cases x with
  | pump => simp [pending?]
  | caller j => simp [pending?, hc, Function.update]

theorem exists_advances_of_resume (h : s.resume i = some s') :
    ∃ stage stage' s₁, s.callers[i]? = some stage ∧ s.Advances stage stage' s₁ ∧
      s' = { s₁ with callers := s₁.callers.set i stage' } := by
  obtain ⟨stage, hi, h⟩ := Option.bind_eq_some_iff.1 h
  obtain ⟨⟨stage', s₁⟩, ha, rfl⟩ := Option.map_eq_some_iff.1 h
  exact ⟨stage, stage', s₁, hi, advances_of_advance ha, rfl⟩

theorem deals_of_resume (h : s.resume i = some s') : s.Deals s' := by
  obtain ⟨stage, stage', s₁, hi, ha, rfl⟩ := exists_advances_of_resume h
  have hx := pending?_caller hi
  cases ha with
  | plain hs hs' hq =>
      refine .rests hq.machine ((pending?_set hi hq.callers hq.pump).trans ?_)
      rw [Stage.pending?_eq_none_of_isPlain hs', ← Stage.pending?_eq_none_of_isPlain hs, ← hx,
        Function.update_eq_self]
  | commands hm => exact .submits hx hm (pending?_set hi rfl rfl)
  | drains ho =>
      refine .rests (.refl _) ((pending?_set hi rfl rfl).trans ?_)
      exact Function.update_eq_self_iff.2 hx.symm
  | announces hm => exact .submits hx hm (pending?_set hi rfl rfl)
  | handsIn hp hm =>
      refine .handsIn (hx.trans hp) hm ((pending?_set hi rfl rfl).trans ?_)
      rw [← hx, Function.update_eq_self]
  | replied hm => exact .learns hx hm (pending?_set hi rfl rfl)
  | accepted hm => exact .learns hx hm (pending?_set hi rfl rfl)
  | @declined sending p fault m stage' hm hs' =>
      refine .learns hx hm ((pending?_set hi rfl rfl).trans ?_)
      rcases hs' with ⟨limit, giveUp, rfl⟩ | ⟨fault, rfl⟩ <;> rfl
  | transmits =>
      refine .rests (.refl _) ((pending?_set hi rfl rfl).trans ?_)
      exact Function.update_eq_self_iff.2 hx.symm

theorem deals_of_deliver (h : s.deliver = some s') : s.Deals s' := by
  have hp := pumps_of_deliver h
  cases hp with
  | plain hp hp' hm hc =>
      refine .rests (hm ▸ .refl _) ?_
      rw [pending?_pump hc, hp', ← hp]
      exact Function.update_eq_self_iff.2 rfl
  | submits hp hm => exact .submits (x := .pump) hp hm (pending?_pump rfl)
  | handsIn hp hm =>
      refine .handsIn (x := .pump) hp hm ?_
      rw [pending?_pump rfl]
      exact Function.update_eq_self_iff.2 rfl
  | learns hp hm => exact .learns (x := .pump) hp hm (pending?_pump rfl)

theorem deals_of_step {a : Action} (ha : a ≠ .work) (h : s.step a = some s') : s.Deals s' := by
  cases a with
  | call due call =>
      cases h
      refine .rests (.refl _) ?_
      funext x
      cases x with
      | pump => rfl
      | caller j =>
          simp only [pending?, List.getElem?_append, List.getElem?_singleton]
          split
          · rfl
          · next hj =>
              rw [List.getElem?_eq_none (Nat.le_of_not_lt hj)]
              split <;> rfl
  | resume i => exact deals_of_resume h
  | work => exact absurd rfl ha
  | deliver => exact deals_of_deliver h
  | elapse t =>
      simp only [step] at h
      split at h <;> cases h
      exact .rests (.refl _) rfl

end Dealing

end System
end MeshExchange
