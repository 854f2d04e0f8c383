import Mathlib.Data.List.Induction
import MeshExchange.Proofs.Mesh.MeshRequest
import MeshExchange.Proofs.Mesh.Turnaround
import MeshExchange.Proofs.Script.Refinement

/-!
# Requests that are sent one after the other

A list of requests on a mesh that loses nothing and answers in time, and how far it has got: what was
sent, how far the sender has got with the next request, how far the pump has got with what comes back,
and the channel between them.

**Method.** The progress is put together from that of the sender and that of the pump. Either may have a
command in the slot and a reply to fetch. The pump may still have to fetch its last reply of an exchange
while the sender is announcing the next one, for a linger may last no time at all.

**Results.**
* `Plan.schedule`: each request, with the instant at which its frame leaves;
* `SenderProgress`, `PumpProgress`: how far the sender has got, and how far the pump has;
* `Progress`, `Progress.meshCore`: how far a list has got, and what is seen of it;
* `Plan.Holds`: the channel between two requests;
* `Progress.Valid`: the progress that can be made;
* `Progress.Valid.lapse`, `Progress.Valid.handle`: what the worker makes of them;
* `Progress.Valid.take`, `Progress.Valid.hand`, `Progress.Valid.fetch`: what the pump does;
* `Progress.Valid.plan`, `Progress.Valid.seek`, `Progress.Valid.announce`, `Progress.Valid.submit`,
  `Progress.Valid.learn`, `Progress.Valid.transmit`: what the sender does;
* `Progress.Rests`, `Progress.Rests.elapse`, `Progress.Rests.eq_vacant`: what happens while nobody can act.
-/

namespace MeshExchange

/-- What a list of requests is sent on. -/
structure Plan where
  behaviour : Behaviour
  timing : Timing
  /-- When the first request is sent. -/
  start : Instant
  /-- How long a sender waits for a free channel. -/
  wait : Duration

namespace Plan

variable (p : Plan) (sent : List Request)

section Schedule

/-- The instant at which the channel is free again after a list of requests. -/
def freeAt : Instant := p.start + (sent.map p.behaviour.occupancy).sum

/-- Each request of a list, with the instant at which its frame leaves. -/
def schedule (requests : List Request) : List (Instant × Request) :=
  requests.mapIdx fun k r => (p.freeAt (requests.take k), r)

def answers (requests : List Request) : List (Answer × Instant) :=
  (p.schedule requests).map fun (n, r) => (.entered r.opening, n)

def departures (requests : List Request) : List (Instant × Frame × Except Fault Unit) :=
  (p.schedule requests).map fun (n, r) => (n, r.bytes, .ok ())

def deliveries (requests : List Request) : List Delivery :=
  (p.schedule requests).flatMap fun (n, r) => p.behaviour.deliveries r n

variable {p sent} {r : Request} {later : List Request}

@[simp] theorem freeAt_nil : p.freeAt [] = p.start := by
  simp [freeAt]

theorem freeAt_concat : p.freeAt (sent ++ [r]) = p.freeAt sent + p.behaviour.occupancy r := by
  simp [freeAt, Nat.add_assoc]

theorem freeAt_le_append : p.freeAt sent ≤ p.freeAt (sent ++ later) := by
  simp [freeAt]

theorem schedule_concat : p.schedule (sent ++ [r]) = p.schedule sent ++ [(p.freeAt sent, r)] := by
  rw [schedule, List.mapIdx_concat, List.take_left' rfl]
  congr 1
  refine List.ext_getElem (by simp [schedule]) fun k hk _ => ?_
  have hle : k ≤ sent.length := Nat.le_of_lt (by simpa using hk)
  simp [schedule, List.take_append_of_le_length hle]

/-- What comes later changes nothing about what was sent. -/
theorem schedule_prefix : p.schedule sent <+: p.schedule (sent ++ later) := by
  induction later using List.reverseRecOn with
  | nil => simp
  | append_singleton later r ih =>
      rw [← List.append_assoc, schedule_concat]
      exact ih.trans (List.prefix_append _ _)

theorem map_schedule {requests : List Request} :
    (p.schedule requests).map (·.2) = requests := by
  induction requests using List.reverseRecOn with
  | nil => rfl
  | append_singleton requests r ih => rw [schedule_concat, List.map_append, ih, List.map_singleton]

theorem answers_prefix : p.answers sent <+: p.answers (sent ++ later) :=
  schedule_prefix.map _

theorem departures_prefix : p.departures sent <+: p.departures (sent ++ later) :=
  schedule_prefix.map _

theorem deliveries_prefix : p.deliveries sent <+: p.deliveries (sent ++ later) := by
  have hprefix : p.schedule sent <+: p.schedule (sent ++ later) := schedule_prefix
  obtain ⟨rest, h⟩ := hprefix
  rw [deliveries, deliveries, ← h, List.flatMap_append]
  exact List.prefix_append _ _

theorem map_departures {requests : List Request} :
    (p.departures requests).map (·.2.1) = requests.map Request.bytes := by
  have h : (p.schedule requests).map (·.2) = requests := map_schedule
  conv_rhs => rw [← h, List.map_map]
  rw [departures, List.map_map]
  rfl

theorem answers_concat :
    p.answers (sent ++ [r]) = p.answers sent ++ [(.entered r.opening, p.freeAt sent)] := by
  simp [answers, schedule_concat]

theorem departures_concat :
    p.departures (sent ++ [r]) = p.departures sent ++ [(p.freeAt sent, r.bytes, .ok ())] := by
  simp [departures, schedule_concat]

theorem deliveries_concat :
    p.deliveries (sent ++ [r]) = p.deliveries sent ++ p.behaviour.deliveries r (p.freeAt sent) := by
  simp [deliveries, schedule_concat]

end Schedule
end Plan

/-- How far the pump has got with what comes back. -/
inductive PumpProgress
  | idle (waiting : List Delivery)
  | sleeping (d : Delivery) (waiting : List Delivery)
  /-- The command of a delivery is in the slot. -/
  | handed (d : Delivery) (waiting : List Delivery) (ticket : Ticket) (command : Command)
      (giveUp : Instant)
  /-- The command was accepted. -/
  | answered (d : Delivery) (waiting : List Delivery) (ticket : Ticket) (command : Command)
      (giveUp : Instant) (phase : Phase)

namespace PumpProgress

/-- What the pump is doing. -/
def state : PumpProgress → Pump
  | idle _ => .idle
  | sleeping d _ => .sleeping d
  | handed d _ ticket c giveUp | answered d _ ticket c giveUp _ => .handing d ⟨ticket, c, giveUp⟩

/-- What the pump has not taken yet. -/
def waiting : PumpProgress → List Delivery
  | idle ds | sleeping _ ds | handed _ ds _ _ _ | answered _ ds _ _ _ _ => ds

/-- What the worker has not handled yet. -/
def ahead : PumpProgress → List Delivery
  | idle ds | answered _ ds _ _ _ _ => ds
  | sleeping d ds | handed d ds _ _ _ => d :: ds

/-- What the worker has handled and the pump does not know of. -/
def handled : PumpProgress → List Delivery
  | answered d _ _ _ _ _ => [d]
  | _ => []

/-- What the pump has in the slot. -/
def claim : PumpProgress → Option (Ticket × Command)
  | handed _ _ ticket c _ => some (ticket, c)
  | _ => none

/-- What the pump finds among the replies. -/
def replies : PumpProgress → List (Ticket × Reply)
  | answered _ _ ticket _ _ phase => [(ticket, .ok phase)]
  | _ => []

/-- What the pump finds is the reply to its own command. -/
theorem exists_state_of_mem_replies {h : PumpProgress} {a : Ticket × Reply} (ha : a ∈ h.replies) :
    ∃ d q, h.state = .handing d q ∧ q.ticket = a.1 := by
  cases h with
  | answered d ds ticket c giveUp phase =>
      rw [List.mem_singleton.1 ha]
      exact ⟨_, _, rfl, rfl⟩
  | _ => cases ha

/-- More deliveries come. -/
def extend (ds' : List Delivery) : PumpProgress → PumpProgress
  | idle ds => idle (ds ++ ds')
  | sleeping d ds => sleeping d (ds ++ ds')
  | handed d ds ticket c giveUp => handed d (ds ++ ds') ticket c giveUp
  | answered d ds ticket c giveUp phase => answered d (ds ++ ds') ticket c giveUp phase

/-- How often somebody still acts for what comes back. -/
def left : PumpProgress → Nat
  | idle ds => 5 * ds.length
  | sleeping _ ds => 5 * ds.length + 4
  | handed _ ds _ _ _ => 5 * ds.length + 3
  | answered _ ds _ _ _ _ => 5 * ds.length + 1

variable {h : PumpProgress} {ds : List Delivery}

theorem claim_of_ahead (hds : h.ahead = []) : h.claim = none := by
  cases h <;> first | rfl | cases hds

@[simp] theorem state_extend : (h.extend ds).state = h.state := by
  cases h <;> rfl

@[simp] theorem waiting_extend : (h.extend ds).waiting = h.waiting ++ ds := by
  cases h <;> rfl

@[simp] theorem ahead_extend : (h.extend ds).ahead = h.ahead ++ ds := by
  cases h <;> rfl

@[simp] theorem handled_extend : (h.extend ds).handled = h.handled := by
  cases h <;> rfl

@[simp] theorem claim_extend : (h.extend ds).claim = h.claim := by
  cases h <;> rfl

@[simp] theorem replies_extend : (h.extend ds).replies = h.replies := by
  cases h <;> rfl

theorem left_extend : (h.extend ds).left = h.left + 5 * ds.length := by
  cases h <;> simp only [extend, left, List.length_append] <;> omega

end PumpProgress

/-- How far the sender has got with the next request. -/
inductive SenderProgress
  | through
  | planned (r : Request) (due : Instant)
  | seeking (r : Request) (deadline : Instant) (limit : Duration) (giveUp : Instant)
  | announcing (r : Request) (deadline : Instant)
  /-- The announcement is in the slot. -/
  | submitted (r : Request) (deadline : Instant) (ticket : Ticket) (giveUp : Instant)
  /-- The announcement was accepted. -/
  | accepted (r : Request) (deadline : Instant) (ticket : Ticket) (giveUp : Instant)
  | transmitting (r : Request) (deadline : Instant)

namespace SenderProgress

def request? : SenderProgress → Option Request
  | through => none
  | planned r _ | seeking r _ _ _ | announcing r _ | submitted r _ _ _ | accepted r _ _ _
  | transmitting r _ => some r

def stage? : SenderProgress → Option Stage
  | through => none
  | planned r due => some (.planned due (.send r))
  | seeking r deadline limit giveUp => some (.seeking ⟨r, r.bytes, deadline⟩ limit giveUp)
  | announcing r deadline => some (.announcing ⟨r, r.bytes, deadline⟩)
  | submitted r deadline ticket giveUp | accepted r deadline ticket giveUp =>
      some (.announced ⟨r, r.bytes, deadline⟩ ⟨ticket, .newRequest r, giveUp⟩)
  | transmitting r deadline => some (.transmitting ⟨r, r.bytes, deadline⟩ r.opening)

/-- What the sender has in the slot. -/
def claim : SenderProgress → Option (Ticket × Command)
  | submitted r _ ticket _ => some (ticket, .newRequest r)
  | _ => none

/-- What the sender finds among the replies. -/
def replies : SenderProgress → List (Ticket × Reply)
  | accepted r _ ticket _ => [(ticket, .ok r.opening)]
  | _ => []

/-- Whether the sender leaves the channel to the last exchange. -/
def waits : SenderProgress → Bool
  | through | planned _ _ | seeking _ _ _ _ => true
  | _ => false

variable {y : SenderProgress}

theorem claim_of_waits (h : y.waits = true) : y.claim = none := by
  cases y <;> first | rfl | cases h

theorem replies_of_waits (h : y.waits = true) : y.replies = [] := by
  cases y <;> first | rfl | cases h

/-- What the sender finds is the reply to its own announcement. -/
theorem exists_pending_of_mem_replies {a : Ticket × Reply} (h : a ∈ y.replies) :
    ∃ stage q, y.stage? = some stage ∧ stage.pending? = some q ∧ q.ticket = a.1 := by
  cases y with
  | accepted r deadline ticket giveUp =>
      rw [List.mem_singleton.1 h]
      exact ⟨_, _, rfl, rfl, rfl⟩
  | _ => cases h

/-- How often somebody still acts for the sender. -/
def left : SenderProgress → Nat
  | through => 0
  | planned _ _ => 17
  | seeking _ _ _ _ => 16
  | announcing _ _ => 15
  | submitted _ _ _ _ => 14
  | accepted _ _ _ _ => 12
  | transmitting _ _ => 11

end SenderProgress

/-- The slot with what somebody has in it, if anybody has. -/
def Slot.ofClaim : Option (Ticket × Command) → Slot
  | none => .empty
  | some (ticket, c) => .full ticket c

/-- How far a list of requests has got. -/
structure Progress where
  now : Instant
  sent : List Request
  sender : SenderProgress
  /-- The requests whose calls were not made yet. -/
  later : List Request
  standing : Standing
  pump : PumpProgress
  /-- What the pump has taken in, with the outcomes. -/
  taken : List (Delivery × Reply)

namespace Progress

variable (p : Plan) (x : Progress)

def requests : List Request := x.sent ++ x.sender.request?.toList ++ x.later

def slot : Slot := .ofClaim (x.pump.claim.or x.sender.claim)

def replies : List (Ticket × Reply) := x.pump.replies ++ x.sender.replies

/-- What matters of a system that has got so far. -/
def meshCore : System.MeshCore where
  core := ⟨x.now, p.timing, x.slot, x.replies, finished (p.answers x.sent) ++ x.sender.stage?.toList,
    x.standing⟩
  pump := x.pump.state
  waiting := x.pump.waiting
  taken := x.taken
  transmitted := (p.departures x.sent).map (·.2)

/-- The frame of a request has left. -/
def transmit (r : Request) : Progress :=
  { x with
    sent := x.sent ++ [r]
    sender := .through
    pump := x.pump.extend (p.behaviour.deliveries r x.now) }

/-- How often somebody still acts. -/
def left : Nat := 18 * x.later.length + x.sender.left + x.standing.tasks + x.pump.left

end Progress

namespace Plan

variable (p : Plan) (sent : List Request)

/-- A free channel. So far it was told to be free after each request. -/
def vacant : Standing := ⟨.initial, List.replicate sent.length .freeForSend⟩

/-- The channel once a request was announced. -/
def engaged (r : Request) : Standing :=
  ⟨(Standing.opened p.timing r (p.freeAt sent)).tracker, List.replicate sent.length .freeForSend⟩

/-- The channel between two requests: it is free, or the last exchange is on its way. -/
inductive Holds (now : Instant) : Standing → List Delivery → Prop
  | free (hn : p.freeAt sent ≤ now) : Holds now (vacant sent) []
  | busy {t : Tracker} {ds : List Delivery} {next : Instant} {k : Nat} (hk : sent.length = k + 1)
      (ht : Behaviour.Proceeds p.timing (p.freeAt sent) t ds next) (hn : now ≤ next)
      (hw : p.freeAt sent < now + p.wait) :
      Holds now ⟨t, List.replicate k .freeForSend⟩ ds

/-- The sender and the channel. -/
inductive SenderFits (now : Instant) (later : List Request) :
    SenderProgress → Standing → List Delivery → Prop
  | through {y : Standing} {ds : List Delivery} (h : p.Holds sent now y ds)
      (hn : later ≠ [] → now ≤ p.freeAt sent) : SenderFits now later .through y ds
  | planned {r : Request} {due : Instant} {y : Standing} {ds : List Delivery} (hd : due ≤ now)
      (h : p.Holds sent now y ds) (hn : now ≤ p.freeAt sent) :
      SenderFits now later (.planned r due) y ds
  | seeking {r : Request} {deadline : Instant} {limit : Duration} {giveUp : Instant} {y : Standing}
      {ds : List Delivery} (hg : p.freeAt sent < giveUp) (h : p.Holds sent now y ds)
      (hn : now ≤ p.freeAt sent) : SenderFits now later (.seeking r deadline limit giveUp) y ds
  | announcing {r : Request} {deadline : Instant} (hn : now = p.freeAt sent) :
      SenderFits now later (.announcing r deadline) (vacant sent) []
  | submitted {r : Request} {deadline : Instant} {ticket : Ticket} {giveUp : Instant}
      (hn : now = p.freeAt sent) (hg : now < giveUp) :
      SenderFits now later (.submitted r deadline ticket giveUp) (vacant sent) []
  | accepted {r : Request} {deadline : Instant} {ticket : Ticket} {giveUp : Instant}
      (hn : now = p.freeAt sent) :
      SenderFits now later (.accepted r deadline ticket giveUp) (p.engaged sent r) []
  | transmitting {r : Request} {deadline : Instant} (hn : now = p.freeAt sent) :
      SenderFits now later (.transmitting r deadline) (p.engaged sent r) []

/-- What can be sent on a plan. -/
structure Serves (r : Request) : Prop where
  frame : r.toFrame = .ok r.bytes
  inTime : p.behaviour.InTime p.timing r
  wait : p.behaviour.occupancy r < p.wait

end Plan

/-- The command of a delivery is in the slot when it is due. -/
inductive PumpProgress.Fits (now : Instant) : PumpProgress → Prop
  | idle {ds : List Delivery} : Fits now (.idle ds)
  | sleeping {d : Delivery} {ds : List Delivery} : Fits now (.sleeping d ds)
  | handed {d : Delivery} {ds : List Delivery} {ticket : Ticket} {c : Command} {giveUp : Instant}
      (hd : d.due = now) (hc : d.command = .ok c) (hg : now < giveUp) :
      Fits now (.handed d ds ticket c giveUp)
  | answered {d : Delivery} {ds : List Delivery} {ticket : Ticket} {c : Command} {giveUp : Instant}
      {phase : Phase} : Fits now (.answered d ds ticket c giveUp phase)

theorem PumpProgress.Fits.extend {now : Instant} {h : PumpProgress} {ds : List Delivery}
    (hh : h.Fits now) : (h.extend ds).Fits now := by
  cases hh with
  | idle => exact .idle
  | sleeping => exact .sleeping
  | handed hd hc hg => exact .handed hd hc hg
  | answered => exact .answered

/-- The progress that can be made. -/
structure Progress.Valid (p : Plan) (x : Progress) : Prop where
  sender : p.SenderFits x.sent x.now x.later x.sender x.standing x.pump.ahead
  pump : x.pump.Fits x.now
  brought : p.deliveries x.sent = x.taken.map (·.1) ++ x.pump.handled ++ x.pump.ahead
  accepted : ∀ y ∈ x.taken, ∃ phase, y.2 = .ok phase

/-- A step of anybody, besides a call and the sending of a frame: less is left to be done. -/
structure Progress.Advances (p : Plan) (x y : Progress) : Prop where
  valid : y.Valid p
  now : y.now = x.now
  sent : y.sent = x.sent
  later : y.later = x.later
  request : y.sender.request? = x.sender.request?
  left : y.left < x.left

section Channel

variable {p : Plan} {sent later : List Request} {now : Instant} {y y' : Standing} {sender : SenderProgress}
  {d : Delivery} {ds ds' : List Delivery} {c : Command}

/-- An exchange ends in a free channel. -/
theorem Plan.Holds.lapse (h : p.Holds sent now y ds) (hdue : y.tracker.isDue now = true) :
    p.Holds sent now (y.lapse now) ds ∧ (y.lapse now).tasks < y.tasks := by
  cases h with
  | free => cases hdue
  | @busy t ds next k hk ht hn hw =>
      by_cases hds : ds = []
      · subst hds
        obtain ⟨phase, e, deadline⟩ := t
        cases ht with
        | lingers hp hd =>
            cases hd
            have hle : p.freeAt sent ≤ now := by simpa [Tracker.isDue] using hdue
            have hvacant : Plan.vacant sent =
                ⟨.initial, List.replicate k .freeForSend ++ [.freeForSend]⟩ := by
              rw [Plan.vacant, hk, List.replicate_succ']
            rw [Standing.lapse_linger hp hle, ← hvacant]
            exact ⟨.free hle, Nat.zero_lt_one⟩
      · rw [ht.not_isDue hds hn] at hdue
        cases hdue

/-- A delivery that is due is accepted. -/
theorem Plan.Holds.obey (h : p.Holds sent now y (d :: ds)) (hd : d.due = now)
    (hc : d.command = .ok c) :
    ∃ phase, (y.obey p.timing now c).2 = .ok phase ∧
      p.Holds sent now (y.obey p.timing now c).1 ds := by
  cases h with
  | @busy t ds next k hk ht hn hw =>
      cases ht with
      | @awaits t t' deadline next d ds c' hp hdeadline hlt hc' hnone hmoves hle hnext =>
          cases hc.symm.trans hc'
          subst hd
          have hobey : Standing.obey p.timing d.due c ⟨t, List.replicate k .freeForSend⟩ =
              (⟨t', List.replicate k .freeForSend⟩, .ok t'.phase) := by
            simp [Standing.obey, Tracker.handle_eq_ok_iff.2 hmoves, hnone]
          rw [hobey]
          exact ⟨_, rfl, .busy hk hnext hle hw⟩

/-- The next delivery brings a command, and was not due before. -/
theorem Plan.Holds.head (h : p.Holds sent now y (d :: ds)) :
    now ≤ d.due ∧ ∃ c, d.command = .ok c := by
  cases h with
  | busy _ ht hn =>
      cases ht with
      | awaits _ _ _ hc => exact ⟨hn, _, hc⟩

/-- The clock does not pass the next move on the channel, so a busy one stays busy. -/
theorem Plan.Holds.elapse {t : Instant} (h : p.Holds sent now y ds)
    (hdue : y.tracker.isDue now = false) (hds : ∀ d ∈ ds.head?, now < d.due) (ht : now ≤ t)
    (hu : ∀ u, (y.tracker.deadline = some u ∨ ∃ d ∈ ds.head?, d.due = u) → now < u → t ≤ u) :
    p.Holds sent t y ds ∧ (y.tracker.phase ≠ .freeForSend → t ≤ p.freeAt sent) := by
  cases h with
  | free hn => exact ⟨.free (Nat.le_trans hn ht), fun hbusy => absurd rfl hbusy⟩
  | busy hk hp hn hw =>
      have hle := hu _ hp.timer (hp.lt_next hdue hds)
      refine ⟨.busy hk hp hle ?_, fun _ => Nat.le_trans hle hp.next_le⟩
      exact Nat.lt_of_lt_of_le hw (Nat.add_le_add_right ht _)

/-- A channel on which nothing is due is free in time. -/
theorem Plan.Holds.eq_vacant (h : p.Holds sent now y ds) (hdue : y.tracker.isDue now = false)
    (hds : ∀ d ∈ ds.head?, now < d.due) (hn : p.freeAt sent ≤ now) :
    y = Plan.vacant sent ∧ ds = [] := by
  cases h with
  | free => exact ⟨rfl, rfl⟩
  | busy hk hp =>
      have hlt := Nat.lt_of_lt_of_le (hp.lt_next hdue hds) hp.next_le
      exact absurd hn (Nat.not_le.2 hlt)

/-- Only a sender that waits leaves room for deliveries. -/
theorem Plan.SenderFits.waits_of_cons (h : p.SenderFits sent now later sender y (d :: ds)) :
    sender.waits = true := by
  cases h <;> rfl

theorem Plan.SenderFits.holds (h : p.SenderFits sent now later sender y ds) (hw : sender.waits = true) :
    p.Holds sent now y ds := by
  cases h with
  | through h => exact h
  | planned _ h => exact h
  | seeking _ h => exact h
  | _ => cases hw

/-- A call is made as soon as the one before is over. -/
theorem Plan.SenderFits.due_le {r : Request} {due : Instant}
    (h : p.SenderFits sent now later (.planned r due) y ds) : due ≤ now := by
  cases h with
  | planned hd => exact hd

/-- The sender has time to wait for the channel. -/
theorem Plan.SenderFits.lt_giveUp {r : Request} {deadline : Instant} {limit : Duration} {giveUp : Instant}
    (h : p.SenderFits sent now later (.seeking r deadline limit giveUp) y ds) : now < giveUp := by
  cases h with
  | seeking hg _ hn => exact Nat.lt_of_le_of_lt hn hg

/-- The worker has time to take the announcement, and nothing else is ahead of it. -/
theorem Plan.SenderFits.of_submitted {r : Request} {deadline : Instant} {ticket : Ticket}
    {giveUp : Instant} (h : p.SenderFits sent now later (.submitted r deadline ticket giveUp) y ds) :
    ds = [] ∧ now < giveUp := by
  cases h with
  | submitted _ hg => exact ⟨rfl, hg⟩

/-- Nobody is told of a time that is up. -/
theorem Plan.Holds.heard (h : p.Holds sent now y ds) :
    ∃ k ≤ sent.length, y.notifications = List.replicate k .freeForSend := by
  cases h with
  | free => exact ⟨_, Nat.le_refl _, rfl⟩
  | busy hk => exact ⟨_, hk ▸ Nat.le_succ _, rfl⟩

theorem Plan.SenderFits.heard (h : p.SenderFits sent now later sender y ds) :
    ∃ k ≤ sent.length, y.notifications = List.replicate k .freeForSend := by
  cases h with
  | through h => exact h.heard
  | planned _ h => exact h.heard
  | seeking _ h => exact h.heard
  | _ => exact ⟨_, Nat.le_refl _, rfl⟩

/-- What happens on the channel while the sender waits makes no difference to it. -/
theorem Plan.SenderFits.of_holds (h : p.SenderFits sent now later sender y ds) (hw : sender.waits = true)
    (h' : p.Holds sent now y' ds') : p.SenderFits sent now later sender y' ds' := by
  cases h with
  | through _ hn => exact .through h' hn
  | planned hd _ hn => exact .planned hd h' hn
  | seeking hg _ hn => exact .seeking hg h' hn
  | _ => cases hw

end Channel

section Worker

variable {p : Plan} {x : Progress}

theorem Slot.eq_some_of_ofClaim {a : Option (Ticket × Command)} {ticket : Ticket} {c : Command}
    (h : ofClaim a = .full ticket c) : a = some (ticket, c) := by
  cases a with
  | none => cases h
  | some y =>
      cases h
      rfl

/-- The deadline passes only at the end of an exchange. -/
theorem Progress.Valid.lapse (hx : x.Valid p) (hs : ∀ r, x.sender.request? = some r → p.Serves r)
    (hdue : x.standing.tracker.isDue x.now = true) :
    x.Advances p { x with standing := x.standing.lapse x.now } := by
  obtain ⟨now, sent, sender, later, y, pump, taken⟩ := x
  obtain ⟨hsender, hpumping, hbrought, haccepted⟩ := hx
  by_cases hw : sender.waits = true
  · obtain ⟨hholds, hlt⟩ := (hsender.holds hw).lapse hdue
    refine ⟨⟨hsender.of_holds hw hholds, hpumping, hbrought, haccepted⟩, rfl, rfl, rfl, rfl, ?_⟩
    exact Nat.add_lt_add_right (Nat.add_lt_add_left hlt _) _
  · exfalso
    dsimp only at hsender hdue
    generalize pump.ahead = ds at hsender
    cases hsender with
    | announcing => cases hdue
    | submitted => cases hdue
    | @accepted r deadline ticket giveUp hn =>
        rw [hn, Plan.engaged, Behaviour.not_isDue_opened (hs r rfl).inTime] at hdue
        cases hdue
    | @transmitting r deadline hn =>
        rw [hn, Plan.engaged, Behaviour.not_isDue_opened (hs r rfl).inTime] at hdue
        cases hdue
    | _ => exact hw rfl

/-- The announcement in the slot is accepted. -/
theorem Progress.Valid.handle_announcement {r : Request} {deadline : Instant} {ticket : Ticket}
    {giveUp : Instant} (hx : x.Valid p) (hb : x.sender = .submitted r deadline ticket giveUp) :
    x.pump.claim = none ∧
      x.standing.obey p.timing x.now (.newRequest r) = (p.engaged x.sent r, .ok r.opening) ∧
      x.Advances p { x with
        sender := .accepted r deadline ticket giveUp, standing := p.engaged x.sent r } := by
  obtain ⟨now, sent, sender, later, y, pump, taken⟩ := x
  cases hb
  obtain ⟨hsender, hpumping, hbrought, haccepted⟩ := hx
  dsimp only at hsender ⊢
  generalize hds : pump.ahead = ds at hsender
  cases hsender with
  | submitted hn =>
      have hclaim := PumpProgress.claim_of_ahead hds
      refine ⟨hclaim, ?_, ⟨?_, hpumping, hbrought, haccepted⟩, rfl, rfl, rfl, rfl, ?_⟩
      · rw [Plan.vacant, Standing.obey_newRequest, hn]
        rfl
      · dsimp only
        rw [hds]
        exact .accepted hn
      · have := Standing.tasks_le_one (p.engaged sent r)
        simp only [Progress.left, SenderProgress.left]
        omega

/-- The command of a delivery is accepted. -/
theorem Progress.Valid.handle_delivery {d : Delivery} {ds : List Delivery} {ticket : Ticket} {c : Command}
    {giveUp : Instant} (hx : x.Valid p) (hh : x.pump = .handed d ds ticket c giveUp) :
    x.sender.waits = true ∧ ∃ phase, (x.standing.obey p.timing x.now c).2 = .ok phase ∧
      x.Advances p { x with
        standing := (x.standing.obey p.timing x.now c).1
        pump := .answered d ds ticket c giveUp phase } := by
  obtain ⟨now, sent, sender, later, y, pump, taken⟩ := x
  cases hh
  obtain ⟨hsender, hpumping, hbrought, haccepted⟩ := hx
  have hw := hsender.waits_of_cons
  cases hpumping with
  | handed hd hc =>
      obtain ⟨phase, hreply, hholds⟩ := (hsender.holds hw).obey hd hc
      refine ⟨hw, phase, hreply, ⟨hsender.of_holds hw hholds, .answered, ?_, haccepted⟩, rfl, rfl, rfl,
        rfl, ?_⟩
      · simpa [PumpProgress.handled, PumpProgress.ahead] using hbrought
      · have := Standing.tasks_le_one (y.obey p.timing now c).1
        simp only [Progress.left, PumpProgress.left]
        omega

/-- The command in the slot is accepted. -/
theorem Progress.Valid.handle (hx : x.Valid p) {ticket : Ticket} {c : Command}
    (hslot : x.slot = .full ticket c) :
    ∃ y : Progress, x.Advances p y ∧
      y.meshCore p = { x.meshCore p with
        core := { (x.meshCore p).core with
          slot := .empty
          replies := x.replies ++ [(ticket, (x.standing.obey p.timing x.now c).2)]
          standing := (x.standing.obey p.timing x.now c).1 } } := by
  have hclaim := Slot.eq_some_of_ofClaim hslot
  cases hh : x.pump with
  | handed d ds ticket' c' giveUp =>
      rw [hh] at hclaim
      cases hclaim
      obtain ⟨hw, phase, hreply, hy⟩ := hx.handle_delivery hh
      refine ⟨_, hy, ?_⟩
      simp [Progress.meshCore, Progress.slot, Progress.replies, hh, hreply, PumpProgress.claim,
        PumpProgress.replies, Slot.ofClaim, SenderProgress.claim_of_waits hw,
        SenderProgress.replies_of_waits hw, PumpProgress.state, PumpProgress.waiting]
  | _ =>
      rw [hh] at hclaim
      cases hb : x.sender with
      | submitted r deadline ticket' giveUp =>
          rw [hb] at hclaim
          cases hclaim
          obtain ⟨hnone, hobey, hy⟩ := hx.handle_announcement hb
          refine ⟨_, hy, ?_⟩
          simp [Progress.meshCore, Progress.slot, Progress.replies, hb, hnone, hobey,
            SenderProgress.claim, SenderProgress.replies, Slot.ofClaim, SenderProgress.stage?]
      | _ =>
          rw [hb] at hclaim
          cases hclaim

end Worker

section Pump

variable {p : Plan} {x : Progress} {d : Delivery} {ds : List Delivery} {ticket : Ticket} {c : Command}
  {giveUp : Instant} {phase : Phase}

/-- The pump takes up the next delivery. -/
theorem Progress.Valid.take (hx : x.Valid p) (hh : x.pump = .idle (d :: ds)) :
    x.Advances p { x with pump := .sleeping d ds } := by
  obtain ⟨now, sent, sender, later, y, pump, taken⟩ := x
  cases hh
  refine ⟨⟨hx.sender, .sleeping, hx.brought, hx.accepted⟩, rfl, rfl, rfl, rfl, ?_⟩
  simp only [Progress.left, PumpProgress.left, List.length_cons]
  omega

/-- When the next delivery is due, the slot is empty for its command. -/
theorem Progress.Valid.hand (hx : x.Valid p) (hh : x.pump = .sleeping d ds) (hd : d.due ≤ x.now)
    (hg : x.now < giveUp) (ticket : Ticket) :
    ∃ c, d.command = .ok c ∧ x.slot = .empty ∧
      x.Advances p { x with pump := .handed d ds ticket c giveUp } := by
  obtain ⟨now, sent, sender, later, y, pump, taken⟩ := x
  cases hh
  obtain ⟨hsender, -, hbrought, haccepted⟩ := hx
  have hw := hsender.waits_of_cons
  obtain ⟨hle, c, hc⟩ := (hsender.holds hw).head
  refine ⟨c, hc, ?_, ⟨hsender, .handed (Nat.le_antisymm hd hle) hc hg, hbrought, haccepted⟩,
    rfl, rfl, rfl, rfl, ?_⟩
  · simp [Progress.slot, PumpProgress.claim, SenderProgress.claim_of_waits hw, Slot.ofClaim]
  · simp only [Progress.left, PumpProgress.left]
    omega

/-- The pump learns what became of a delivery. -/
theorem Progress.Valid.fetch (hx : x.Valid p) (hh : x.pump = .answered d ds ticket c giveUp phase) :
    x.Advances p { x with pump := .idle ds, taken := x.taken ++ [(d, .ok phase)] } := by
  obtain ⟨now, sent, sender, later, y, pump, taken⟩ := x
  cases hh
  obtain ⟨hsender, -, hbrought, haccepted⟩ := hx
  refine ⟨⟨hsender, .idle, ?_, ?_⟩, rfl, rfl, rfl, rfl, ?_⟩
  · simpa [PumpProgress.handled, PumpProgress.ahead] using hbrought
  · intro z hz
    rcases List.mem_append.1 hz with hz | hz
    · exact haccepted z hz
    · exact ⟨phase, congrArg Prod.snd (List.mem_singleton.1 hz)⟩
  · simp only [Progress.left, PumpProgress.left]
    omega

end Pump

section Sender

variable {p : Plan} {x : Progress} {r : Request} {due deadline giveUp : Instant} {limit : Duration}
  {ticket : Ticket}

/-- The next call is made. -/
def Progress.plan (x : Progress) (r : Request) (later : List Request) : Progress :=
  { x with sender := .planned r x.now, later }

theorem Progress.Valid.plan {later : List Request} (hx : x.Valid p) (hb : x.sender = .through)
    (hlater : x.later = r :: later) :
    (x.plan r later).Valid p ∧ (x.plan r later).left < x.left := by
  obtain ⟨now, sent, sender, later, y, pump, taken⟩ := x
  cases hb
  cases hlater
  refine ⟨⟨?_, hx.pump, hx.brought, hx.accepted⟩, ?_⟩
  · cases hx.sender with
    | through hholds hn => exact .planned (Nat.le_refl _) hholds (hn (List.cons_ne_nil _ _))
  · simp only [Progress.left, Progress.plan, SenderProgress.left, List.length_cons]
    omega

/-- A sender waits long enough for a free channel. -/
theorem Progress.Valid.seek (hx : x.Valid p) (hs : p.Serves r) (hb : x.sender = .planned r due)
    (deadline : Instant) (limit : Duration) :
    x.Advances p { x with sender := .seeking r deadline limit (x.now + p.wait) } := by
  obtain ⟨now, sent, sender, later, y, pump, taken⟩ := x
  cases hb
  obtain ⟨hsender, hpumping, hbrought, haccepted⟩ := hx
  refine ⟨⟨?_, hpumping, hbrought, haccepted⟩, rfl, rfl, rfl, rfl, ?_⟩
  · dsimp only at hsender ⊢
    generalize pump.ahead = ds at hsender ⊢
    cases hsender with
    | planned hd hholds hn =>
        refine .seeking ?_ hholds hn
        cases hholds with
        | free hle =>
            have hpos : 0 < p.wait := Nat.zero_lt_of_lt hs.wait
            exact Nat.lt_of_le_of_lt hle (Nat.lt_add_of_pos_right hpos)
        | busy _ _ _ hw => exact hw
  · simp only [Progress.left, SenderProgress.left]
    omega

/-- The sender sees the free channel at once. -/
theorem Progress.Valid.announce (hx : x.Valid p) (hb : x.sender = .seeking r deadline limit giveUp)
    (hfree : x.standing.tracker.phase = .freeForSend) :
    x.Advances p { x with sender := .announcing r deadline } := by
  obtain ⟨now, sent, sender, later, y, pump, taken⟩ := x
  cases hb
  obtain ⟨hsender, hpumping, hbrought, haccepted⟩ := hx
  refine ⟨⟨?_, hpumping, hbrought, haccepted⟩, rfl, rfl, rfl, rfl, ?_⟩
  · dsimp only at hsender hfree ⊢
    generalize pump.ahead = ds at hsender
    cases hsender with
    | seeking _ hholds hn =>
        cases hholds with
        | free hle => exact .announcing (Nat.le_antisymm hn hle)
        | busy _ ht => exact absurd hfree ht.phase_ne
  · simp only [Progress.left, SenderProgress.left]
    omega

/-- The pump leaves the slot to the announcement. -/
theorem Progress.Valid.submit (hx : x.Valid p) (hb : x.sender = .announcing r deadline)
    (hg : x.now < giveUp) (ticket : Ticket) :
    x.pump.claim = none ∧
      x.Advances p { x with sender := .submitted r deadline ticket giveUp } := by
  obtain ⟨now, sent, sender, later, y, pump, taken⟩ := x
  cases hb
  obtain ⟨hsender, hpumping, hbrought, haccepted⟩ := hx
  dsimp only at hsender hg
  generalize hds : pump.ahead = ds at hsender
  cases hsender with
  | announcing hn =>
      have hclaim := PumpProgress.claim_of_ahead hds
      refine ⟨hclaim, ⟨?_, hpumping, hbrought, haccepted⟩, rfl, rfl, rfl, rfl, ?_⟩
      · dsimp only
        rw [hds]
        exact .submitted hn hg
      · simp only [Progress.left, SenderProgress.left]
        omega

/-- The sender learns that its announcement was accepted. -/
theorem Progress.Valid.learn (hx : x.Valid p) (hb : x.sender = .accepted r deadline ticket giveUp) :
    x.Advances p { x with sender := .transmitting r deadline } := by
  obtain ⟨now, sent, sender, later, y, pump, taken⟩ := x
  cases hb
  obtain ⟨hsender, hpumping, hbrought, haccepted⟩ := hx
  refine ⟨⟨?_, hpumping, hbrought, haccepted⟩, rfl, rfl, rfl, rfl, ?_⟩
  · dsimp only at hsender ⊢
    generalize pump.ahead = ds at hsender
    cases hsender with
    | accepted hn => exact .transmitting hn
  · simp only [Progress.left, SenderProgress.left]
    omega

/-- The frame leaves, and the channel is busy for as long as the exchange occupies it. -/
theorem Progress.Valid.transmit (hx : x.Valid p) (hl : p.behaviour.IsLossless) (hs : p.Serves r)
    (hb : x.sender = .transmitting r deadline) :
    x.now = p.freeAt x.sent ∧ (x.transmit p r).Valid p ∧ (x.transmit p r).left < x.left := by
  obtain ⟨now, sent, sender, later, y, pump, taken⟩ := x
  cases hb
  obtain ⟨hsender, hpumping, hbrought, haccepted⟩ := hx
  dsimp only at hsender hbrought ⊢
  generalize hds : pump.ahead = ds at hsender
  cases hsender with
  | transmitting hn =>
      subst hn
      obtain ⟨next, hle, hproceeds⟩ := Behaviour.proceeds_of_inTime hl hs.inTime (p.freeAt sent)
      refine ⟨rfl, ⟨.through ?_ fun _ => ?_, hpumping.extend, ?_, haccepted⟩, ?_⟩
      · dsimp only [Progress.transmit]
        rw [PumpProgress.ahead_extend, hds, List.nil_append]
        refine .busy (by simp) ?_ hle ?_
        · rw [Plan.freeAt_concat]
          exact hproceeds
        · rw [Plan.freeAt_concat]
          exact Nat.add_lt_add_left hs.wait _
      · exact Plan.freeAt_le_append
      · dsimp only [Progress.transmit]
        rw [Plan.deliveries_concat, hbrought, PumpProgress.handled_extend, PumpProgress.ahead_extend,
          List.append_assoc _ pump.ahead]
      · have := p.behaviour.length_deliveries_le r (p.freeAt sent)
        simp only [Progress.left, Progress.transmit, SenderProgress.left, PumpProgress.left_extend]
        omega

end Sender
section Clock

/-- How far it has got while nobody can act: the sender is through with all requests or waits for a busy
channel, and nothing is due. -/
structure Progress.Rests (x : Progress) : Prop where
  sender : x.sender = .through ∧ x.later = [] ∨
    (∃ r deadline limit giveUp, x.sender = .seeking r deadline limit giveUp) ∧
      x.standing.tracker.phase ≠ .freeForSend
  standing : x.standing.tracker.isDue x.now = false
  pump : x.pump = .idle [] ∨ ∃ d ds, x.pump = .sleeping d ds ∧ x.now < d.due

variable {p : Plan} {x : Progress} {t : Instant}

namespace Progress.Rests

theorem waits (hr : x.Rests) : x.sender.waits = true := by
  rcases hr.sender with ⟨hb, -⟩ | ⟨⟨r, deadline, limit, giveUp, hb⟩, -⟩ <;> rw [hb] <;> rfl

theorem lt_due (hr : x.Rests) : ∀ d ∈ x.pump.ahead.head?, x.now < d.due := by
  intro d hd
  rcases hr.pump with hh | ⟨d', ds, hh, hlt⟩
  · rw [hh] at hd
    cases hd
  · rw [hh] at hd
    cases hd
    exact hlt

/-- The clock makes no progress. -/
theorem elapse (hr : x.Rests) (hx : x.Valid p) (ht : x.now ≤ t)
    (hu : ∀ u, (x.standing.tracker.deadline = some u ∨ ∃ d ∈ x.pump.ahead.head?, d.due = u) →
      x.now < u → t ≤ u) :
    { x with now := t }.Valid p := by
  obtain ⟨hholds, hle⟩ := (hx.sender.holds hr.waits).elapse hr.standing hr.lt_due ht hu
  refine ⟨?_, ?_, hx.brought, hx.accepted⟩
  · dsimp only
    have hsender := hx.sender
    rcases hr.sender with ⟨hb, hlater⟩ | ⟨⟨r, deadline, limit, giveUp, hb⟩, hbusy⟩
    · rw [hb]
      exact .through hholds fun hne => absurd hlater hne
    · rw [hb] at hsender ⊢
      cases hsender with
      | seeking hg => exact .seeking hg hholds (hle hbusy)
  · rcases hr.pump with hh | ⟨d, ds, hh, -⟩
    · dsimp only
      rw [hh]
      exact .idle
    · dsimp only
      rw [hh]
      exact .sleeping

/-- Once the last exchange is over there is nothing left. -/
theorem eq_vacant (hr : x.Rests) (hx : x.Valid p) (hn : p.freeAt x.requests ≤ x.now) :
    x.sender = .through ∧ x.later = [] ∧ x.standing = Plan.vacant x.sent ∧ x.pump = .idle [] := by
  have hle : p.freeAt x.sent ≤ p.freeAt x.requests := by
    rw [requests, List.append_assoc]
    exact Plan.freeAt_le_append
  obtain ⟨hvacant, hahead⟩ := (hx.sender.holds hr.waits).eq_vacant hr.standing hr.lt_due
    (Nat.le_trans hle hn)
  have hpumping : x.pump = .idle [] := by
    rcases hr.pump with hh | ⟨d, ds, hh, -⟩
    · exact hh
    · rw [hh] at hahead
      cases hahead
  rcases hr.sender with ⟨hb, hlater⟩ | ⟨-, hbusy⟩
  · exact ⟨hb, hlater, hvacant, hpumping⟩
  · rw [hvacant] at hbusy
    exact absurd rfl hbusy

end Progress.Rests

end Clock
end MeshExchange
