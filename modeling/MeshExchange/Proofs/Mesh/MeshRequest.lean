import Mathlib.Algebra.GroupWithZero.Nat
import MeshExchange.Proofs.Mesh.Course
import MeshExchange.Proofs.Script.Play
import MeshExchange.Proofs.System.Announcements

/-!
# A request that is sent on the mesh

A request that is sent on the simulated mesh, and how far it has got: planned, on its way to the worker,
handed to the link, and then one delivery after the other on its way back. What matters of a system is
put together in its core, and what the mesh adds to that in its mesh core.

**Method.** `MeshRequest.Tracks` says that the tracker has come as far as a bare one that takes in the same
deliveries. The two may differ by a deadline that has come and that only one of them has looked at;
`Standing.lapse` makes them equal.

**Results.**
* `System.MeshCore`: what matters of a system;
* `MeshRequest.Reaches`: how far a request gets, one case for each stage;
* `MeshRequest.Rests`: where it is while nobody can act;
* `System.MeshCore.left`: how often somebody still acts for it;
* `MeshRequest.Tracks.course_eq`: the course tells what there is to see.
-/

namespace MeshExchange

section Left

/-- How often somebody still acts for a sender, the frames that it may bring back included. -/
def Stage.tasks (slot : Slot) : Stage → Nat
  | .planned _ _ => 17
  | .seeking _ _ _ => 16
  | .announcing _ => 15
  | .announced _ _ => if slot = .empty then 12 else 14
  | .transmitting _ _ => 11
  | _ => 0

/-- How often somebody still acts for the delivery that the pump has. -/
def Pump.tasks (slot : Slot) : Pump → Nat
  | .idle => 0
  | .sleeping _ => 4
  | .handing _ _ => if slot = .empty then 1 else 3

/-- How often the worker acts by itself, unless a command comes. -/
def Standing.tasks (x : Standing) : Nat := x.tracker.deadline.toList.length

theorem Standing.tasks_le_one (x : Standing) : x.tasks ≤ 1 := by
  unfold tasks
  cases x.tracker.deadline <;> simp

end Left

/-- A request that is sent on a mesh. -/
structure MeshRequest where
  behaviour : Behaviour
  timing : Timing
  request : Request
  frame : Frame
  sentAt : Instant

namespace MeshRequest

variable {e : MeshRequest} {now t : Instant} {x : Standing} {taken : List (Delivery × Reply)}
  {d : Delivery} {ds : List Delivery}

def deliveries (e : MeshRequest) : List Delivery := e.behaviour.deliveries e.request e.sentAt

def course (e : MeshRequest) : Course := e.behaviour.course e.timing e.request e.sentAt

/-- The deliveries are taken in the order in which they are due. -/
theorem le_due_of_mem {ds' : List Delivery} (h : e.deliveries = ds' ++ d :: ds) :
    ∀ d' ∈ ds, d.due ≤ d'.due := by
  have hp := e.behaviour.pairwise_deliveries e.request e.sentAt
  rw [← deliveries, h] at hp
  exact fun d' hd' => List.rel_of_pairwise_cons (List.pairwise_append.1 hp).2.1 hd'

/-- What a bare tracker makes of deliveries. -/
def feed (e : MeshRequest) (ds : List Delivery) : Standing × List Reply :=
  Standing.feed e.timing (Standing.opened e.timing e.request e.sentAt) ds

theorem feed_concat : e.feed (ds ++ [d]) =
    (((e.feed ds).1.receive e.timing d).1, (e.feed ds).2 ++ [((e.feed ds).1.receive e.timing d).2]) :=
  Standing.feed_append

/-- A tracker has come as far as a bare one that takes in the same deliveries. -/
structure Tracks (e : MeshRequest) (now : Instant) (x : Standing) (taken : List (Delivery × Reply)) :
    Prop where
  sent : e.sentAt ≤ now
  due : ∀ d ∈ taken.map (·.1), d.due ≤ now
  replies : taken.map (·.2) = (e.feed (taken.map (·.1))).2
  standing : x.lapse now = (e.feed (taken.map (·.1))).1.lapse now

namespace Tracks

theorem lapse (h : e.Tracks now x taken) : e.Tracks now (x.lapse now) taken :=
  { h with standing := (Standing.lapse_lapse (Nat.le_refl _)).trans h.standing }

theorem elapse (h : e.Tracks now x taken) (ht : now ≤ t) : e.Tracks t x taken where
  sent := Nat.le_trans h.sent ht
  due := fun d hd => Nat.le_trans (h.due d hd) ht
  replies := h.replies
  standing := by
    rw [← Standing.lapse_lapse ht, h.standing, Standing.lapse_lapse ht]

/-- One more delivery is taken in. -/
theorem concat {y : Standing} {reply : Reply} (h : e.Tracks now x taken) (hd : d.due = now)
    (hy : (e.feed (taken.map (·.1))).1.receive e.timing d = (y, reply)) :
    e.Tracks now y (taken ++ [(d, reply)]) where
  sent := h.sent
  due := by
    intro d' hd'
    rw [List.map_append, List.mem_append] at hd'
    rcases hd' with hd' | hd'
    · exact h.due d' hd'
    · rw [List.mem_singleton.1 hd']
      exact Nat.le_of_eq hd
  replies := by
    rw [List.map_append, List.map_append, List.map_singleton, List.map_singleton, feed_concat, hy,
      h.replies]
  standing := by
    rw [List.map_append, List.map_singleton, feed_concat, hy]

theorem concat_obey {c : Command} (h : e.Tracks now x taken) (hd : d.due = now)
    (hc : d.command = .ok c) (hx : x.lapse now = x) :
    e.Tracks now (x.obey e.timing now c).1 (taken ++ [(d, (x.obey e.timing now c).2)]) := by
  refine h.concat hd ?_
  rw [Standing.receive, hc, hd]
  dsimp only
  rw [← h.standing, hx]

theorem concat_fault {fault : Fault} (h : e.Tracks now x taken) (hd : d.due = now)
    (hc : d.command = .error fault) : e.Tracks now x (taken ++ [(d, .error fault)]) := by
  have hy : (e.feed (taken.map (·.1))).1.receive e.timing d =
      ((e.feed (taken.map (·.1))).1, .error fault) := by
    rw [Standing.receive, hc]
  exact { h.concat hd hy with standing := by rw [h.standing, (h.concat hd hy).standing] }

/-- Where all that is due was taken in, the course tells the phase and the replies. -/
theorem course_eq (h : e.Tracks now x taken) (hx : x.lapse now = x)
    (hds : e.deliveries = taken.map (·.1) ++ ds) (hlater : ∀ d ∈ ds, now < d.due) :
    x.tracker.phase = e.course.phaseAt now ∧ taken.map (·.2) = e.course.outcomesBy now := by
  have hfilter : e.deliveries.filter (·.due ≤ now) = taken.map (·.1) := by
    rw [hds, List.filter_append, List.filter_eq_self.2, List.filter_eq_nil_iff.2, List.append_nil]
    · intro d hd
      simpa using hlater d hd
    · intro d hd
      simpa using h.due d hd
  have ht : e.behaviour.Takes e.timing e.request e.sentAt now := Behaviour.takes h.sent
  rw [Behaviour.Takes, ← deliveries, hfilter, ← feed, ← h.standing, hx, ← h.replies] at ht
  exact ht

end Tracks

end MeshRequest

namespace System

section Cores

/-- The deliveries that the pump has taken in according to a journal, with their outcomes. -/
def handovers (journal : List (Instant × Entry)) : List (Delivery × Reply) :=
  journal.filterMap fun
    | (_, .handedOver d outcome) => some (d, outcome)
    | _ => none

/-- What matters of a system on a mesh: its core, and what the pump and the link have done. -/
structure MeshCore where
  core : Core
  pump : Pump
  /-- What the pump has not taken yet. -/
  waiting : List Delivery
  taken : List (Delivery × Reply)
  transmitted : List (Frame × Except Fault Unit)

def meshCore (s : System) : MeshCore :=
  ⟨s.core, s.pump, s.deliveries, handovers s.journal, transmissions s.journal⟩

/-- How often somebody still acts. -/
def MeshCore.left (p : MeshCore) : Nat :=
  (p.core.callers.map (Stage.tasks p.core.slot)).sum + p.pump.tasks p.core.slot +
    5 * p.waiting.length + p.core.standing.tasks

end Cores

end System

namespace MeshRequest

section Reaching

variable {e : MeshRequest} {p : System.MeshCore}

/-- Before the frame is handed to the link. -/
def opening (e : MeshRequest) (now : Instant) (slot : Slot) (replies : List (Ticket × Reply))
    (stage : Stage) (x : Standing) :
    System.MeshCore :=
  ⟨⟨now, e.timing, slot, replies, [stage], x⟩, .idle, [], [], []⟩

/-- After that. The sender is through. -/
def returning (e : MeshRequest) (now : Instant) (slot : Slot) (replies : List (Ticket × Reply))
    (x : Standing) (pump : Pump) (waiting : List Delivery) (taken : List (Delivery × Reply)) :
    System.MeshCore :=
  ⟨⟨now, e.timing, slot, replies, [.finished e.sentAt (.entered e.request.opening)], x⟩, pump,
    waiting, taken, [(e.frame, .ok ())]⟩

/-- How far a request has got. -/
inductive Reaches (e : MeshRequest) : System.MeshCore → Prop
  | planned {now : Instant} (hn : now ≤ e.sentAt) :
      Reaches e (e.opening now .empty [] (.planned e.sentAt (.send e.request)) {})
  | seeking {deadline : Instant} {limit : Duration} {giveUp : Instant} :
      Reaches e (e.opening e.sentAt .empty []
        (.seeking ⟨e.request, e.frame, deadline⟩ limit giveUp) {})
  | announcing {deadline : Instant} :
      Reaches e (e.opening e.sentAt .empty [] (.announcing ⟨e.request, e.frame, deadline⟩) {})
  /-- The announcement is in the slot. -/
  | submitted {deadline : Instant} {ticket : Ticket} {giveUp : Instant} (hg : e.sentAt < giveUp) :
      Reaches e (e.opening e.sentAt (.full ticket (.newRequest e.request)) []
        (.announced ⟨e.request, e.frame, deadline⟩ ⟨ticket, .newRequest e.request, giveUp⟩) {})
  /-- The announcement was accepted. -/
  | accepted {deadline : Instant} {ticket : Ticket} {giveUp : Instant} {x : Standing}
      (ht : e.Tracks e.sentAt x []) :
      Reaches e (e.opening e.sentAt .empty [(ticket, .ok e.request.opening)]
        (.announced ⟨e.request, e.frame, deadline⟩ ⟨ticket, .newRequest e.request, giveUp⟩) x)
  | transmitting {deadline : Instant} {x : Standing} (ht : e.Tracks e.sentAt x []) :
      Reaches e (e.opening e.sentAt .empty []
        (.transmitting ⟨e.request, e.frame, deadline⟩ e.request.opening) x)
  | idle {now : Instant} {x : Standing} {ds : List Delivery} {taken : List (Delivery × Reply)}
      (ht : e.Tracks now x taken) (hds : e.deliveries = taken.map (·.1) ++ ds)
      (hlater : ∀ d ∈ ds, now ≤ d.due) :
      Reaches e (e.returning now .empty [] x .idle ds taken)
  | sleeping {now : Instant} {x : Standing} {d : Delivery} {ds : List Delivery}
      {taken : List (Delivery × Reply)} (ht : e.Tracks now x taken)
      (hds : e.deliveries = taken.map (·.1) ++ d :: ds) (hd : now ≤ d.due) :
      Reaches e (e.returning now .empty [] x (.sleeping d) ds taken)
  /-- The command of a delivery is in the slot. -/
  | handed {x : Standing} {d : Delivery} {ds : List Delivery} {taken : List (Delivery × Reply)}
      {ticket : Ticket} {c : Command} {giveUp : Instant} (ht : e.Tracks d.due x taken)
      (hds : e.deliveries = taken.map (·.1) ++ d :: ds) (hc : d.command = .ok c)
      (hg : d.due < giveUp) :
      Reaches e (e.returning d.due (.full ticket c) [] x (.handing d ⟨ticket, c, giveUp⟩) ds taken)
  /-- The command was handled. -/
  | answered {x : Standing} {d : Delivery} {ds : List Delivery} {taken : List (Delivery × Reply)}
      {ticket : Ticket} {c : Command} {giveUp : Instant} {reply : Reply}
      (ht : e.Tracks d.due x (taken ++ [(d, reply)]))
      (hds : e.deliveries = taken.map (·.1) ++ d :: ds) :
      Reaches e (e.returning d.due .empty [(ticket, reply)] x (.handing d ⟨ticket, c, giveUp⟩) ds
        taken)

/-- Where a request is while nobody can act. -/
inductive Rests (e : MeshRequest) (now : Instant) : System.MeshCore → Prop
  | planned (hn : now < e.sentAt) :
      Rests e now (e.opening now .empty [] (.planned e.sentAt (.send e.request)) {})
  | idle {x : Standing} {taken : List (Delivery × Reply)} (ht : e.Tracks now x taken)
      (hds : e.deliveries = taken.map (·.1)) :
      Rests e now (e.returning now .empty [] x .idle [] taken)
  | sleeping {x : Standing} {d : Delivery} {ds : List Delivery} {taken : List (Delivery × Reply)}
      (ht : e.Tracks now x taken) (hds : e.deliveries = taken.map (·.1) ++ d :: ds)
      (hd : now < d.due) :
      Rests e now (e.returning now .empty [] x (.sleeping d) ds taken)

/-- A deadline that has come may pass at any time. -/
theorem Reaches.lapse (hr : e.Reaches p) :
    e.Reaches { p with
      core := { p.core with standing := p.core.standing.lapse p.core.now } } := by
  cases hr with
  | planned hn => exact .planned hn
  | seeking => exact .seeking
  | announcing => exact .announcing
  | submitted hg => exact .submitted hg
  | accepted ht => exact .accepted ht.lapse
  | transmitting ht => exact .transmitting ht.lapse
  | idle ht hds hlater => exact .idle ht.lapse hds hlater
  | sleeping ht hds hd => exact .sleeping ht.lapse hds hd
  | handed ht hds hc hg => exact .handed ht.lapse hds hc hg
  | answered ht hds => exact .answered ht.lapse hds

end Reaching

section Told

variable {e : MeshRequest} {p : System.MeshCore}

/-- What was taken in so far is a part of what the course says. -/
theorem Tracks.prefix_course {now : Instant} {x : Standing} {taken : List (Delivery × Reply)}
    {ds : List Delivery} (ht : e.Tracks now x taken)
    (hds : e.deliveries = taken.map (·.1) ++ ds) :
    taken.map (·.2) <+: e.course.outcomes.map (·.2) := by
  have h : (e.feed e.deliveries).2 = e.course.outcomes.map (·.2) := Behaviour.feed_deliveries_snd
  rw [← h, hds, feed, Standing.feed_append, ht.replies]
  exact List.prefix_append _ _

theorem Reaches.prefix_course (hr : e.Reaches p) :
    p.taken.map (·.1) <+: e.deliveries ∧ p.taken.map (·.2) <+: e.course.outcomes.map (·.2) ∧
      p.transmitted <+: [(e.frame, .ok ())] := by
  cases hr with
  | idle ht hds hlater =>
      exact ⟨hds ▸ List.prefix_append _ _, ht.prefix_course hds, List.prefix_rfl⟩
  | sleeping ht hds hd =>
      exact ⟨hds ▸ List.prefix_append _ _, ht.prefix_course hds, List.prefix_rfl⟩
  | handed ht hds hc hg =>
      exact ⟨hds ▸ List.prefix_append _ _, ht.prefix_course hds, List.prefix_rfl⟩
  | answered ht hds =>
      refine ⟨hds ▸ List.prefix_append _ _, ?_, List.prefix_rfl⟩
      have h := ht.prefix_course (by simpa using hds)
      rw [List.map_append] at h
      exact (List.prefix_append _ _).trans h
  | _ => exact ⟨List.nil_prefix, List.nil_prefix, List.nil_prefix⟩

/-- Where nobody can act, the request was not sent yet, or the course says what there is to see. -/
theorem Rests.begun {now : Instant} (hr : e.Rests now p) :
    (now < e.sentAt ∧ p.core.standing = {} ∧ p.taken = [] ∧ p.transmitted = []) ∨
      (e.sentAt ≤ now ∧ p.core.callers = [.finished e.sentAt (.entered e.request.opening)] ∧
        p.transmitted = [(e.frame, .ok ())] ∧
        (p.core.standing.lapse now = p.core.standing →
          p.core.standing.tracker.phase = e.course.phaseAt now ∧
            p.taken.map (·.2) = e.course.outcomesBy now)) := by
  cases hr with
  | planned hn => exact .inl ⟨hn, rfl, rfl, rfl⟩
  | idle ht hds =>
      refine .inr ⟨ht.sent, rfl, rfl, fun hx => ?_⟩
      exact ht.course_eq hx (hds.trans (List.append_nil _).symm) fun d hd => nomatch hd
  | sleeping ht hds hd =>
      refine .inr ⟨ht.sent, rfl, rfl, fun hx => ht.course_eq hx hds fun d' hd' => ?_⟩
      rcases List.mem_cons.1 hd' with rfl | hd'
      · exact hd
      · exact Nat.lt_of_lt_of_le hd (e.le_due_of_mem hds d' hd')

end Told

end MeshRequest
end MeshExchange
