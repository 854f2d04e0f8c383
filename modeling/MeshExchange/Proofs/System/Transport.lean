import Mathlib.Data.List.Forall2
import MeshExchange.Proofs.Frame.Codec
import MeshExchange.Proofs.System.Lifecycle

/-!
# When the transport fails

A frame that cannot be written or read is refused before anything else happens. A frame that the link
does not take is reported to its sender, and to nobody else: by then the worker has accepted the request,
and what becomes of it is the same as if the frame had left.

**Method.** A system whose link fails is run side by side with one whose link takes the frame. They stay
the same but for what links made of frames, action by action.

**Results.**
* `System.resume_of_unencodable`, `System.resume_of_undecodable`, `System.deliver_of_undecodable`:
  frames that are refused;
* `System.Mirrors`: two systems that are the same but for what links made of frames;
* `System.Mirrors.steps`: they stay so in every run;
* `System.ToleratesChannelFailures`, `System.toleratesChannelFailures`: what failures of the channel do to
  a machine.
-/

namespace MeshExchange

namespace Link

/-- Whether nothing ever comes back on a link. -/
def isQuiet : Link → Bool
  | .recording | .down => true
  | .mesh _ hasTaker => !hasTaker

variable {l : Link} {frame : Frame} {now : Instant}

@[simp] theorem isQuiet_withBehaviour (l : Link) (b : Behaviour) :
    (l.withBehaviour b).isQuiet = l.isQuiet := by
  cases l <;> rfl

theorem transmit_mesh {r : Request} (hf : r.toFrame = .ok frame) (b : Behaviour) (hasTaker : Bool) :
    (Link.mesh b hasTaker).transmit frame now =
      if hasTaker || (b.deliveries r now).isEmpty then .ok (b.deliveries r now)
      else .error (.send .pumpStopped) := by
  rw [transmit, Request.ofFrame_of_toFrame hf]
  rfl

theorem eq_nil_of_isQuiet {deliveries : List Delivery} (hq : l.isQuiet = true)
    (h : l.transmit frame now = .ok deliveries) : deliveries = [] := by
  cases l with
  | recording => cases h; rfl
  | down => cases h
  | mesh b hasTaker =>
      cases hasTaker with
      | true => cases hq
      | false =>
          cases hr : Request.ofFrame frame with
          | error fault => simp [transmit, hr, bind, Except.bind] at h
          | ok r =>
              cases hd : (b.deliveries r now).isEmpty with
              | true =>
                  simp [transmit, hr, bind, Except.bind, hd, pure, Except.pure] at h
                  rw [← h, List.isEmpty_iff.1 hd]
              | false => simp [transmit, hr, bind, Except.bind, hd] at h

/-- A link that does not take the frame of a request says why in terms of its own. -/
theorem exists_send_of_transmit {r : Request} {fault : Fault} (hf : r.toFrame = .ok frame)
    (h : l.transmit frame now = .error fault) : ∃ cause, fault = .send cause := by
  cases l with
  | recording => cases h
  | down => cases h; exact ⟨_, rfl⟩
  | mesh b hasTaker =>
      rw [transmit_mesh hf] at h
      split at h <;> cases h
      exact ⟨_, rfl⟩

end Link

/-- The same stage, but for what links made of frames. -/
inductive Stage.Mirrors : Stage → Stage → Prop
  | same (stage : Stage) : Mirrors stage stage
  | sent (instant : Instant) (phase : Phase) (outcome outcome' : Except Fault Unit) :
      Mirrors (.finished instant (.ofTransmission phase outcome))
        (.finished instant (.ofTransmission phase outcome'))
  | listed (instant : Instant) (frames frames' : List Frame) :
      Mirrors (.finished instant (.listed frames)) (.finished instant (.listed frames'))

/-- An entry without what the link made of a frame. -/
def Entry.withoutOutcome : Entry → Entry
  | .transmitted frame _ => .transmitted frame (.ok ())
  | e => e

theorem Stage.Mirrors.symm {stage stage' : Stage} (h : stage.Mirrors stage') :
    stage'.Mirrors stage := by
  cases h with
  | same => exact .same _
  | sent => exact .sent _ _ _ _
  | listed => exact .listed _ _ _

/-- Stages that mirror each other are the same until they are finished. -/
theorem Stage.Mirrors.eq_or {stage stage' : Stage} (h : stage.Mirrors stage') :
    stage' = stage ∨ ∃ instant answer, stage = .finished instant answer := by
  cases h with
  | same => exact .inl rfl
  | sent => exact .inr ⟨_, _, rfl⟩
  | listed => exact .inr ⟨_, _, rfl⟩

namespace System

section Refusing

variable {s : System} {i : Nat} {due : Instant}

/-- **A request that cannot be written** is refused at once, and nothing else happens. -/
theorem resume_of_unencodable {r : Request} (hi : s.callers[i]? = some (.planned due (.send r)))
    (hdue : due ≤ s.now) (hr : r.address.isReserved = true ∨ 56 < r.data.length) :
    ∃ cause, s.step (.resume i) = some (s.answered i (.refused (.frame cause))) := by
  obtain ⟨cause, hf⟩ : ∃ cause, r.toFrame = .error (.frame cause) := by
    cases ha : r.address.isReserved with
    | true => exact ⟨_, Request.toFrame_of_reserved ha⟩
    | false =>
        rcases hr with hr | hr
        · cases ha.symm.trans hr
        · exact ⟨_, Request.toFrame_of_long ha hr⟩
  refine ⟨cause, resume_of_finish hi hdue ?_⟩
  simp only [begin, hf]

theorem exists_frame_of_decode {frame : Frame} {fault : Fault}
    (h : Incoming.decode frame = .error fault) : ∃ cause, fault = .frame cause := by
  unfold Incoming.decode at h
  split at h
  · cases h
    exact ⟨_, rfl⟩
  · dsimp only at h
    split at h
    · split at h <;> cases h
      exact ⟨_, rfl⟩
    · cases h

/-- **A frame that cannot be read** is refused at once, and nothing else happens. -/
theorem resume_of_undecodable {frame : Frame} {receivedAt : Option Instant} {fault : Fault}
    (hi : s.callers[i]? = some (.planned due (.receive frame receivedAt))) (hdue : due ≤ s.now)
    (hf : Incoming.decode frame = .error fault) :
    ∃ cause, fault = .frame cause ∧
      s.step (.resume i) = some (s.answered i (.refused (.frame cause))) := by
  obtain ⟨cause, rfl⟩ := exists_frame_of_decode hf
  refine ⟨cause, rfl, resume_of_finish hi hdue ?_⟩
  simp only [begin, hf]

/-- The same for a frame that the pump takes in. -/
theorem deliver_of_undecodable {d : Delivery} {fault : Fault} (hp : s.pump = .sleeping d)
    (hdue : d.due ≤ s.now) (hf : Incoming.decode d.frame = .error fault) :
    ∃ cause, fault = .frame cause ∧
      s.step .deliver = some (s.handOver d (.error (.frame cause))) := by
  obtain ⟨cause, rfl⟩ := exists_frame_of_decode hf
  exact ⟨cause, rfl, by simp [step, deliver, hp, hdue, hf]⟩

end Refusing

section Mirroring

/-- A journal without what links made of frames. -/
def withoutOutcomes (journal : List (Instant × Entry)) : List (Instant × Entry) :=
  journal.map fun (t, e) => (t, e.withoutOutcome)

/-- The same system, but for what links made of frames. If the links are quiet, the deliveries are the
same too. -/
inductive Mirrors (quiet : Prop) (s : System) : System → Prop
  | intro {link : Link} {deliveries : List Delivery} {callers : List Stage}
      {journal : List (Instant × Entry)} (hcallers : List.Forall₂ Stage.Mirrors s.callers callers)
      (hjournal : withoutOutcomes journal = withoutOutcomes s.journal)
      (hquiet : quiet →
        s.link.isQuiet = true ∧ link.isQuiet = true ∧ deliveries = s.deliveries) :
      Mirrors quiet s { s with link, deliveries, callers, journal }

/-- The same outcome of a call or a step of a caller, but for what links made of frames. -/
def Alike (quiet : Prop) (r r' : Stage × System) : Prop :=
  r.1.Mirrors r'.1 ∧ Mirrors quiet r.2 r'.2

variable {quiet : Prop} {s s' x : System} {as : List Action} {a : Action}

theorem forall₂_getElem? {l l' : List Stage} {i : Nat} {stage : Stage}
    (h : List.Forall₂ Stage.Mirrors l l') (hi : l[i]? = some stage) :
    ∃ stage', l'[i]? = some stage' ∧ stage.Mirrors stage' := by
  induction h generalizing i with
  | nil => cases hi
  | cons hs _ ih =>
      cases i with
      | zero => cases hi; exact ⟨_, rfl, hs⟩
      | succ i => exact ih hi

theorem forall₂_set {l l' : List Stage} {stage stage' : Stage}
    (h : List.Forall₂ Stage.Mirrors l l') (hs : stage.Mirrors stage') (i : Nat) :
    List.Forall₂ Stage.Mirrors (l.set i stage) (l'.set i stage') := by
  induction h generalizing i with
  | nil => exact .nil
  | cons hs' h ih =>
      cases i with
      | zero => exact .cons hs h
      | succ i => exact .cons hs' (ih i)

theorem withoutOutcomes_append (j j' : List (Instant × Entry)) :
    withoutOutcomes (j ++ j') = withoutOutcomes j ++ withoutOutcomes j' :=
  List.map_append

theorem notified?_withoutOutcome (e : Entry) : e.withoutOutcome.notified? = e.notified? := by
  cases e <;> rfl

/-- What links made of frames is nothing to the observers. -/
theorem notifications_of_withoutOutcomes (h : withoutOutcomes s'.journal = withoutOutcomes s.journal)
    (o : Observer) : s'.notifications o = s.notifications o := by
  have hx (s : System) : s.notifications o = (withoutOutcomes s.journal).filterMap fun x =>
      x.2.notified?.bind fun y => if y.1 = o then some y.2 else none := by
    simp only [notifications, withoutOutcomes, List.filterMap_map]
    refine congrArg (List.filterMap · s.journal) ?_
    funext x
    exact congrArg (Option.bind · _) (notified?_withoutOutcome x.2).symm
  rw [hx, hx, h]

theorem waitingNotifications_of_withoutOutcomes
    (h : withoutOutcomes s'.journal = withoutOutcomes s.journal) (o : Observer) :
    s'.waitingNotifications o = s.waitingNotifications o := by
  have hx (s : System) : s.waitingNotifications o =
      { s with journal := withoutOutcomes s.journal }.waitingNotifications o := by
    simp only [waitingNotifications, withoutOutcomes, List.foldl_map]
    refine congrArg (fun f => List.foldl f [] s.journal) ?_
    funext waiting x
    obtain ⟨t, e⟩ := x
    cases e <;> rfl
  rw [hx, hx s]
  simp only [waitingNotifications, h]

/-- What becomes of a frame that is handed to the link. -/
theorem exists_transmit (s : System) (sending : Sending) (phase : Phase) :
    ∃ outcome deliveries, s.transmit sending phase =
        (.finished s.now (.ofTransmission phase outcome),
          { s.record (.transmitted sending.frame outcome) with
            deliveries := s.deliveries ++ deliveries }) ∧
      (s.link.isQuiet = true → deliveries = []) := by
  cases ht : s.link.transmit sending.frame s.now with
  | ok deliveries =>
      refine ⟨.ok (), deliveries, ?_, fun hq => Link.eq_nil_of_isQuiet hq ht⟩
      simp only [System.transmit, ht]
      rfl
  | error fault =>
      refine ⟨.error fault, [], ?_, fun _ => rfl⟩
      simp only [System.transmit, ht, List.append_nil]
      rfl

namespace Mirrors

theorem finish (h : Mirrors quiet s s') (answer : Answer) : Alike quiet (s.finish answer) (s'.finish answer) := by
  cases h with
  | intro hc hj hd => exact ⟨.same _, .intro hc hj hd⟩

theorem change (h : Mirrors quiet s s') (r : Except Fault (Machine Observer)) :
    Alike quiet (s.change r) (s'.change r) := by
  cases h with
  | intro hc hj hd => cases r <;> exact ⟨.same _, .intro hc hj hd⟩

theorem command (h : Mirrors quiet s s') (c : Command) : Alike quiet (s.command c) (s'.command c) := by
  cases h with
  | intro hc hj hd =>
      unfold System.command
      dsimp only
      split <;> exact ⟨.same _, .intro hc hj hd⟩

theorem seek (h : Mirrors quiet s s') (sending : Sending) : Alike quiet (s.seek sending) (s'.seek sending) := by
  cases h with
  | intro hc hj hd =>
      unfold System.seek
      dsimp only
      split <;> exact ⟨.same _, .intro hc hj hd⟩

theorem record (h : Mirrors quiet s s') {e e' : Entry} (he : e'.withoutOutcome = e.withoutOutcome) :
    Mirrors quiet (s.record e) (s'.record e') := by
  cases h with
  | intro hc hj hd =>
      refine .intro hc ((withoutOutcomes_append _ _).trans ?_) hd
      rw [hj]
      simp [System.record, withoutOutcomes, he]

/-- A call begins. -/
theorem begin (h : Mirrors quiet s s') (call : Call) : Alike quiet (s.begin call) (s'.begin call) := by
  cases call with
  | start hasExecutor =>
      have hr := h.change (s.machine.start hasExecutor)
      cases h
      exact hr
  | setTime f ms =>
      have hr := h.change (s.machine.setTime f ms)
      cases h
      exact hr
  | newRequest r => exact h.command _
  | reset => exact h.command _
  | confirmation c receivedAt =>
      have hr := h.command (.confirmationReceived (receivedAt.getD s.now) c)
      cases h
      exact hr
  | response length receivedAt =>
      have hr := h.command (.responseReceived (receivedAt.getD s.now) length)
      cases h
      exact hr
  | receive frame receivedAt =>
      cases hf : Incoming.decode frame with
      | error fault =>
          simp only [System.begin, hf]
          exact h.finish _
      | ok incoming =>
          have hr := h.command (incoming.command (receivedAt.getD s.now))
          cases h
          simp only [System.begin, hf]
          exact hr
  | send r =>
      cases hf : r.toFrame with
      | error fault =>
          simp only [System.begin, hf]
          exact h.finish _
      | ok frame =>
          have hr := h.seek ⟨r, frame, s.now + s.sendWait⟩
          cases h
          simp only [System.begin, hf]
          exact hr
  | counts name =>
      have hr := h.finish
        (.counted (Tally.ofNotifications ((s.observer? .recording name).elim [] s.notifications)))
      have hn : s'.notifications = s.notifications := by
        cases h with
        | intro hc hj hd => exact funext (notifications_of_withoutOutcomes hj)
      cases h
      simp only [System.begin, hn]
      exact hr
  | drain name =>
      have hr (o : Observer) := (h.record (e := .drained o) rfl).finish
        (.drained (s.waitingNotifications o))
      have hn (o : Observer) : s'.waitingNotifications o = s.waitingNotifications o := by
        cases h with
        | intro hc hj hd => exact waitingNotifications_of_withoutOutcomes hj o
      have hnone := h.finish (.drained [])
      cases ho : s.observer? .forwarding name with
      | none =>
          have ho' : s'.observer? .forwarding name = none := by
            cases h
            exact ho
          simp only [System.begin, ho, ho']
          exact hnone
      | some o =>
          have ho' : s'.observer? .forwarding name = some o := by
            cases h
            exact ho
          simp only [System.begin, ho, ho', hn]
          exact hr o
  | sent =>
      cases h with
      | intro hc hj hd => exact ⟨.listed _ _ _, .intro hc hj hd⟩
  | setBehaviour behaviour =>
      cases h with
      | intro hc hj hd =>
          refine ⟨.same _, .intro hc hj fun hq => ?_⟩
          obtain ⟨hl, hl', hds⟩ := hd hq
          exact ⟨(Link.isQuiet_withBehaviour _ _).trans hl,
            (Link.isQuiet_withBehaviour _ _).trans hl', hds⟩
  | destroy =>
      cases h with
      | intro hc hj hd =>
          simp only [System.begin]
          split <;> exact ⟨.same _, .intro hc hj hd⟩
  | waitFree limit =>
      cases h with
      | intro hc hj hd =>
          simp only [System.begin]
          split <;> exact ⟨.same _, .intro hc hj hd⟩
  | register | unregister | sleep | waitPhase | inspect =>
      cases h with
      | intro hc hj hd => exact ⟨.same _, .intro hc hj hd⟩

/-- Deliveries are scheduled, none of them on a quiet link. -/
theorem schedule (h : Mirrors quiet s s') {deliveries deliveries' : List Delivery}
    (hq : s.link.isQuiet = true → deliveries = []) (hq' : s'.link.isQuiet = true → deliveries' = []) :
    Mirrors quiet { s with deliveries := s.deliveries ++ deliveries }
      { s' with deliveries := s'.deliveries ++ deliveries' } := by
  cases h with
  | intro hc hj hd =>
      refine .intro hc hj fun hquiet => ?_
      obtain ⟨hl, hl', hds⟩ := hd hquiet
      exact ⟨hl, hl', by rw [hq hl, hq' hl', hds]⟩

/-- A frame is handed to both links. -/
theorem transmit (h : Mirrors quiet s s') (sending : Sending) (phase : Phase) :
    Alike quiet (s.transmit sending phase) (s'.transmit sending phase) := by
  obtain ⟨outcome, deliveries, ht, hq⟩ := exists_transmit s sending phase
  obtain ⟨outcome', deliveries', ht', hq'⟩ := exists_transmit s' sending phase
  rw [ht, ht']
  have hnow : s'.now = s.now := by
    cases h
    rfl
  have hentry : (Entry.transmitted sending.frame outcome').withoutOutcome =
      (Entry.transmitted sending.frame outcome).withoutOutcome := rfl
  have hr := h.record hentry
  exact ⟨hnow ▸ .sent _ _ _ _, hr.schedule hq hq'⟩

/-- A sender learns what became of its announcement. -/
theorem afterAnnouncement (h : Mirrors quiet s s') (sending : Sending) (reply : Reply) :
    Alike quiet (s.afterAnnouncement sending reply) (s'.afterAnnouncement sending reply) := by
  cases reply with
  | ok phase =>
      cases h with
      | intro hc hj hd => exact ⟨.same _, .intro hc hj hd⟩
  | error fault =>
      have hseek := h.seek sending
      have hfinish := h.finish (.refused fault)
      cases h
      simp only [System.afterAnnouncement]
      split
      · exact hseek
      · exact hfinish

/-- A caller pursues its command. -/
theorem pursue (h : Mirrors quiet s s') (p : Pending)
    {f f' : Option Reply × Machine Observer → Stage × System}
    (hf : ∀ reply m, Mirrors quiet { s with machine := m } { s' with machine := m } →
      Alike quiet (f (reply, m)) (f' (reply, m))) :
    Option.Rel (Alike quiet) ((s.machine.pursue p s.now).map f) ((s'.machine.pursue p s'.now).map f') := by
  have hp : s'.machine.pursue p s'.now = s.machine.pursue p s.now := by
    cases h
    rfl
  rw [hp]
  cases s.machine.pursue p s.now with
  | none => exact .none
  | some x =>
      refine .some (hf x.1 x.2 ?_)
      cases h with
      | intro hc hj hd => exact .intro hc hj hd

/-- One step of a caller that is at the same stage in both systems. -/
theorem advance (h : Mirrors quiet s s') (stage : Stage) :
    Option.Rel (Alike quiet) (s.advance stage) (s'.advance stage) := by
  have hfinish (answer : Answer) := h.finish answer
  cases stage with
  | planned due call =>
      have hb := h.begin call
      cases h
      simp only [System.advance]
      split
      · exact .some hb
      · exact .none
  | commanding p =>
      refine h.pursue p fun reply m hm => ?_
      cases reply with
      | none => exact ⟨.same _, hm⟩
      | some reply => exact hm.finish _
  | announced sending p =>
      refine h.pursue p fun reply m hm => ?_
      cases reply with
      | none => exact ⟨.same _, hm⟩
      | some reply => exact hm.afterAnnouncement sending reply
  | transmitting sending phase => exact .some (h.transmit sending phase)
  | announcing sending =>
      cases h with
      | intro hc hj hd =>
          simp only [System.advance]
          split <;> exact .some ⟨.same _, .intro hc hj hd⟩
  | seeking sending limit giveUp =>
      cases h with
      | intro hc hj hd =>
          simp only [System.advance]
          split
          · exact .some ⟨.same _, .intro hc hj hd⟩
          · exact .some (hfinish _)
          · split
            · exact .some (hfinish _)
            · exact .none
  | waitingFree limit giveUp =>
      cases h
      simp only [System.advance]
      split
      · exact .some (hfinish _)
      · exact .some (hfinish _)
      · split
        · exact .some (hfinish _)
        · exact .none
  | waitingPhase target giveUp =>
      cases h
      simp only [System.advance]
      split
      · exact .some (hfinish _)
      · split
        · exact .some (hfinish _)
        · exact .none
  | sleeping due =>
      cases h
      simp only [System.advance]
      split
      · exact .some (hfinish _)
      · exact .none
  | joining giveUp =>
      cases h
      simp only [System.advance]
      split
      · exact .some (hfinish _)
      · exact .none
  | finished instant answer => exact .none

theorem exists_of_rel {α : Type} {r : α → α → Prop} {o o' : Option α} {y : α}
    (h : Option.Rel r o o') (hy : o = some y) : ∃ y', o' = some y' ∧ r y y' := by
  cases h with
  | none => cases hy
  | some hr =>
      cases hy
      exact ⟨_, rfl, hr⟩

theorem resume (h : Mirrors quiet s s') {i : Nat} (hx : s.resume i = some x) :
    ∃ x', s'.resume i = some x' ∧ Mirrors quiet x x' := by
  obtain ⟨stage, hi, hx⟩ := Option.bind_eq_some_iff.1 hx
  obtain ⟨⟨stage₁, s₁⟩, hadv, rfl⟩ := Option.map_eq_some_iff.1 hx
  obtain ⟨stage', hi', hs⟩ : ∃ stage', s'.callers[i]? = some stage' ∧ stage.Mirrors stage' := by
    cases h with
    | intro hc => exact forall₂_getElem? hc hi
  obtain rfl | ⟨instant, answer, rfl⟩ := hs.eq_or
  · obtain ⟨⟨stage₁', s₁'⟩, hadv', hstage, hsys⟩ := exists_of_rel (h.advance stage') hadv
    refine ⟨{ s₁' with callers := s₁'.callers.set i stage₁' }, ?_, ?_⟩
    · simp [System.resume, hi', hadv']
    · dsimp only at hstage hsys
      cases hsys with
      | intro hc hj hd => exact .intro (forall₂_set hc hstage i) hj hd
  · cases hadv

theorem handOver (h : Mirrors quiet s s') (d : Delivery) (outcome : Reply) :
    Mirrors quiet (s.handOver d outcome) (s'.handOver d outcome) := by
  have hr := h.record (e := .handedOver d outcome) rfl
  cases h with
  | intro =>
      cases hr with
      | intro hc hj hd => exact .intro hc hj hd

/-- The pump takes one step, on quiet links. -/
theorem deliver (h : Mirrors quiet s s') (hquiet : quiet) :
    Option.Rel (Mirrors quiet) s.deliver s'.deliver := by
  have hover (d : Delivery) (outcome : Reply) := h.handOver d outcome
  cases h with
  | @intro link deliveries callers journal hc hj hd =>
      obtain ⟨hl, hl', rfl⟩ := hd hquiet
      unfold System.deliver
      dsimp only
      split
      · split
        · exact .none
        · exact .some (.intro hc hj fun _ => ⟨hl, hl', rfl⟩)
      · split
        · split
          · exact .some (hover _ _)
          · split
            · exact .some (.intro hc hj fun _ => ⟨hl, hl', rfl⟩)
            · exact .some (hover _ _)
        · exact .none
      · next d p _ =>
          cases s.machine.pursue p s.now with
          | none => exact .none
          | some r =>
              obtain ⟨reply, m⟩ := r
              have hm : Mirrors quiet { s with machine := m } _ := .intro hc hj hd
              cases reply with
              | none => exact .some hm
              | some reply => exact .some (hm.handOver d reply)

/-- **They stay the same** at every action, but for what links make of frames. -/
theorem step (h : Mirrors quiet s s') (hq : a = .deliver → quiet)
    (hx : s.step a = some x) : ∃ x', s'.step a = some x' ∧ Mirrors quiet x x' := by
  cases a with
  | resume i => exact h.resume hx
  | deliver =>
      exact exists_of_rel (h.deliver (hq rfl)) hx
  | call due call =>
      cases hx
      cases h with
      | intro hc hj hd =>
          exact ⟨_, rfl, .intro (List.rel_append hc (.cons (.same _) .nil)) hj hd⟩
  | elapse t =>
      cases h with
      | intro hc hj hd =>
          simp only [System.step] at hx
          split at hx
          · next ht =>
              cases hx
              exact ⟨_, step_elapse ht, .intro hc hj hd⟩
          · cases hx
  | work =>
      obtain ⟨⟨turn, m⟩, hm, rfl⟩ := Option.map_eq_some_iff.1 hx
      have hmirror : Mirrors quiet { s with machine := m } { s' with machine := m } := by
        cases h with
        | intro hc hj hd => exact .intro hc hj hd
      have hentry : (Entry.worked turn).withoutOutcome = (Entry.worked turn).withoutOutcome := rfl
      refine ⟨_, ?_, hmirror.record hentry⟩
      cases h
      exact Option.map_eq_some_iff.2 ⟨_, hm, rfl⟩

/-- **They stay the same** in every run, but for what links make of frames. -/
theorem steps (h : Mirrors quiet s s') (hq : .deliver ∈ as → quiet) (hx : s.steps as = some x) :
    ∃ x', s'.steps as = some x' ∧ Mirrors quiet x x' := by
  induction as generalizing s s' with
  | nil =>
      cases hx
      exact ⟨s', rfl, h⟩
  | cons a as ih =>
      obtain ⟨s₁, h₁, hx⟩ := steps_cons_iff.1 hx
      obtain ⟨s₁', h₁', hm⟩ := h.step (fun ha => hq (ha ▸ List.mem_cons_self)) h₁
      obtain ⟨x', hx', hxm⟩ := ih hm (fun ha => hq (List.mem_cons_of_mem a ha)) hx
      exact ⟨x', steps_cons_iff.2 ⟨s₁', h₁', hx'⟩, hxm⟩

theorem symm (h : Mirrors quiet s s') : Mirrors quiet s' s := by
  cases h with
  | intro hc hj hd =>
      refine .intro (hc.imp fun _ _ h => h.symm).flip hj.symm fun hq => ?_
      obtain ⟨hl, hl', hds⟩ := hd hq
      exact ⟨hl', hl, hds.symm⟩

/-- The same run of both, or neither can make it. -/
theorem rel_steps (h : Mirrors quiet s s') (hq : .deliver ∈ as → quiet) :
    Option.Rel (Mirrors quiet) (s.steps as) (s'.steps as) := by
  cases hx : s.steps as with
  | some x =>
      obtain ⟨x', hx', hm⟩ := h.steps hq hx
      rw [hx']
      exact .some hm
  | none =>
      cases hx' : s'.steps as with
      | none => exact .none
      | some x' =>
          obtain ⟨x, hs, -⟩ := h.symm.steps hq hx'
          cases hx.symm.trans hs

/-- Two systems that differ in nothing but their links. -/
theorem of_link (s : System) (l : Link) :
    Mirrors (s.link.isQuiet = true ∧ l.isQuiet = true) s { s with link := l } :=
  .intro (List.forall₂_same.2 fun stage _ => .same stage) rfl fun hq => ⟨hq.1, hq.2, rfl⟩

end Mirrors

end Mirroring

section Failing

variable {s : System} {i : Nat} {sending : Sending} {phase : Phase}

theorem step_transmitting (hi : s.callers[i]? = some (.transmitting sending phase)) :
    ∃ y, s.step (.resume i) = some y ∧ y.machine = s.machine ∧
      y.callers = s.callers.set i (.finished s.now (.ofTransmission phase
        ((s.link.transmit sending.frame s.now).map fun _ => ()))) := by
  have hy : s.step (.resume i) = some { (s.transmit sending phase).2 with
      callers := (s.transmit sending phase).2.callers.set i (s.transmit sending phase).1 } := by
    simp [step, resume, hi, advance]
  refine ⟨_, hy, ?_⟩
  unfold transmit
  cases s.link.transmit sending.frame s.now with
  | ok deliveries => exact ⟨rfl, rfl⟩
  | error fault => exact ⟨rfl, rfl⟩

/-- What failures of the channel do to a system. -/
structure ToleratesChannelFailures (s : System) : Prop where
  /-- A request that cannot be written is refused at once, and nothing else happens. -/
  unencodable : ∀ i due r, s.callers[i]? = some (.planned due (.send r)) → due ≤ s.now →
    r.address.isReserved = true ∨ 56 < r.data.length →
      ∃ cause, s.step (.resume i) = some (s.answered i (.refused (.frame cause)))
  /-- So is a frame that cannot be read. -/
  undecodable : ∀ i due frame receivedAt fault,
    s.callers[i]? = some (.planned due (.receive frame receivedAt)) → due ≤ s.now →
      Incoming.decode frame = .error fault →
        ∃ cause, fault = .frame cause ∧
          s.step (.resume i) = some (s.answered i (.refused (.frame cause)))
  /-- The pump goes on to its next delivery. -/
  undeliverable : ∀ d fault, s.pump = .sleeping d → d.due ≤ s.now →
    Incoming.decode d.frame = .error fault →
      ∃ cause, fault = .frame cause ∧
        s.step .deliver = some (s.handOver d (.error (.frame cause)))
  /-- The link makes no difference to any run in which nothing comes back on it, but for what it makes of
  frames. -/
  transparent : ∀ l as, (.deliver ∈ as → s.link.isQuiet = true ∧ l.isQuiet = true) →
    Option.Rel (Mirrors (s.link.isQuiet = true ∧ l.isQuiet = true)) (s.steps as)
      ({ s with link := l }.steps as)
  /-- A sender whose frame the link does not take is told so at once. The machine and all that happens
  later are the same as on a link that takes the frame. -/
  untaken : ∀ i sending phase fault, s.callers[i]? = some (.transmitting sending phase) →
    sending.request.toFrame = .ok sending.frame →
    s.link.transmit sending.frame s.now = .error fault →
      (∃ cause, fault = .send cause) ∧
      ∃ y, s.step (.resume i) = some y ∧ y.machine = s.machine ∧
        y.callers = s.callers.set i (.finished s.now (.refused fault)) ∧
        ∀ l deliveries, l.transmit sending.frame s.now = .ok deliveries →
          ∃ z, { s with link := l }.step (.resume i) = some z ∧ z.machine = s.machine ∧
            z.callers = s.callers.set i (.finished s.now (.entered phase)) ∧
            ∀ as, (.deliver ∈ as → s.link.isQuiet = true ∧ l.isQuiet = true) →
              Option.Rel (Mirrors (s.link.isQuiet = true ∧ l.isQuiet = true)) (y.steps as)
                (z.steps as)

/-- **Failures of the channel** leave the machine as they should, whatever state it is in. -/
theorem toleratesChannelFailures (s : System) : s.ToleratesChannelFailures where
  unencodable _ _ _ hi hdue hr := resume_of_unencodable hi hdue hr
  undecodable _ _ _ _ _ hi hdue hf := resume_of_undecodable hi hdue hf
  undeliverable _ _ hp hdue hf := deliver_of_undecodable hp hdue hf
  transparent l _ hq := (Mirrors.of_link s l).rel_steps hq
  untaken i sending phase fault hi hf hl := by
    obtain ⟨y, hy, hym, hyc⟩ := step_transmitting hi
    rw [hl] at hyc
    refine ⟨Link.exists_send_of_transmit hf hl, y, hy, hym, hyc, fun l deliveries hl' => ?_⟩
    obtain ⟨z, hz, hzm, hzc⟩ := step_transmitting (s := { s with link := l }) hi
    rw [hl'] at hzc
    refine ⟨z, hz, hzm, hzc, fun as hq => ?_⟩
    obtain ⟨z', hz', hm⟩ := (Mirrors.of_link s l).step (a := .resume i) (by simp) hy
    cases hz.symm.trans hz'
    exact hm.rel_steps hq

/-- A send on a link that is down and on one that records: the answers differ, and the timeout comes in
both. -/
example :
    let as : List Action := [.call 0 (.start true), .resume 0, .call 0 (.send ⟨.node 1, 6, 1, 0, []⟩),
      .resume 1, .resume 1, .resume 1, .work, .resume 1, .resume 1, .elapse (Duration.millis 500), .work]
    let runs (link : Link) : Option (Option Stage × Phase) :=
      (Setup.assemble { link }).toOption.bind fun s =>
        (s.steps as).map fun s' => (s'.callers[1]?, s'.machine.phase)
    runs .down = some (some (.finished 0 (.refused (.send .transportDown))),
        .waitingForConfirmationTimedOut) ∧
      runs .recording = some (some (.finished 0 (.entered .waitingForConfirmation)),
        .waitingForConfirmationTimedOut) := by
  decide +kernel

end Failing

end System
end MeshExchange
