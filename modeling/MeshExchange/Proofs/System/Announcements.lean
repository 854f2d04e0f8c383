import MeshExchange.Proofs.System.Replies
import MeshExchange.Proofs.System.Transitions

/-!
# Announced frames

A sender hands its frame to the link only after the worker has accepted its request, and then once.
Senders that see the channel free at the same time announce their requests one after the other: one of
them is accepted, the others are refused and wait on, or give up.

**Method.** What a sender learns and what it hands over is gathered along the run. Over all senders, each
frame that was handed over belongs to the ticket under which its request was accepted, and so does each
frame that is about to be.

**Results.**
* `System.Sends`, `System.sends_of_finished`: how the call of a sender ends, with all it did;
* `System.Owned`, `System.Reachable.exists_owned`: which ticket stands for which frame;
* `System.announced_of_steps`: both, and what the worker did between two accepted requests.
-/

namespace MeshExchange
namespace System

section Gathering

/-- What a sender learns about its announcement at an action. -/
def learns (i : Nat) (s : System) (a : Action) (_ : System) : List (Pending × Reply) :=
  match a, s.callers[i]? with
  | .resume j, some (.announced _ p) =>
      if j = i then ((s.machine.pursue p s.now).bind (·.1)).toList.map fun reply => (p, reply)
      else []
  | _, _ => []

/-- The frames that the journal tells of from a point on, and what the link made of them. -/
def transmissions (journal : List (Instant × Entry)) : List (Frame × Except Fault Unit) :=
  journal.filterMap fun
    | (_, .transmitted frame outcome) => some (frame, outcome)
    | _ => none

/-- The frames that a caller hands to the link at an action. -/
def handsOver (i : Nat) (s : System) (a : Action) (s' : System) :
    List (Frame × Except Fault Unit) :=
  if a = .resume i then transmissions (s'.journal.drop s.journal.length) else []

variable {s s' : System} {a : Action} {i : Nat}

theorem learns_of_ne (ha : a ≠ .resume i) : s.learns i a s' = [] := by
  unfold learns
  split
  · next j sending p _ =>
      rw [if_neg]
      rintro rfl
      exact ha rfl
  · rfl

theorem handsOver_of_ne (ha : a ≠ .resume i) : s.handsOver i a s' = [] := if_neg ha

end Gathering

section Sending

/-- All that a sender has learnt so far is that it was refused, and it has handed nothing over. -/
structure Unheeded (s : System) (as : List Action) (i : Nat) : Prop where
  learns : ∀ x ∈ s.gather (learns i) as, ∃ fault, x.2 = .error fault
  handsOver : s.gather (handsOver i) as = []

/-- The last that a sender has learnt is that its request was accepted, which is true. -/
structure Heeded (s : System) (as : List Action) (i : Nat) (r : Request) (phase : Phase) : Prop where
  learns : ∃ earlier p, s.gather (learns i) as = earlier ++ [(p, .ok phase)] ∧
    (∀ x ∈ earlier, ∃ fault, x.2 = .error fault) ∧ s.Tells as p.ticket (.newRequest r) (.ok phase)

/-- How the call of a sender ends. -/
inductive Sends (s : System) (as : List Action) (i : Nat) (r : Request) : Answer → Prop
  | unencodable {fault : Fault} (hf : r.toFrame = .error fault)
      (hl : s.gather (learns i) as = []) (hh : s.gather (handsOver i) as = []) :
      Sends s as i r (.refused fault)
  /-- The channel did not become free in time, or the last announcement was refused. -/
  | unheeded {frame : Frame} {fault : Fault} (hf : r.toFrame = .ok frame) (h : s.Unheeded as i) :
      Sends s as i r (.refused fault)
  /-- The frame was handed over, after the worker had accepted the request. -/
  | sent {frame : Frame} {phase : Phase} {outcome : Except Fault Unit} {before after : List Action}
      (hf : r.toFrame = .ok frame) (has : as = before ++ after) (h : s.Heeded before i r phase)
      (hb : s.gather (handsOver i) before = []) (hl : s.gather (learns i) as = s.gather (learns i) before)
      (hh : s.gather (handsOver i) as = [(frame, outcome)]) :
      Sends s as i r (.ofTransmission phase outcome)

/-- How far a caller has got that sends a request. -/
inductive Engaged (s : System) (as : List Action) (i : Nat) (r : Request) : Stage → Prop
  | planned {due : Instant} (hl : s.gather (learns i) as = [])
      (hh : s.gather (handsOver i) as = []) : Engaged s as i r (.planned due (.send r))
  | seeking {sending : Sending} {limit : Duration} {giveUp : Instant} (hr : sending.request = r)
      (hf : r.toFrame = .ok sending.frame) (h : s.Unheeded as i) :
      Engaged s as i r (.seeking sending limit giveUp)
  | announcing {sending : Sending} (hr : sending.request = r) (hf : r.toFrame = .ok sending.frame)
      (h : s.Unheeded as i) : Engaged s as i r (.announcing sending)
  | announced {sending : Sending} {p : Pending} (hr : sending.request = r)
      (hf : r.toFrame = .ok sending.frame) (h : s.Unheeded as i)
      (hp : p.command = .newRequest r) (hnew : ∀ c reply, ¬ s.HasHandled p.ticket c reply) :
      Engaged s as i r (.announced sending p)
  | transmitting {sending : Sending} {phase : Phase} (hr : sending.request = r)
      (hf : r.toFrame = .ok sending.frame) (h : s.Heeded as i r phase)
      (hh : s.gather (handsOver i) as = []) : Engaged s as i r (.transmitting sending phase)
  | finished {t : Instant} {answer : Answer} (h : s.Sends as i r answer) :
      Engaged s as i r (.finished t answer)

variable {s x y s₁ : System} {as : List Action} {a : Action} {i : Nat} {r : Request}
  {stage stage' : Stage}

/-- An action at which a sender neither learns nor hands over anything changes nothing for it. -/
theorem Unheeded.concat (h : s.Unheeded as i) (hx : s.steps as = some x) (ha : x.step a = some y)
    (hl : ∀ z ∈ x.learns i a y, ∃ fault, z.2 = .error fault) (hh : x.handsOver i a y = []) :
    s.Unheeded (as ++ [a]) i where
  learns := by
    rw [gather_concat hx ha]
    intro z hz
    rcases List.mem_append.1 hz with hz | hz
    · exact h.learns z hz
    · exact hl z hz
  handsOver := by
    rw [gather_concat_of_eq_nil hx ha hh, h.handsOver]

theorem Sends.concat {answer : Answer} (h : s.Sends as i r answer) (hx : s.steps as = some x)
    (ha : x.step a = some y) (hl : x.learns i a y = []) (hh : x.handsOver i a y = []) :
    s.Sends (as ++ [a]) i r answer := by
  have hlearns := gather_concat_of_eq_nil hx ha hl
  have hhands := gather_concat_of_eq_nil hx ha hh
  cases h with
  | unencodable hf hl' hh' => exact .unencodable hf (hlearns.trans hl') (hhands.trans hh')
  | unheeded hf h => exact .unheeded hf (h.concat hx ha (by simp [hl]) hh)
  | @sent frame phase outcome before after hf has h hb hl' hh' =>
      have has' : as ++ [a] = before ++ (after ++ [a]) := by
        rw [has, List.append_assoc]
      exact .sent hf has' h hb (hlearns.trans hl') (hhands.trans hh')

theorem Engaged.concat (h : Engaged s as i r stage) (hx : s.steps as = some x)
    (ha : x.step a = some y) (hl : x.learns i a y = []) (hh : x.handsOver i a y = []) :
    Engaged s (as ++ [a]) i r stage := by
  have hlearns := gather_concat_of_eq_nil hx ha hl
  have hhands := gather_concat_of_eq_nil hx ha hh
  have hunheeded (h : s.Unheeded as i) : s.Unheeded (as ++ [a]) i :=
    h.concat hx ha (by simp [hl]) hh
  cases h with
  | planned hl' hh' => exact .planned (hlearns.trans hl') (hhands.trans hh')
  | seeking hr hf h => exact .seeking hr hf (hunheeded h)
  | announcing hr hf h => exact .announcing hr hf (hunheeded h)
  | announced hr hf h hp hnew => exact .announced hr hf (hunheeded h) hp hnew
  | transmitting hr hf h hh' =>
      obtain ⟨earlier, p, hl', he, ht⟩ := h.learns
      exact .transmitting hr hf ⟨earlier, p, hlearns.trans hl', he, ht.append⟩ (hhands.trans hh')
  | finished h => exact .finished (h.concat hx ha hl hh)

/-- Only a sender whose announcement was accepted hands anything over. -/
theorem transmissions_of_advances (h : x.Advances stage stage' s₁)
    (hs : ∀ sending phase, stage ≠ .transmitting sending phase) :
    transmissions (s₁.journal.drop x.journal.length) = [] := by
  cases h with
  | plain _ _ hq => simp [hq.journal, transmissions]
  | transmits sending phase => exact absurd rfl (hs sending phase)
  | _ => simp [transmissions, record]

theorem handsOver_resume (hs : ∀ sending phase, stage ≠ .transmitting sending phase)
    (h : x.Advances stage stage' s₁) :
    x.handsOver i (.resume i) { s₁ with callers := s₁.callers.set i stage' } = [] := by
  have ht := transmissions_of_advances h hs
  rw [handsOver, if_pos rfl]
  exact ht

theorem learns_resume (hi : x.callers[i]? = some stage)
    (hs : ∀ sending p, stage ≠ .announced sending p) : x.learns i (.resume i) y = [] := by
  unfold learns
  split
  · next j sending p ha hi' =>
      cases ha
      rw [hi] at hi'
      cases hi'
      exact absurd rfl (hs sending p)
  · rfl

/-- A sender that has no request with the worker and is not about to hand its frame over. -/
theorem Unheeded.resume (h : s.Unheeded as i) (hx : s.steps as = some x)
    (hi : x.callers[i]? = some stage) (hp : ∀ sending p, stage ≠ .announced sending p)
    (ht : ∀ sending phase, stage ≠ .transmitting sending phase)
    (hadv : x.Advances stage stage' s₁)
    (ha : x.step (.resume i) = some { s₁ with callers := s₁.callers.set i stage' }) :
    s.Unheeded (as ++ [.resume i]) i :=
  h.concat hx ha (by simp [learns_resume hi hp]) (handsOver_resume ht hadv)

/-- One step of a sender. -/
theorem Engaged.advance (h : Engaged s as i r stage) (hs : s.Reachable) (hx : s.steps as = some x)
    (hi : x.callers[i]? = some stage) (hadv : x.advance stage = some (stage', s₁))
    (ha : x.step (.resume i) = some { s₁ with callers := s₁.callers.set i stage' }) :
    Engaged s (as ++ [.resume i]) i r stage' := by
  have hadvances := advances_of_advance hadv
  cases h with
  | planned hl hh =>
      have hunheeded : s.Unheeded (as ++ [.resume i]) i :=
        Unheeded.resume ⟨by simp [hl], hh⟩ hx hi (by simp) (by simp) hadvances ha
      simp only [System.advance] at hadv
      split at hadv
      · simp only [begin] at hadv
        split at hadv
        · next frame hf =>
            obtain ⟨-, ⟨limit, giveUp, rfl⟩ | rfl⟩ := seek_cases (Option.some.inj hadv)
            · exact .seeking rfl hf hunheeded
            · exact .finished (.unheeded hf hunheeded)
        · next fault hf =>
            cases hadv
            refine .finished (.unencodable hf ?_ hunheeded.handsOver)
            rw [gather_concat_of_eq_nil hx ha (learns_resume hi (by simp)), hl]
      · cases hadv
  | @seeking sending limit giveUp hr hf h =>
      have hunheeded := h.resume hx hi (by simp) (by simp) hadvances ha
      simp only [System.advance] at hadv
      split at hadv
      · cases hadv
        exact .announcing hr hf hunheeded
      · cases hadv
        exact .finished (.unheeded hf hunheeded)
      · split at hadv <;> cases hadv
        exact .finished (.unheeded hf hunheeded)
  | @announcing sending hr hf h =>
      have hunheeded := h.resume hx hi (by simp) (by simp) hadvances ha
      simp only [System.advance] at hadv
      split at hadv
      · next p m hm =>
          cases hadv
          obtain ⟨-, rfl, -⟩ := Machine.submit_eq_ok hm
          refine .announced hr hf hunheeded (by rw [hr]) fun c reply hhandled => ?_
          have hlt := (hs.steps hx).ticketed.fresh _ (List.mem_append_right _
            (mem_tickets_iff.2 ⟨c, reply, hhandled.of_steps hx⟩))
          exact Nat.lt_irrefl _ hlt
      · cases hadv
        exact .finished (.unheeded hf hunheeded)
  | @announced sending p hr hf h hp hnew =>
      have hh := handsOver_resume (i := i) (by simp) hadvances
      obtain ⟨⟨reply, m⟩, hpursue, hm⟩ := Option.map_eq_some_iff.1 hadv
      have hl : x.learns i (.resume i) { s₁ with callers := s₁.callers.set i stage' } =
          reply.toList.map fun reply => (p, reply) := by
        simp [System.learns, hi, hpursue]
      cases reply with
      | none =>
          cases hm
          exact (Engaged.announced hr hf h hp hnew).concat hx ha hl hh
      | some reply =>
          dsimp only at hm
          cases reply with
          | ok phase =>
              cases hm
              have htells := tells_of_learns hs hnew hx ((pending?_caller hi).trans rfl) ha (by simp)
                hpursue
              rw [hp] at htells
              refine .transmitting hr hf ⟨_, p, ?_, h.learns, htells⟩ ?_
              · rw [gather_concat hx ha, hl]
                rfl
              · rw [gather_concat_of_eq_nil hx ha hh, h.handsOver]
          | error fault =>
              have hunheeded := h.concat hx ha (by simp [hl]) hh
              simp only [afterAnnouncement] at hm
              split at hm
              · obtain ⟨-, ⟨limit, giveUp, rfl⟩ | rfl⟩ := seek_cases hm
                · exact .seeking hr hf hunheeded
                · exact .finished (.unheeded hf hunheeded)
              · cases hm
                exact .finished (.unheeded hf hunheeded)
  | @transmitting sending phase hr hf h hh =>
      have hl := learns_resume (y := { s₁ with callers := s₁.callers.set i stage' }) hi (by simp)
      have hlearns := gather_concat_of_eq_nil hx ha hl
      cases hadvances with
      | plain hs' => cases hs'
      | handsIn hp => cases hp
      | transmits sending phase outcome deliveries =>
          have hhands : s.gather (handsOver i) (as ++ [.resume i]) = [(sending.frame, outcome)] := by
            rw [gather_concat hx ha, hh, handsOver, if_pos rfl]
            simp [transmissions, record]
          exact .finished (.sent hf rfl h hh hlearns hhands)
  | finished h => cases hadv

theorem exists_engaged {due : Instant} (hs : s.Reachable)
    (hi : s.callers[i]? = some (.planned due (.send r))) (has : s.steps as = some x) :
    ∃ stage, x.callers[i]? = some stage ∧ Engaged s as i r stage := by
  refine steps_induct (P := fun as x => ∃ stage, x.callers[i]? = some stage ∧
    Engaged s as i r stage) ⟨_, hi, .planned rfl rfl⟩ ?_ has
  rintro as x a y hx ha ⟨stage, hi, h⟩
  by_cases hai : a = .resume i
  · subst hai
    obtain ⟨stage₀, hi₀, hresume⟩ := Option.bind_eq_some_iff.1 ha
    rw [hi] at hi₀
    cases hi₀
    obtain ⟨⟨stage', s₁⟩, hadv, rfl⟩ := Option.map_eq_some_iff.1 hresume
    have hlt : i < s₁.callers.length := by
      rw [(advances_of_advance hadv).callers]
      exact (List.getElem?_eq_some_iff.1 hi).1
    exact ⟨stage', List.getElem?_set_self hlt, h.advance hs hx hi hadv ha⟩
  · rcases caller_of_step hi ha with hi' | ⟨ha', -⟩
    · exact ⟨stage, hi', h.concat hx ha (learns_of_ne hai) (handsOver_of_ne hai)⟩
    · exact absurd ha' hai

/-- **How the call of a sender ends.** -/
theorem sends_of_finished {due t : Instant} {answer : Answer} (hs : s.Reachable)
    (hi : s.callers[i]? = some (.planned due (.send r))) (has : s.steps as = some x)
    (ha : x.callers[i]? = some (.finished t answer)) : s.Sends as i r answer := by
  obtain ⟨stage, hi', h⟩ := exists_engaged hs hi has
  rw [ha] at hi'
  cases hi'
  cases h with
  | finished h => exact h

end Sending

section Owning

/-- A request was accepted under a ticket, and a frame is its frame. -/
def Deserves (s : System) (k : Ticket) (frame : Frame) : Prop :=
  ∃ r phase, s.HasHandled k (.newRequest r) (.ok phase) ∧ r.toFrame = .ok frame

/-- A sender carries the frame of its request, and announces that request. -/
def Carries : Stage → Prop
  | .seeking sending _ _ | .announcing sending | .transmitting sending _ =>
      sending.request.toFrame = .ok sending.frame
  | .announced sending p =>
      sending.request.toFrame = .ok sending.frame ∧ p.command = .newRequest sending.request
  | _ => True

/-- Each frame that was handed over belongs to a ticket of its own, and so does each frame that is about
to be. -/
structure Owned (s : System) (owners : List Ticket) (due : Nat → Option Ticket) : Prop where
  carries : ∀ (i : Nat) stage, s.callers[i]? = some stage → Carries stage
  handed : List.Forall₂ s.Deserves owners ((transmissions s.journal).map (·.1))
  nodup : owners.Nodup
  used : ∀ k ∈ owners, k < s.machine.mailbox.nextTicket
  owed : ∀ (i : Nat) sending phase, s.callers[i]? = some (.transmitting sending phase) →
    ∃ k, due i = some k ∧ s.Deserves k sending.frame
  given : ∀ i k, due i = some k → k ∉ owners ∧ k < s.machine.mailbox.nextTicket
  distinct : ∀ i j k, due i = some k → due j = some k → i = j
  /-- The ticket that a party still waits for belongs to no frame yet. -/
  pending : ∀ b p, s.pending? b = some p → p.ticket ∉ owners ∧ ∀ i, due i ≠ some p.ticket

variable {s s' s₁ : System} {a : Action} {owners : List Ticket} {due : Nat → Option Ticket}
  {k : Ticket} {frame : Frame} {stage stage' : Stage} {i : Nat}

theorem Deserves.of_step (h : s.Deserves k frame) (hs : s.step a = some s') :
    s'.Deserves k frame := by
  obtain ⟨r, phase, hh, hf⟩ := h
  exact ⟨r, phase, hh.of_step hs, hf⟩

/-- Whoever waits after a step has waited before, or has got the next ticket. -/
theorem pending?_of_step {b : Party} {p : Pending} (h : s.step a = some s')
    (hp : s'.pending? b = some p) :
    s.pending? b = some p ∨ p.ticket = s.machine.mailbox.nextTicket := by
  by_cases ha : a = .work
  · subst ha
    rw [pending?_of_work h] at hp
    exact .inl hp
  · cases deals_of_step ha h with
    | rests _ hp' | handsIn _ _ hp' => exact .inl (hp' ▸ hp)
    | @submits b' c q hb hm hp' =>
        rw [hp'] at hp
        by_cases hbb : b = b'
        · subst hbb
          rw [Function.update_self] at hp
          cases hp
          obtain ⟨-, rfl, -⟩ := Machine.submit_eq_ok hm
          exact .inr rfl
        · rw [Function.update_of_ne hbb] at hp
          exact .inl hp
    | @learns b' q reply hb hm hp' =>
        rw [hp'] at hp
        by_cases hbb : b = b'
        · subst hbb
          rw [Function.update_self] at hp
          cases hp
        · rw [Function.update_of_ne hbb] at hp
          exact .inl hp

theorem carries_of_seek {sending : Sending} (hc : sending.request.toFrame = .ok sending.frame)
    (h : s.seek sending = (stage, s')) : Carries stage := by
  obtain ⟨-, ⟨limit, giveUp, rfl⟩ | rfl⟩ := seek_cases h
  · exact hc
  · trivial

theorem carries_of_change {m : Except Fault (Machine Observer)} (h : s.change m = (stage, s')) :
    Carries stage := by
  cases m <;> cases h <;> trivial

theorem carries_of_command {c : Command} (h : s.command c = (stage, s')) : Carries stage := by
  rcases command_cases h with ⟨p, m, -, rfl, -⟩ | ⟨rfl, -⟩ <;> trivial

theorem carries_of_begin {call : Call} (h : s.begin call = (stage, s')) : Carries stage := by
  cases call with
  | send r =>
      simp only [begin] at h
      split at h
      · next frame hf => exact carries_of_seek hf h
      · cases h
        trivial
  | start | setTime => exact carries_of_change h
  | newRequest | confirmation | response | reset => exact carries_of_command h
  | receive frame receivedAt =>
      simp only [begin] at h
      split at h
      · exact carries_of_command h
      · cases h
        trivial
  | destroy | waitFree | drain =>
      simp only [begin] at h
      split at h <;> cases h <;> trivial
  | _ =>
      cases h
      trivial

theorem carries_of_advance (hc : Carries stage) (h : s.advance stage = some (stage', s₁)) :
    Carries stage' := by
  cases stage with
  | planned due call =>
      simp only [advance] at h
      split at h
      · exact carries_of_begin (Option.some.inj h)
      · cases h
  | seeking sending limit giveUp =>
      simp only [advance] at h
      split at h
      · cases h
        exact hc
      · cases h
        trivial
      · split at h <;> cases h
        trivial
  | announcing sending =>
      simp only [advance] at h
      split at h
      · next p m hm =>
          cases h
          obtain ⟨-, rfl, -⟩ := Machine.submit_eq_ok hm
          exact ⟨hc, rfl⟩
      · cases h
        trivial
  | announced sending p =>
      obtain ⟨⟨reply, m⟩, hp, hm⟩ := Option.map_eq_some_iff.1 h
      cases reply with
      | none =>
          cases hm
          exact hc
      | some reply =>
          dsimp only at hm
          unfold afterAnnouncement at hm
          split at hm
          · cases hm
            exact hc.1
          · split at hm
            · exact carries_of_seek hc.1 hm
            · cases hm
              trivial
  | transmitting sending phase =>
      have hm := Option.some.inj h
      unfold transmit at hm
      split at hm <;> cases hm <;> trivial
  | finished t answer => cases h
  | commanding p =>
      obtain ⟨⟨reply, m⟩, -, hm⟩ := Option.map_eq_some_iff.1 h
      cases reply <;> cases hm <;> trivial
  | sleeping due | joining giveUp =>
      simp only [advance] at h
      split at h <;> cases h
      trivial
  | waitingFree limit giveUp =>
      simp only [advance] at h
      split at h
      · cases h
        trivial
      · cases h
        trivial
      · split at h <;> cases h
        trivial
  | waitingPhase target giveUp =>
      simp only [advance] at h
      split at h
      · cases h
        trivial
      · split at h <;> cases h
        trivial

/-- How far a caller has got after a step: as far as before, or one step further; or it has just come. -/
theorem stage_of_step (h : s.step a = some s') (hi : s'.callers[i]? = some stage) :
    s.callers[i]? = some stage ∨ (∃ due call, stage = .planned due call) ∨
      (a = .resume i ∧ ∃ stage₀ s₁, s.callers[i]? = some stage₀ ∧
        s.advance stage₀ = some (stage, s₁) ∧
        s' = { s₁ with callers := s₁.callers.set i stage }) := by
  cases hi₀ : s.callers[i]? with
  | some stage₀ =>
      rcases caller_of_step hi₀ h with hi' | ⟨rfl, stage', s₁, hadv, hs', hi'⟩
      · exact .inl (hi'.symm.trans hi)
      · obtain rfl := Option.some.inj (hi'.symm.trans hi)
        exact .inr (.inr ⟨rfl, stage₀, s₁, rfl, hadv, hs'⟩)
  | none =>
      refine .inr (.inl ?_)
      have hle : s.callers.length ≤ i := List.getElem?_eq_none_iff.1 hi₀
      have hlt : i < s'.callers.length := (List.getElem?_eq_some_iff.1 hi).1
      cases a with
      | call due call =>
          cases h
          rw [List.getElem?_append_right hle] at hi
          rw [List.getElem?_singleton] at hi
          split at hi <;> cases hi
          exact ⟨due, call, rfl⟩
      | resume j =>
          obtain ⟨stage₀, stage', s₁, hj, ha, rfl⟩ := exists_advances_of_resume h
          rw [List.length_set, ha.callers] at hlt
          omega
      | work =>
          obtain ⟨⟨turn, m⟩, -, rfl⟩ := Option.map_eq_some_iff.1 h
          exact absurd hlt (Nat.not_lt.2 hle)
      | deliver =>
          have hc : s'.callers = s.callers := by
            cases pumps_of_deliver h with
            | plain _ _ _ hc => exact hc
            | _ => rfl
          rw [hc] at hlt
          omega
      | elapse t =>
          simp only [step] at h
          split at h <;> cases h
          exact absurd hlt (Nat.not_lt.2 hle)

/-- A party waits for no ticket that was given out, unless it did so before. -/
theorem unowned_of_step {owners : List Ticket} {due : Nat → Option Ticket} {b : Party} {p : Pending}
    (hs : s.step a = some s')
    (hlt : ∀ k, k ∈ owners ∨ (∃ i, due i = some k) → k < s.machine.mailbox.nextTicket)
    (hold : s.pending? b = some p → p.ticket ∉ owners ∧ ∀ i, due i ≠ some p.ticket)
    (hp : s'.pending? b = some p) : p.ticket ∉ owners ∧ ∀ i, due i ≠ some p.ticket := by
  rcases pending?_of_step hs hp with hp' | hp'
  · exact hold hp'
  · refine ⟨fun hk => ?_, fun i hi => ?_⟩
    · have hk := hlt _ (.inl hk)
      rw [hp'] at hk
      exact Nat.lt_irrefl _ hk
    · have hk := hlt _ (.inr ⟨i, hi⟩)
      rw [hp'] at hk
      exact Nat.lt_irrefl _ hk

theorem transmitting_of_ne {sending : Sending} {phase : Phase} {j : Nat} (hs : s.step a = some s')
    (ha : a ≠ .resume j) (hj : s'.callers[j]? = some (.transmitting sending phase)) :
    s.callers[j]? = some (.transmitting sending phase) := by
  rcases stage_of_step hs hj with hj | ⟨_, _, hj⟩ | ⟨hj, -⟩
  · exact hj
  · cases hj
  · exact absurd hj ha

theorem transmissions_of_ne (ha : ∀ i, a ≠ .resume i) (h : s.step a = some s') :
    transmissions s'.journal = transmissions s.journal := by
  cases a with
  | resume i => exact absurd rfl (ha i)
  | call due call =>
      cases h
      rfl
  | work =>
      obtain ⟨⟨turn, m⟩, -, rfl⟩ := Option.map_eq_some_iff.1 h
      simp [transmissions, record]
  | elapse t =>
      simp only [step] at h
      split at h <;> cases h
      rfl
  | deliver =>
      cases pumps_of_deliver h with
      | plain _ _ _ _ hj =>
          obtain ⟨l, hl, hall⟩ := hj
          have hnil : transmissions l = [] := by
            refine List.filterMap_eq_nil_iff.2 fun x hx => ?_
            obtain ⟨d, outcome, hx⟩ := hall x hx
            obtain ⟨now, e⟩ := x
            cases hx
            rfl
          rw [hl, transmissions, List.filterMap_append]
          exact (congrArg _ hnil).trans (List.append_nil _)
      | learns => simp [transmissions, record, handOver]
      | _ => rfl

namespace Owned

theorem carries_step (h : s.Owned owners due) (hs : s.step a = some s') (i : Nat) (stage : Stage)
    (hi : s'.callers[i]? = some stage) : Carries stage := by
  rcases stage_of_step hs hi with hi | ⟨_, _, rfl⟩ | ⟨-, stage₀, s₁, hi₀, hadv, -⟩
  · exact h.carries i stage hi
  · trivial
  · exact carries_of_advance (h.carries i stage₀ hi₀) hadv

theorem lt_nextTicket (h : s.Owned owners due) (hk : k ∈ owners ∨ ∃ i, due i = some k) :
    k < s.machine.mailbox.nextTicket := by
  rcases hk with hk | ⟨i, hi⟩
  · exact h.used k hk
  · exact (h.given i k hi).2

/-- The frames keep their owners as long as no more are handed over, and none is due that was not. -/
theorem keep (h : s.Owned owners due) (hs : s.step a = some s')
    (hj : transmissions s'.journal = transmissions s.journal)
    (howed : ∀ (i : Nat) sending phase, s'.callers[i]? = some (.transmitting sending phase) →
      s.callers[i]? = some (.transmitting sending phase)) : s'.Owned owners due := by
  have hnext := (onward_of_step hs).given
  constructor
  · exact h.carries_step hs
  · rw [hj]
    exact h.handed.imp fun k frame hk => hk.of_step hs
  · exact h.nodup
  · exact fun k hk => Nat.lt_of_lt_of_le (h.used k hk) hnext
  · intro i sending phase hi
    obtain ⟨k, hk, hd⟩ := h.owed i sending phase (howed i sending phase hi)
    exact ⟨k, hk, hd.of_step hs⟩
  · exact fun i k hk => ⟨(h.given i k hk).1, Nat.lt_of_lt_of_le (h.given i k hk).2 hnext⟩
  · exact h.distinct
  · exact fun b p hp => unowned_of_step hs (fun k hk => h.lt_nextTicket hk) (h.pending b p) hp

/-- An announcement was accepted: its ticket stands for the frame that is due. -/
theorem accept {sending : Sending} {phase : Phase} {p : Pending} (h : s.Owned owners due)
    (ht : s.Ticketed) (hi : s.callers[i]? = some (.announced sending p))
    (hs : s.step (.resume i) = some s') (hj : transmissions s'.journal = transmissions s.journal)
    (hi' : s'.callers[i]? = some (.transmitting sending phase))
    (hh : s.HasHandled p.ticket p.command (.ok phase)) :
    s'.Owned owners (Function.update due i (some p.ticket)) := by
  have hnext := (onward_of_step hs).given
  have hp : s.pending? (.caller i) = some p := pending?_caller hi
  have hlt := ht.pending _ p hp
  obtain ⟨hnew, hnew'⟩ := h.pending _ p hp
  obtain ⟨hf, hc⟩ := h.carries i _ hi
  have hdeserves : s'.Deserves p.ticket sending.frame :=
    ⟨_, phase, hc ▸ hh.of_step hs, hf⟩
  have hdue {j : Nat} {k : Ticket} (hk : Function.update due i (some p.ticket) j = some k) :
      (j = i ∧ k = p.ticket) ∨ (j ≠ i ∧ due j = some k) := by
    by_cases hji : j = i
    · subst hji
      rw [Function.update_self] at hk
      exact .inl ⟨rfl, (Option.some.inj hk).symm⟩
    · rw [Function.update_of_ne hji] at hk
      exact .inr ⟨hji, hk⟩
  constructor
  · exact h.carries_step hs
  · rw [hj]
    exact h.handed.imp fun k frame hk => hk.of_step hs
  · exact h.nodup
  · exact fun k hk => Nat.lt_of_lt_of_le (h.used k hk) hnext
  · intro j sending' phase' hj'
    by_cases hji : j = i
    · subst hji
      rw [hi'] at hj'
      cases hj'
      exact ⟨p.ticket, Function.update_self .., hdeserves⟩
    · have hj₀ := transmitting_of_ne hs (by simpa using Ne.symm hji) hj'
      obtain ⟨k, hk, hd⟩ := h.owed j sending' phase' hj₀
      exact ⟨k, by rw [Function.update_of_ne hji, hk], hd.of_step hs⟩
  · intro j k hk
    rcases hdue hk with ⟨-, rfl⟩ | ⟨-, hk⟩
    · exact ⟨hnew, Nat.lt_of_lt_of_le hlt hnext⟩
    · exact ⟨(h.given j k hk).1, Nat.lt_of_lt_of_le (h.given j k hk).2 hnext⟩
  · intro j j' k hk hk'
    rcases hdue hk with ⟨rfl, rfl⟩ | ⟨-, hj⟩ <;> rcases hdue hk' with ⟨rfl, heq⟩ | ⟨-, hj'⟩
    · rfl
    · exact absurd hj' (hnew' j')
    · exact absurd (heq ▸ hj) (hnew' j)
    · exact h.distinct j j' k hj hj'
  · intro b q hq
    refine unowned_of_step hs (fun k hk => ?_) (fun hq' => ?_) hq
    · rcases hk with hk | ⟨j, hk⟩
      · exact h.used k hk
      · rcases hdue hk with ⟨-, rfl⟩ | ⟨-, hk⟩
        · exact hlt
        · exact (h.given j k hk).2
    · obtain ⟨hq₁, hq₂⟩ := h.pending b q hq'
      refine ⟨hq₁, fun j hk => ?_⟩
      rcases hdue hk with ⟨-, hk⟩ | ⟨-, hk⟩
      · have hb := ht.distinct b _ q p hq' hp hk
        rw [hb, pending?_caller hi'] at hq
        cases hq
      · exact hq₂ j hk

/-- A frame that was due is handed over. -/
theorem handOver {sending : Sending} {phase : Phase} {outcome : Except Fault Unit}
    (h : s.Owned owners due) (hi : s.callers[i]? = some (.transmitting sending phase))
    (hs : s.step (.resume i) = some s')
    (hj : transmissions s'.journal = transmissions s.journal ++ [(sending.frame, outcome)])
    (hi' : ∀ sending phase, s'.callers[i]? ≠ some (.transmitting sending phase)) :
    ∃ k, s'.Owned (owners ++ [k]) (Function.update due i none) := by
  have hnext := (onward_of_step hs).given
  obtain ⟨k, hk, hd⟩ := h.owed i sending phase hi
  obtain ⟨hkn, hklt⟩ := h.given i k hk
  have hdue {j : Nat} {k' : Ticket} (hk' : Function.update due i none j = some k') :
      due j = some k' ∧ k' ≠ k := by
    by_cases hji : j = i
    · subst hji
      rw [Function.update_self] at hk'
      cases hk'
    · rw [Function.update_of_ne hji] at hk'
      refine ⟨hk', ?_⟩
      rintro rfl
      exact hji (h.distinct j i k' hk' hk)
  refine ⟨k, ?_⟩
  constructor
  · exact h.carries_step hs
  · rw [hj, List.map_append]
    exact List.rel_append (h.handed.imp fun k frame hk => hk.of_step hs)
      (.cons (hd.of_step hs) .nil)
  · simpa [List.nodup_append] using ⟨h.nodup, fun k' hk' => fun heq => hkn (heq ▸ hk')⟩
  · intro k' hk'
    rcases List.mem_append.1 hk' with hk' | hk'
    · exact Nat.lt_of_lt_of_le (h.used k' hk') hnext
    · rw [List.mem_singleton.1 hk']
      exact Nat.lt_of_lt_of_le hklt hnext
  · intro j sending' phase' hj'
    have hji : j ≠ i := by
      rintro rfl
      exact hi' sending' phase' hj'
    have hj₀ := transmitting_of_ne hs (by simpa using Ne.symm hji) hj'
    obtain ⟨k', hk', hd'⟩ := h.owed j sending' phase' hj₀
    exact ⟨k', by rw [Function.update_of_ne hji, hk'], hd'.of_step hs⟩
  · intro j k' hk'
    obtain ⟨hk', hne⟩ := hdue hk'
    obtain ⟨hn, hlt⟩ := h.given j k' hk'
    refine ⟨fun hm => ?_, Nat.lt_of_lt_of_le hlt hnext⟩
    rcases List.mem_append.1 hm with hm | hm
    · exact hn hm
    · exact hne (List.mem_singleton.1 hm)
  · exact fun j j' k' hk' hk'' => h.distinct j j' k' (hdue hk').1 (hdue hk'').1
  · intro b q hq
    refine unowned_of_step hs (fun k' hk' => ?_) (fun hq' => ?_) hq
    · rcases hk' with hk' | ⟨j, hk'⟩
      · rcases List.mem_append.1 hk' with hk' | hk'
        · exact h.used k' hk'
        · rw [List.mem_singleton.1 hk']
          exact hklt
      · exact (h.given j k' (hdue hk').1).2
    · obtain ⟨hq₁, hq₂⟩ := h.pending b q hq'
      refine ⟨fun hm => ?_, fun j hk' => hq₂ j (hdue hk').1⟩
      rcases List.mem_append.1 hm with hm | hm
      · exact hq₁ hm
      · rw [← List.mem_singleton.1 hm] at hk
        exact hq₂ i hk

/-- A step of a caller that neither makes its frame due nor hands it over. -/
theorem pass_by (h : s.Owned owners due) (hs : s.step (.resume i) = some s')
    (hj : transmissions s'.journal = transmissions s.journal)
    (hi' : ∀ sending phase, s'.callers[i]? ≠ some (.transmitting sending phase)) :
    s'.Owned owners due := by
  refine h.keep hs hj fun j sending phase hj' => ?_
  by_cases hji : j = i
  · subst hji
    exact absurd hj' (hi' sending phase)
  · exact transmitting_of_ne hs (by simpa using Ne.symm hji) hj'

theorem of_resume (h : s.Owned owners due) (ht : s.Ticketed) (hs : s.step (.resume i) = some s') :
    ∃ owners due, s'.Owned owners due := by
  obtain ⟨stage, stage', s₁, hi, ha, rfl⟩ := exists_advances_of_resume hs
  have hlt : i < s₁.callers.length := by
    rw [ha.callers]
    exact (List.getElem?_eq_some_iff.1 hi).1
  have hi' : (s₁.callers.set i stage')[i]? = some stage' := List.getElem?_set_self hlt
  have hp : s.pending? (.caller i) = stage.pending? := pending?_caller hi
  have hplain (hne : ∀ sending phase, stage' ≠ .transmitting sending phase)
      (hj : transmissions s₁.journal = transmissions s.journal) :
      ∃ owners due, Owned { s₁ with callers := s₁.callers.set i stage' } owners due := by
    refine ⟨owners, due, h.pass_by hs hj fun sending phase hst => ?_⟩
    rw [hi'] at hst
    exact hne sending phase (Option.some.inj hst)
  cases ha with
  | plain _ hpl hq => exact hplain (by rintro _ _ rfl; cases hpl) (by rw [hq.journal])
  | commands => exact hplain (by simp) rfl
  | drains => exact hplain (by simp) (by simp [transmissions, record])
  | announces => exact hplain (by simp) rfl
  | handsIn hp => exact hplain (by rintro _ _ rfl; cases hp) rfl
  | replied => exact hplain (by simp) rfl
  | declined _ hs' =>
      refine hplain ?_ rfl
      rcases hs' with ⟨limit, giveUp, rfl⟩ | ⟨fault, rfl⟩ <;> simp
  | accepted hpursue =>
      exact ⟨_, _, h.accept ht hi hs rfl hi' (hasHandled_of_pursue ht hp hpursue)⟩
  | transmits sending phase outcome =>
      have hj : transmissions (s.record (.transmitted sending.frame outcome)).journal =
          transmissions s.journal ++ [(sending.frame, outcome)] := by
        simp [transmissions, record]
      obtain ⟨k, hk⟩ := h.handOver hi hs hj (by simp [hi'])
      exact ⟨_, _, hk⟩

theorem of_step (h : s.Owned owners due) (ht : s.Ticketed) (hs : s.step a = some s') :
    ∃ owners due, s'.Owned owners due := by
  by_cases ha : ∃ i, a = .resume i
  · obtain ⟨i, rfl⟩ := ha
    exact h.of_resume ht hs
  · have hne : ∀ i, a ≠ .resume i := fun i hi => ha ⟨i, hi⟩
    exact ⟨owners, due, h.keep hs (transmissions_of_ne hne hs) fun i sending phase hi =>
      transmitting_of_ne hs (hne i) hi⟩

end Owned

theorem exists_owned_of_assemble {setup : Setup} (h : setup.assemble = .ok s) :
    s.Owned [] fun _ => none := by
  obtain ⟨timing, status, listener, sendWait, resident, observers, -, hs, rfl⟩ :=
    exists_of_assemble h
  constructor <;> simp [transmissions]

theorem Reachable.exists_owned (h : s.Reachable) : ∃ owners due, s.Owned owners due :=
  h.induct (P := fun s => ∃ owners due, s.Owned owners due)
    (fun _ _ hs => ⟨_, _, exists_owned_of_assemble hs⟩)
    fun _ _ _ hr ⟨_, _, h⟩ hs => h.of_step hr.ticketed hs

end Owning

section Announcing

variable {s s' : System} {as : List Action}

/-- **Only announced frames leave, and one for each announcement**: a sender hands over its frame once if
its last announcement was accepted, and else never; the frames that left belong to accepted requests of
their own; and between two of these the channel was freed, of which the listener was told. -/
theorem announced_of_steps (hs : s.Reachable) (has : s.steps as = some s') :
    (∀ (i : Nat) due r t answer, s.callers[i]? = some (.planned due (.send r)) →
      s'.callers[i]? = some (.finished t answer) → s.Sends as i r answer) ∧
    (∃ owners : List Ticket, owners.Nodup ∧
      List.Forall₂ s'.Deserves owners ((transmissions s'.journal).map (·.1))) ∧
    (∀ l₁ x l₂ y l₃, s.gather transitions as = l₁ ++ x :: l₂ ++ y :: l₃ → x.opens = true →
      y.opens = true → l₂.countP Transition.frees = l₂.countP Transition.opens + 1) ∧
    ∀ x ∈ s.gather transitions as, x.frees = true →
      x.turn.notified = x.listener.map fun o => (o, .freeForSend) := by
  have hruns := runs_of_steps hs has
  obtain ⟨owners, due, howned⟩ := (hs.steps has).exists_owned
  refine ⟨?_, ⟨owners, howned.nodup, howned.handed⟩, ?_, ?_⟩
  · intro i due r t answer hi ha
    exact sends_of_finished hs hi has ha
  · intro l₁ x l₂ y l₃ hl hx hy
    rw [hl] at hruns
    exact hruns.countP_between hx hy
  · intro x hx hf
    exact hruns.notified_eq hx hf

/-- Two senders see the channel free; the second of them has to wait until it is free again. -/
theorem announced_of_steps_of_contention :
    ∃ s s' : System, ∃ as : List Action, s.Reachable ∧ s.steps as = some s' ∧
      (transmissions s'.journal).map (·.2) = [.ok (), .ok ()] ∧
      (∀ (i : Nat) due r t answer, s.callers[i]? = some (.planned due (.send r)) →
        s'.callers[i]? = some (.finished t answer) → s.Sends as i r answer) ∧
      (∃ owners : List Ticket, owners.Nodup ∧
        List.Forall₂ s'.Deserves owners ((transmissions s'.journal).map (·.1))) ∧
      (∀ l₁ x l₂ y l₃, s.gather transitions as = l₁ ++ x :: l₂ ++ y :: l₃ → x.opens = true →
        y.opens = true → l₂.countP Transition.frees = l₂.countP Transition.opens + 1) ∧
      ∀ x ∈ s.gather transitions as, x.frees = true →
        x.turn.notified = x.listener.map fun o => (o, .freeForSend) := by
  obtain ⟨s₀, as₀, as, hs₀, hrun⟩ : ∃ s₀ as₀ as, Setup.assemble {} = .ok s₀ ∧
      ((s₀.steps as₀).any fun s => (s.steps as).any fun s' =>
        (transmissions s'.journal).map (·.2) = [.ok (), .ok ()]) = true :=
    ⟨_, [.call 0 (.start true), .resume 0, .call 0 (.send ⟨.coordinator, 0, 0, 0, []⟩),
        .call 0 (.send ⟨.node 1, 0, 0, 0, []⟩), .call 0 .reset],
      [.resume 1, .resume 2, .resume 1, .resume 2, .resume 1, .resume 2, .work, .resume 1, .resume 1,
        .resume 2, .work, .resume 2, .elapse (Duration.millis 5000), .work, .resume 3, .work,
        .resume 2, .resume 2, .work, .resume 2, .resume 2], rfl, by decide +kernel⟩
  obtain ⟨s, hs, hrun⟩ := (Option.any_eq_true _ _).1 hrun
  obtain ⟨s', hs', hrun⟩ := (Option.any_eq_true _ _).1 hrun
  have hr : s.Reachable := ⟨{}, s₀, as₀, hs₀, hs⟩
  exact ⟨s, s', as, hr, hs', of_decide_eq_true hrun, announced_of_steps hr hs'⟩

end Announcing

end System
end MeshExchange
