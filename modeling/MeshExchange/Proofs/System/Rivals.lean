import MeshExchange.Proofs.System.Announcements

/-!
# Rival senders

A sender sees the channel free and announces its request, which another sender may have done before. It is
then refused and tries again. Nobody loses the channel for nothing: between the moment at which a sender saw
it free and the refusal, the worker has accepted the request of somebody else.

**Input.** A sender that has begun to wait for the channel, and any run from then on.

**Method.** What was published as free can only be taken by a request that the worker accepts, since the
published phase is that of its tracker. The last sighting of the sender is carried along the run, with the
requests that were accepted since.

**Results.**
* `System.sights`, `System.retries`, `System.rivals`: what is noted about a sender along a run;
* `System.Loops`, `System.loops_of_announced`: the steps of a sender;
* `System.Sighting`, `System.Sighting.paid`: a refusal is paid for by a rival;
* `System.TriesAgain`, `System.exists_triesAgain`: how often a sender has tried again.
-/

namespace MeshExchange

/-- The ticket of the request that is accepted in a pass. -/
def Transition.opener? (x : Transition) : Option Ticket :=
  match x.turn.deed with
  | .handled k (.newRequest _) (.ok _) => some k
  | _ => none

theorem Transition.opener?_eq_some_iff {x : Transition} {k : Ticket} :
    x.opener? = some k ↔ ∃ r phase, x.turn.deed = .handled k (.newRequest r) (.ok phase) := by
  unfold opener?
  split
  · next hd => simp [hd]
  · next hd =>
      refine ⟨fun h => (nomatch h), fun ⟨r, phase, h⟩ => absurd h (hd k r phase)⟩

theorem Transition.exists_opener? {x : Transition} (h : x.opens = true) : ∃ k, x.opener? = some k := by
  unfold opens at h
  split at h
  · next hd => exact ⟨_, opener?_eq_some_iff.2 ⟨_, _, hd⟩⟩
  · cases h

/-- Whether the request under a ticket takes the channel from a sender: it is not the sender's own. -/
def Stage.isRivalled (k : Ticket) : Stage → Bool
  | .seeking _ _ _ | .announcing _ => true
  | .announced _ p => p.ticket ≠ k
  | _ => false

/-- Whether a sender has left its loop. -/
def Stage.isThroughLoop : Stage → Bool
  | .transmitting _ _ | .finished _ _ => true
  | _ => false

namespace System

section Noting

/-- The requests that are accepted. -/
def openers (s : System) (a : Action) (s' : System) : List Ticket :=
  (s.transitions a s').filterMap Transition.opener?

/-- The requests of others that are accepted while a sender tries to get the channel. -/
def rivals (i : Nat) (s : System) (a : Action) (s' : System) : List Ticket :=
  (s.openers a s').filter fun k => s.callers[i]?.any (Stage.isRivalled k)

/-- A sender has waited for the channel and sees it free. -/
def sights (i : Nat) (s : System) (_ : Action) (s' : System) : List Phase :=
  match s.callers[i]?, s'.callers[i]? with
  | some (.seeking _ _ _), some (.announcing _) => [s.machine.phase]
  | _, _ => []

/-- A sender announces its request. -/
def announces (i : Nat) (s : System) (_ : Action) (s' : System) : List Ticket :=
  match s.callers[i]?, s'.callers[i]? with
  | some (.announcing _), some (.announced _ p) => [p.ticket]
  | _, _ => []

/-- A sender was refused and waits for the channel again. -/
def retries (i : Nat) (s : System) (_ : Action) (s' : System) : List Instant :=
  match s.callers[i]?, s'.callers[i]? with
  | some (.announced _ _), some (.seeking _ _ _) => [s.now]
  | _, _ => []

variable {s s' : System} {a : Action} {as : List Action} {i : Nat} {stage : Stage} {k : Ticket}

/-- What is noted about a sender depends on how far it has got. -/
theorem eq_nil_of_still (hi : s.callers[i]? = some stage) (hi' : s'.callers[i]? = some stage) :
    s.sights i a s' = [] ∧ s.announces i a s' = [] ∧ s.retries i a s' = [] := by
  cases stage <;> simp [sights, announces, retries, hi, hi']

theorem openers_of_ne (ha : a ≠ .work) (h : s.step a = some s') : s.openers a s' = [] := by
  rw [openers, transitions_of_spares (step_spares ha h)]
  rfl

theorem rivals_of_ne (ha : a ≠ .work) (h : s.step a = some s') : s.rivals i a s' = [] := by
  rw [rivals, openers_of_ne ha h]
  rfl

theorem mem_openers_of_worksTo {turn : Turn Observer} (hw : s.WorksTo turn s') :
    k ∈ s.openers a s' ↔ ∃ r phase, turn.deed = .handled k (.newRequest r) (.ok phase) := by
  rw [openers, transitions_of_worksTo hw, List.mem_filterMap]
  simp only [List.mem_singleton, exists_eq_left]
  exact Transition.opener?_eq_some_iff

/-- A request that was accepted was handled. -/
theorem hasHandled_of_openers (h : s.step a = some s') (hk : k ∈ s.openers a s') :
    ∃ r phase, s'.HasHandled k (.newRequest r) (.ok phase) := by
  by_cases ha : a = .work
  · subst ha
    obtain ⟨turn, hw⟩ := worksTo_of_work h
    obtain ⟨r, phase, hd⟩ := (mem_openers_of_worksTo hw).1 hk
    exact ⟨r, phase, (hasHandled_of_worksTo hw).2 (.inr hd)⟩
  · rw [openers_of_ne ha h] at hk
    cases hk

theorem hasHandled_of_gather (h : s.steps as = some s') (hk : k ∈ s.gather openers as) :
    ∃ r phase, s'.HasHandled k (.newRequest r) (.ok phase) := by
  induction as generalizing s with
  | nil => cases hk
  | cons a as ih =>
      obtain ⟨s₁, h₁, h⟩ := steps_cons_iff.1 h
      rw [gather_cons h₁] at hk
      rcases List.mem_append.1 hk with hk | hk
      · obtain ⟨r, phase, hh⟩ := hasHandled_of_openers h₁ hk
        exact ⟨r, phase, hh.of_steps h⟩
      · exact ih h hk

end Noting

section Looping

/-- The steps of a sender that tries to get the channel. -/
inductive Loops (s : System) : Stage → Stage → System → Prop
  | sees {sending : Sending} {limit : Duration} {giveUp : Instant}
      (hp : s.machine.phase = .freeForSend) :
      Loops s (.seeking sending limit giveUp) (.announcing sending) s
  | submits {sending : Sending} {p : Pending} {m : Machine Observer}
      (h : s.machine.submit (.newRequest sending.request) s.now = .ok (p, m)) :
      Loops s (.announcing sending) (.announced sending p) { s with machine := m }
  | handsIn {sending : Sending} {p : Pending} {mailbox : Mailbox}
      (h : s.machine.mailbox.handIn? p.ticket = some mailbox) :
      Loops s (.announced sending p) (.announced sending p)
        { s with machine := { s.machine with mailbox } }
  | retries {sending : Sending} {p : Pending} {fault : Fault} {m : Machine Observer}
      {limit : Duration} {giveUp : Instant}
      (h : s.machine.pursue p s.now = some (some (.error fault), m))
      (hf : fault.isContractViolation = true) (hd : s.now < sending.deadline) :
      Loops s (.announced sending p) (.seeking sending limit giveUp) { s with machine := m }
  | wins {sending : Sending} {p : Pending} {phase : Phase} {m : Machine Observer}
      (h : s.machine.pursue p s.now = some (some (.ok phase), m)) :
      Loops s (.announced sending p) (.transmitting sending phase) { s with machine := m }
  | ends {stage : Stage} {t : Instant} {answer : Answer} {s' : System} :
      Loops s stage (.finished t answer) s'

variable {s s₁ : System} {stage stage' : Stage} {sending : Sending}

theorem loops_of_seeking {limit : Duration} {giveUp : Instant}
    (h : s.advance (.seeking sending limit giveUp) = some (stage', s₁)) :
    s.Loops (.seeking sending limit giveUp) stage' s₁ := by
  simp only [advance] at h
  split at h
  · next hw =>
      cases h
      refine .sees ?_
      unfold Machine.watch at hw
      split at hw
      · assumption
      · split at hw <;> cases hw
  · cases h
    exact .ends
  · split at h <;> cases h
    exact .ends

theorem loops_of_announcing (h : s.advance (.announcing sending) = some (stage', s₁)) :
    s.Loops (.announcing sending) stage' s₁ := by
  simp only [advance] at h
  split at h
  · next p m hm =>
      cases h
      exact .submits hm
  · cases h
    exact .ends

theorem loops_of_announced {p : Pending} (h : s.advance (.announced sending p) = some (stage', s₁)) :
    s.Loops (.announced sending p) stage' s₁ := by
  obtain ⟨⟨reply, m⟩, hp, hm⟩ := Option.map_eq_some_iff.1 h
  cases reply with
  | none =>
      cases hm
      cases Machine.pursues_of_pursue hp with
      | handsIn hb => exact .handsIn hb
  | some reply =>
      cases reply with
      | ok phase =>
          cases hm
          exact .wins hp
      | error fault =>
          simp only [afterAnnouncement] at hm
          split at hm
          · next hf =>
              obtain ⟨rfl, ⟨limit, giveUp, rfl⟩ | rfl⟩ := seek_cases hm
              · exact .retries hp hf.1 hf.2
              · exact .ends
          · cases hm
            exact .ends

/-- A sender that is through its loop ends its call with its next step. -/
theorem finishes_of_isThroughLoop (ht : stage.isThroughLoop = true)
    (h : s.advance stage = some (stage', s₁)) :
    (∃ sending phase, stage = .transmitting sending phase) ∧
      ∃ t answer, stage' = .finished t answer := by
  cases stage with
  | transmitting sending phase =>
      refine ⟨⟨sending, phase, rfl⟩, ?_⟩
      cases advances_of_advance h with
      | plain hs => cases hs
      | handsIn hp => cases hp
      | transmits => exact ⟨_, _, rfl⟩
  | finished => cases h
  | _ => cases ht

end Looping

section Sighting

variable {s x y : System} {as : List Action} {a : Action} {i : Nat} {k? : Option Ticket}
  {l₁ l₂ : List Action} {u v : System}

/-- A sender's last sighting of a free channel, in a run cut there, and what has happened since. The
request that it has announced since, if any, is no rival to itself. -/
structure Sighting (s : System) (i : Nat) (as : List Action) (x : System) (k? : Option Ticket)
    (l₁ l₂ : List Action) (u v : System) : Prop where
  cut : as = l₁ ++ .resume i :: l₂
  before : s.steps l₁ = some u
  step : u.step (.resume i) = some v
  after : v.steps l₂ = some x
  sees : u.sights i (.resume i) v = [.freeForSend]
  last : v.gather (sights i) l₂ = []
  rivals : v.gather (rivals i) l₂ = (v.gather openers l₂).filter fun k => k? ≠ some k
  fresh : ∀ k, k? = some k → v.machine.mailbox.nextTicket ≤ k

/-- The sender has just seen the channel free. -/
theorem Sighting.begins (hx : s.steps as = some x) (ha : x.step (.resume i) = some y)
    (hs : x.sights i (.resume i) y = [.freeForSend]) :
    Sighting s i (as ++ [.resume i]) y none as [] x y :=
  ⟨rfl, hx, ha, rfl, hs, rfl, rfl, nofun⟩

/-- Up to an action at which the sender gets on at most to its announcement. -/
theorem Sighting.concat (h : Sighting s i as x k? l₁ l₂ u v) (ha : x.step a = some y)
    (hs : x.sights i a y = [])
    (hr : x.rivals i a y = (x.openers a y).filter fun k => k? ≠ some k) :
    Sighting s i (as ++ [a]) y k? l₁ (l₂ ++ [a]) u v where
  cut := by rw [h.cut, List.append_assoc, List.cons_append]
  before := h.before
  step := h.step
  after := steps_concat_iff.2 ⟨x, h.after, ha⟩
  sees := h.sees
  last := by rw [gather_concat h.after ha, h.last, hs, List.append_nil]
  rivals := by
    rw [gather_concat h.after ha, gather_concat h.after ha, h.rivals, hr, List.filter_append]
  fresh := h.fresh

/-- The sender announces its request, under a ticket that nothing was accepted under so far. -/
theorem Sighting.announce {k : Ticket} (hv : v.Reachable) (h : Sighting s i as x none l₁ l₂ u v)
    (hk : k = x.machine.mailbox.nextTicket) : Sighting s i as x (some k) l₁ l₂ u v where
  cut := h.cut
  before := h.before
  step := h.step
  after := h.after
  sees := h.sees
  last := h.last
  rivals := by
    rw [h.rivals]
    refine List.filter_congr fun k' hk' => ?_
    obtain ⟨r, phase, hh⟩ := hasHandled_of_gather h.after hk'
    have hlt := (hv.steps h.after).ticketed.fresh _
      (List.mem_append_right _ (mem_tickets_iff.2 ⟨_, _, hh⟩))
    have hne : k ≠ k' := by
      rw [hk]
      exact (Nat.ne_of_lt hlt).symm
    simp [hne]
  fresh := by
    rintro k' hk'
    rw [← Option.some.inj hk', hk]
    exact nextTicket_le_of_steps h.after

/-- A channel that was free and is not any more was taken by a request that was accepted. -/
theorem exists_opener (hs : s.Reachable) (h : s.steps as = some x)
    (hp : s.machine.phase = .freeForSend) (hp' : x.machine.phase ≠ .freeForSend) :
    ∃ k, k ∈ s.gather openers as := by
  have hcount := (runs_of_steps hs h).countP_frees
  rw [hp, Phase.openCount, if_pos rfl, Phase.openCount, if_neg hp'] at hcount
  have hpos : 0 < (s.gather transitions as).countP Transition.opens := by omega
  obtain ⟨z, hz, hopens⟩ := List.countP_pos_iff.1 hpos
  obtain ⟨k, hk⟩ := Transition.exists_opener? hopens
  refine ⟨k, ?_⟩
  rw [show (openers : System → Action → System → List Ticket) =
    fun s a s' => (s.transitions a s').filterMap Transition.opener? from rfl, gather_filterMap]
  exact List.mem_filterMap.2 ⟨z, hz, hk⟩

/-- **A refusal is paid for by a rival**: since the sender saw the channel free, somebody else's request
was accepted. -/
theorem Sighting.rivals_ne_nil {k : Ticket} {r : Request} {fault : Fault} (hv : v.Reachable)
    (h : Sighting s i as x (some k) l₁ l₂ u v)
    (hh : x.HasHandled k (.newRequest r) (.error fault)) : v.gather (System.rivals i) l₂ ≠ [] := by
  obtain ⟨⟨t, turn⟩, hx, hd⟩ := hh
  -- the request was handled after the sighting, since its ticket was given out after it
  have hnew : (t, turn) ∉ passes v.journal := by
    intro hv'
    have hlt := hv.ticketed.fresh k
      (List.mem_append_right _ (mem_tickets_iff.2 ⟨_, _, _, hv', hd⟩))
    exact Nat.lt_irrefl _ (Nat.lt_of_lt_of_le hlt (h.fresh k rfl))
  obtain ⟨before, after, y, z, hcut, hy, -, -, rfl, hw⟩ := exists_work_of_passes h.after hx hnew
  obtain ⟨deed, heard⟩ := turn
  cases hd
  -- there the channel was not free any more
  have hbusy : y.machine.phase ≠ .freeForSend := by
    have hf := hw.machine.of_refused.1
    rw [← (hv.steps hy).sound.phase] at hf
    intro hfree
    rw [Phase.refusal?_newRequest_eq_none.2 hfree] at hf
    cases hf
  have hfree : v.machine.phase = .freeForSend := by
    rw [(step_spares (by simp) h.step).machine.phase]
    have hsees := h.sees
    unfold sights at hsees
    split at hsees
    · exact (List.cons.inj hsees).1
    · cases hsees
  obtain ⟨k', hk'⟩ := exists_opener hv hy hfree hbusy
  have hmem : k' ∈ v.gather openers l₂ := by
    rw [hcut, gather_append hy]
    exact List.mem_append_left _ hk'
  have hne : k ≠ k' := by
    rintro rfl
    obtain ⟨r', phase, hh'⟩ := hasHandled_of_gather h.after hmem
    have hreply := (hv.steps h.after).ticketed.reply_unique ⟨_, hx, rfl⟩ hh'
    cases hreply
  refine List.ne_nil_of_mem (a := k') ?_
  rw [h.rivals]
  exact List.mem_filter.2 ⟨hmem, by simp [hne]⟩

theorem Sighting.length_rivals (h : Sighting s i as x k? l₁ l₂ u v) :
    (s.gather (System.rivals i) as).length =
      (s.gather (System.rivals i) l₁).length + (v.gather (System.rivals i) l₂).length := by
  rw [h.cut, gather_append h.before, gather_cons h.step, rivals_of_ne (by simp) h.step]
  simp

end Sighting

section Retrying

/-- How far a sender has got, and how often it has tried again: not more often than rivals took the channel
before its last sighting. -/
inductive TriesAgain (s : System) (i : Nat) (deadline : Instant) (as : List Action) (x : System) :
    Stage → Prop
  | seeking {sending : Sending} {limit : Duration} {giveUp : Instant}
      (hd : sending.deadline = deadline)
      (hr : (s.gather (retries i) as).length ≤ (s.gather (rivals i) as).length) :
      TriesAgain s i deadline as x (.seeking sending limit giveUp)
  | announcing {sending : Sending} {l₁ l₂ : List Action} {u v : System}
      (hd : sending.deadline = deadline) (h : Sighting s i as x none l₁ l₂ u v)
      (hr : (s.gather (retries i) as).length ≤ (s.gather (rivals i) l₁).length) :
      TriesAgain s i deadline as x (.announcing sending)
  | announced {sending : Sending} {p : Pending} {l₁ l₂ : List Action} {u v : System}
      (hd : sending.deadline = deadline) (hc : p.command = .newRequest sending.request)
      (h : Sighting s i as x (some p.ticket) l₁ l₂ u v)
      (hr : (s.gather (retries i) as).length ≤ (s.gather (rivals i) l₁).length) :
      TriesAgain s i deadline as x (.announced sending p)
  | through {stage : Stage} (ht : stage.isThroughLoop = true)
      (hr : (s.gather (retries i) as).length ≤ (s.gather (rivals i) as).length) :
      TriesAgain s i deadline as x stage

variable {s x y s₁ : System} {as : List Action} {a : Action} {i : Nat} {deadline : Instant}
  {stage stage' : Stage}

/-- Whatever happened, a sender has tried again at most as often as rivals took the channel. -/
theorem TriesAgain.retries_le (h : TriesAgain s i deadline as x stage) :
    (s.gather (retries i) as).length ≤ (s.gather (rivals i) as).length := by
  cases h with
  | seeking _ hr => exact hr
  | announcing _ h hr =>
      rw [h.length_rivals]
      exact Nat.le_add_right_of_le hr
  | announced _ _ h hr =>
      rw [h.length_rivals]
      exact Nat.le_add_right_of_le hr
  | through _ hr => exact hr

theorem length_gather_le (hx : s.steps as = some x) (ha : x.step a = some y) :
    (s.gather (rivals i) as).length ≤ (s.gather (rivals i) (as ++ [a])).length := by
  rw [gather_concat hx ha, List.length_append]
  exact Nat.le_add_right _ _

/-- A sender leaves its loop. -/
theorem TriesAgain.leavesLoop (h : TriesAgain s i deadline as x stage) (hx : s.steps as = some x)
    (ha : x.step a = some y) (hr : x.retries i a y = []) (ht : stage'.isThroughLoop = true) :
    TriesAgain s i deadline (as ++ [a]) y stage' := by
  refine .through ht ?_
  rw [gather_concat_of_eq_nil hx ha hr]
  exact Nat.le_trans h.retries_le (length_gather_le hx ha)

/-- As long as the sender gets no further, its sighting stays the last. -/
theorem TriesAgain.concat (h : TriesAgain s i deadline as x stage) (hx : s.steps as = some x)
    (hi : x.callers[i]? = some stage) (ha : x.step a = some y)
    (hi' : y.callers[i]? = some stage) : TriesAgain s i deadline (as ++ [a]) y stage := by
  obtain ⟨hsights, -, hretries⟩ := eq_nil_of_still (a := a) hi hi'
  have hsame := gather_concat_of_eq_nil hx ha hretries
  have hgrown := length_gather_le (i := i) hx ha
  cases h with
  | seeking hd hr => exact .seeking hd (hsame ▸ Nat.le_trans hr hgrown)
  | announcing hd h hr =>
      exact .announcing hd (h.concat ha hsights (by simp [rivals, hi, Stage.isRivalled])) (hsame ▸ hr)
  | announced hd hc h hr =>
      exact .announced hd hc (h.concat ha hsights (by simp [rivals, hi, Stage.isRivalled]))
        (hsame ▸ hr)
  | through ht hr => exact .through ht (hsame ▸ Nat.le_trans hr hgrown)

/-- A request that is refused for the phase was handled. -/
theorem hasHandled_of_violation {b : Party} {p : Pending} {fault : Fault} {m : Machine Observer}
    (ht : x.Ticketed) (hx : x.pending? b = some p) (hf : fault.isContractViolation = true)
    (hp : x.machine.pursue p x.now = some (some (.error fault), m)) :
    x.HasHandled p.ticket p.command (.error fault) := by
  generalize hreply : some (Except.error fault : Reply) = reply? at hp
  cases Machine.pursues_of_pursue hp with
  | handsIn => cases hreply
  | learns hr =>
      cases hreply
      obtain ⟨c, hh⟩ := ht.replies _ _ hr
      rw [← (ht.told b p c _ hx hh).1]
      exact hh
  | lost =>
      cases hreply
      cases hf
  | givesUp =>
      cases hreply
      cases hf

/-- A sender that is refused for the phase has lost the channel to a rival. -/
theorem Sighting.paid {sending : Sending} {p : Pending} {r : Request} {fault : Fault}
    {m : Machine Observer} {l₁ l₂ : List Action} {u v : System}
    (h : Sighting s i as x (some p.ticket) l₁ l₂ u v) (hs : s.Reachable) (hx : s.steps as = some x)
    (hi : x.callers[i]? = some (.announced sending p)) (hc : p.command = .newRequest r)
    (hf : fault.isContractViolation = true)
    (hp : x.machine.pursue p x.now = some (some (.error fault), m)) :
    v.gather (System.rivals i) l₂ ≠ [] := by
  have hh := hasHandled_of_violation (hs.steps hx).ticketed (pending?_caller hi) hf hp
  rw [hc] at hh
  exact h.rivals_ne_nil ((hs.steps h.before).step h.step) hh

/-- The sender waits for the channel again: it has tried once more and had one more rival. -/
theorem Sighting.retry {sending : Sending} {k : Ticket} {l₁ l₂ : List Action} {u v : System}
    {limit : Duration} {giveUp : Instant} (h : Sighting s i as x (some k) l₁ l₂ u v)
    (hne : v.gather (System.rivals i) l₂ ≠ []) (hd : sending.deadline = deadline)
    (hr : (s.gather (retries i) as).length ≤ (s.gather (System.rivals i) l₁).length)
    (hx : s.steps as = some x) (ha : x.step (.resume i) = some y)
    (hone : x.retries i (.resume i) y = [x.now]) :
    TriesAgain s i deadline (as ++ [.resume i]) y (.seeking sending limit giveUp) := by
  refine .seeking hd ?_
  have hpaid := List.length_pos_of_ne_nil hne
  rw [gather_concat hx ha, hone, gather_concat_of_eq_nil hx ha (rivals_of_ne (by simp) ha),
    h.length_rivals, List.length_append, List.length_singleton]
  omega

/-- One step of a sender. -/
theorem TriesAgain.resume (h : TriesAgain s i deadline as x stage) (hs : s.Reachable)
    (hx : s.steps as = some x) (hi : x.callers[i]? = some stage) (hadv : x.advance stage = some (stage', s₁))
    (ha : x.step (.resume i) = some y) (hi' : y.callers[i]? = some stage') :
    TriesAgain s i deadline (as ++ [.resume i]) y stage' ∧
      ∀ t ∈ x.retries i (.resume i) y, t < deadline := by
  have hnone : x.openers (.resume i) y = [] := openers_of_ne (by simp) ha
  have htries := h
  cases h with
  | seeking hd hr =>
      have hnever : x.retries i (.resume i) y = [] := by simp [retries, hi]
      refine ⟨?_, by simp [hnever]⟩
      cases loops_of_seeking hadv with
      | sees hp =>
          have hsame := gather_concat_of_eq_nil hx ha hnever
          have hsees : x.sights i (.resume i) y = [.freeForSend] := by simp [sights, hi, hi', hp]
          exact .announcing hd (.begins hx ha hsees) (hsame ▸ hr)
      | ends => exact htries.leavesLoop hx ha hnever rfl
  | @announcing sending l₁ l₂ u v hd h hr =>
      have hnever : x.retries i (.resume i) y = [] := by simp [retries, hi]
      refine ⟨?_, by simp [hnever]⟩
      cases loops_of_announcing hadv with
      | submits hm =>
          obtain ⟨-, rfl, -⟩ := Machine.submit_eq_ok hm
          have hv := (hs.steps h.before).step h.step
          have hsame := gather_concat_of_eq_nil hx ha hnever
          refine .announced hd rfl ((h.announce hv rfl).concat ha ?_ ?_) (hsame ▸ hr)
          · simp [sights, hi]
          · simp [rivals, hnone]
      | ends => exact htries.leavesLoop hx ha hnever rfl
  | @announced sending p l₁ l₂ u v hd hc h hr =>
      cases loops_of_announced hadv with
      | handsIn hb =>
          refine ⟨htries.concat hx hi ha hi', ?_⟩
          simp [retries, hi, hi']
      | @retries _ _ fault m limit giveUp hp hf hlt =>
          have hone : x.retries i (.resume i) y = [x.now] := by simp [System.retries, hi, hi']
          have hpaid := h.paid hs hx hi hc hf hp
          exact ⟨h.retry hpaid hd hr hx ha hone, by simpa [hone, ← hd] using hlt⟩
      | wins =>
          have hnever : x.retries i (.resume i) y = [] := by simp [retries, hi, hi']
          exact ⟨htries.leavesLoop hx ha hnever rfl, by simp [hnever]⟩
      | ends =>
          have hnever : x.retries i (.resume i) y = [] := by simp [retries, hi, hi']
          exact ⟨htries.leavesLoop hx ha hnever rfl, by simp [hnever]⟩
  | through ht hr =>
      obtain ⟨⟨sending, phase, rfl⟩, t, answer, rfl⟩ := finishes_of_isThroughLoop ht hadv
      have hnever : x.retries i (.resume i) y = [] := by simp [retries, hi]
      exact ⟨htries.leavesLoop hx ha hnever rfl, by simp [hnever]⟩

/-- **How often a sender has tried again**, at any moment since it began to wait. -/
theorem exists_triesAgain (hs : s.Reachable) (hi : s.callers[i]? = some stage)
    (hb : TriesAgain s i deadline [] s stage) (has : s.steps as = some x) :
    ∃ stage', x.callers[i]? = some stage' ∧ TriesAgain s i deadline as x stage' ∧
      ∀ t ∈ s.gather (retries i) as, t < deadline := by
  refine steps_induct (P := fun as x => ∃ stage', x.callers[i]? = some stage' ∧
    TriesAgain s i deadline as x stage' ∧ ∀ t ∈ s.gather (retries i) as, t < deadline) ?_ ?_ has
  · exact ⟨stage, hi, hb, nofun⟩
  · rintro as x a y hx ha ⟨stage, hi, htries, hprompt⟩
    rcases caller_of_step hi ha with hi' | ⟨rfl, stage', s₁, hadv, -, hi'⟩
    · refine ⟨stage, hi', htries.concat hx hi ha hi', ?_⟩
      rw [gather_concat_of_eq_nil hx ha (eq_nil_of_still hi hi').2.2]
      exact hprompt
    · obtain ⟨htries', ht⟩ := htries.resume hs hx hi hadv ha hi'
      refine ⟨stage', hi', htries', ?_⟩
      rw [gather_concat hx ha]
      exact fun t h => (List.mem_append.1 h).elim (hprompt t) (ht t)

end Retrying

section Owning

variable {s x y : System} {as : List Action} {a : Action} {i : Nat} {deadline : Instant}
  {stage : Stage} {k : Ticket}

/-- What holds of a ticket under which a sender has announced its request: from the moment on at which it
would count as a rival, it was handled before. -/
structure Owns (s : System) (i : Nat) (as : List Action) (x : System) (k : Ticket) : Prop where
  given : k < x.machine.mailbox.nextTicket
  distinct : k ∉ s.gather (rivals i) as
  handled : x.callers[i]?.any (Stage.isRivalled k) = true → k ∈ Pass.tickets (passes x.journal)

/-- No request is accepted that was handled before. -/
theorem not_mem_tickets_of_openers (hx : x.Reachable) (h : x.step a = some y)
    (hk : k ∈ x.openers a y) : k ∉ Pass.tickets (passes x.journal) := by
  by_cases ha : a = .work
  · subst ha
    obtain ⟨turn, hw⟩ := worksTo_of_work h
    obtain ⟨r, phase, hd⟩ := (mem_openers_of_worksTo hw).1 hk
    have hnodup := (List.nodup_append.1 (hx.step h).ticketed.nodup).2.1
    have hticket : Pass.tickets [(x.now, turn)] = [k] := by simp [Pass.tickets, Pass.ticket?, hd]
    rw [hw.passes, Pass.tickets_append, hticket] at hnodup
    exact fun hmem => (List.nodup_append.1 hnodup).2.2 k hmem k List.mem_cons_self rfl
  · rw [openers_of_ne ha h] at hk
    cases hk

theorem Owns.concat (h : Owns s i as x k) (hs : s.Reachable) (hx : s.steps as = some x)
    (ha : x.step a = some y)
    (hh : y.callers[i]?.any (Stage.isRivalled k) = true → k ∈ Pass.tickets (passes y.journal)) :
    Owns s i (as ++ [a]) y k where
  given := Nat.lt_of_lt_of_le h.given (onward_of_step ha).given
  distinct := by
    rw [gather_concat hx ha, List.mem_append, not_or]
    refine ⟨h.distinct, fun hk => ?_⟩
    obtain ⟨hopen, hrival⟩ := List.mem_filter.1 hk
    exact not_mem_tickets_of_openers (hs.steps hx) ha hopen (h.handled hrival)
  handled := hh

/-- A sender that is refused leaves no ticket behind that was not handled. -/
theorem Owns.resume {stage' : Stage} {s₁ : System} (h : Owns s i as x k) (hs : s.Reachable)
    (hx : s.steps as = some x) (hi : x.callers[i]? = some stage)
    (hv : TriesAgain s i deadline as x stage) (hadv : x.advance stage = some (stage', s₁))
    (ha : x.step (.resume i) = some y) (hi' : y.callers[i]? = some stage') :
    Owns s i (as ++ [.resume i]) y k := by
  refine h.concat hs hx ha fun hrival => ?_
  have hkept : Pass.tickets (passes y.journal) = Pass.tickets (passes x.journal) := by
    rw [(step_spares (by simp) ha).passes]
  rw [hkept]
  rw [hi', Option.any_some] at hrival
  have hbefore (hr : stage.isRivalled k = true) : k ∈ Pass.tickets (passes x.journal) :=
    h.handled (by rw [hi, Option.any_some, hr])
  cases hv with
  | seeking => exact hbefore rfl
  | announcing => exact hbefore rfl
  | @announced sending p _ _ _ _ _ hc =>
      by_cases hp : p.ticket = k
      · cases loops_of_announced hadv with
        | handsIn => simp [Stage.isRivalled, hp] at hrival
        | @retries _ _ fault m _ _ hpursue hf =>
            have hh := hasHandled_of_violation (hs.steps hx).ticketed (pending?_caller hi) hf hpursue
            exact mem_tickets_iff.2 ⟨_, _, hp ▸ hh⟩
        | wins => cases hrival
        | ends => cases hrival
      · exact hbefore (by simp [Stage.isRivalled, hp])
  | through ht =>
      obtain ⟨-, t, answer, rfl⟩ := finishes_of_isThroughLoop ht hadv
      cases hrival

/-- **Nobody is a rival to itself.** -/
theorem owns_of_steps (hs : s.Reachable) (hi : s.callers[i]? = some stage)
    (hb : TriesAgain s i deadline [] s stage) (has : s.steps as = some x) :
    ∀ k ∈ s.gather (announces i) as, Owns s i as x k := by
  refine steps_induct (P := fun as x => ∀ k ∈ s.gather (announces i) as, Owns s i as x k)
    nofun ?_ has
  intro as x a y hx ha ih k hk
  obtain ⟨stage, hi, htries, -⟩ := exists_triesAgain hs hi hb hx
  rw [gather_concat hx ha] at hk
  rcases caller_of_step hi ha with hi' | ⟨rfl, stage', s₁, hadv, -, hi'⟩
  · rw [(eq_nil_of_still hi hi').2.1, List.append_nil] at hk
    refine (ih k hk).concat hs hx ha fun hrival => ?_
    rw [hi', ← hi] at hrival
    obtain ⟨c, reply, hh⟩ := mem_tickets_iff.1 ((ih k hk).handled hrival)
    exact mem_tickets_iff.2 ⟨c, reply, hh.of_step ha⟩
  · rcases List.mem_append.1 hk with hk | hk
    · exact (ih k hk).resume hs hx hi htries hadv ha hi'
    · simp only [announces, hi, hi'] at hk
      split at hk
      · next sending sending' p hstage hstage' =>
          cases hstage
          cases hstage'
          obtain rfl := List.mem_singleton.1 hk
          refine ⟨?_, ?_, by simp [hi', Stage.isRivalled]⟩
          · exact ((hs.steps hx).step ha).ticketed.pending _ p (pending?_caller hi')
          · -- the ticket is new, and all rivals so far have theirs from before
            rw [gather_concat_of_eq_nil hx ha (rivals_of_ne (by simp) ha)]
            intro hrival
            obtain ⟨r, phase, hh⟩ := hasHandled_of_gather hx
              (gather_subset (fun _ _ _ _ h => (List.mem_filter.1 h).1) s as hrival)
            have hlt := (hs.steps hx).ticketed.fresh _
              (List.mem_append_right _ (mem_tickets_iff.2 ⟨_, _, hh⟩))
            cases loops_of_announcing hadv with
            | submits hm =>
                obtain ⟨-, rfl, -⟩ := Machine.submit_eq_ok hm
                exact Nat.lt_irrefl _ hlt
      · cases hk

end Owning

end System
end MeshExchange
