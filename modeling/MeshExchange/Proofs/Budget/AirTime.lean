import MeshExchange.Budget

/-!
# When a linger ends

After the last frame of an exchange the mesh is busy for a while, which the frames of the exchange tell.
That time counts from the instant at which the frame was received; but a frame that is handled too late
is over at once, and one that claims to come from the future counts from its handling.

**Results.**
* `Confirmation.airTime`, `Confirmation.exchangeAirTime`: how long the mesh is busy;
* `Budget.add_afterConfirmation`, `Budget.add_afterResponse`: the ends of the two lingers;
* `Budget.EndsAfter`: how such an end depends on the instants;
* `Confirmation.exchangeAirTime_mono`: more hops, longer slots and longer responses take no less time,
  and an exchange that was confirmed takes no less than one that was not.
-/

namespace MeshExchange

namespace Confirmation

section AirTime

/-- How long the mesh is busy with a confirmed request. -/
def airTime (c : Confirmation) : Duration :=
  Duration.millis ((c.hops.toNat + 1) * c.slot.toNat * 10)

/-- How long the mesh is busy with an exchange whose response has the given length. -/
def exchangeAirTime (length : Nat) : Option Confirmation → Duration
  | some c =>
      c.airTime + Duration.millis ((c.responseHops.toNat + 1) * Budget.slotOfLength length * 10)
  | none => Duration.millis (Budget.slotOfLength length * 10)

end AirTime

section Comparing

/-- No field is greater than that of another confirmation. -/
structure AtMost (c c' : Confirmation) : Prop where
  hops : c.hops ≤ c'.hops
  slot : c.slot ≤ c'.slot
  responseHops : c.responseHops ≤ c'.responseHops

/-- The same for exchanges, of which one that was not confirmed comes before all others. -/
inductive IsUpTo : Option Confirmation → Option Confirmation → Prop
  | unconfirmed (confirmed : Option Confirmation) : IsUpTo none confirmed
  | confirmed {c c' : Confirmation} (h : c.AtMost c') : IsUpTo (some c) (some c')

variable {c c' : Confirmation} {length length' : Nat} {confirmed confirmed' : Option Confirmation}

theorem millis_mono {m n : Nat} (h : m ≤ n) : Duration.millis m ≤ Duration.millis n :=
  Nat.mul_le_mul_right _ h

/-- The way over at least as many hops with at least as long slots takes no less time. -/
theorem millis_legs_mono {hops hops' : UInt8} {slot slot' : Nat} (hh : hops ≤ hops')
    (hs : slot ≤ slot') :
    Duration.millis ((hops.toNat + 1) * slot * 10) ≤
      Duration.millis ((hops'.toNat + 1) * slot' * 10) := by
  have hlegs : hops.toNat + 1 ≤ hops'.toNat + 1 := Nat.succ_le_succ (UInt8.le_iff_toNat_le.1 hh)
  exact millis_mono (Nat.mul_le_mul_right 10 (Nat.mul_le_mul hlegs hs))

theorem airTime_mono (h : c.AtMost c') : c.airTime ≤ c'.airTime :=
  millis_legs_mono h.hops (UInt8.le_iff_toNat_le.1 h.slot)

theorem slotOfLength_mono (h : length ≤ length') :
    Budget.slotOfLength length ≤ Budget.slotOfLength length' := by
  unfold Budget.slotOfLength
  grind

/-- A confirmed exchange takes no less time than one of the same length that was not confirmed. -/
theorem exchangeAirTime_none_le (confirmed : Option Confirmation) :
    exchangeAirTime length none ≤ exchangeAirTime length confirmed := by
  cases confirmed with
  | none => exact Nat.le_refl _
  | some c =>
      have hleg : Budget.slotOfLength length * 10 ≤
          (c.responseHops.toNat + 1) * Budget.slotOfLength length * 10 :=
        Nat.mul_le_mul_right 10 (Nat.le_mul_of_pos_left _ (Nat.succ_pos _))
      exact Nat.le_trans (millis_mono hleg) (Nat.le_add_left _ _)

/-- **More to transmit takes no less time.** -/
theorem exchangeAirTime_mono (h : IsUpTo confirmed confirmed') (hl : length ≤ length') :
    exchangeAirTime length confirmed ≤ exchangeAirTime length' confirmed' := by
  have hslot := slotOfLength_mono hl
  cases h with
  | unconfirmed =>
      calc exchangeAirTime length none
        _ ≤ exchangeAirTime length' none := millis_mono (Nat.mul_le_mul_right 10 hslot)
        _ ≤ exchangeAirTime length' confirmed' := exchangeAirTime_none_le confirmed'
  | confirmed h => exact Nat.add_le_add (airTime_mono h) (millis_legs_mono h.responseHops hslot)

end Comparing

end Confirmation

namespace Budget

section Ends

/-- A linger ends when its total is over since the frame was received, but not before the frame is
handled, and a frame counts as received at its handling at the latest. -/
theorem add_sub_since (total : Duration) (received now : Instant) :
    now + (total - Instant.since now received) = max now (min received now + total) := by
  have h (a b c : Nat) : a + (c - (a - b)) = max a (min b a + c) := by
    omega
  exact h now received total

theorem add_afterConfirmation (c : Confirmation) (received now : Instant) :
    now + afterConfirmation c received now = max now (min received now + c.airTime) :=
  add_sub_since _ _ _

theorem add_afterResponse (confirmed : Option Confirmation) (length : Nat)
    (received now : Instant) :
    now + afterResponse confirmed length received now =
      max now (min received now + Confirmation.exchangeAirTime length confirmed) := by
  cases confirmed with
  | none => exact add_sub_since _ _ _
  | some c => exact add_sub_since _ _ _

/-- The end of a linger that takes a total, as it depends on the instants at which the frame was received
and handled. -/
structure EndsAfter (total : Duration) (deadline : Instant → Instant → Instant) : Prop where
  closed : ∀ received now, deadline received now = max now (min received now + total)
  /-- As long as the total is not over, it does not matter when the frame is handled. -/
  steady : ∀ received now, received ≤ now → now ≤ received + total →
    deadline received now = received + total
  mono : ∀ received received' now now', received ≤ received' → now ≤ now' →
    deadline received now ≤ deadline received' now'

theorem EndsAfter.of_closed {total : Duration} {deadline : Instant → Instant → Instant}
    (h : ∀ received now, deadline received now = max now (min received now + total)) :
    EndsAfter total deadline where
  closed := h
  steady r n hr hn := by
    have hmin : min r n = r := Nat.min_eq_left hr
    have hmax : max n (r + total) = r + total := Nat.max_eq_right hn
    rw [h, hmin, hmax]
  mono r r' n n' hr hn := by
    have hmono (a a' b b' c : Nat) (ha : a ≤ a') (hb : b ≤ b') :
        max b (min a b + c) ≤ max b' (min a' b' + c) := by
      omega
    rw [h, h]
    exact hmono r r' n n' total hr hn

/-- A linger that takes longer does not end before, if nothing else is different. -/
theorem EndsAfter.le {total total' : Duration} {deadline deadline' : Instant → Instant → Instant}
    (h : EndsAfter total deadline) (h' : EndsAfter total' deadline') (ht : total ≤ total')
    (received now : Instant) : deadline received now ≤ deadline' received now := by
  have hmono (a b c c' : Nat) (hc : c ≤ c') : max b (min a b + c) ≤ max b (min a b + c') := by
    omega
  rw [h.closed, h'.closed]
  exact hmono received now total total' ht

theorem endsAfter_afterConfirmation (c : Confirmation) :
    EndsAfter c.airTime fun received now => now + afterConfirmation c received now :=
  .of_closed (add_afterConfirmation c)

theorem endsAfter_afterResponse (confirmed : Option Confirmation) (length : Nat) :
    EndsAfter (Confirmation.exchangeAirTime length confirmed) fun received now =>
      now + afterResponse confirmed length received now :=
  .of_closed (add_afterResponse confirmed length)

end Ends

end Budget
end MeshExchange
