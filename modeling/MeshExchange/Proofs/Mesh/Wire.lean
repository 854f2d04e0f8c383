import MeshExchange.Frame.Incoming
import MeshExchange.Link
import MeshExchange.System.Call

/-!
# What the mesh reads and writes

The mesh reads a request from the frame that was written for it, and what it sends back is read as the
confirmation and the response that it meant.

**Results.**
* `Request.ofFrame_of_toFrame`: the mesh reads the request that was sent;
* `Incoming.decode_confirmationFrame`, `Incoming.decode_responseFrame`: the channel reads what the mesh
  sent back;
* `Behaviour.pairwise_deliveries`: nothing that the mesh sends back overtakes anything else.
-/

namespace MeshExchange

namespace Request

theorem ofFrame_bytes (r : Request) : ofFrame r.bytes = .ok r := by
  simp [bytes, Word.bytes, ofFrame]

theorem eq_bytes_of_toFrame {r : Request} {frame : Frame} (h : r.toFrame = .ok frame) :
    frame = r.bytes := by
  unfold toFrame at h
  split at h
  · cases h
  · split at h
    · cases h
    · cases h
      rfl

/-- The mesh reads the request that was sent. -/
theorem ofFrame_of_toFrame {r : Request} {frame : Frame} (h : r.toFrame = .ok frame) :
    ofFrame frame = .ok r := by
  rw [eq_bytes_of_toFrame h]
  exact ofFrame_bytes r

end Request

namespace Incoming

/-- The header of a frame is read from its own bytes. -/
@[simp] theorem header?_headerBytes_append (h : Header) (data : Frame) :
    header? (headerBytes h ++ data) = some h := by
  simp [headerBytes, Word.bytes, header?, responseCodeStart, deviceValueStart]

@[simp] theorem drop_headerBytes_append (h : Header) (data : Frame) :
    (headerBytes h ++ data).drop headerLength = data := rfl

@[simp] theorem length_headerBytes (h : Header) : (headerBytes h).length = 8 := rfl

theorem decode_headerBytes_append {h : Header} (hc : h.responseCode ≠ confirmationCode)
    (data : Frame) :
    decode (headerBytes h ++ data) = .ok (.response h data (responseLength data)) := by
  simp only [decode, header?_headerBytes_append, drop_headerBytes_append, if_neg hc,
    List.length_append, length_headerBytes]
  rfl

theorem decode_confirmation {h : Header} (hc : h.responseCode = confirmationCode) (c : Confirmation)
    (rest : Frame) :
    decode (headerBytes h ++ ([c.hops, c.slot, c.responseHops] ++ rest)) =
      .ok (.confirmation h c) := by
  simp [decode, hc]

theorem decode_confirmationFrame (r : Request) (c : Confirmation) :
    decode (confirmationFrame r c) =
      .ok (.confirmation ⟨r.address, r.peripheral, r.command, r.profile, confirmationCode, 0⟩ c) :=
  decode_confirmation rfl c []

/-- A response does not carry the code of a confirmation. -/
theorem decode_responseFrame (r : Request) (value : UInt8) (data : List UInt8) :
    decode (responseFrame r value data) =
      .ok (.response ⟨r.address, r.peripheral, r.command ||| responseBit, r.profile, 0, value⟩ data
        (responseLength data)) :=
  decode_headerBytes_append (by decide : (0 : UInt8) ≠ confirmationCode) data

end Incoming

/-- The command that a delivery amounts to, if its frame can be read. -/
def Delivery.command (d : Delivery) : Except Fault Command :=
  (Incoming.decode d.frame).map (Incoming.command d.due)

namespace Behaviour

variable (b : Behaviour) (r : Request) (due : Instant)

@[simp] theorem command_confirmation (c : Confirmation) :
    Delivery.command ⟨due, Incoming.confirmationFrame r c⟩ = .ok (.confirmationReceived due c) := by
  simp [Delivery.command, Incoming.decode_confirmationFrame, Except.map, Incoming.command]

@[simp] theorem command_response (value : UInt8) (data : List UInt8) :
    Delivery.command ⟨due, Incoming.responseFrame r value data⟩ =
      .ok (.responseReceived due (Incoming.responseLength data)) := by
  simp [Delivery.command, Incoming.decode_responseFrame, Except.map, Incoming.command]

/-- The mesh sends nothing back that overtakes anything else. -/
theorem pairwise_deliveries : (b.deliveries r due).Pairwise fun d d' => d.due ≤ d'.due := by
  unfold deliveries responses
  split
  · split <;> simp
  · split
    · exact .nil
    · dsimp only
      split
      · simp
      · split <;> simp

theorem length_deliveries_le : (b.deliveries r due).length ≤ 2 := by
  unfold deliveries responses
  split
  · split <;> simp
  · split
    · simp
    · dsimp only
      split
      · simp
      · split <;> simp

theorem le_due : ∀ d ∈ b.deliveries r due, due ≤ d.due := by
  intro d h
  have hresponse {t : Instant} (ht : due ≤ t) (h : d ∈ b.responses r t) : due ≤ d.due := by
    unfold responses at h
    split at h
    · cases h
    · rw [List.mem_singleton.1 h]
      exact ht
  unfold deliveries at h
  split at h
  · exact hresponse (Nat.le_add_right _ _) h
  · split at h
    · cases h
    · rcases List.mem_cons.1 h with rfl | h
      · exact Nat.le_add_right _ _
      · split at h
        · cases h
        · exact hresponse (Nat.le_trans (Nat.le_add_right _ _) (Nat.le_add_right _ _)) h

/-- The coordinator answers for itself at once: nothing comes back but the response. -/
theorem eq_of_mem_deliveries {d : Delivery} (hr : r.isForCoordinator = true)
    (h : d ∈ b.deliveries r due) :
    d = ⟨due + b.responseDelay, Incoming.responseFrame r 0 b.responseData⟩ := by
  rw [deliveries, if_pos hr, responses] at h
  split at h
  · cases h
  · exact List.mem_singleton.1 h

end Behaviour
end MeshExchange
