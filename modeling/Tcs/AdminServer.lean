/-
# The administrator's server

`include/tcs/admin_server.h`, the request boundary of the administrator: a
submitted packet is admitted, executed by the policy server (the peer
`policy`) and completed when the policy's receipt is valid for the admitted
command. In every other case the command stays pending and nothing is
admitted any more.

Key definitions: `adminServerRequest`.
Key theorems: `adminServer_rejected`, `adminServer_submitted`.
-/
import Tcs.Ipc

namespace Tcs

open Ipc

section

variable (check : List UInt8 → List UInt8 → List UInt8 → Bool) {σ : Type*} (policy : Peer σ)

/-- `tcs_admin_server_request`. -/
def adminServerRequest (ch : ℕ) : Peer (Admin × σ) := fun (a, t) m =>
  if ch ≠ 0 then (tcsReply m.mr ⟨Status.denied, 0⟩, a, t)
  else if m.label ≠ Label.adminSubmit ∨ m.count ≠ adminPacketWords then
    (adminAdmissionReply m.mr .badPacket, a, t)
  else
    let packet := bytesFromWords m.mr adminPacketBytes
    let (status, command, a) := adminAdmit check a packet
    if status ≠ .accepted then (adminAdmissionReply m.mr status, a, t)
    else
      let (reply, t) := policy t (executionMessage m.mr command)
      match adminReceiptDecode reply with
      | none => (adminAdmissionReply reply.mr .badCompletion, a, t)
      | some receipt =>
        if !adminReceiptValid command receipt then (adminAdmissionReply reply.mr .badCompletion, a, t)
        else
          let (completion, a) := adminComplete a command.sequence
          if completion ≠ .accepted then (adminAdmissionReply reply.mr .badCompletion, a, t)
          else (adminReceiptReply reply.mr receipt, a, t)

/-- The packet of a message. -/
def Submitted (a : Admin) (m : Message) : Prop :=
  m.label = Label.adminSubmit ∧ m.count = adminPacketWords ∧
    Admits check a (bytesFromWords m.mr adminPacketBytes)

end

variable {check : List UInt8 → List UInt8 → List UInt8 → Bool} {σ : Type*} (policy : Peer σ)
  {a : Admin} {m : Message}

/-- A message that submits no admissible packet is answered with a reason and changes nothing; the
policy is not called. -/
theorem adminServer_rejected (h : ¬ Submitted check a m) (t : σ) :
    ∃ status, status ≠ .accepted ∧ status ≠ .badCompletion ∧
      adminServerRequest check policy 0 (a, t) m = (adminAdmissionReply m.mr status, a, t) := by
  unfold adminServerRequest
  simp only [ne_eq, not_true_eq_false, if_false]
  by_cases hm : ¬ m.label = Label.adminSubmit ∨ ¬ m.count = adminPacketWords
  · exact ⟨.badPacket, by decide, by decide, if_pos hm⟩
  · rw [if_neg hm]
    have hn : ¬ Admits check a (bytesFromWords m.mr adminPacketBytes) := by
      intro ha
      simp only [not_or, not_not] at hm
      exact h ⟨hm.1, hm.2, ha⟩
    obtain ⟨status, h1, h2, h3⟩ := adminAdmit_of_not_admits hn
    refine ⟨status, h1, h2, ?_⟩
    rw [h3]
    exact if_pos h1

/-- The words that are sent to the policy for a submitted message. -/
def forwardedMessage (m : Message) : Message :=
  executionMessage m.mr (packetCommand (bytesFromWords m.mr adminPacketBytes))

/-- The server on an admissible packet: what the policy's reply makes of it. -/
theorem adminServer_submitted (h : Submitted check a m) (t : σ) :
    adminServerRequest check policy 0 (a, t) m =
      let command := packetCommand (bytesFromWords m.mr adminPacketBytes)
      let out := policy t (forwardedMessage m)
      match adminReceiptDecode out.1 with
      | none => (adminAdmissionReply out.1.mr .badCompletion, a.consumed, out.2)
      | some receipt =>
        if !adminReceiptValid command receipt then
          (adminAdmissionReply out.1.mr .badCompletion, a.consumed, out.2)
        else (adminReceiptReply out.1.mr receipt, { a.consumed with pendingSequence := 0 }, out.2) := by
  obtain ⟨hl, hn, ha⟩ := h
  have hcomplete := adminComplete_eq (a := a.consumed) (by simpa using ha.initialized)
    ha.signed.command.sequence_ne_zero (by rw [Admin.consumed_pending, ha.next])
  unfold adminServerRequest forwardedMessage
  simp only [hl, hn, ha.accepted, hcomplete, ne_eq, not_true_eq_false, or_self, if_false]

theorem adminServer_certain (h : Submitted check a m) (t : σ) {receipt : AdminReceipt}
    (hd : adminReceiptDecode (policy t (forwardedMessage m)).1 = some receipt)
    (hv : adminReceiptValid (packetCommand (bytesFromWords m.mr adminPacketBytes)) receipt = true) :
    adminServerRequest check policy 0 (a, t) m =
      (adminReceiptReply (policy t (forwardedMessage m)).1.mr receipt,
        { a.consumed with pendingSequence := 0 }, (policy t (forwardedMessage m)).2) := by
  rw [adminServer_submitted policy h]
  dsimp only
  rw [hd]
  dsimp only
  rw [hv]
  exact if_neg (by decide)

theorem adminServer_uncertain (h : Submitted check a m) (t : σ)
    (hn : ¬ ∃ receipt, adminReceiptDecode (policy t (forwardedMessage m)).1 = some receipt ∧
      adminReceiptValid (packetCommand (bytesFromWords m.mr adminPacketBytes)) receipt = true) :
    adminServerRequest check policy 0 (a, t) m =
      (adminAdmissionReply (policy t (forwardedMessage m)).1.mr .badCompletion, a.consumed,
        (policy t (forwardedMessage m)).2) := by
  rw [adminServer_submitted policy h]
  dsimp only
  cases hd : adminReceiptDecode (policy t (forwardedMessage m)).1 with
  | none => rfl
  | some receipt =>
    have hv : adminReceiptValid (packetCommand (bytesFromWords m.mr adminPacketBytes)) receipt =
        false := by
      by_contra hv
      exact hn ⟨receipt, hd, by simpa using hv⟩
    dsimp only
    rw [hv]
    rfl

theorem adminServer_policy (h : Submitted check a m) (t : σ) :
    (adminServerRequest check policy 0 (a, t) m).2.2 = (policy t (forwardedMessage m)).2 := by
  rw [adminServer_submitted policy h]
  dsimp only
  cases adminReceiptDecode (policy t (forwardedMessage m)).1 with
  | none => rfl
  | some receipt =>
    dsimp only
    split <;> rfl

theorem adminServer_consumed (h : Submitted check a m) (t : σ) :
    (adminServerRequest check policy 0 (a, t) m).2.1 = a.consumed ∨
      (adminServerRequest check policy 0 (a, t) m).2.1 = { a.consumed with pendingSequence := 0 } := by
  rw [adminServer_submitted policy h]
  dsimp only
  cases adminReceiptDecode (policy t (forwardedMessage m)).1 with
  | none => exact Or.inl rfl
  | some receipt =>
    dsimp only
    split
    · exact Or.inl rfl
    · exact Or.inr rfl

end Tcs
