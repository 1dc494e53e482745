/-
# Messages of the supervisor experiments

The two supervisors under `tests/lifecycle` and `tests/containment` answer
with a status and a value, or with the six fields of a slot; `runtime.h` of
each gives the labels. A caller takes an answer of the wrong shape, a status
that is none of the lifecycle's and a refusal with a value for a failure.

Key definitions: `ltReply`, `ltResponse`, `slotWords`.
Key theorems: `ltResponse_deliver`, `ltResponse_reply`, `slotWords_deliver`.
-/
import Tcs.Lib.Message
import Tcs.Lifecycle

namespace Tcs

open Ipc

/-- `LT_FAILURE` and `CT_FAILURE`. -/
@[simp] abbrev runtimeFailure : UInt64 := 99

/-- `lt_message` and `ct_message`. -/
def runtimeMessage (m : Message) (label : UInt64) (count : ℕ) : Bool :=
  m.label = label ∧ m.count = count

/-- A status and a value under the label of the experiment's answers. -/
def runtimeReply (label : UInt64) (mr : Registers) (status value : UInt64) : Message :=
  ⟨label, 2, (mr.set 0 status).set 1 value⟩

/-- The answer its caller reads, or a failure. -/
def runtimeResponse (label : UInt64) (m : Message) : LcResult :=
  if !runtimeMessage m label 2 then ⟨runtimeFailure, 0⟩
  else
    let status := m.mr 0
    let value := m.mr 1
    if status > LcStatus.exhausted ∨ (status ≠ LcStatus.ok ∧ value ≠ 0) then ⟨runtimeFailure, 0⟩
    else ⟨status, value⟩

/-- `lt_slot_words` and `ct_slot_words`. -/
def slotWords (mr : Registers) (first : ℕ) (s : LcSlot) : Registers :=
  (((((mr.set first s.state).set (first + 1) s.incarnation).set (first + 2) s.issued).set
    (first + 3) s.pending).set (first + 4) s.stopped).set (first + 5) s.drained

/-! The labels of `tests/lifecycle/runtime.h`. -/

namespace LtLabel

@[simp] abbrev control : UInt64 := 0x710
@[simp] abbrev status : UInt64 := 0x711
@[simp] abbrev ready : UInt64 := 0x712
@[simp] abbrev event : UInt64 := 0x713
@[simp] abbrev view : UInt64 := 0x714
@[simp] abbrev hello : UInt64 := 0x720
@[simp] abbrev begin : UInt64 := 0x721
@[simp] abbrev complete : UInt64 := 0x722
@[simp] abbrev kick : UInt64 := 0x723
@[simp] abbrev drain : UInt64 := 0x724
@[simp] abbrev brokerStatus : UInt64 := 0x725
@[simp] abbrev result : UInt64 := 0x780
@[simp] abbrev snapshot : UInt64 := 0x781
@[simp] abbrev slot : UInt64 := 0x782
@[simp] abbrev stats : UInt64 := 0x783

end LtLabel

/-- `lt_reply`. -/
def ltReply (mr : Registers) (status value : UInt64) : Message :=
  runtimeReply LtLabel.result mr status value

/-- `lt_response`. -/
def ltResponse (m : Message) : LcResult := runtimeResponse LtLabel.result m

/-! The labels of `tests/containment/runtime.h` that its supervisor knows. -/

namespace CtLabel

@[simp] abbrev control : UInt64 := 0x810
@[simp] abbrev status : UInt64 := 0x811
@[simp] abbrev ready : UInt64 := 0x812
@[simp] abbrev begin : UInt64 := 0x813
@[simp] abbrev view : UInt64 := 0x814
@[simp] abbrev result : UInt64 := 0x880
@[simp] abbrev snapshot : UInt64 := 0x881
@[simp] abbrev slot : UInt64 := 0x882

end CtLabel

/-- `ct_reply`. -/
def ctReply (mr : Registers) (status value : UInt64) : Message :=
  runtimeReply CtLabel.result mr status value

/-! ### What a caller reads -/

@[simp] theorem runtimeMessage_deliver (m : Message) (noise : Registers) (label : UInt64) (count : ℕ) :
    runtimeMessage (m.deliver noise) label count = runtimeMessage m label count := rfl

theorem runtimeMessage_iff {m : Message} {label : UInt64} {count : ℕ} :
    runtimeMessage m label count = true ↔ m.label = label ∧ m.count = count := by
  simp [runtimeMessage]

/-- A caller reads no register beyond the answer's two. -/
@[simp] theorem ltResponse_deliver (m : Message) (noise : Registers) :
    ltResponse (m.deliver noise) = ltResponse m := by
  unfold ltResponse runtimeResponse
  rw [runtimeMessage_deliver]
  by_cases hm : runtimeMessage m LtLabel.result 2 = true
  · have hn := (runtimeMessage_iff.mp hm).2
    simp only [Message.deliver_mr noise (show 0 < m.count by omega),
      Message.deliver_mr noise (show 1 < m.count by omega)]
  · simp only [hm, Bool.not_false, if_true]

/-- **A caller reads the status and the value it was answered.** -/
theorem ltResponse_reply (mr : Registers) {status value : UInt64} (hs : status ≤ LcStatus.exhausted)
    (hv : status ≠ LcStatus.ok → value = 0) :
    ltResponse (ltReply mr status value) = ⟨status, value⟩ := by
  have h0 : (ltReply mr status value).mr 0 = status := by
    simp [ltReply, runtimeReply, Registers.set_apply]
  have h1 : (ltReply mr status value).mr 1 = value := by
    simp [ltReply, runtimeReply, Registers.set_apply]
  unfold ltResponse runtimeResponse
  rw [if_neg (by simp [runtimeMessage, ltReply, runtimeReply])]
  dsimp only
  rw [h0, h1, if_neg]
  rintro (h | ⟨h, h'⟩)
  · exact UInt64.not_lt.mpr hs h
  · exact h' (hv h)

theorem ltResponse_failure (mr : Registers) :
    ltResponse (ltReply mr runtimeFailure 0) = ⟨runtimeFailure, 0⟩ := by
  simp [ltResponse, runtimeResponse, ltReply, runtimeReply, Registers.set_apply]

/-- The six fields of a slot, as their caller reads them. -/
theorem slotWords_deliver (label : UInt64) (mr noise : Registers) (s : LcSlot) :
    let m := (⟨label, 6, slotWords mr 0 s⟩ : Message).deliver noise
    m.mr 0 = s.state ∧ m.mr 1 = s.incarnation ∧ m.mr 2 = s.issued ∧ m.mr 3 = s.pending ∧
      m.mr 4 = s.stopped ∧ m.mr 5 = s.drained := by
  refine ⟨?_, ?_, ?_, ?_, ?_, ?_⟩ <;>
    simp [Message.deliver, slotWords, Registers.set_apply]

end Tcs
