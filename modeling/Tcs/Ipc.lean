/-
# Message formats

`include/tcs/ipc.h` and `include/tcs/admin_ipc.h`: how requests, decisions,
snapshots, commands and receipts are written to message registers and read
back. Every reader checks the label and the word count first, and reads no
register beyond the count, so what a writer sent is what the reader gets
whatever the other registers hold.

Key definitions: `tcsReply`, `tcsResponse`, `snapshotReply`,
`executionWords`, `adminReceiptReply`, `adminReceiptDecode`,
`wordsFromBytes`, `bytesFromWords`.
Key theorems: `tcsResponse_reply`, `executionFromWords_deliver`,
`adminReceiptDecode_reply`, `bytesFromWords_deliver`.
-/
import Tcs.Admin
import Tcs.Lib.Message

namespace Tcs

open Ipc

/-! ### Labels -/

/-- `TCS_LABEL`: the version is the upper byte. -/
def tcsLabel (op : UInt64) : UInt64 := 0x100 ||| op

namespace Label

@[simp] abbrev reply : UInt64 := 0x180
@[simp] abbrev snapshotReply : UInt64 := 0x182
@[simp] abbrev adminSubmit : UInt64 := 0x201
@[simp] abbrev adminExecute : UInt64 := 0x202
@[simp] abbrev adminReceipt : UInt64 := 0x280
@[simp] abbrev adminAdmission : UInt64 := 0x281

end Label

/-! The operations of `ipc.h` beyond those of the policy. -/

namespace Op

@[simp] abbrev selfStatus : UInt64 := 6
@[simp] abbrev storeRead : UInt64 := 16
@[simp] abbrev clientRead : UInt64 := 17
@[simp] abbrev clientBadLength : UInt64 := 18
@[simp] abbrev clientTryGrant : UInt64 := 19
@[simp] abbrev clientStatus : UInt64 := 20
@[simp] abbrev storeStatus : UInt64 := 21
@[simp] abbrev auditAppend : UInt64 := 32
@[simp] abbrev auditCount : UInt64 := 33
@[simp] abbrev auditGet : UInt64 := 34

end Op

/-- `TCS_SAMPLE`, the word of the fixture. -/
@[simp] abbrev tcsSample : UInt64 := 0x43494e4958
/-- `TCS_AUDIT_CAPACITY`. -/
@[simp] abbrev auditCapacity : ℕ := 64
/-- `TCS_ADMIN_PACKET_BYTES`. -/
@[simp] abbrev adminPacketBytes : ℕ := 192
/-- `TCS_ADMIN_PACKET_WORDS`. -/
@[simp] abbrev adminPacketWords : ℕ := 24
/-- `TCS_ADMIN_RECEIPT_WORDS`. -/
@[simp] abbrev adminReceiptWords : ℕ := 13

/-- `tcs_message`. -/
def tcsMessage (m : Message) (op : UInt64) (count : ℕ) : Bool :=
  m.label = tcsLabel op ∧ m.count = count

/-! ### Decisions and snapshots -/

/-- `tcs_reply`, over the registers `mr`. -/
def tcsReply (mr : Registers) (r : Result) : Message :=
  ⟨Label.reply, 2, (mr.set 0 r.status).set 1 r.value⟩

/-- `tcs_response`. -/
def tcsResponse (m : Message) : Result :=
  if m.label ≠ Label.reply ∨ m.count ≠ 2 then ⟨Status.badMessage, 0⟩ else ⟨m.mr 0, m.mr 1⟩

/-- `tcs_snapshot_reply`. -/
def snapshotReply (mr : Registers) (s : Snapshot) : Message :=
  if s.status ≠ Status.ok then tcsReply mr ⟨s.status, 0⟩
  else if !snapshotValid s then tcsReply mr ⟨Status.badMessage, 0⟩
  else ⟨Label.snapshotReply, 4,
    (((mr.set 0 s.state).set 1 s.generation).set 2 s.object).set 3 s.rights⟩

/-- `tcs_snapshot_response`. -/
def snapshotResponse (m : Message) : Snapshot :=
  let invalid : Snapshot := ⟨Status.badMessage, 0, 0, 0, 0⟩
  if m.label = Label.reply then
    let r := tcsResponse m
    if r.status ≥ Status.denied ∧ r.status ≤ Status.exhausted ∧ r.value = 0 then
      ⟨r.status, 0, 0, 0, 0⟩
    else invalid
  else if m.label ≠ Label.snapshotReply ∨ m.count ≠ 4 then invalid
  else
    let s : Snapshot := ⟨Status.ok, m.mr 0, m.mr 1, m.mr 2, m.mr 3⟩
    if snapshotValid s then s else invalid

/-! ### Commands and receipts -/

/-- `tcs_execution_words`. -/
def executionWords (mr : Registers) (c : AdminCommand) : Registers :=
  (((((mr.set 0 c.sequence).set 1 c.expectedGeneration).set 2 c.request.op).set 3
    c.request.subject).set 4 c.request.object).set 5 c.request.rights

/-- The message that asks the policy to execute a command. -/
def executionMessage (mr : Registers) (c : AdminCommand) : Message :=
  ⟨Label.adminExecute, 6, executionWords mr c⟩

/-- `tcs_execution_from_words`. -/
def executionFromWords (mr : Registers) : AdminCommand :=
  ⟨mr 0, mr 1, ⟨mr 2, mr 3, mr 4, mr 5, 0⟩⟩

/-- `tcs_admin_receipt_reply`. -/
def adminReceiptReply (mr : Registers) (r : AdminReceipt) : Message :=
  ⟨Label.adminReceipt, adminReceiptWords,
    (((((((executionWords mr r.command).set 6 r.decision).set 7 r.auditOk).set 8 r.applied).set 9
      r.post.state).set 10 r.post.generation).set 11 r.post.object).set 12 r.post.rights⟩

/-- `tcs_admin_receipt_decode`. -/
def adminReceiptDecode (m : Message) : Option AdminReceipt :=
  if m.label ≠ Label.adminReceipt ∨ m.count ≠ adminReceiptWords then none
  else some ⟨executionFromWords m.mr, m.mr 6, m.mr 7, m.mr 8,
    ⟨Status.ok, m.mr 9, m.mr 10, m.mr 11, m.mr 12⟩⟩

/-- `tcs_admin_admission_reply`. -/
def adminAdmissionReply (mr : Registers) (status : AdminStatus) : Message :=
  ⟨Label.adminAdmission, 1, mr.set 0 status.word⟩

/-! ### Packets -/

/-- `tcs_words_from_bytes`. -/
def wordsFromBytes (mr : Registers) (bytes : List UInt8) : Registers := fun i =>
  if i < bytes.length / 8 then Bytes.load64 (bytes.drop (8 * i)) else mr i

/-- `tcs_bytes_from_words`. -/
def bytesFromWords (mr : Registers) (length : ℕ) : List UInt8 :=
  (List.range (length / 8)).flatMap fun i => Bytes.store64 (mr i)

/-! ### What is sent is what is read -/

theorem tcsResponse_reply (mr : Registers) (r : Result) (noise : Registers) :
    tcsResponse ((tcsReply mr r).deliver noise) = r := by
  simp [tcsResponse, tcsReply, Message.deliver, Registers.set_apply]

theorem executionFromWords_deliver (mr : Registers) {c : AdminCommand}
    (hc : c.request.generation = 0) (noise : Registers) :
    executionFromWords ((executionMessage mr c).deliver noise).mr = c := by
  have hlt : ∀ i < 6, ((executionMessage mr c).deliver noise).mr i = executionWords mr c i :=
    fun i hi => Message.deliver_mr noise hi
  obtain ⟨q, g, op, s, o, r, gen⟩ := c
  simp only at hc
  subst hc
  unfold executionFromWords
  rw [hlt 0 (by omega), hlt 1 (by omega), hlt 2 (by omega), hlt 3 (by omega), hlt 4 (by omega),
    hlt 5 (by omega)]
  simp [executionWords, Registers.set_apply]

theorem adminReceiptDecode_shape {m : Message} {r : AdminReceipt}
    (h : adminReceiptDecode m = some r) :
    m.label = Label.adminReceipt ∧ m.count = adminReceiptWords := by
  unfold adminReceiptDecode at h
  split_ifs at h with hne
  simpa only [not_or, not_not] using hne

theorem adminReceiptDecode_reply (mr : Registers) {r : AdminReceipt}
    (hc : r.command.request.generation = 0) (hp : r.post.status = Status.ok) (noise : Registers) :
    adminReceiptDecode ((adminReceiptReply mr r).deliver noise) = some r := by
  obtain ⟨⟨q, g, op, s, o, ri, gen⟩, d, a, b, ⟨st, x, y, z, w⟩⟩ := r
  simp only at hc hp
  subst hc hp
  simp [adminReceiptDecode, adminReceiptReply, Message.deliver, executionFromWords, executionWords,
    Registers.set_apply]

/-- A packet that is sent as words arrives. -/
theorem bytesFromWords_deliver (mr : Registers) {bytes : List UInt8} {n : ℕ}
    (hb : bytes.length = 8 * n) (label : UInt64) (noise : Registers) :
    bytesFromWords ((⟨label, n, wordsFromBytes mr bytes⟩ : Message).deliver noise).mr (8 * n) =
      bytes := by
  have hn : 8 * n / 8 = n := by omega
  have hw : ∀ i ∈ List.range n,
      Bytes.store64 (((⟨label, n, wordsFromBytes mr bytes⟩ : Message).deliver noise).mr i) =
        Bytes.store64 (Bytes.load64 (bytes.drop (8 * i))) := by
    intro i hi
    have hi : i < n := List.mem_range.mp hi
    rw [Message.deliver_mr noise hi]
    simp only [wordsFromBytes, hb, hn, hi, if_true]
  unfold bytesFromWords
  rw [hn, List.flatMap_congr hw, Bytes.flatMap_store64 bytes n (by omega), ← hb, List.take_length]

end Tcs
