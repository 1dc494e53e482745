/-
# The signed terminal's reply to a packet

`finish_packet` of `servers/terminal.c` with what it uses: the bounded output
buffer (`append`, `decimal`) and the public field extraction of
`lib/signed_input.c`. A packet is submitted to the administrator (the peer
`administrator`) and the reply is printed as a receipt, a rejection, an
uncertain outcome or an unavailable administrator.

Output that does not fit sets `failed`. Printing piece by piece is printing
the whole (`append_append`), so each line is one `append` of its text and
fits or not as a whole.

Key definitions: `Terminal`, `Terminal.append`, `Terminal.decimal`,
`finishPacket`, `receiptText`, `rejectedText`.
Key theorems: `Terminal.append_eq`, `Terminal.decimal_eq`,
`packetReply_receipt`, `packetReply_rejected`, `finishPacket_ready`.
-/
import Tcs.Ipc

namespace Tcs

open Ipc

/-- `enum tcs_line_event`. -/
inductive LineEvent
  | none
  | ready
  | rejected
  | cancelled
  deriving DecidableEq, Repr

/-- `struct tcs_line`; `bytes` are the first `length` bytes of the buffer. -/
structure Line where
  bytes : List Char
  rejected : Bool
  previousCr : Bool
  completed : Bool

/-- The zeroed line. -/
def Line.zero : Line := ⟨[], false, false, false⟩

/-- `struct tcs_signed_input`. -/
structure SignedInput where
  packet : Vector UInt8 adminPacketBytes
  digits : ℕ
  rejected : Bool
  previousCr : Bool
  completed : Bool

/-- The zeroed input. -/
def SignedInput.zero : SignedInput := ⟨Vector.replicate adminPacketBytes 0, 0, false, false, false⟩

/-- `tcs_signed_discard`. -/
def signedDiscard : SignedInput := { SignedInput.zero with rejected := true }

/-- `tcs_signed_command`. -/
def signedCommand (p : List UInt8) : AdminCommand :=
  ⟨Bytes.load64 (p.drop 80), Bytes.load64 (p.drop 120),
    ⟨Bytes.load64 (p.drop 88), Bytes.load64 (p.drop 96), Bytes.load64 (p.drop 104),
      Bytes.load64 (p.drop 112), 0⟩⟩

/-- The statics of the terminal that `finish_packet` uses; `output` are the first `output_length`
bytes of the buffer. -/
structure Terminal where
  line : Line
  signedInput : SignedInput
  packetMode : Bool
  output : List Char
  failed : Bool

/-- The zeroed terminal. -/
def Terminal.zero : Terminal := ⟨Line.zero, SignedInput.zero, false, [], false⟩

/-- The size of `output`. -/
@[simp] abbrev outputBytes : ℕ := 256

/-- `append`. -/
def Terminal.append (t : Terminal) : List Char → Terminal
  | [] => t
  | c :: text =>
    if t.output.length < outputBytes then
      Terminal.append { t with output := t.output ++ [c] } text
    else { t with failed := true }

/-- The digits of `decimal`, the least significant first. -/
def decimalDigits (value : UInt64) : List Char :=
  let digit := Char.ofNat ('0'.toNat + (value % 10).toNat)
  if value / 10 = 0 then [digit] else digit :: decimalDigits (value / 10)
termination_by value.toNat
decreasing_by
  have h : value / 10 ≠ 0 := by assumption
  have hpos : value.toNat ≠ 0 := by
    intro h0
    apply h
    rw [← UInt64.toNat_inj, UInt64.toNat_div, h0]
    rfl
  rw [UInt64.toNat_div]
  exact Nat.div_lt_self (by omega) (by decide)

/-- `decimal`. -/
def Terminal.decimal (t : Terminal) (value : UInt64) : Terminal :=
  (decimalDigits value).reverse.foldl (fun t digit => t.append [digit]) t

/-- The line that `finish_packet` prints for a reply. -/
def Terminal.packetReply (t : Terminal) (command : AdminCommand) (reply : Message) : Terminal :=
  match (adminReceiptDecode reply).filter (adminReceiptValid command) with
  | some receipt =>
    let t := (t.append "ADMIN seq=".toList).decimal receipt.command.sequence
    let t := (t.append " decision=".toList).decimal receipt.decision
    let t := (t.append " audit=".toList).decimal receipt.auditOk
    let t := (t.append " applied=".toList).decimal receipt.applied
    let t := (t.append " state=".toList).decimal receipt.post.state
    let t := (t.append " generation=".toList).decimal receipt.post.generation
    t.append "\r\n".toList
  | none =>
    if reply.label = Label.adminAdmission ∧ reply.count = 1 ∧
        reply.mr 0 > AdminStatus.accepted.word ∧ reply.mr 0 ≤ AdminStatus.badCompletion.word then
      if reply.mr 0 = AdminStatus.badCompletion.word then
        t.append "ADMIN UNCERTAIN; do not retry or advance sequence\r\n".toList
      else ((t.append "ADMIN REJECTED status=".toList).decimal (reply.mr 0)).append "\r\n".toList
    else t.append "ADMIN UNAVAILABLE; do not retry an uncertain request\r\n".toList

/-- `finish_packet`: the terminal after it, and the administrator's side. -/
def finishPacket {σ : Type*} (administrator : Peer σ) (mr : Registers) (event : LineEvent)
    (t : Terminal) (peer : σ) : Terminal × σ :=
  let input := t.signedInput
  let (t, peer) : Terminal × σ :=
    match event with
    | .ready =>
      let command := signedCommand input.packet.toList
      let out := administrator peer
        ⟨Label.adminSubmit, adminPacketWords, wordsFromBytes mr input.packet.toList⟩
      (t.packetReply command out.1, out.2)
    | .cancelled => (t.append "CANCELLED\r\n".toList, peer)
    | _ => (t.append "ERROR discarded signed packet\r\n".toList, peer)
  let t := { t with
    line := { Line.zero with previousCr := input.previousCr }
    signedInput := signedDiscard
    packetMode := false }
  (t.append "tcs> ".toList, peer)

/-! ### The output buffer -/

/-- What fits is appended. -/
theorem Terminal.append_eq : ∀ (text : List Char) (t : Terminal),
    t.output.length + text.length ≤ outputBytes → t.append text = { t with output := t.output ++ text }
  | [], t, _ => by simp [Terminal.append]
  | c :: text, t, h => by
    rw [List.length_cons] at h
    have hfit : (t.output ++ [c]).length + text.length ≤ outputBytes := by
      rw [List.length_append, List.length_singleton]
      omega
    rw [Terminal.append, if_pos (by omega), Terminal.append_eq text _ hfit]
    simp only [List.append_assoc, List.singleton_append]

theorem Terminal.append_editors (t : Terminal) (text : List Char) :
    (t.append text).line = t.line ∧ (t.append text).signedInput = t.signedInput ∧
      (t.append text).packetMode = t.packetMode := by
  induction text generalizing t with
  | nil => exact ⟨rfl, rfl, rfl⟩
  | cons c text ih =>
    by_cases h : t.output.length < outputBytes
    · rw [Terminal.append, if_pos h]
      exact ih { t with output := t.output ++ [c] }
    · rw [Terminal.append, if_neg h]
      exact ⟨rfl, rfl, rfl⟩

@[simp] theorem Terminal.append_line (t : Terminal) (text : List Char) :
    (t.append text).line = t.line := (t.append_editors text).1

@[simp] theorem Terminal.append_signedInput (t : Terminal) (text : List Char) :
    (t.append text).signedInput = t.signedInput := (t.append_editors text).2.1

@[simp] theorem Terminal.append_packetMode (t : Terminal) (text : List Char) :
    (t.append text).packetMode = t.packetMode := (t.append_editors text).2.2

theorem Terminal.append_cases : ∀ (text : List Char) (t : Terminal),
    (t.append text).failed = true ∨ t.append text = { t with output := t.output ++ text }
  | [], t => Or.inr (by simp [Terminal.append])
  | c :: text, t => by
    by_cases h : t.output.length < outputBytes
    · rw [Terminal.append, if_pos h]
      have ih := Terminal.append_cases text { t with output := t.output ++ [c] }
      simpa only [List.append_assoc, List.singleton_append] using ih
    · rw [Terminal.append, if_neg h]
      exact Or.inl rfl

/-- Printing in pieces is printing the whole. -/
theorem Terminal.append_append (y : List Char) : ∀ (x : List Char) (t : Terminal),
    (t.append x).append y = t.append (x ++ y)
  | [], _ => rfl
  | c :: x, t => by
    by_cases h : t.output.length < outputBytes
    · rw [List.cons_append, Terminal.append, if_pos h, Terminal.append, if_pos h,
        Terminal.append_append y x]
    · rw [List.cons_append, Terminal.append, if_neg h, Terminal.append, if_neg h]
      -- the buffer is full: the rest, if there is any, fails again
      cases y with
      | nil => rfl
      | cons d y => rw [Terminal.append, if_neg h]

theorem Terminal.foldl_append (text : List Char) : ∀ t : Terminal,
    text.foldl (fun t c => t.append [c]) t = t.append text := by
  induction text with
  | nil => intro t; rfl
  | cons c text ih =>
    intro t
    rw [List.foldl_cons, ih, Terminal.append_append, List.singleton_append]

theorem digitChar_mod (v : UInt64) :
    Char.ofNat ('0'.toNat + (v % 10).toNat) = Nat.digitChar (v.toNat % 10) := by
  have key : ∀ d < 10, Char.ofNat ('0'.toNat + d) = Nat.digitChar d := by decide
  have hmod : (v % 10).toNat = v.toNat % 10 := UInt64.toNat_mod v 10
  rw [hmod]
  exact key _ (Nat.mod_lt _ (by decide))

/-- The loop of `decimal` finds the digits of the number. -/
theorem reverse_decimalDigits (v : UInt64) : (decimalDigits v).reverse = Nat.toDigits 10 v.toNat := by
  fun_induction decimalDigits v with
  | case1 v digit h =>
    have hlt : v.toNat < 10 := by
      have h0 : (v / 10).toNat = 0 := by rw [h]; rfl
      rw [UInt64.toNat_div] at h0
      exact Nat.lt_of_div_eq_zero (by decide) h0
    have hd : digit = Nat.digitChar (v.toNat % 10) := digitChar_mod v
    rw [Nat.toDigits_of_lt_base hlt, List.reverse_singleton, hd, Nat.mod_eq_of_lt hlt]
  | case2 v digit h ih =>
    have hle : 10 ≤ v.toNat := by
      by_contra hlt
      apply h
      rw [← UInt64.toNat_inj, UInt64.toNat_div]
      exact Nat.div_eq_of_lt (by simpa using hlt)
    have hd : digit = Nat.digitChar (v.toNat % 10) := digitChar_mod v
    rw [List.reverse_cons, ih, Nat.toDigits_of_base_le (by decide) hle, hd, UInt64.toNat_div]
    rfl

theorem Terminal.decimal_eq (t : Terminal) (v : UInt64) :
    t.decimal v = t.append (Nat.toDigits 10 v.toNat) := by
  rw [Terminal.decimal, Terminal.foldl_append, reverse_decimalDigits]

/-- A word has at most twenty digits. -/
theorem length_toDigits (v : UInt64) : (Nat.toDigits 10 v.toNat).length ≤ 20 := by
  rw [Nat.length_toDigits_le_iff (by decide) (by decide)]
  have := v.toNat_lt
  omega

/-! ### What is printed -/

/-- The text of a word. -/
def decimalText (v : UInt64) : List Char := Nat.toDigits 10 v.toNat

/-- The receipt line. -/
def receiptText (r : AdminReceipt) : List Char :=
  "ADMIN seq=".toList ++ decimalText r.command.sequence ++
  " decision=".toList ++ decimalText r.decision ++
  " audit=".toList ++ decimalText r.auditOk ++
  " applied=".toList ++ decimalText r.applied ++
  " state=".toList ++ decimalText r.post.state ++
  " generation=".toList ++ decimalText r.post.generation ++ "\r\n".toList

/-- The line of a rejected packet. -/
def rejectedText (status : AdminStatus) : List Char :=
  "ADMIN REJECTED status=".toList ++ decimalText status.word ++ "\r\n".toList

/-- The prompt. -/
def promptText : List Char := "tcs> ".toList

theorem receiptText_ne_rejectedText (r : AdminReceipt) (status : AdminStatus) (x y : List Char) :
    receiptText r ++ x ≠ rejectedText status ++ y := by
  unfold receiptText rejectedText
  simp

theorem packetReply_receipt (t : Terminal) {command : AdminCommand} {reply : Message}
    {r : AdminReceipt} (hd : adminReceiptDecode reply = some r)
    (hv : adminReceiptValid command r = true) :
    t.packetReply command reply = t.append (receiptText r) := by
  unfold Terminal.packetReply receiptText
  rw [hd, Option.filter_some_pos hv]
  simp only [Terminal.decimal_eq, Terminal.append_append, decimalText]

theorem packetReply_rejected (t : Terminal) (command : AdminCommand) (mr : Registers)
    {status : AdminStatus} (h1 : status ≠ .accepted) (h2 : status ≠ .badCompletion)
    (noise : Registers) :
    t.packetReply command ((adminAdmissionReply mr status).deliver noise) =
      t.append (rejectedText status) := by
  have hw : ((adminAdmissionReply mr status).deliver noise).mr 0 = status.word := by
    rw [Message.deliver_mr noise (show 0 < 1 by decide)]
    simp [adminAdmissionReply, Registers.set_apply]
  have hdecode : adminReceiptDecode ((adminAdmissionReply mr status).deliver noise) = none :=
    if_pos (Or.inl (by simp [adminAdmissionReply]))
  have hrange : status.word > AdminStatus.accepted.word ∧
      status.word ≤ AdminStatus.badCompletion.word ∧
      status.word ≠ AdminStatus.badCompletion.word := by
    cases status <;> simp_all [AdminStatus.word]
  unfold Terminal.packetReply rejectedText
  rw [hdecode, hw]
  simp only [Option.filter_none]
  rw [if_pos ⟨rfl, rfl, hrange.1, hrange.2.1⟩, if_neg hrange.2.2]
  simp only [Terminal.decimal_eq, Terminal.append_append, decimalText]

/-- The terminal that has printed `text` and waits for the next line. -/
def Terminal.finished (t : Terminal) (text : List Char) : Terminal :=
  { t with
    line := { Line.zero with previousCr := t.signedInput.previousCr }
    signedInput := signedDiscard
    packetMode := false
    output := text ++ promptText }

/-- A line that fits into the empty buffer is printed with the prompt. -/
theorem finishPacket_ready {σ : Type*} (administrator : Peer σ) (mr : Registers) (peer : σ)
    {t : Terminal} {text : List Char} (ht : t.output = []) (hl : text.length + 5 ≤ outputBytes)
    (hr : t.packetReply (signedCommand t.signedInput.packet.toList) (administrator peer
      ⟨Label.adminSubmit, adminPacketWords, wordsFromBytes mr t.signedInput.packet.toList⟩).1 =
        t.append text) :
    finishPacket administrator mr .ready t peer = (t.finished text, (administrator peer
      ⟨Label.adminSubmit, adminPacketWords, wordsFromBytes mr t.signedInput.packet.toList⟩).2) := by
  have hp : promptText.length = 5 := rfl
  have h1 : t.append text = { t with output := text } := by
    rw [Terminal.append_eq text t (by rw [ht, List.length_nil]; omega), ht, List.nil_append]
  unfold finishPacket
  dsimp only
  rw [hr, h1, Terminal.append_eq _ _ (by show text.length + promptText.length ≤ _; omega)]
  rfl

theorem length_receiptText (r : AdminReceipt) : (receiptText r).length + 5 ≤ outputBytes := by
  have h1 := length_toDigits r.command.sequence
  have h2 := length_toDigits r.decision
  have h3 := length_toDigits r.auditOk
  have h4 := length_toDigits r.applied
  have h5 := length_toDigits r.post.state
  have h6 := length_toDigits r.post.generation
  unfold receiptText decimalText
  simp only [List.length_append, String.reduceToList, List.length_cons, List.length_nil, outputBytes]
  omega

theorem length_rejectedText (status : AdminStatus) :
    (rejectedText status).length + 5 ≤ outputBytes := by
  have h := length_toDigits status.word
  unfold rejectedText decimalText
  simp only [List.length_append, String.reduceToList, List.length_cons, List.length_nil, outputBytes]
  omega

end Tcs
