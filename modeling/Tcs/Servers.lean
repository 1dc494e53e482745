/-
# The audit, storage and client servers

`servers/audit.c` keeps the first 64 decisions it is given. `servers/storage.c`
and `servers/client.c` carry the client's reads and status queries to the
policy's storage channel; they have no state of their own, so each is a peer
over the state of the server it calls.

Key definitions: `AuditLog`, `auditProtected`, `storageProtected`,
`clientProtected`.
Key theorems: `recordDecision_audit`, `keeps_client`.
-/
import Tcs.AdminPolicy

namespace Tcs

open Ipc

/-! ### The audit server -/

/-- `records` and `count`: the records that are in use. -/
structure AuditLog where
  records : List (Fin 7 → UInt64)
  bound : records.length ≤ auditCapacity

/-- The log as it is loaded. -/
def AuditLog.empty : AuditLog := ⟨[], Nat.zero_le _⟩

/-- The log with one more record, if there is room. -/
def AuditLog.record (log : AuditLog) (fields : Fin 7 → UInt64) : AuditLog :=
  if h : log.records.length < auditCapacity then
    ⟨log.records ++ [fields], by rw [List.length_append, List.length_singleton]; exact h⟩
  else log

/-- `protected`. -/
def auditProtected (ch : ℕ) : Peer AuditLog := fun log m =>
  let count := log.records.length
  if ch = 1 ∧ tcsMessage m Op.auditCount 0 then
    (tcsReply m.mr ⟨Status.ok, UInt64.ofNat count⟩, log)
  else if ch = 1 ∧ tcsMessage m Op.auditGet 1 then
    let index := m.mr 0
    match log.records[index.toNat]? with
    | none => (tcsReply m.mr ⟨Status.denied, 0⟩, log)
    | some fields =>
      let mr := (List.finRange 7).foldl (fun mr i => mr.set (i.val + 1) (fields i))
        (m.mr.set 0 (index + 1))
      (⟨tcsLabel Op.auditGet, 8, mr⟩, log)
  else if ch ≠ 0 then (tcsReply m.mr ⟨Status.denied, 0⟩, log)
  else if !tcsMessage m Op.auditAppend 7 then (tcsReply m.mr ⟨Status.badMessage, 0⟩, log)
  else if count = auditCapacity then (tcsReply m.mr ⟨Status.auditFull, 0⟩, log)
  else (tcsReply m.mr ⟨Status.ok, UInt64.ofNat (count + 1)⟩, log.record fun i => m.mr i)

/-- The record of a decision. -/
def decisionRecord (r : Request) (actor : Actor) (decision : Result) : Fin 7 → UInt64 :=
  ![r.op, actor.word, r.subject, r.object, r.rights, r.generation, decision.status]

theorem decisionWords_deliver (mr : Registers) (r : Request) (actor : Actor) (decision : Result)
    (noise : Registers) :
    (fun i : Fin 7 => ((⟨tcsLabel Op.auditAppend, 7, decisionWords mr r actor decision⟩ :
      Message).deliver noise).mr i) = decisionRecord r actor decision := by
  funext i
  rw [Message.deliver_mr noise (show i.val < 7 from i.isLt)]
  fin_cases i <;> simp [decisionWords, decisionRecord, Registers.set_apply]

/-- There is room for a record. -/
def AuditLog.room (log : AuditLog) : Bool := log.records.length < auditCapacity

/-- What the audit answers to a decision: the number of its record, or that it is full. -/
def AuditLog.appended (log : AuditLog) : Result :=
  if log.records.length < auditCapacity then ⟨Status.ok, UInt64.ofNat (log.records.length + 1)⟩
  else ⟨Status.auditFull, 0⟩

theorem AuditLog.appended_ok (log : AuditLog) :
    decide (log.appended.status = Status.ok) = log.room := by
  unfold AuditLog.appended AuditLog.room
  by_cases h : log.records.length < auditCapacity
  · rw [if_pos h]
    simp [h]
  · rw [if_neg h]
    simp [h]

/-- **A decision that is put before the audit.** -/
theorem auditAppend_eq (noise : Noise) (log : AuditLog) (mr : Registers) (r : Request) (actor : Actor)
    (decision : Result) :
    let out := ppcall noise (auditProtected 0) log
      ⟨tcsLabel Op.auditAppend, 7, decisionWords mr r actor decision⟩
    tcsResponse out.1 = log.appended ∧ out.2 = log.record (decisionRecord r actor decision) := by
  have hm : tcsMessage ((⟨tcsLabel Op.auditAppend, 7, decisionWords mr r actor decision⟩ :
      Message).deliver noise.callee) Op.auditAppend 7 = true := by
    simp [tcsMessage]
  have hb := log.bound
  unfold ppcall auditProtected AuditLog.appended
  dsimp only
  rw [if_neg (by simp), if_neg (by simp), if_neg (by simp), if_neg (by simpa using hm)]
  by_cases hfull : log.records.length = auditCapacity
  · rw [if_pos hfull, if_neg (by omega)]
    refine ⟨tcsResponse_reply _ _ _, ?_⟩
    rw [AuditLog.record, dif_neg (by omega)]
  · rw [if_neg hfull, if_pos (by omega)]
    exact ⟨tcsResponse_reply _ _ _, by rw [decisionWords_deliver]⟩

/-- **The audit acknowledges a decision exactly when it has room for it, and then keeps it.** -/
theorem recordDecision_audit (noise : Noise) (log : AuditLog) (mr : Registers) (r : Request)
    (actor : Actor) (decision : Result) :
    (recordDecision (ppcall noise (auditProtected 0)) log mr r actor decision).1 =
        decide (log.records.length < auditCapacity) ∧
      (recordDecision (ppcall noise (auditProtected 0)) log mr r actor decision).2.2 =
        log.record (decisionRecord r actor decision) := by
  obtain ⟨h1, h2⟩ := auditAppend_eq noise log mr r actor decision
  unfold recordDecision
  refine ⟨?_, h2⟩
  dsimp only
  rw [h1]
  unfold AuditLog.appended
  by_cases hroom : log.records.length < auditCapacity
  · have hle : (UInt64.ofNat (log.records.length + 1)).toNat = log.records.length + 1 := by
      rw [UInt64.toNat_ofNat']
      simp only [auditCapacity] at hroom
      omega
    have h1 : UInt64.ofNat (log.records.length + 1) ≥ 1 := by
      rw [ge_iff_le, UInt64.le_iff_toNat_le, hle, UInt64.toNat_one]
      omega
    have h2 : UInt64.ofNat (log.records.length + 1) ≤ UInt64.ofNat auditCapacity := by
      rw [UInt64.le_iff_toNat_le, hle]
      exact hroom
    rw [if_pos hroom]
    simp only [h1, h2, hroom, and_self]
  · rw [if_neg hroom]
    simp [hroom]

/-! ### The client's path -/

/-- The uncounted registers on the way to the audit: of the first, the second and the third
call. -/
structure Hops where
  first : Noise
  second : Noise
  third : Noise

section

variable {σ : Type*}

/-- `servers/storage.c`, `protected`. -/
def storageProtected (policy : Peer σ) (ch : ℕ) : Peer σ := fun t m =>
  if ch ≠ 0 then (tcsReply m.mr ⟨Status.denied, 0⟩, t)
  else if tcsMessage m Op.storeStatus 0 then policy t ⟨tcsLabel Op.selfStatus, 0, m.mr⟩
  else if !tcsMessage m Op.storeRead 3 then (tcsReply m.mr ⟨Status.badMessage, 0⟩, t)
  else
    -- channel 0 is the client, subject 1, whatever the payload says
    let r : Request := ⟨Op.check, 1, m.mr 0, m.mr 1, m.mr 2⟩
    let mr := (((m.mr.set 0 r.subject).set 1 r.object).set 2 r.rights).set 3 r.generation
    let out := policy t ⟨tcsLabel r.op, 4, mr⟩
    let decision := tcsResponse out.1
    let value := if decision.status = Status.ok then tcsSample else 0
    (tcsReply out.1.mr ⟨decision.status, value⟩, out.2)

/-- `servers/client.c`, `protected`. -/
def clientProtected (storage : Peer σ) (ch : ℕ) : Peer σ := fun t m =>
  if ch ≠ 0 then (tcsReply m.mr ⟨Status.denied, 0⟩, t)
  else if tcsMessage m Op.clientStatus 0 then storage t ⟨tcsLabel Op.storeStatus, 0, m.mr⟩
  else if tcsMessage m Op.clientBadLength 0 then storage t ⟨tcsLabel Op.storeRead, 0, m.mr⟩
  else if tcsMessage m Op.clientTryGrant 0 then storage t ⟨tcsLabel Op.grant, 0, m.mr⟩
  else if !tcsMessage m Op.clientRead 3 then (tcsReply m.mr ⟨Status.badMessage, 0⟩, t)
  else storage t ⟨tcsLabel Op.storeRead, 3, m.mr⟩

theorem keeps_storage {α : Type*} {f : σ → α} {policy : Peer σ} (h : Keeps f policy) (ch : ℕ) :
    Keeps f (storageProtected policy ch) := by
  intro t m
  unfold storageProtected
  dsimp only
  split_ifs
  · rfl
  · exact h _ _
  · rfl
  -- with the sample and without it
  · exact h _ _
  · exact h _ _

theorem keeps_client {α : Type*} {f : σ → α} {storage : Peer σ} (h : Keeps f storage) (ch : ℕ) :
    Keeps f (clientProtected storage ch) := by
  intro t m
  unfold clientProtected
  split_ifs
  · rfl
  · exact h _ _
  · exact h _ _
  · exact h _ _
  · rfl
  · exact h _ _

/-! ### What the client's path asks of the policy -/

/-- The client server, the storage server behind it and the policy behind that. -/
def clientPath (first second : Noise) (policy : Peer σ) : Peer σ :=
  clientProtected (ppcall first (storageProtected (ppcall second policy) 0)) 0

variable (first second : Noise) (policy : Peer σ) {m : Message}

theorem tcsMessage_label {op : UInt64} {n : ℕ} (h : tcsMessage m op n = true) :
    m.label = tcsLabel op ∧ m.count = n := by
  simpa [tcsMessage] using h

theorem tcsMessage_of_ne {op : UInt64} (n : ℕ) (h : m.label ≠ tcsLabel op) :
    tcsMessage m op n = false := by
  simp [tcsMessage, h]

theorem tcsReply_view (mr : Registers) (r : Result) :
    (tcsReply mr r).view = (Label.reply, [r.status, r.value]) := by
  simp [Message.view, tcsReply, Registers.set_apply, List.range_succ]

/-- A response is read from counted words only. -/
theorem tcsResponse_deliver (m : Message) (noise : Registers) :
    tcsResponse (m.deliver noise) = tcsResponse m := by
  unfold tcsResponse
  rw [Message.deliver_label, Message.deliver_count]
  by_cases h : m.label ≠ Label.reply ∨ m.count ≠ 2
  · rw [if_pos h, if_pos h]
  · rw [if_neg h, if_neg h]
    simp only [not_or, not_not] at h
    rw [Message.deliver_mr noise (by omega), Message.deliver_mr noise (by omega)]

/-- The words of a read, whatever the result. -/
def readReply (decision : Result) : UInt64 × List UInt64 :=
  (Label.reply, [decision.status, if decision.status = Status.ok then tcsSample else 0])

theorem storageProtected_read (h : tcsMessage m Op.storeRead 3 = true) (t : σ) :
    ∃ mr : Registers, (mr 0 = 1 ∧ mr 1 = m.mr 0 ∧ mr 2 = m.mr 1 ∧ mr 3 = m.mr 2) ∧
      (storageProtected policy 0 t m).2 = (policy t ⟨tcsLabel Op.check, 4, mr⟩).2 ∧
      (storageProtected policy 0 t m).1.view =
        readReply (tcsResponse (policy t ⟨tcsLabel Op.check, 4, mr⟩).1) := by
  have hl := (tcsMessage_label h).1
  unfold storageProtected
  rw [if_neg (by simp), if_neg (by rw [tcsMessage_of_ne 0 (by rw [hl]; decide)]; decide),
    if_neg (by rw [h]; decide)]
  refine ⟨(((m.mr.set 0 1).set 1 (m.mr 0)).set 2 (m.mr 1)).set 3 (m.mr 2), ?_, rfl,
    tcsReply_view _ _⟩
  simp [Registers.set_apply]

theorem clientPath_status (h : tcsMessage m Op.clientStatus 0 = true) (t : σ) :
    ∃ mr, (clientPath first second policy t m).2 = (policy t ⟨tcsLabel Op.selfStatus, 0, mr⟩).2 ∧
      (clientPath first second policy t m).1.view =
        (policy t ⟨tcsLabel Op.selfStatus, 0, mr⟩).1.view := by
  unfold clientPath clientProtected
  rw [if_neg (by simp), if_pos h, ppcall_eq]
  unfold storageProtected
  rw [if_neg (by simp), if_pos (by simp [tcsMessage]), ppcall_eq]
  exact ⟨_, rfl, by simp only [Message.deliver_view]; rfl⟩

theorem clientPath_read (h : tcsMessage m Op.clientRead 3 = true) (t : σ) :
    ∃ mr : Registers, (mr 0 = 1 ∧ mr 1 = m.mr 0 ∧ mr 2 = m.mr 1 ∧ mr 3 = m.mr 2) ∧
      (clientPath first second policy t m).2 = (policy t ⟨tcsLabel Op.check, 4, mr⟩).2 ∧
      (clientPath first second policy t m).1.view =
        readReply (tcsResponse (policy t ⟨tcsLabel Op.check, 4, mr⟩).1) := by
  have hl := (tcsMessage_label h).1
  unfold clientPath clientProtected
  rw [if_neg (by simp), if_neg (by rw [tcsMessage_of_ne 0 (by rw [hl]; decide)]; decide),
    if_neg (by rw [tcsMessage_of_ne 0 (by rw [hl]; decide)]; decide),
    if_neg (by rw [tcsMessage_of_ne 0 (by rw [hl]; decide)]; decide), if_neg (by rw [h]; decide)]
  have hread : tcsMessage ((⟨tcsLabel Op.storeRead, 3, m.mr⟩ : Message).deliver first.callee)
      Op.storeRead 3 = true := by
    simp [tcsMessage]
  obtain ⟨mr, ⟨h0, h1, h2, h3⟩, hs, hv⟩ :=
    storageProtected_read (ppcall second policy) hread t
  have hkeep : ∀ i < 3, ((⟨tcsLabel Op.storeRead, 3, m.mr⟩ : Message).deliver first.callee).mr i =
      m.mr i := fun i hi => Message.deliver_mr _ hi
  rw [hkeep _ (by omega)] at h1 h2 h3
  have hlt : ∀ i < 4, ((⟨tcsLabel Op.check, 4, mr⟩ : Message).deliver second.callee).mr i = mr i :=
    fun i hi => Message.deliver_mr _ hi
  refine ⟨((⟨tcsLabel Op.check, 4, mr⟩ : Message).deliver second.callee).mr, ?_, ?_, ?_⟩
  · rw [hlt 0 (by omega), hlt 1 (by omega), hlt 2 (by omega), hlt 3 (by omega)]
    exact ⟨h0, h1, h2, h3⟩
  · rw [ppcall_eq]
    exact hs
  · rw [ppcall_eq, Message.deliver_view, hv, ppcall_eq, tcsResponse_deliver]
    rfl

/-- Any other message goes no further than the storage server. -/
theorem clientPath_other (hs : tcsMessage m Op.clientStatus 0 = false)
    (hr : tcsMessage m Op.clientRead 3 = false) (t : σ) :
    (clientPath first second policy t m).2 = t ∧
      (clientPath first second policy t m).1.view = (Label.reply, [Status.badMessage, 0]) := by
  have hbad : ∀ op, tcsLabel op ≠ tcsLabel Op.storeStatus →
      ppcall first (storageProtected (ppcall second policy) 0) t ⟨tcsLabel op, 0, m.mr⟩ =
        ((tcsReply ((⟨tcsLabel op, 0, m.mr⟩ : Message).deliver first.callee).mr
          ⟨Status.badMessage, 0⟩).deliver first.caller, t) := by
    intro op hop
    rw [ppcall_eq]
    unfold storageProtected
    rw [if_neg (by simp), if_neg (by rw [tcsMessage_of_ne 0 hop]; decide),
      if_pos (by simp [tcsMessage])]
  unfold clientPath clientProtected
  rw [if_neg (by simp), if_neg (by rw [hs]; decide)]
  split_ifs with h1 h2 h3
  · rw [hbad _ (by decide)]
    exact ⟨rfl, by rw [Message.deliver_view, tcsReply_view]⟩
  · rw [hbad _ (by decide)]
    exact ⟨rfl, by rw [Message.deliver_view, tcsReply_view]⟩
  · exact ⟨rfl, tcsReply_view _ _⟩
  · rw [hr] at h3
    exact absurd rfl h3

end

end Tcs
