/-
# Terminal, administrator, policy and audit

The signed image: packets typed at the terminal go to the administrator,
from there to the policy server and its audit; the client's reads and status
queries reach the same policy server through the storage server. Every call
carries its counted words only, and every party finds arbitrary words in its
other registers.

Between submissions the two counters agree and nothing is pending (`Synced`),
so the policy executes whatever the administrator admits, its receipt passes
the two validators on the way back, and the terminal prints it.

Key definitions: `SignedSystem`, `signedStep`, `Synced`, `Submission`.
Key theorems: `policyCall_execute`, `adminCall_admitted`, `Synced.step`,
`end_to_end_agreement`.
-/
import Tcs.Admission
import Tcs.Servers
import Tcs.Terminal

namespace Tcs

open Ipc

/-! ### The system -/

/-- The servers that have a state. -/
structure SignedSystem where
  terminal : Terminal
  admin : Admin
  policy : PolicyServer
  audit : AuditLog

/-- A packet is submitted from a terminal in packet mode, whose registers hold `mr`, or a message is
sent to the client's channel 0. -/
inductive SignedCall
  | submit (input : SignedInput) (line : Line) (mr : Registers) (hops : Hops)
  | client (m : Message) (hops : Hops)

/-- The terminal as `finish_packet` finds it: in packet mode, with its output flushed. -/
def Terminal.entered (t : Terminal) (input : SignedInput) (line : Line) : Terminal :=
  { t with line := line, signedInput := input, packetMode := true, output := [] }

/-- The policy server with its audit, as it is called on channel `ch`. -/
def policyCall (hops : Hops) (ch : ℕ) : Peer (PolicyServer × AuditLog) :=
  ppcall hops.second (adminPolicyProtected (ppcall hops.third (auditProtected 0)) ch)

section

variable (check : List UInt8 → List UInt8 → List UInt8 → Bool)

/-- The administrator with what it calls, as the terminal calls it. -/
def adminCall (hops : Hops) : Peer (Admin × PolicyServer × AuditLog) :=
  ppcall hops.first (adminServerRequest check (policyCall hops 0) 0)

/-- One call: the system after it and what the terminal printed. The service loop of the terminal
flushes its output before it finishes a packet, and does nothing once it has failed. -/
def signedStep (s : SignedSystem) : SignedCall → SignedSystem × List Char
  | .submit input line mr hops =>
    if s.terminal.failed then (s, [])
    else
      let out := finishPacket (adminCall check hops) mr .ready (s.terminal.entered input line)
        (s.admin, s.policy, s.audit)
      (⟨out.1, out.2.1, out.2.2.1, out.2.2.2⟩, out.1.output)
  | .client m hops =>
    let storage := ppcall hops.first (storageProtected (policyCall hops 1) 0)
    let out := clientProtected storage 0 (s.policy, s.audit) m
    ({ s with policy := out.2.1, audit := out.2.2 }, [])

/-- The system as it starts: the policy is ready, the administrator is set up or not. -/
def SignedSystem.start (config : Option (Vector UInt8 32 × Vector UInt8 32 × Vector UInt8 32)) :
    SignedSystem :=
  let admin :=
    match config with
    | none => Admin.zero
    | some (key, realm, boot) => (adminInit Admin.zero key realm boot).2
  ⟨Terminal.zero, admin, PolicyServer.start.init, AuditLog.empty⟩

end

/-! ### An admitted command -/

theorem tableOk_execute {p : Policy} (h : TableOk p) (c : AdminCommand) (b : Bool) :
    TableOk (adminExecute p c b).2 := tableOk_step h ⟨.admin, .conditional c, b⟩

/-- The audit log after the decision on a command. -/
def AuditLog.decided (log : AuditLog) (p : Policy) (c : AdminCommand) : AuditLog :=
  log.record (decisionRecord c.request .admin (policyAdminCompareApply p .admin c).1)

/-- **The policy executes a command in its turn**, with the audit's answer, and its receipt
arrives. -/
theorem policyCall_execute {s : PolicyServer} (log : AuditLog) {c : AdminCommand} (hops : Hops)
    (mr : Registers) (hr : s.ready = true) (hx : Executable c) (he : s.executionExhausted = false)
    (hq : c.sequence = s.executionSequence) :
    let out := policyCall hops 0 (s, log) (executionMessage mr c)
    adminReceiptDecode out.1 = some (adminExecute s.live c log.room).1 ∧
      out.2 = ({ s.consumed with live := (adminExecute s.live c log.room).2 },
        log.decided s.live c) := by
  have hfrom := executionFromWords_deliver mr hx.generation hops.second.callee
  have hexec := adminPolicy_execute (ppcall hops.third (auditProtected 0)) log
    (m := (executionMessage mr c).deliver hops.second.callee) hr rfl rfl (by rw [hfrom]; exact hx) he
    (by rw [hfrom]; exact hq)
  simp only [hfrom] at hexec
  obtain ⟨haudit, hlog⟩ := recordDecision_audit hops.third log
    ((executionMessage mr c).deliver hops.second.callee).mr c.request .admin
    (policyAdminCompareApply s.live .admin c).1
  unfold policyCall
  rw [ppcall_eq, hexec, haudit, hlog]
  refine ⟨?_, rfl⟩
  exact adminReceiptDecode_reply _ (show c.request.generation = 0 from hx.generation) rfl _

variable {check : List UInt8 → List UInt8 → List UInt8 → Bool}

/-- The message that the terminal submits for a packet. -/
def submission (mr : Registers) (packet : List UInt8) : Message :=
  ⟨Label.adminSubmit, adminPacketWords, wordsFromBytes mr packet⟩

theorem bytesFromWords_submission (mr : Registers) {packet : List UInt8}
    (hp : packet.length = adminPacketBytes) (noise : Registers) :
    bytesFromWords ((submission mr packet).deliver noise).mr adminPacketBytes = packet :=
  bytesFromWords_deliver mr (n := adminPacketWords) hp _ noise

theorem submitted_submission (a : Admin) (mr : Registers) {packet : List UInt8}
    (hp : packet.length = adminPacketBytes) (noise : Registers) :
    Submitted check a ((submission mr packet).deliver noise) ↔ Admits check a packet := by
  unfold Submitted
  rw [bytesFromWords_submission mr hp]
  exact ⟨fun h => h.2.2, fun h => ⟨rfl, rfl, h⟩⟩

/-! ### The counters agree -/

/-- Between calls nothing is pending, the administrator and the policy count alike, the table is
well formed and the terminal is running. -/
structure Synced (s : SignedSystem) : Prop where
  idle : s.admin.pendingSequence = 0
  sequence : s.admin.initialized = true → s.admin.nextSequence = s.policy.executionSequence
  exhausted : s.admin.initialized = true → s.admin.exhausted = s.policy.executionExhausted
  ready : s.policy.ready = true
  table : TableOk s.policy.live
  running : s.terminal.failed = false

/-- The administrator after a completed command. -/
def Admin.completed (a : Admin) : Admin := { a.consumed with pendingSequence := 0 }

/-- **An admitted packet is executed and its receipt reaches the terminal.** -/
theorem adminCall_admitted {s : SignedSystem} (hs : Synced s) (hops : Hops) (mr : Registers)
    {packet : List UInt8} (hp : packet.length = adminPacketBytes) (ha : Admits check s.admin packet) :
    let c := packetCommand packet
    let x := adminExecute s.policy.live c s.audit.room
    let out := adminCall check hops (s.admin, s.policy, s.audit) (submission mr packet)
    adminReceiptDecode out.1 = some x.1 ∧ adminReceiptValid c x.1 = true ∧
      out.2 = (s.admin.completed, { s.policy.consumed with live := x.2 },
        s.audit.decided s.policy.live c) := by
  have hx : Executable (packetCommand packet) := ha.signed.command
  have hvalid := hx.receiptValid s.audit.room (hs.table (subjectIx (packetCommand packet).request.subject))
  have hsub := (submitted_submission s.admin mr hp hops.first.callee).mpr ha
  have hmessage := bytesFromWords_submission mr hp hops.first.callee
  obtain ⟨hdecode, hstate⟩ := policyCall_execute s.audit hops
    ((submission mr packet).deliver hops.first.callee).mr hs.ready hx
    (by rw [← hs.exhausted ha.initialized, ha.notExhausted])
    (by rw [ha.next, hs.sequence ha.initialized])
  have hserver := adminServer_submitted (policyCall hops 0) hsub (s.policy, s.audit)
  unfold forwardedMessage at hserver
  simp only [hmessage, hdecode, hvalid, hstate, Bool.not_true, Bool.false_eq_true, if_false]
    at hserver
  unfold adminCall
  dsimp only
  rw [ppcall_eq, hserver]
  refine ⟨?_, hvalid, rfl⟩
  exact adminReceiptDecode_reply _ (show (packetCommand packet).request.generation = 0 from rfl) rfl _

theorem adminCall_rejected (s : SignedSystem) (hops : Hops) (mr : Registers)
    {packet : List UInt8} (hp : packet.length = adminPacketBytes)
    (ha : ¬ Admits check s.admin packet) :
    ∃ status mr', status ≠ .accepted ∧ status ≠ .badCompletion ∧
      adminCall check hops (s.admin, s.policy, s.audit) (submission mr packet) =
        ((adminAdmissionReply mr' status).deliver hops.first.caller, s.admin, s.policy, s.audit) := by
  have hsub := (not_congr (submitted_submission s.admin mr hp hops.first.callee)).mpr ha
  obtain ⟨status, h1, h2, h3⟩ := adminServer_rejected (policyCall hops 0) hsub
    (s.policy, s.audit)
  refine ⟨status, ((submission mr packet).deliver hops.first.callee).mr, h1, h2, ?_⟩
  unfold adminCall
  rw [ppcall_eq, h3]

/-! ### One submission -/

theorem signedStep_submit {s : SignedSystem} (hr : s.terminal.failed = false) (input : SignedInput)
    (line : Line) (mr : Registers) (hops : Hops) :
    signedStep check s (.submit input line mr hops) =
      let out := finishPacket (adminCall check hops) mr .ready (s.terminal.entered input line)
        (s.admin, s.policy, s.audit)
      (⟨out.1, out.2.1, out.2.2.1, out.2.2.2⟩, out.1.output) :=
  if_neg (by rw [hr]; decide)

theorem signedStep_admitted {s : SignedSystem} (hs : Synced s) {input : SignedInput} (line : Line)
    (mr : Registers) (hops : Hops) (ha : Admits check s.admin input.packet.toList) :
    let c := packetCommand input.packet.toList
    let x := adminExecute s.policy.live c s.audit.room
    signedStep check s (.submit input line mr hops) =
      (⟨(s.terminal.entered input line).finished (receiptText x.1), s.admin.completed,
        { s.policy.consumed with live := x.2 }, s.audit.decided s.policy.live c⟩,
        receiptText x.1 ++ promptText) := by
  obtain ⟨hdecode, hvalid, hstate⟩ := adminCall_admitted hs hops mr (by simp) ha
  have hready := finishPacket_ready (adminCall check hops) mr (s.admin, s.policy, s.audit)
    (t := s.terminal.entered input line) rfl
    (length_receiptText _) (packetReply_receipt _ hdecode hvalid)
  rw [signedStep_submit hs.running, hready]
  unfold submission at hstate
  dsimp only [Terminal.entered] at hstate ⊢
  rw [hstate]
  rfl

theorem signedStep_rejected {s : SignedSystem} (hs : Synced s) {input : SignedInput} (line : Line)
    (mr : Registers) (hops : Hops) (ha : ¬ Admits check s.admin input.packet.toList) :
    ∃ status, signedStep check s (.submit input line mr hops) =
      (⟨(s.terminal.entered input line).finished (rejectedText status), s.admin, s.policy, s.audit⟩,
        rejectedText status ++ promptText) := by
  obtain ⟨status, mr', h1, h2, hcall⟩ := adminCall_rejected s hops mr (by simp) ha
  unfold submission at hcall
  have hready := finishPacket_ready (adminCall check hops) mr (s.admin, s.policy, s.audit)
    (t := s.terminal.entered input line) rfl
    (length_rejectedText status)
    (by rw [Terminal.entered, hcall]; exact packetReply_rejected _ _ mr' h1 h2 _)
  refine ⟨status, ?_⟩
  rw [signedStep_submit hs.running, hready]
  dsimp only [Terminal.entered]
  rw [hcall]
  rfl

theorem signedStep_client (s : SignedSystem) (m : Message) (hops : Hops) :
    (signedStep check s (.client m hops)).1 =
      { s with audit := (signedStep check s (.client m hops)).1.audit } := by
  have hpolicy : Keeps (fun s : PolicyServer × AuditLog => s.1) (policyCall hops 1) :=
    Keeps.ppcall (fun s m => adminPolicy_storage _ s.1 s.2 m) hops.second
  have hclient := keeps_client ((keeps_storage hpolicy 0).ppcall hops.first) 0 (s.policy, s.audit) m
  dsimp only [signedStep]
  rw [hclient]

theorem consumed_agree {a : Admin} {s : PolicyServer} (hn : a.nextSequence = s.executionSequence)
    (he : a.exhausted = s.executionExhausted) :
    a.consumed.nextSequence = s.consumed.executionSequence ∧
      a.consumed.exhausted = s.consumed.executionExhausted := by
  unfold Admin.consumed PolicyServer.consumed
  rw [← hn, ← he]
  split_ifs
  · exact ⟨rfl, rfl⟩
  · exact ⟨rfl, rfl⟩

/-- Every call keeps the system in step. -/
theorem Synced.step {s : SignedSystem} (hs : Synced s)
    (check : List UInt8 → List UInt8 → List UInt8 → Bool) (x : SignedCall) :
    Synced (signedStep check s x).1 := by
  cases x with
  | client m hops =>
    rw [signedStep_client]
    exact ⟨hs.idle, hs.sequence, hs.exhausted, hs.ready, hs.table, hs.running⟩
  | submit input line mr hops =>
    by_cases ha : Admits check s.admin input.packet.toList
    · rw [signedStep_admitted hs line mr hops ha]
      obtain ⟨h1, h2⟩ := consumed_agree (hs.sequence ha.initialized) (hs.exhausted ha.initialized)
      refine ⟨rfl, fun _ => h1, fun _ => h2, ?_, tableOk_execute hs.table _ _, hs.running⟩
      rw [PolicyServer.consumed_ready, hs.ready]
    · obtain ⟨status, h⟩ := signedStep_rejected hs line mr hops ha
      rw [h]
      exact ⟨hs.idle, hs.sequence, hs.exhausted, hs.ready, hs.table, hs.running⟩

theorem synced_start (config : Option (Vector UInt8 32 × Vector UInt8 32 × Vector UInt8 32)) :
    Synced (SignedSystem.start config) := by
  have htable : TableOk Policy.zero := fun _ => Or.inr ⟨Or.inl rfl, rfl, rfl⟩
  cases config with
  | none =>
    refine ⟨rfl, fun h => ?_, fun h => ?_, rfl, htable, rfl⟩ <;> cases h
  | some config =>
    obtain ⟨key, realm, boot⟩ := config
    unfold SignedSystem.start
    dsimp only
    rcases adminInit_zero key realm boot with h | h <;> rw [h]
    · refine ⟨rfl, fun h => ?_, fun h => ?_, rfl, htable, rfl⟩ <;> cases h
    · exact ⟨rfl, fun _ => rfl, fun _ => rfl, rfl, htable, rfl⟩

/-- The history of a run. -/
abbrev SignedEntry := Run.Entry SignedSystem SignedCall (List Char)

/-- What a submission of `packet` did: the system is idle and its counters agree; an admitted packet
was executed once, on the table and the audit log it met, and its receipt was printed with the
subject that the commit left; a packet that was not admitted changed nothing and was printed as
rejected. -/
structure Submission (check : List UInt8 → List UInt8 → List UInt8 → Bool) (e : SignedEntry)
    (packet : List UInt8) : Prop where
  idle : e.post.admin.pendingSequence = 0
  counters : e.post.admin.initialized = true →
    e.post.admin.nextSequence = e.post.policy.executionSequence ∧
      e.post.admin.exhausted = e.post.policy.executionExhausted
  receipt : (∃ r, e.output = receiptText r ++ promptText) ↔
    (adminAdmit check e.pre.admin packet).1 = .accepted
  rejected : (∃ status, e.output = rejectedText status ++ promptText) ↔
    (adminAdmit check e.pre.admin packet).1 ≠ .accepted
  executed : (adminAdmit check e.pre.admin packet).1 = .accepted →
    let c := packetCommand packet
    let x := adminExecute e.pre.policy.live c e.pre.audit.room
    e.output = receiptText x.1 ++ promptText ∧ e.post.policy.live = x.2 ∧
      e.post.audit = e.pre.audit.decided e.pre.policy.live c ∧
      x.1.command = c ∧ x.1.decision = (policyAdminCompareApply e.pre.policy.live .admin c).1.status ∧
      x.1.auditOk = e.pre.audit.room.toUInt64 ∧
      x.1.applied = (decide (x.1.decision = Status.ok ∧
        (e.pre.audit.room = true ∨ c.request.reduction = true))).toUInt64 ∧
      x.1.post = (e.post.policy.live.at c.request.subject).snapshot
  unchanged : (adminAdmit check e.pre.admin packet).1 ≠ .accepted →
    e.post.admin = e.pre.admin ∧ e.post.policy = e.pre.policy ∧ e.post.audit = e.pre.audit

/-- A submission to a system that is in step. -/
theorem Synced.submission {s : SignedSystem} (hs : Synced s) (input : SignedInput) (line : Line)
    (mr : Registers) (hops : Hops) :
    Submission check (Run.entry (signedStep check) s (.submit input line mr hops))
      input.packet.toList := by
  have hpost := hs.step check (.submit input line mr hops)
  have hcounters := fun hi => And.intro (hpost.sequence hi) (hpost.exhausted hi)
  by_cases ha : Admits check s.admin input.packet.toList
  · have hadmit := adminAdmit_accepted_iff.mpr ha
    have hstep := signedStep_admitted hs line mr hops ha
    dsimp only at hstep
    have hout := congrArg Prod.snd hstep
    refine ⟨hpost.idle, hcounters, ⟨fun _ => hadmit, fun _ => ⟨_, hout⟩⟩, ⟨?_, ?_⟩, fun _ => ?_, ?_⟩
    · rintro ⟨status, hr⟩
      exact absurd (hout.symm.trans hr) (receiptText_ne_rejectedText _ _ _ _)
    · exact fun hn => absurd hadmit hn
    · refine ⟨hout, ?_, ?_, rfl, rfl, rfl, rfl, ?_⟩
      all_goals simp only [Run.entry_post, Run.entry_pre, hstep]
      rfl
    · exact fun hn => absurd hadmit hn
  · have hadmit := (not_congr adminAdmit_accepted_iff).mpr ha
    obtain ⟨status, hstep⟩ := signedStep_rejected hs line mr hops ha
    have hout := congrArg Prod.snd hstep
    refine ⟨hpost.idle, hcounters, ⟨?_, fun h => absurd h hadmit⟩,
      ⟨fun _ => hadmit, fun _ => ⟨status, hout⟩⟩, fun h => absurd h hadmit, fun _ => ?_⟩
    · rintro ⟨r, hr⟩
      exact absurd (hr.symm.trans hout) (receiptText_ne_rejectedText _ _ _ _)
    · simp only [Run.entry_post, Run.entry_pre, hstep]
      exact ⟨trivial, trivial, trivial⟩

/-- **Terminal, administrator, policy and audit agree** after every submission of every run, whatever
the client asks in between and whatever the registers hold that a call does not carry. -/
theorem end_to_end_agreement (check : List UInt8 → List UInt8 → List UInt8 → Bool)
    (config : Option (Vector UInt8 32 × Vector UInt8 32 × Vector UInt8 32))
    (calls : List SignedCall) (e : SignedEntry)
    (he : e ∈ Run.trace (signedStep check) (SignedSystem.start config) calls)
    {input : SignedInput} {line : Line} {mr : Registers} {hops : Hops}
    (hi : e.input = .submit input line mr hops) : Submission check e input.packet.toList := by
  obtain ⟨before, x, after, -, rfl⟩ := Run.mem_trace he
  have hs : Synced (Run.final (signedStep check) (SignedSystem.start config) before) :=
    Run.final_induct (synced_start config) (fun _ x h => h.step check x) before
  obtain rfl : x = .submit input line mr hops := hi
  exact hs.submission input line mr hops

/-- The grant as it is typed. -/
def grantInput : SignedInput := ⟨⟨grantPacket.toArray, rfl⟩, 384, false, true, true⟩

/-- The grant is the first thing submitted: it is admitted, executed and printed. -/
theorem end_to_end_agreement_grant :
    let quiet : Noise := ⟨fun _ => 0, fun _ => 0⟩
    let start := SignedSystem.start
      (some (grantKey, Vector.replicate 32 1, Vector.replicate 32 2))
    let e := Run.entry (signedStep grantCheck) start
      (.submit grantInput Line.zero (fun _ => 0) ⟨quiet, quiet, quiet⟩)
    Submission grantCheck e grantInput.packet.toList ∧
      (adminAdmit grantCheck e.pre.admin grantInput.packet.toList).1 = .accepted ∧
      e.output =
        "ADMIN seq=1 decision=0 audit=1 applied=1 state=1 generation=1\r\ntcs> ".toList := by
  intro quiet start e
  have h : Submission grantCheck e grantInput.packet.toList :=
    end_to_end_agreement grantCheck _ [.submit grantInput Line.zero (fun _ => 0)
      ⟨quiet, quiet, quiet⟩] e (List.mem_singleton_self e) rfl
  have hadmit : (adminAdmit grantCheck e.pre.admin grantInput.packet.toList).1 = .accepted := by
    decide +kernel
  refine ⟨h, hadmit, ?_⟩
  rw [(h.executed hadmit).1]
  decide +kernel

end Tcs
