/-
# The two policy adapters

An image runs either `servers/policy.c` or `servers/admin_policy.c`, over the
same policy library and with the same `servers/audit.c` behind it. The second
numbers the administrator's commands and compares the generation that a
command expects, and keeps to the first in everything else: `legacy` reads
its statics as those of the first, and a message to the storage channel, or a
command in its turn that names the current generation of its subject, keeps
the two servers and their audits together.

Both sides are stated over `adapterCommit`, what an adapter does with a
request once it is evaluated; a receipt and a legacy reply are compared by
`SameOutcome`.

Key definitions: `legacyAdapter`, `conditionalAdapter`, `adapterCommit`,
`SameOutcome`.
Key theorems: `storage_channel_agrees`, `adminExecute_sameOutcome`,
`conditionalAdapter_execute`, `executionSequence_ne_zero`,
`conditional_refines_legacy`.
-/
import Tcs.ClientView

namespace Tcs

open Ipc

/-! ### The adapters over their audit -/

/-- `servers/policy.c` with the audit behind it, as it is called on channel `ch`. -/
def legacyAdapter (call audit : Noise) (ch : ℕ) : Peer (SeedPolicy × AuditLog) :=
  ppcall call (policyProtected (ppcall audit (auditProtected 0)) ch)

/-- `servers/admin_policy.c` with the audit behind it, as it is called on channel `ch`. -/
def conditionalAdapter (call audit : Noise) (ch : ℕ) : Peer (PolicyServer × AuditLog) :=
  ppcall call (adminPolicyProtected (ppcall audit (auditProtected 0)) ch)

/-- The statics of `servers/policy.c` with the same table. -/
def PolicyServer.legacy (s : PolicyServer) : SeedPolicy := ⟨s.live, s.ready⟩

/-- `tcs_policy_call`: the message of a request. -/
def policyMessage (mr : Registers) (r : Request) : Message :=
  ⟨tcsLabel r.op, 4, (((mr.set 0 r.subject).set 1 r.object).set 2 r.rights).set 3 r.generation⟩

/-- What an adapter does with a request that it evaluates for an actor: the answer, the table and
the log. -/
def adapterCommit (live : Policy) (log : AuditLog) (actor : Actor) (r : Request) :
    Result × Policy × AuditLog :=
  let candidate := policyApply live actor r
  let committed := policyCommit live candidate.2 r candidate.1 log.room
  (committed.1, committed.2, log.record (decisionRecord r actor candidate.1))

theorem policyProtected_commit {ch : ℕ} {s : SeedPolicy} {m : Message} (h : Evaluates ch s m)
    (noise : Noise) (log : AuditLog) :
    ∃ mr, policyProtected (ppcall noise (auditProtected 0)) ch (s, log) m =
      (tcsReply mr (adapterCommit s.live log (channelActor ch) (policyRequest m)).1,
        { s with live := (adapterCommit s.live log (channelActor ch) (policyRequest m)).2.1 },
        (adapterCommit s.live log (channelActor ch) (policyRequest m)).2.2) := by
  have heq := policyProtected_evaluated (ppcall noise (auditProtected 0)) h log
  obtain ⟨h1, h2⟩ := auditAppend_eq noise log m.mr (policyRequest m) (channelActor ch)
    (policyApply s.live (channelActor ch) (policyRequest m)).1
  dsimp only at heq h1 h2
  rw [h1, log.appended_ok, h2] at heq
  exact ⟨_, heq⟩

theorem adminPolicyProtected_commit {s : PolicyServer} {m : Message} (h : Evaluates 1 s.legacy m)
    (noise : Noise) (log : AuditLog) :
    ∃ mr, adminPolicyProtected (ppcall noise (auditProtected 0)) 1 (s, log) m =
      (tcsReply mr (adapterCommit s.live log .storage (policyRequest m)).1,
        { s with live := (adapterCommit s.live log .storage (policyRequest m)).2.1 },
        (adapterCommit s.live log .storage (policyRequest m)).2.2) := by
  obtain ⟨hr, -, hn, hlo, hhi⟩ := h
  obtain ⟨h1, h2⟩ := recordDecision_audit noise log m.mr (policyRequest m) .storage
    (policyApply s.live .storage (policyRequest m)).1
  have hready : ¬ ((!s.ready) = true ∨ ((1 : ℕ) ≠ 0 ∧ (1 : ℕ) ≠ 1)) := by
    rw [show s.ready = true from hr]
    simp
  have hself : m.label ≠ tcsLabel Op.selfStatus := by
    intro hl
    rw [hl] at hhi
    exact absurd hhi (by decide)
  have hrange : ¬ (m.count ≠ 4 ∨ m.label < tcsLabel Op.grant ∨ m.label > tcsLabel Op.restore) := by
    rintro (h | h | h)
    · exact h hn
    · exact UInt64.not_lt.mpr hlo h
    · exact UInt64.not_lt.mpr hhi h
  unfold adminPolicyProtected
  dsimp only
  rw [if_neg hready, if_pos rfl, if_neg hself, if_neg hrange]
  dsimp only [policyRequest] at h1 h2
  rw [h1, h2]
  exact ⟨_, rfl⟩

/-! ### The storage channel -/

theorem evaluates_deliver {ch : ℕ} {s : SeedPolicy} (m : Message) (noise : Registers) :
    Evaluates ch s (m.deliver noise) ↔ Evaluates ch s m := Iff.rfl

theorem policyRequest_deliver {m : Message} (h : m.count = 4) (noise : Registers) :
    policyRequest (m.deliver noise) = policyRequest m := by
  unfold policyRequest
  rw [Message.deliver_mr noise (by omega), Message.deliver_mr noise (by omega),
    Message.deliver_mr noise (by omega), Message.deliver_mr noise (by omega)]
  rfl

/-- What the storage channel answers to a message that is no request. -/
def storageAnswer (s : SeedPolicy) (m : Message) : Message :=
  if !s.ready then tcsReply m.mr ⟨Status.denied, 0⟩
  else if m.label = tcsLabel Op.selfStatus ∧ m.count = 0 then
    snapshotReply m.mr (policySelfStatus s.live .storage)
  else tcsReply m.mr ⟨Status.badMessage, 0⟩

theorem storageAnswer_view (s : SeedPolicy) (m : Message) (noise noise' : Registers) :
    (storageAnswer s (m.deliver noise)).view = (storageAnswer s (m.deliver noise')).view := by
  unfold storageAnswer
  rw [Message.deliver_label, Message.deliver_label, Message.deliver_count, Message.deliver_count]
  split_ifs
  · rw [tcsReply_view, tcsReply_view]
  · exact snapshotReply_view _ _ _
  · rw [tcsReply_view, tcsReply_view]

section

variable {σ : Type*} (audit : Peer σ) {m : Message}

/-- What a ready server does not evaluate has not the form of a request. -/
theorem not_request {s : SeedPolicy} (hr : s.ready = true) (h : ¬ Evaluates 1 s m) :
    m.count ≠ 4 ∨ m.label < tcsLabel Op.grant ∨ m.label > tcsLabel Op.restore := by
  by_contra hn
  simp only [not_or, not_not, gt_iff_lt, UInt64.not_lt] at hn
  exact h ⟨hr, Or.inr rfl, hn⟩

theorem policyProtected_storage {s : SeedPolicy} (h : ¬ Evaluates 1 s m) (t : σ) :
    policyProtected audit 1 (s, t) m = (storageAnswer s m, s, t) := by
  unfold policyProtected storageAnswer
  dsimp only
  by_cases hr : s.ready = true
  swap
  · rw [if_pos (Or.inl (by simpa using hr)), if_pos (by simpa using hr)]
  have hready : ¬ (!s.ready) = true := by simp [hr]
  rw [if_neg (by simp [hr]), if_neg hready]
  by_cases hl : m.label = tcsLabel Op.selfStatus
  · rw [if_pos hl, if_neg (by simp)]
    by_cases hn : m.count = 0
    · rw [if_neg (not_not.mpr hn), if_pos ⟨hl, hn⟩]
    · rw [if_pos hn, if_neg (fun h => hn h.2)]
  rw [if_neg hl, if_pos (not_request hr h), if_neg (fun h => hl h.1)]

theorem adminPolicyProtected_storage {s : PolicyServer} (h : ¬ Evaluates 1 s.legacy m) (t : σ) :
    adminPolicyProtected audit 1 (s, t) m = (storageAnswer s.legacy m, s, t) := by
  unfold adminPolicyProtected storageAnswer PolicyServer.legacy
  dsimp only
  by_cases hr : s.ready = true
  swap
  · rw [if_pos (Or.inl (by simpa using hr)), if_pos (by simpa using hr)]
  have hready : ¬ (!s.ready) = true := by simp [hr]
  rw [if_neg (by simp [hr]), if_neg hready, if_pos rfl]
  by_cases hl : m.label = tcsLabel Op.selfStatus
  · rw [if_pos hl]
    by_cases hn : m.count = 0
    · rw [if_neg (not_not.mpr hn), if_pos ⟨hl, hn⟩]
    · rw [if_pos hn, if_neg (fun h => hn h.2)]
  rw [if_neg hl, if_pos (not_request hr h), if_neg (fun h => hl h.1)]

end

/-- **The storage channel of the two adapters.** -/
theorem storage_channel_agrees (call audit call' audit' : Noise) (s : PolicyServer) (log : AuditLog)
    (m : Message) :
    let legacy := legacyAdapter call audit 1 (s.legacy, log) m
    let conditional := conditionalAdapter call' audit' 1 (s, log) m
    legacy.1.view = conditional.1.view ∧
      legacy.2 = (conditional.2.1.legacy, conditional.2.2) := by
  dsimp only
  unfold legacyAdapter conditionalAdapter
  rw [ppcall_eq, ppcall_eq, Message.deliver_view, Message.deliver_view]
  by_cases h : Evaluates 1 s.legacy m
  · have hn := h.2.2.1
    obtain ⟨mr, h1⟩ := policyProtected_commit ((evaluates_deliver m call.callee).mpr h) audit log
    obtain ⟨mr', h2⟩ := adminPolicyProtected_commit ((evaluates_deliver m call'.callee).mpr h) audit'
      log
    rw [h1, h2, policyRequest_deliver hn, policyRequest_deliver hn, tcsReply_view, tcsReply_view]
    exact ⟨rfl, rfl⟩
  · rw [policyProtected_storage _ ((evaluates_deliver m _).not.mpr h),
      adminPolicyProtected_storage _ ((evaluates_deliver m _).not.mpr h)]
    exact ⟨storageAnswer_view _ _ _ _, rfl⟩

/-! ### The administrator's channel -/

theorem subjectApply_refused {s : Subject} {r : Request}
    (h : (subjectApply s r).1.status ≠ Status.ok) : (subjectApply s r).1.value = 0 := by
  unfold subjectApply at h ⊢
  dsimp only at h ⊢
  split_ifs at h ⊢
  all_goals first | rfl | exact absurd rfl h

/-- The value of a decision is the generation that an accepted request leaves. -/
theorem policyApply_value (p : Policy) (actor : Actor) (r : Request) :
    (policyApply p actor r).1.value =
      if (policyApply p actor r).1.status = Status.ok then
        ((policyApply p actor r).2.at r.subject).generation
      else 0 := by
  by_cases hok : (policyApply p actor r).1.status = Status.ok
  · obtain ⟨-, s', -, hv, hp⟩ := (policyApply_ok_iff p actor r (policyApply p actor r).1.value
      (policyApply p actor r).2).mp (by rw [← hok])
    rw [if_pos hok, hp, Policy.at_set, hv]
  · rw [if_neg hok]
    unfold policyApply at hok ⊢
    split_ifs at hok ⊢
    · rfl
    · rfl
    · exact subjectApply_refused hok

/-- The legacy adapter commits the administrator's request: it takes the copy as its table. -/
def LegacyCommits (live : Policy) (log : AuditLog) (r : Request) : Prop :=
  commits ⟨.admin, .plain r, log.room⟩ (policyApply live .admin r).1

instance (live : Policy) (log : AuditLog) (r : Request) : Decidable (LegacyCommits live log r) :=
  inferInstanceAs (Decidable (commits _ _))

theorem adapterCommit_live (live : Policy) (log : AuditLog) (r : Request) :
    (adapterCommit live log .admin r).2.1 =
      if LegacyCommits live log r then (policyApply live .admin r).2 else live :=
  policyCommit_live _ _ _ _ _

/-- A receipt and the legacy adapter's answer, with the table that it leaves, tell of one
outcome. -/
structure SameOutcome (live : Policy) (log : AuditLog) (r : Request) (receipt : AdminReceipt)
    (answer : Result) (left : Policy) : Prop where
  decision : receipt.decision = (policyApply live .admin r).1.status
  applied : receipt.applied = 1 ↔ LegacyCommits live log r
  withheld : receipt.applied = 0 ↔ ¬ LegacyCommits live log r
  auditOk : receipt.auditOk = log.room.toUInt64
  post : receipt.post = (left.at r.subject).snapshot
  left : left = if receipt.applied = 1 then (policyApply live .admin r).2 else live
  answer : answer =
    if receipt.auditOk = 1 then
      ⟨receipt.decision, if receipt.decision = Status.ok then receipt.post.generation else 0⟩
    else ⟨Status.auditFull, 0⟩

/-- The execution of a valid command that names the current generation is the evaluation of its
request. -/
theorem adminExecute_commit {live : Policy} {c : AdminCommand} (h : Executable c)
    (hg : c.expectedGeneration = (live.at c.request.subject).generation) (log : AuditLog) :
    adminExecute live c log.room =
      (⟨c, (policyApply live .admin c.request).1.status, log.room.toUInt64,
        (decide (LegacyCommits live log c.request)).toUInt64,
        ((adapterCommit live log .admin c.request).2.1.at c.request.subject).snapshot⟩,
        (adapterCommit live log .admin c.request).2.1) := by
  unfold adminExecute
  rw [h.compareApply, if_neg (not_not.mpr hg.symm)]
  rfl

/-- The legacy answer is read off the receipt. -/
theorem adapterCommit_answer (live : Policy) (log : AuditLog) (r : Request) :
    (adapterCommit live log .admin r).1 =
      if log.room then
        ⟨(policyApply live .admin r).1.status,
          if (policyApply live .admin r).1.status = Status.ok then
            ((adapterCommit live log .admin r).2.1.at r.subject).generation
          else 0⟩
      else ⟨Status.auditFull, 0⟩ := by
  show (policyCommit live _ r _ log.room).1 = _
  rw [adapterCommit_live]
  unfold policyCommit
  by_cases hroom : log.room = true
  swap
  · rw [if_pos (by simpa using hroom), if_neg hroom]
  rw [if_neg (by simpa using hroom), if_pos hroom]
  refine congrArg (Result.mk _) ?_
  rw [policyApply_value]
  by_cases hok : (policyApply live .admin r).1.status = Status.ok
  · have hc : LegacyCommits live log r := ⟨hok, Or.inl hroom⟩
    rw [if_pos hok, if_pos hok, if_pos hc]
  · rw [if_neg hok, if_neg hok]

theorem adminExecute_sameOutcome {live : Policy} {c : AdminCommand} (h : Executable c)
    (hg : c.expectedGeneration = (live.at c.request.subject).generation) (log : AuditLog) :
    SameOutcome live log c.request (adminExecute live c log.room).1
      (adapterCommit live log .admin c.request).1 (adapterCommit live log .admin c.request).2.1 := by
  have hflag : ∀ b : Bool, (b.toUInt64 = 1 ↔ b = true) ∧ (b.toUInt64 = 0 ↔ ¬ b = true) := by decide
  have happlied : (decide (LegacyCommits live log c.request)).toUInt64 = 1 ↔
      LegacyCommits live log c.request := by
    rw [(hflag _).1, decide_eq_true_iff]
  rw [adminExecute_commit h hg]
  refine ⟨rfl, happlied, ?_, rfl, rfl, ?_, ?_⟩
  · rw [(hflag _).2, decide_eq_true_iff]
  · rw [adapterCommit_live]
    exact if_congr happlied.symm rfl rfl
  · rw [adapterCommit_answer]
    exact if_congr (hflag _).1.symm rfl rfl

theorem Executable.label {c : AdminCommand} (h : Executable c) :
    tcsLabel c.request.op &&& 0xff = c.request.op ∧
      tcsLabel Op.grant ≤ tcsLabel c.request.op ∧ tcsLabel c.request.op ≤ tcsLabel Op.restore := by
  cases h <;> dsimp only <;> decide

/-- **What `servers/policy.c` does with the message of a mutation.** -/
theorem legacyAdapter_mutation (call audit : Noise) {s : SeedPolicy} (hs : s.ready = true)
    (log : AuditLog) (mr : Registers) {c : AdminCommand} (h : Executable c) :
    let out := legacyAdapter call audit 0 (s, log) (policyMessage mr c.request)
    let committed := adapterCommit s.live log .admin c.request
    tcsResponse out.1 = committed.1 ∧ out.2 = ({ s with live := committed.2.1 }, committed.2.2) := by
  have hrequest : policyRequest ((policyMessage mr c.request).deliver call.callee) = c.request := by
    rw [policyRequest_deliver rfl]
    unfold policyRequest policyMessage
    simp [Registers.set_apply, h.label.1]
  have hev : Evaluates 0 s ((policyMessage mr c.request).deliver call.callee) :=
    ⟨hs, Or.inl rfl, rfl, h.label.2⟩
  obtain ⟨mr', heq⟩ := policyProtected_commit hev audit log
  rw [hrequest] at heq
  dsimp only
  unfold legacyAdapter
  rw [ppcall_eq, heq]
  exact ⟨tcsResponse_reply _ _ _, rfl⟩

/-- **What `servers/admin_policy.c` does with a command in its turn** that names the current
generation. -/
theorem conditionalAdapter_execute (call audit : Noise) {s : PolicyServer} (hs : s.ready = true)
    (hx : s.executionExhausted = false) (log : AuditLog) (mr : Registers) {c : AdminCommand}
    (h : Executable c) (hq : c.sequence = s.executionSequence)
    (hg : c.expectedGeneration = (s.live.at c.request.subject).generation) :
    let out := conditionalAdapter call audit 0 (s, log) (executionMessage mr c)
    let committed := adapterCommit s.live log .admin c.request
    adminReceiptDecode out.1 = some (adminExecute s.live c log.room).1 ∧
      out.2 = ({ s.consumed with live := committed.2.1 }, committed.2.2) := by
  have hcommand := executionFromWords_deliver mr h.generation call.callee
  have heq := adminPolicy_execute (ppcall audit (auditProtected 0)) log hs
    (m := (executionMessage mr c).deliver call.callee) rfl rfl (by rw [hcommand]; exact h) hx
    (by rw [hcommand]; exact hq)
  obtain ⟨h1, h2⟩ := recordDecision_audit audit log
    ((executionMessage mr c).deliver call.callee).mr c.request .admin
    (policyAdminCompareApply s.live .admin c).1
  dsimp only at heq
  rw [hcommand, h1, h2] at heq
  have hroom : decide (log.records.length < auditCapacity) = log.room := rfl
  rw [hroom, adminExecute_commit h hg] at heq
  dsimp only
  unfold conditionalAdapter
  rw [ppcall_eq, heq, adminExecute_commit h hg]
  refine ⟨adminReceiptDecode_reply _ h.generation rfl _, ?_⟩
  rw [h.compareApply, if_neg (not_not.mpr hg.symm)]
  rfl

/-! ### The next command -/

/-- A request as the next command, with the current generation of its subject. -/
def PolicyServer.nextCommand (s : PolicyServer) (r : Request) : AdminCommand :=
  ⟨s.executionSequence, (s.live.at r.subject).generation, r⟩

/-- A message to `servers/admin_policy.c`. -/
structure ConditionalCall where
  ch : ℕ
  message : Message
  call : Noise
  audit : Noise

/-- One message to `servers/admin_policy.c`: the server and its audit after it, and the reply. -/
def conditionalStep (s : PolicyServer × AuditLog) (x : ConditionalCall) :
    (PolicyServer × AuditLog) × Message :=
  ((conditionalAdapter x.call x.audit x.ch s x.message).2,
    (conditionalAdapter x.call x.audit x.ch s x.message).1)

theorem PolicyServer.consumed_sequence_ne_zero {s : PolicyServer} (h : s.executionSequence ≠ 0) :
    s.consumed.executionSequence ≠ 0 := by
  unfold PolicyServer.consumed
  by_cases hm : s.executionSequence = Word.max
  · rw [if_pos hm]
    exact h
  · rw [if_neg hm]
    show s.executionSequence + 1 ≠ 0
    rw [Ne, ← Word.toNat_eq_zero, Word.toNat_succ hm]
    exact Nat.succ_ne_zero _

theorem conditionalStep_sequence {s : PolicyServer × AuditLog} (h : s.1.executionSequence ≠ 0)
    (x : ConditionalCall) : (conditionalStep s x).1.1.executionSequence ≠ 0 := by
  obtain ⟨server, log⟩ := s
  obtain ⟨ch, m, call, audit⟩ := x
  show (adminPolicyProtected (ppcall audit (auditProtected 0)) ch (server, log)
    (m.deliver call.callee)).2.1.executionSequence ≠ 0
  by_cases h0 : ch = 0
  · subst h0
    rcases adminPolicy_cases (ppcall audit (auditProtected 0)) server log (m.deliver call.callee) with
      heq | ⟨b, heq⟩
    · rw [heq]
      exact h
    · rw [heq]
      exact PolicyServer.consumed_sequence_ne_zero h
  by_cases h1 : ch = 1
  · subst h1
    rw [adminPolicy_storage]
    exact h
  · unfold adminPolicyProtected
    dsimp only
    rw [if_pos (Or.inr ⟨h0, h1⟩)]
    exact h

/-- **The server always has a sequence for a next command**, whatever it has been sent. -/
theorem executionSequence_ne_zero (calls : List ConditionalCall) :
    (Run.final conditionalStep (PolicyServer.start.init, AuditLog.empty) calls).1.executionSequence ≠
      0 :=
  Run.final_induct (P := fun s : PolicyServer × AuditLog => s.1.executionSequence ≠ 0) (by decide)
    (fun _ x h => conditionalStep_sequence h x) calls

/-! ### The refinement -/

/-- **The conditional adapter refines the legacy one**: any message to the storage channel is
answered alike, and the next command, at the current generation, does what its request does to the
legacy adapter and says so in its receipt. -/
theorem conditional_refines_legacy (s : PolicyServer) (log : AuditLog)
    (call audit call' audit' : Noise) :
    (∀ m,
      let legacy := legacyAdapter call audit 1 (s.legacy, log) m
      let conditional := conditionalAdapter call' audit' 1 (s, log) m
      legacy.1.view = conditional.1.view ∧
        legacy.2 = (conditional.2.1.legacy, conditional.2.2)) ∧
    ∀ mr mr' r, s.ready = true → s.executionExhausted = false → Executable (s.nextCommand r) →
      let legacy := legacyAdapter call audit 0 (s.legacy, log) (policyMessage mr r)
      let conditional := conditionalAdapter call' audit' 0 (s, log)
        (executionMessage mr' (s.nextCommand r))
      legacy.2 = (conditional.2.1.legacy, conditional.2.2) ∧
        ∃ receipt, adminReceiptDecode conditional.1 = some receipt ∧
          receipt.command = s.nextCommand r ∧
          SameOutcome s.live log r receipt (tcsResponse legacy.1) legacy.2.1.live := by
  refine ⟨storage_channel_agrees call audit call' audit' s log, ?_⟩
  intro mr mr' r hs hx hr
  obtain ⟨hanswer, hleft⟩ := legacyAdapter_mutation call audit (s := s.legacy) hs log mr hr
  obtain ⟨hreceipt, hstate⟩ := conditionalAdapter_execute call' audit' hs hx log mr' hr rfl rfl
  dsimp only at hanswer hleft hreceipt hstate ⊢
  have hr' : (s.nextCommand r).request = r := rfl
  rw [hr'] at hanswer hleft
  rw [hanswer, hleft, hstate]
  refine ⟨?_, _, hreceipt, rfl, adminExecute_sameOutcome hr rfl log⟩
  unfold PolicyServer.legacy
  dsimp only
  rw [PolicyServer.consumed_ready]
  rfl

/-- A grant on subject 1, to the servers as they start and with an empty audit. -/
theorem first_grant_refines :
    let quiet : Noise := ⟨fun _ => 0, fun _ => 0⟩
    let s := PolicyServer.start.init
    let r : Request := ⟨Op.grant, 1, tcsObject, tcsRead, 0⟩
    ∃ receipt, adminReceiptDecode (conditionalAdapter quiet quiet 0 (s, AuditLog.empty)
        (executionMessage (fun _ => 0) (s.nextCommand r))).1 = some receipt ∧
      receipt.command = s.nextCommand r ∧
      SameOutcome s.live AuditLog.empty r receipt
        (tcsResponse (legacyAdapter quiet quiet 0 (s.legacy, AuditLog.empty)
          (policyMessage (fun _ => 0) r)).1)
        (legacyAdapter quiet quiet 0 (s.legacy, AuditLog.empty)
          (policyMessage (fun _ => 0) r)).2.1.live :=
  ((conditional_refines_legacy PolicyServer.start.init AuditLog.empty ⟨fun _ => 0, fun _ => 0⟩
    ⟨fun _ => 0, fun _ => 0⟩ ⟨fun _ => 0, fun _ => 0⟩ ⟨fun _ => 0, fun _ => 0⟩).2 (fun _ => 0)
    (fun _ => 0) ⟨Op.grant, 1, tcsObject, tcsRead, 0⟩ rfl rfl
    (.grant 1 0 1 (by decide) (by decide))).2

end Tcs
