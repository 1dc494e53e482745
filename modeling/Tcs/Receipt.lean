/-
# Execution receipts

`lib/admin_receipt.c` and the execution part of `servers/admin_policy.c`.
The policy server evaluates an admitted command on a copy of the table,
audits the decision, commits and answers with a receipt: the command, the
decision, the two flags and a snapshot of the live subject. The
administrator and the terminal do not see the table; `adminReceiptValid`
rebuilds from the command and the receipt alone what the policy may have
done.

`Outcome` lists what an execution can be on one subject. A valid command
has an outcome on every subject, the execution is that outcome
(`execute_of_outcome`), and the validator accepts the receipts of the list
(`receiptValid_of_outcome`) and no others (`outcome_of_effect`), so the
validator is exact.

Key definitions: `adminExecutionValid`, `adminReceiptValid`,
`adminExecute`, `Outcome`.
Key theorems: `execute_of_outcome`, `receiptValid_of_outcome`,
`outcome_of_effect`, `receipt_validator_exact`.
-/
import Tcs.Policy

namespace Tcs

/-- `struct tcs_admin_receipt`. -/
structure AdminReceipt where
  command : AdminCommand
  decision : UInt64
  auditOk : UInt64
  applied : UInt64
  post : Snapshot
  deriving DecidableEq, Repr

/-- `tcs_admin_execution_valid`. -/
def adminExecutionValid (c : AdminCommand) : Bool :=
  let r := c.request
  if c.sequence = 0 ∨ r.subject ≥ subjectCount ∨ r.generation ≠ 0 then false
  else if r.op = Op.grant then r.object = tcsObject ∧ r.rights = tcsRead
  else (r.op = Op.revoke ∨ r.op = Op.quarantine ∨ r.op = Op.restore) ∧ r.object = 0 ∧ r.rights = 0

/-- The part of `tcs_admin_receipt_valid` behind its first guard: the decision, the flags and the
snapshot fit the command. -/
def receiptEffect (c : AdminCommand) (r : AdminReceipt) : Bool :=
  let applied : Bool := r.decision = Status.ok ∧ (r.auditOk ≠ 0 ∨ c.request.reduction)
  if r.applied ≠ applied.toUInt64 then false
  else if r.decision = Status.stale then r.post.generation ≠ c.expectedGeneration
  else if r.decision ≠ Status.ok then
    if r.post.generation ≠ c.expectedGeneration then false
    else
      (r.decision = Status.isolated ∧ c.request.op = Op.grant ∧
          r.post.state = State.word .quarantined) ∨
        (r.decision = Status.denied ∧ c.request.op = Op.restore ∧
          r.post.state ≠ State.word .quarantined) ∨
        (r.decision = Status.exhausted ∧ c.request.op = Op.grant ∧
          r.post.generation = Word.max ∧ r.post.state ≠ State.word .quarantined)
  else if c.request.op = Op.grant ∧ c.expectedGeneration = Word.max then false
  else if r.post.generation ≠
      (if applied ∧ c.expectedGeneration ≠ Word.max then c.expectedGeneration + 1
        else c.expectedGeneration) then false
  else if !applied then
    -- an audit-denied restore started quarantined, a successful grant decision did not
    if c.request.op = Op.restore then r.post.state = State.word .quarantined
    else c.request.op = Op.grant ∧ r.post.state ≠ State.word .quarantined
  else if c.request.op = Op.grant then r.post.state = State.word .active
  else if c.request.op = Op.quarantine then r.post.state = State.word .quarantined
  else if c.request.op = Op.restore then r.post.state = State.word .restricted
  -- a revocation does not restore a quarantined subject
  else r.post.state ≠ State.word .active

/-- `tcs_admin_receipt_valid`. -/
def adminReceiptValid (c : AdminCommand) (r : AdminReceipt) : Bool :=
  let e := r.command
  if !adminExecutionValid c ∨ !adminExecutionValid e ∨ c.sequence ≠ e.sequence ∨
      c.expectedGeneration ≠ e.expectedGeneration ∨ c.request.op ≠ e.request.op ∨
      c.request.subject ≠ e.request.subject ∨ c.request.object ≠ e.request.object ∨
      c.request.rights ≠ e.request.rights ∨ r.auditOk > 1 ∨ r.applied > 1 ∨ !snapshotValid r.post then
    false
  else receiptEffect c r

/-- The execution of `servers/admin_policy.c`, from the copy to the receipt: the receipt and the live
table. -/
def adminExecute (live : Policy) (c : AdminCommand) (auditOk : Bool) : AdminReceipt × Policy :=
  let out := policyAdminCompareApply live .admin c
  let live := (policyCommit live out.2 c.request out.1 auditOk).2
  let s := live.at c.request.subject
  let applied : Bool := out.1.status = Status.ok ∧ (auditOk ∨ c.request.reduction)
  (⟨c, out.1.status, auditOk.toUInt64, applied.toUInt64, s.snapshot⟩, live)

/-! ### Valid commands -/

/-- The commands that may be executed. -/
inductive Executable : AdminCommand → Prop
  | grant (q g i : UInt64) (hq : q ≠ 0) (hi : i < subjectCount) :
    Executable ⟨q, g, ⟨Op.grant, i, tcsObject, tcsRead, 0⟩⟩
  | revoke (q g i : UInt64) (hq : q ≠ 0) (hi : i < subjectCount) :
    Executable ⟨q, g, ⟨Op.revoke, i, 0, 0, 0⟩⟩
  | quarantine (q g i : UInt64) (hq : q ≠ 0) (hi : i < subjectCount) :
    Executable ⟨q, g, ⟨Op.quarantine, i, 0, 0, 0⟩⟩
  | restore (q g i : UInt64) (hq : q ≠ 0) (hi : i < subjectCount) :
    Executable ⟨q, g, ⟨Op.restore, i, 0, 0, 0⟩⟩

theorem adminExecutionValid_iff (c : AdminCommand) :
    adminExecutionValid c = true ↔ Executable c := by
  constructor
  · intro h
    obtain ⟨q, g, op, i, o, r, gen⟩ := c
    simp only [adminExecutionValid] at h
    split_ifs at h with h1 h2
    · obtain ⟨rfl, rfl⟩ := of_decide_eq_true h
      simp only [not_or, not_not] at h1
      obtain ⟨hq, hi, rfl⟩ := h1
      subst h2
      exact .grant q g i hq (UInt64.not_le.mp hi)
    · obtain ⟨hop, rfl, rfl⟩ := of_decide_eq_true h
      simp only [not_or, not_not] at h1
      obtain ⟨hq, hi, rfl⟩ := h1
      rcases hop with rfl | rfl | rfl
      · exact .revoke q g i hq (UInt64.not_le.mp hi)
      · exact .quarantine q g i hq (UInt64.not_le.mp hi)
      · exact .restore q g i hq (UInt64.not_le.mp hi)
  · intro h
    cases h <;> simp [adminExecutionValid] <;> exact ⟨‹_›, ‹_›⟩

/-! ### What an execution can be -/

/-- The outcomes of a command on its subject: the decision and the subject that is left, given
whether the audit acknowledged. -/
inductive Outcome (c : AdminCommand) (b : Bool) (s : Subject) : UInt64 → Subject → Prop
  | stale (hg : s.generation ≠ c.expectedGeneration) : Outcome c b s Status.stale s
  | isolated (hg : s.generation = c.expectedGeneration) (hop : c.request.op = Op.grant)
    (hq : s.state = .quarantined) : Outcome c b s Status.isolated s
  | exhausted (hg : s.generation = c.expectedGeneration) (hop : c.request.op = Op.grant)
    (hq : s.state ≠ .quarantined) (hm : s.generation = Word.max) : Outcome c b s Status.exhausted s
  | denied (hg : s.generation = c.expectedGeneration) (hop : c.request.op = Op.restore)
    (hq : s.state ≠ .quarantined) : Outcome c b s Status.denied s
  | applied {s' : Subject} (hg : s.generation = c.expectedGeneration)
    (ha : Accepts s .admin c.request s') (hb : b = true ∨ c.request.reduction = true) :
    Outcome c b s Status.ok s'
  | withheld {s' : Subject} (hg : s.generation = c.expectedGeneration)
    (ha : Accepts s .admin c.request s') (hb : b = false) (hr : c.request.reduction = false) :
    Outcome c b s Status.ok s

/-- The receipt of an outcome. -/
def receiptOf (c : AdminCommand) (b : Bool) (decision : UInt64) (s : Subject) : AdminReceipt :=
  ⟨c, decision, b.toUInt64,
    (decide (decision = Status.ok ∧ (b = true ∨ c.request.reduction = true))).toUInt64, s.snapshot⟩

theorem Executable.subject_lt {c : AdminCommand} (h : Executable c) :
    c.request.subject < subjectCount := by
  cases h <;> assumption

theorem Executable.sequence_ne_zero {c : AdminCommand} (h : Executable c) : c.sequence ≠ 0 := by
  cases h <;> assumption

/-- The comparison with the expected generation, behind the guards that a valid command passes. -/
theorem Executable.compareApply {c : AdminCommand} (h : Executable c) (p : Policy) :
    policyAdminCompareApply p .admin c =
      if (p.at c.request.subject).generation ≠ c.expectedGeneration then (⟨Status.stale, 0⟩, p)
      else policyApply p .admin c.request := by
  have hi := h.subject_lt
  have hg : ¬ (c.sequence = 0 ∨ c.request.subject ≥ subjectCount ∨ c.request.op < Op.grant ∨
      c.request.op > Op.restore ∨ c.request.op = Op.check) := by
    rintro (h1 | h1 | h1)
    · cases h <;> contradiction
    · exact UInt64.not_le.mpr hi h1
    · cases h <;> simp at h1
  rw [policyAdminCompareApply, if_neg (by simp), if_neg hg]

theorem Executable.apply {c : AdminCommand} (h : Executable c) (p : Policy) :
    policyApply p .admin c.request =
      ((subjectApply (p.at c.request.subject) c.request).1,
        p.set c.request.subject (subjectApply (p.at c.request.subject) c.request).2) := by
  have hi := h.subject_lt
  have hg : ¬ (c.request.subject ≥ subjectCount ∨ c.request.op < Op.grant ∨
      c.request.op > Op.restore) := by
    rintro (h1 | h1)
    · exact UInt64.not_le.mpr hi h1
    · cases h <;> simp at h1
  have ha : ¬ ((c.request.op = Op.check ∧ Actor.admin ≠ .storage) ∨
      (c.request.op ≠ Op.check ∧ Actor.admin ≠ .admin)) := by
    cases h <;> simp
  rw [policyApply, if_neg hg, if_neg ha]

theorem Executable.outcome {c : AdminCommand} (h : Executable c) (b : Bool) (s : Subject) :
    ∃ decision s', Outcome c b s decision s' := by
  by_cases hg : s.generation = c.expectedGeneration
  swap
  · exact ⟨_, _, .stale hg⟩
  have haccept : ∀ s', Accepts s .admin c.request s' → ∃ decision s', Outcome c b s decision s' := by
    intro s' ha
    by_cases hb : b = true ∨ c.request.reduction = true
    · exact ⟨_, _, .applied hg ha hb⟩
    · simp only [not_or, Bool.not_eq_true] at hb
      exact ⟨_, _, .withheld hg ha hb.1 hb.2⟩
  cases h with
  | grant q g i =>
    by_cases hq : s.state = .quarantined
    · exact ⟨_, _, .isolated hg rfl hq⟩
    · by_cases hm : s.generation = Word.max
      · exact ⟨_, _, .exhausted hg rfl hq hm⟩
      · exact haccept _ (.grant i hq hm)
  | revoke q g i => exact haccept _ (.revoke i)
  | quarantine q g i => exact haccept _ (.quarantine i)
  | restore q g i =>
    by_cases hq : s.state = .quarantined
    · exact haccept _ (.restore i hq)
    · exact ⟨_, _, .denied hg rfl hq⟩

theorem policyCommit_live (live candidate : Policy) (r : Request) (d : Result) (b : Bool) :
    (policyCommit live candidate r d b).2 =
      if d.status = Status.ok ∧ (b = true ∨ r.reduction = true) then candidate else live := by
  unfold policyCommit
  cases b <;> rfl

/-- The commit takes the copy or leaves the table, and the receipt shows the subject it leaves. -/
theorem adminExecute_eq {p : Policy} {c : AdminCommand} {d v : UInt64} {s : Subject} (b : Bool)
    (h : policyAdminCompareApply p .admin c = (⟨d, v⟩, p.set c.request.subject s)) {s' : Subject}
    (hs : s' = if d = Status.ok ∧ (b = true ∨ c.request.reduction = true) then s
      else p.at c.request.subject) :
    adminExecute p c b = (receiptOf c b d s', p.set c.request.subject s') := by
  have hlive : (policyCommit p (p.set c.request.subject s) c.request ⟨d, v⟩ b).2 =
      p.set c.request.subject s' := by
    rw [policyCommit_live, hs]
    split_ifs
    · rfl
    · rw [Policy.set_at]
  unfold adminExecute
  simp only [h, hlive, Policy.at_set]
  rfl

/-- **An outcome is what the policy server does.** -/
theorem execute_of_outcome {c : AdminCommand} (h : Executable c) {p : Policy} {b : Bool}
    {decision : UInt64} {s' : Subject} (ho : Outcome c b (p.at c.request.subject) decision s') :
    adminExecute p c b = (receiptOf c b decision s', p.set c.request.subject s') := by
  have happly : (p.at c.request.subject).generation = c.expectedGeneration → ∀ d v s,
      subjectApply (p.at c.request.subject) c.request = (⟨d, v⟩, s) →
      policyAdminCompareApply p .admin c = (⟨d, v⟩, p.set c.request.subject s) := by
    intro hg d v s hs
    rw [h.compareApply, if_neg (not_not.mpr hg), h.apply, hs]
  cases ho with
  | stale hg =>
    refine adminExecute_eq (v := 0) (s := p.at c.request.subject) b ?_ (by simp)
    rw [h.compareApply, if_pos hg, Policy.set_at]
  | isolated hg hop hq =>
    refine adminExecute_eq b (happly hg _ 0 (p.at c.request.subject) ?_) (by simp)
    cases h <;> simp_all [subjectApply]
  | exhausted hg hop hq hm =>
    refine adminExecute_eq b (happly hg _ 0 (p.at c.request.subject) ?_) (by simp)
    cases h <;> simp_all [subjectApply]
  | denied hg hop hq =>
    refine adminExecute_eq b (happly hg _ 0 (p.at c.request.subject) ?_) (by simp)
    cases h <;> simp_all [subjectApply]
  | applied hg ha hb => exact adminExecute_eq b (happly hg _ _ _ ha.apply) (by simp [hb])
  | withheld hg ha hb hr => exact adminExecute_eq b (happly hg _ _ _ ha.apply) (by simp [hb, hr])

/-! ### The validator -/

theorem Executable.generation {c : AdminCommand} (h : Executable c) : c.request.generation = 0 := by
  cases h <;> rfl

/-- The first guard: the receipt echoes the command, and its flags and snapshot are well formed. -/
theorem adminReceiptValid_iff {c : AdminCommand} (h : Executable c) (r : AdminReceipt) :
    adminReceiptValid c r = true ↔ r.command = c ∧ r.auditOk ≤ 1 ∧ r.applied ≤ 1 ∧
      snapshotValid r.post = true ∧ receiptEffect c r = true := by
  have hc := (adminExecutionValid_iff c).mpr h
  unfold adminReceiptValid
  dsimp only
  constructor
  · intro hv
    split_ifs at hv with hg
    simp only [not_or, not_not, Bool.not_eq_true', Bool.not_eq_false] at hg
    obtain ⟨-, he, h1, h2, h3, h4, h5, h6, h7, h8, h9⟩ := hg
    have hgen := ((adminExecutionValid_iff _).mp he).generation
    have hgen' := h.generation
    refine ⟨?_, UInt64.not_lt.mp h7, UInt64.not_lt.mp h8, h9, hv⟩
    obtain ⟨⟨q, g, op, i, o, ri, gen⟩, d, a, b, post⟩ := r
    obtain ⟨q', g', op', i', o', ri', gen'⟩ := c
    simp_all
  · rintro ⟨rfl, h7, h8, h9, hv⟩
    rw [if_neg]
    · exact hv
    · simp [hc, h9]
      exact ⟨h7, h8⟩

theorem toUInt64_eq_zero (b : Bool) : b.toUInt64 = 0 ↔ b = false := by
  cases b <;> decide

theorem exists_toUInt64 {w : UInt64} (h : w ≤ 1) : ∃ b : Bool, w = b.toUInt64 := by
  have : w = 0 ∨ w = 1 := by grind
  rcases this with rfl | rfl
  · exact ⟨false, rfl⟩
  · exact ⟨true, rfl⟩

/-- A valid snapshot is that of a subject. -/
theorem exists_subject {post : Snapshot} (h : snapshotValid post = true) :
    ∃ s : Subject, SubjectOk s ∧ post = s.snapshot := by
  obtain ⟨status, state, generation, object, rights⟩ := post
  have hst : status = Status.ok ∧ (state = State.word .restricted ∨ state = State.word .active ∨
      state = State.word .quarantined) := by
    simp only [snapshotValid] at h
    split_ifs at h with h1
    all_goals
      simp only [not_or, not_not, State.word] at h1 ⊢
      exact ⟨h1.1, by grind⟩
  obtain ⟨rfl, rfl | rfl | rfl⟩ := hst
  · exact ⟨⟨generation, object, rights, .restricted⟩, (snapshotValid_snapshot _).mp h, rfl⟩
  · exact ⟨⟨generation, object, rights, .active⟩, (snapshotValid_snapshot _).mp h, rfl⟩
  · exact ⟨⟨generation, object, rights, .quarantined⟩, (snapshotValid_snapshot _).mp h, rfl⟩

theorem State.word_inj {a b : State} : a.word = b.word ↔ a = b := by
  cases a <;> cases b <;> decide

theorem State.word_ne {a b : State} : a.word ≠ b.word ↔ a ≠ b := not_congr State.word_inj

/-- **Every outcome passes the validator.** -/
theorem receiptValid_of_outcome {c : AdminCommand} (h : Executable c) {b : Bool} {d : UInt64}
    {s s' : Subject} (hs : SubjectOk s) (ho : Outcome c b s d s') :
    adminReceiptValid c (receiptOf c b d s') = true := by
  have hs' : SubjectOk s' := by
    cases ho with
    | applied hg ha hb => exact ha.subjectOk hs
    | _ => exact hs
  have hle : ∀ b : Bool, b.toUInt64 ≤ 1 := by decide
  rw [adminReceiptValid_iff h]
  refine ⟨rfl, hle _, hle _, (snapshotValid_snapshot s').mpr hs', ?_⟩
  cases ho with
  | stale hg => simp [receiptEffect, receiptOf, Subject.snapshot, hg]
  | isolated hg hop hq => simp [receiptEffect, receiptOf, Subject.snapshot, hg, hop, hq]
  | exhausted hg hop hq hm =>
    simp [receiptEffect, receiptOf, Subject.snapshot, ← hg, hop, hm, State.word_inj, hq]
  | denied hg hop hq => simp [receiptEffect, receiptOf, Subject.snapshot, hg, hop, State.word_inj, hq]
  | applied hg ha hb =>
    generalize hr : c.request = r at ha hb
    generalize hact : Actor.admin = actor at ha
    cases ha with
    | grant i hq hm =>
      obtain rfl : b = true := by simpa [Request.reduction] using hb
      simp [receiptEffect, receiptOf, Subject.snapshot, hr, ← hg, hm, toUInt64_eq_zero]
    | check => cases hact
    | revoke i =>
      cases b <;> cases s.state <;>
        simp [receiptEffect, receiptOf, Subject.snapshot, hr, ← hg, toUInt64_eq_zero, Word.satSucc,
          Request.reduction, State.word_inj]
    | quarantine i =>
      cases b <;> simp [receiptEffect, receiptOf, Subject.snapshot, hr, ← hg, toUInt64_eq_zero,
        Word.satSucc, Request.reduction]
    | restore i hq =>
      obtain rfl : b = true := by simpa [Request.reduction] using hb
      simp [receiptEffect, receiptOf, Subject.snapshot, hr, ← hg, toUInt64_eq_zero, Word.satSucc]
  | withheld hg ha hb hr =>
    generalize hreq : c.request = r at ha hr
    generalize hact : Actor.admin = actor at ha
    subst hb
    cases ha with
    | grant i hq hm =>
      simp [receiptEffect, receiptOf, Subject.snapshot, hreq, ← hg, hm, toUInt64_eq_zero, hq,
        State.word_inj, Request.reduction]
    | check => cases hact
    | revoke i => simp [Request.reduction] at hr
    | quarantine i => simp [Request.reduction] at hr
    | restore i hq =>
      simp [receiptEffect, receiptOf, Subject.snapshot, hreq, ← hg, toUInt64_eq_zero, hq,
        Request.reduction]

theorem Executable.receiptValid {c : AdminCommand} (h : Executable c) {p : Policy} (b : Bool)
    (hs : SubjectOk (p.at c.request.subject)) : adminReceiptValid c (adminExecute p c b).1 = true := by
  obtain ⟨d, s', ho⟩ := h.outcome b (p.at c.request.subject)
  rw [execute_of_outcome h ho]
  exact receiptValid_of_outcome h hs ho

/-- A subject in `state` without authority, at the command's expected generation. -/
def AdminCommand.bare (c : AdminCommand) (state : State) : Subject := ⟨c.expectedGeneration, 0, 0, state⟩

theorem subjectOk_bare (c : AdminCommand) {state : State} (h : state ≠ .active) :
    SubjectOk (c.bare state) := by
  refine Or.inr ⟨?_, rfl, rfl⟩
  cases state <;> simp_all [AdminCommand.bare]

theorem SubjectOk.eq_mk {s : Subject} (h : SubjectOk s) :
    s = if s.state = .active then ⟨s.generation, tcsObject, tcsRead, .active⟩
      else ⟨s.generation, 0, 0, s.state⟩ := by
  obtain ⟨generation, object, rights, state⟩ := s
  rcases h with ⟨h1, -, h2, h3⟩ | ⟨h1, h2, h3⟩ <;> simp only at h1 h2 h3
  · subst h1 h2 h3
    rfl
  · subst h2 h3
    rw [if_neg (by rcases h1 with h1 | h1 <;> simp [h1])]

theorem State.revoked {state : State} (h : state ≠ .active) :
    (if state = .quarantined then State.quarantined else .restricted) = state := by
  cases state with
  | active => exact absurd rfl h
  | restricted => rfl
  | quarantined => rfl

/-- An applied command that the validator accepts has a subject it may have been applied to. -/
theorem exists_applied {c : AdminCommand} (h : Executable c) {b : Bool} {s' : Subject}
    (hs' : SubjectOk s') (hb : b = true ∨ c.request.reduction = true)
    (hmax : ¬ (c.request.op = Op.grant ∧ c.expectedGeneration = Word.max))
    (hgen : s'.generation = Word.satSucc c.expectedGeneration)
    (hst : if c.request.op = Op.grant then s'.state = .active
      else if c.request.op = Op.quarantine then s'.state = .quarantined
      else if c.request.op = Op.restore then s'.state = .restricted else s'.state ≠ .active) :
    ∃ s, SubjectOk s ∧ Outcome c b s Status.ok s' := by
  have heq := hs'.eq_mk
  rw [hgen] at heq
  have key : ∀ state : State, state ≠ .active → Accepts (c.bare state) .admin c.request s' →
      ∃ s, SubjectOk s ∧ Outcome c b s Status.ok s' := fun state hne ha =>
    ⟨c.bare state, subjectOk_bare c hne, .applied rfl ha hb⟩
  cases h with
  | grant q g i =>
    refine key .restricted (by simp) ?_
    simp only [true_and] at hmax
    rw [if_pos rfl] at hst
    rw [heq, if_pos hst, Word.satSucc_of_ne hmax]
    exact .grant i (by simp [AdminCommand.bare]) hmax
  | revoke q g i =>
    have hne : s'.state ≠ .active := by simpa using hst
    refine key s'.state hne ?_
    rw [if_neg hne] at heq
    have hacc : Accepts ⟨g, 0, 0, s'.state⟩ .admin ⟨Op.revoke, i, 0, 0, 0⟩ ⟨Word.satSucc g, 0, 0,
        if s'.state = .quarantined then .quarantined else .restricted⟩ := .revoke i
    rwa [State.revoked hne, ← heq] at hacc
  | quarantine q g i =>
    have hq : s'.state = .quarantined := by simpa using hst
    refine key .restricted (by simp) ?_
    rw [heq, hq]
    exact .quarantine i
  | restore q g i =>
    have hr : s'.state = .restricted := by simpa using hst
    refine key .quarantined (by simp) ?_
    rw [heq, hr]
    exact .restore i rfl

/-- A command whose audit failed was withheld from a subject that it would have changed. -/
theorem exists_withheld {c : AdminCommand} (h : Executable c) {s' : Subject}
    (hs' : SubjectOk s') (hr : c.request.reduction = false)
    (hmax : ¬ (c.request.op = Op.grant ∧ c.expectedGeneration = Word.max))
    (hgen : s'.generation = c.expectedGeneration)
    (hst : if c.request.op = Op.restore then s'.state = .quarantined
      else c.request.op = Op.grant ∧ s'.state ≠ .quarantined) :
    ∃ s, SubjectOk s ∧ Outcome c false s Status.ok s' := by
  cases h with
  | grant q g i =>
    have hq : s'.state ≠ .quarantined := by simpa using hst
    have hm : s'.generation ≠ Word.max := by simpa [hgen] using hmax
    exact ⟨s', hs', .withheld hgen (.grant i hq hm) rfl hr⟩
  | revoke q g i => simp at hst
  | quarantine q g i => simp at hst
  | restore q g i =>
    have hq : s'.state = .quarantined := by simpa using hst
    exact ⟨s', hs', .withheld hgen (.restore i hq) rfl hr⟩

theorem of_guard {P : Prop} [Decidable P] {x : Bool} (h : (if P then false else x) = true) :
    ¬ P ∧ x = true := by
  by_cases hP : P
  · rw [if_pos hP] at h
    cases h
  · exact ⟨hP, by rwa [if_neg hP] at h⟩

/-- **What passes the validator is an outcome.** -/
theorem outcome_of_effect {c : AdminCommand} (h : Executable c) {b : Bool} {d a : UInt64}
    {s' : Subject} (hs' : SubjectOk s')
    (he : receiptEffect c ⟨c, d, b.toUInt64, a, s'.snapshot⟩ = true) :
    ⟨c, d, b.toUInt64, a, s'.snapshot⟩ = receiptOf c b d s' ∧ ∃ s, SubjectOk s ∧ Outcome c b s d s' := by
  have hnz : b.toUInt64 ≠ 0 ↔ b = true := by rw [Ne, toUInt64_eq_zero, Bool.not_eq_false]
  unfold receiptEffect Subject.snapshot at he
  dsimp only at he
  simp only [hnz, State.word_inj, State.word_ne] at he
  obtain ⟨ha, he⟩ := of_guard he
  refine ⟨by simp only [receiptOf, Subject.snapshot, not_not.mp ha], ?_⟩
  clear ha
  by_cases hstale : d = Status.stale
  · rw [if_pos hstale] at he
    subst hstale
    exact ⟨s', hs', .stale (of_decide_eq_true he)⟩
  rw [if_neg hstale] at he
  by_cases hok : d = Status.ok
  · rw [if_neg (not_not.mpr hok)] at he
    obtain ⟨hmax, he⟩ := of_guard he
    subst hok
    simp only [true_and] at he
    by_cases hb : b = true ∨ c.request.reduction = true
    · simp only [hb, decide_true, true_and] at he
      obtain ⟨hg, he⟩ := of_guard he
      refine exists_applied h hs' hb hmax ?_ ?_
      · rw [not_not.mp hg, Word.satSucc]
      · simpa [apply_ite (· = true)] using he
    · have hb' := not_or.mp hb
      simp only [hb, decide_false, Bool.false_eq_true, false_and] at he
      obtain ⟨hg, he'⟩ := of_guard he
      obtain rfl : b = false := by simpa using hb'.1
      refine exists_withheld h hs' (by simpa using hb'.2) hmax ?_ ?_
      · simpa using hg
      · simpa [apply_ite (· = true)] using he'
  · rw [if_pos hok] at he
    obtain ⟨hg, he⟩ := of_guard he
    have hg : s'.generation = c.expectedGeneration := not_not.mp hg
    rcases of_decide_eq_true he with ⟨rfl, hop, hq⟩ | ⟨rfl, hop, hq⟩ | ⟨rfl, hop, hm, hq⟩
    · exact ⟨s', hs', .isolated hg hop hq⟩
    · exact ⟨s', hs', .denied hg hop hq⟩
    · exact ⟨s', hs', .exhausted hg hop hq hm⟩

/-- **The validator accepts exactly the receipts that the policy server can produce**: those of some
table whose subject is well formed and some answer of the audit. -/
theorem receipt_validator_exact (c : AdminCommand) (r : AdminReceipt)
    (hc : adminExecutionValid c = true) :
    adminReceiptValid c r = true ↔ ∃ p : Policy, ∃ audit : Bool,
      snapshotValid (p.at c.request.subject).snapshot = true ∧ (adminExecute p c audit).1 = r := by
  have h := (adminExecutionValid_iff c).mp hc
  constructor
  · intro hv
    obtain ⟨hcmd, ha, -, hpost, he⟩ := (adminReceiptValid_iff h r).mp hv
    obtain ⟨rc, d, a, b, post⟩ := r
    obtain ⟨audit, rfl⟩ := exists_toUInt64 ha
    obtain ⟨s', hs', rfl⟩ := exists_subject hpost
    obtain rfl : c = rc := hcmd.symm
    obtain ⟨hr, s, hs, ho⟩ := outcome_of_effect h hs' he
    refine ⟨Policy.zero.set c.request.subject s, audit, ?_, ?_⟩
    · rw [Policy.at_set]
      exact (snapshotValid_snapshot s).mpr hs
    · rw [← Policy.at_set Policy.zero c.request.subject s] at ho
      rw [execute_of_outcome h ho, hr]
  · rintro ⟨p, audit, hp, rfl⟩
    exact h.receiptValid audit ((snapshotValid_snapshot _).mp hp)

/-- The receipt of the first grant to subject 0, and the same receipt with an effect that the grant
cannot have. -/
theorem receipt_validator_exact_grant :
    (∃ p : Policy, ∃ audit : Bool, snapshotValid (p.at 0).snapshot = true ∧
      (adminExecute p ⟨1, 0, ⟨Op.grant, 0, tcsObject, tcsRead, 0⟩⟩ audit).1 =
        ⟨⟨1, 0, ⟨Op.grant, 0, tcsObject, tcsRead, 0⟩⟩, Status.ok, 1, 1,
          ⟨Status.ok, State.word .active, 1, tcsObject, tcsRead⟩⟩) ∧
    ¬ ∃ p : Policy, ∃ audit : Bool, snapshotValid (p.at 0).snapshot = true ∧
      (adminExecute p ⟨1, 0, ⟨Op.grant, 0, tcsObject, tcsRead, 0⟩⟩ audit).1 =
        ⟨⟨1, 0, ⟨Op.grant, 0, tcsObject, tcsRead, 0⟩⟩, Status.ok, 0, 0,
          ⟨Status.ok, State.word .active, 1, tcsObject, tcsRead⟩⟩ := by
  have h := fun r => receipt_validator_exact ⟨1, 0, ⟨Op.grant, 0, tcsObject, tcsRead, 0⟩⟩ r (by decide)
  exact ⟨(h _).mp (by decide), fun hn => absurd ((h _).mpr hn) (by decide)⟩

end Tcs
