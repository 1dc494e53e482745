/-
# The conditional policy server

`servers/admin_policy.c`. Channel 1 is the storage server's: self status and
checks. Channel 0 is the administrator's: one admitted command at a time,
under the server's own sequence, which is consumed before the command is
evaluated. Every decision is put before the audit server, the peer `audit`.

Key definitions: `PolicyServer`, `recordDecision`, `adminPolicyProtected`.
Key theorems: `adminPolicy_storage`, `adminPolicy_execute`,
`adminPolicy_cases`.
-/
import Tcs.Ipc

namespace Tcs

open Ipc

/-- The statics of the server: `policy_live`, `policy_ready`, `execution_sequence` and
`execution_exhausted`. -/
structure PolicyServer where
  live : Policy
  ready : Bool
  executionSequence : UInt64
  executionExhausted : Bool

/-- The statics as they are loaded. -/
def PolicyServer.start : PolicyServer := ⟨Policy.zero, false, 1, false⟩

/-- `init`. -/
def PolicyServer.init (s : PolicyServer) : PolicyServer := { s with ready := true }

/-- The server with its sequence consumed. -/
def PolicyServer.consumed (s : PolicyServer) : PolicyServer :=
  if s.executionSequence = Word.max then { s with executionExhausted := true }
  else { s with executionSequence := s.executionSequence + 1 }

section

variable {σ : Type*} (audit : Peer σ)

/-- The registers of an audit request. -/
def decisionWords (mr : Registers) (r : Request) (actor : Actor) (decision : Result) : Registers :=
  ((((((mr.set 0 r.op).set 1 actor.word).set 2 r.subject).set 3 r.object).set 4 r.rights).set 5
    r.generation).set 6 decision.status

/-- `record_decision`: whether the audit acknowledged, the registers and the audit after it. -/
def recordDecision (t : σ) (mr : Registers) (r : Request) (actor : Actor) (decision : Result) :
    Bool × Registers × σ :=
  let out := audit t ⟨tcsLabel Op.auditAppend, 7, decisionWords mr r actor decision⟩
  let logged := tcsResponse out.1
  (logged.status = Status.ok ∧ logged.value ≥ 1 ∧ logged.value ≤ UInt64.ofNat auditCapacity,
    out.1.mr, out.2)

/-- `protected`. -/
def adminPolicyProtected (ch : ℕ) : Peer (PolicyServer × σ) := fun (s, t) m =>
  if !s.ready ∨ (ch ≠ 0 ∧ ch ≠ 1) then (tcsReply m.mr ⟨Status.denied, 0⟩, s, t)
  else if ch = 1 then
    if m.label = tcsLabel Op.selfStatus then
      if m.count ≠ 0 then (tcsReply m.mr ⟨Status.badMessage, 0⟩, s, t)
      else (snapshotReply m.mr (policySelfStatus s.live .storage), s, t)
    else if m.count ≠ 4 ∨ m.label < tcsLabel Op.grant ∨ m.label > tcsLabel Op.restore then
      (tcsReply m.mr ⟨Status.badMessage, 0⟩, s, t)
    else
      let request : Request := ⟨m.label &&& 0xff, m.mr 0, m.mr 1, m.mr 2, m.mr 3⟩
      let candidate := policyApply s.live .storage request
      let record := recordDecision audit t m.mr request .storage candidate.1
      let committed := policyCommit s.live candidate.2 request candidate.1 record.1
      (tcsReply record.2.1 committed.1, { s with live := committed.2 }, record.2.2)
  else if m.label ≠ Label.adminExecute ∨ m.count ≠ 6 then
    (tcsReply m.mr ⟨Status.badMessage, 0⟩, s, t)
  else
    let c := executionFromWords m.mr
    if !adminExecutionValid c then (tcsReply m.mr ⟨Status.badMessage, 0⟩, s, t)
    else if s.executionExhausted ∨ c.sequence ≠ s.executionSequence then
      (tcsReply m.mr ⟨Status.stale, 0⟩, s, t)
    else
      -- consumed before the evaluation: also a stale or audit-denied command is not retried
      let s := s.consumed
      let decision := (policyAdminCompareApply s.live .admin c).1
      let record := recordDecision audit t m.mr c.request .admin decision
      let executed := adminExecute s.live c record.1
      (adminReceiptReply record.2.1 executed.1, { s with live := executed.2 }, record.2.2)

end

@[simp] theorem PolicyServer.consumed_live (s : PolicyServer) : s.consumed.live = s.live := by
  unfold PolicyServer.consumed
  split <;> rfl

@[simp] theorem PolicyServer.consumed_ready (s : PolicyServer) : s.consumed.ready = s.ready := by
  unfold PolicyServer.consumed
  split <;> rfl

theorem Accepts.storage {s s' : Subject} {actor : Actor} {r : Request} (h : Accepts s actor r s')
    (ha : actor = .storage) : s' = s := by
  cases h with
  | check => rfl
  | _ => cases ha

/-- What the storage actor asks leaves the table: it may only check. -/
theorem policyApply_storage (p : Policy) (r : Request) : (policyApply p .storage r).2 = p := by
  by_cases hok : (policyApply p .storage r).1.status = Status.ok
  · obtain ⟨-, s', hs, -, hp⟩ := (policyApply_ok_iff p .storage r (policyApply p .storage r).1.value
      (policyApply p .storage r).2).mp (by rw [← hok])
    rw [hp, hs.storage rfl, Policy.set_at]
  · exact policyApply_of_ne p .storage r hok

section

variable {σ : Type*} (audit : Peer σ)

/-- The storage channel leaves the server as it is, whatever it is sent. -/
theorem adminPolicy_storage (s : PolicyServer) (t : σ) (m : Message) :
    (adminPolicyProtected audit 1 (s, t) m).2.1 = s := by
  unfold adminPolicyProtected
  dsimp only
  rw [if_pos (rfl : (1 : ℕ) = 1)]
  split_ifs
  · rfl
  · rfl
  · rfl
  · rfl
  · rw [policyCommit_live, policyApply_storage, ite_self]

/-- The execution of an admitted command, when it is its turn. -/
theorem adminPolicy_execute {s : PolicyServer} {m : Message} (t : σ) (hr : s.ready = true)
    (hl : m.label = Label.adminExecute) (hn : m.count = 6) (hx : Executable (executionFromWords m.mr))
    (he : s.executionExhausted = false)
    (hq : (executionFromWords m.mr).sequence = s.executionSequence) :
    let c := executionFromWords m.mr
    let record := recordDecision audit t m.mr c.request .admin
      (policyAdminCompareApply s.live .admin c).1
    adminPolicyProtected audit 0 (s, t) m =
      (adminReceiptReply record.2.1 (adminExecute s.live c record.1).1,
        { s.consumed with live := (adminExecute s.live c record.1).2 }, record.2.2) := by
  have hv := (adminExecutionValid_iff _).mpr hx
  unfold adminPolicyProtected
  simp [hr, hl, hn, hv, he, hq]

/-- What the administrator's channel can do: nothing, or the execution of a valid command in its
turn. -/
theorem adminPolicy_cases (s : PolicyServer) (t : σ) (m : Message) :
    (adminPolicyProtected audit 0 (s, t) m).2.1 = s ∨
      ∃ b, (adminPolicyProtected audit 0 (s, t) m).2.1 =
        { s.consumed with live := (adminExecute s.live (executionFromWords m.mr) b).2 } := by
  unfold adminPolicyProtected
  dsimp only
  rw [if_neg (show ¬ (0 : ℕ) = 1 by decide)]
  split_ifs
  · exact Or.inl rfl
  · exact Or.inl rfl
  · exact Or.inl rfl
  · exact Or.inl rfl
  · right
    rw [PolicyServer.consumed_live]
    exact ⟨_, rfl⟩

/-- **A change of the table by an execution**: the command met the generation it expects, and the
change is the one of the plain request. -/
theorem adminExecute_changed {p : Policy} {c : AdminCommand} {b : Bool}
    (h : (adminExecute p c b).2 ≠ p) :
    (p.at c.request.subject).generation = c.expectedGeneration ∧
      (adminExecute p c b).2 = (policyApply p .admin c.request).2 := by
  have hlive : (adminExecute p c b).2 = (policyCommit p (policyAdminCompareApply p .admin c).2
      c.request (policyAdminCompareApply p .admin c).1 b).2 := rfl
  rw [hlive, policyCommit_live] at h ⊢
  split_ifs at h ⊢ with hcommit
  · unfold policyAdminCompareApply at h ⊢
    split_ifs at h ⊢ with h1 h2 h3
    · exact absurd rfl h
    · exact absurd rfl h
    · exact absurd rfl h
    · exact ⟨not_not.mp h3, rfl⟩
  · exact absurd rfl h

end

end Tcs
