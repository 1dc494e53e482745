/-
# The client's self status

A status query of the client goes through the client and the storage server
to the policy server, which answers with a snapshot of the client's subject;
the snapshot comes back through the two relays and is decoded. The policy
server refuses to send a snapshot that is not well formed, so a faithful
answer needs the invariant of the table (`selfStatus_of_tableOk`); the relays
pass on what they get (`clientPath_status`); and the decoder reads counted
words only (`snapshotResponse_view`).

Neither the policy server of the seed system nor that of the signed images
changes anything on the way, so this is one statement about a policy server
that answers status queries (`AnswersStatus`).

The decoder itself is total: it returns a valid snapshot, or a status from 1
to 6 alone (`snapshotResponse_cases`).

Key definitions: `Answered`, `AnswersStatus`.
Key theorems: `snapshotResponse_cases`, `snapshotResponse_reply`,
`clientPath_selfStatus`, `seedRun_table`, `self_status_faithful`.
-/
import Tcs.ClientView

namespace Tcs

open Ipc

/-! ### The decoder -/

/-- What a decoded reply is: a valid snapshot, or a status of an error and nothing else. -/
def Answered (s : Snapshot) : Prop :=
  (s.status = Status.ok ∧ snapshotValid s = true) ∨
    (1 ≤ s.status ∧ s.status ≤ 6 ∧ s = ⟨s.status, 0, 0, 0, 0⟩)

theorem answered_invalid : Answered ⟨Status.badMessage, 0, 0, 0, 0⟩ :=
  Or.inr ⟨by decide, by decide, rfl⟩

/-- **The decoder is total.** -/
theorem snapshotResponse_cases (m : Message) : Answered (snapshotResponse m) := by
  unfold snapshotResponse
  dsimp only
  by_cases hl : m.label = Label.reply
  · rw [if_pos hl]
    by_cases hr : (tcsResponse m).status ≥ Status.denied ∧
        (tcsResponse m).status ≤ Status.exhausted ∧ (tcsResponse m).value = 0
    · rw [if_pos hr]
      exact Or.inr ⟨hr.1, hr.2.1, rfl⟩
    · rw [if_neg hr]
      exact answered_invalid
  rw [if_neg hl]
  by_cases hn : m.label ≠ Label.snapshotReply ∨ m.count ≠ 4
  · rw [if_pos hn]
    exact answered_invalid
  rw [if_neg hn]
  by_cases hv : snapshotValid ⟨Status.ok, m.mr 0, m.mr 1, m.mr 2, m.mr 3⟩ = true
  · rw [if_pos hv]
    exact Or.inl ⟨rfl, hv⟩
  · rw [if_neg hv]
    exact answered_invalid

/-- A reply is decoded from its label and its words. -/
theorem snapshotResponse_view {m m' : Message} (h : m.view = m'.view) :
    snapshotResponse m = snapshotResponse m' := by
  have hl : m.label = m'.label := congrArg Prod.fst h
  have hn : m.count = m'.count := Message.view_count h
  have hr : tcsResponse m = tcsResponse m' := by
    unfold tcsResponse
    rw [hl, hn]
    by_cases hc : m'.label ≠ Label.reply ∨ m'.count ≠ 2
    · rw [if_pos hc, if_pos hc]
    · have hc' : m.count = 2 := by
        rw [hn]
        by_contra hne
        exact hc (Or.inr hne)
      rw [if_neg hc, if_neg hc, Message.view_mr h (show 0 < m.count by omega),
        Message.view_mr h (show 1 < m.count by omega)]
  unfold snapshotResponse
  dsimp only
  rw [hr, hl, hn]
  by_cases hc : m'.label ≠ Label.snapshotReply ∨ m'.count ≠ 4
  · rw [if_pos hc, if_pos hc]
  · have hc' : m.count = 4 := by
      rw [hn]
      by_contra hne
      exact hc (Or.inr hne)
    rw [if_neg hc, if_neg hc, Message.view_mr h (show 0 < m.count by omega),
      Message.view_mr h (show 1 < m.count by omega), Message.view_mr h (show 2 < m.count by omega),
      Message.view_mr h (show 3 < m.count by omega)]

/-- A valid snapshot is decoded as it was sent. -/
theorem snapshotResponse_reply (mr : Registers) {s : Snapshot} (hs : s.status = Status.ok)
    (hv : snapshotValid s = true) : snapshotResponse (snapshotReply mr s) = s := by
  obtain ⟨status, state, generation, object, rights⟩ := s
  obtain rfl : status = Status.ok := hs
  unfold snapshotReply
  rw [if_neg (not_not.mpr rfl), if_neg (by rw [hv]; decide)]
  unfold snapshotResponse
  dsimp only
  rw [if_neg (by decide), if_neg (by simp)]
  simp only [Registers.set_apply]
  exact if_pos hv

theorem snapshotResponse_badMessage (mr : Registers) :
    snapshotResponse (tcsReply mr ⟨Status.badMessage, 0⟩) = ⟨Status.badMessage, 0, 0, 0, 0⟩ := by
  unfold snapshotResponse
  dsimp only
  rw [if_pos (show (tcsReply mr ⟨Status.badMessage, 0⟩).label = Label.reply from rfl),
    response_tcsReply, if_pos (by decide)]

theorem snapshotResponse_refused (mr noise : Registers) :
    snapshotResponse ((tcsReply mr ⟨Status.badMessage, 0⟩).deliver noise) =
      ⟨Status.badMessage, 0, 0, 0, 0⟩ :=
  calc snapshotResponse ((tcsReply mr ⟨Status.badMessage, 0⟩).deliver noise)
      = snapshotResponse (tcsReply mr ⟨Status.badMessage, 0⟩) :=
        snapshotResponse_view (Message.deliver_view ..)
    _ = ⟨Status.badMessage, 0, 0, 0, 0⟩ := snapshotResponse_badMessage mr

/-! ### The path of a query -/

/-- A server that answers a self status query with the snapshot of a table, and is left as it
was. -/
def AnswersStatus {σ : Type*} (policy : Peer σ) (s : σ) (p : Policy) : Prop :=
  ∀ mr, policy s ⟨tcsLabel Op.selfStatus, 0, mr⟩ =
    (snapshotReply mr (policySelfStatus p .storage), s)

section

variable {σ : Type*} {policy : Peer σ} {s : σ} {p : Policy}

theorem policyProtected_answers (audit : Peer σ) (p : Policy) (t : σ) :
    AnswersStatus (policyProtected audit 1) (⟨p, true⟩, t) p := by
  intro mr
  unfold policyProtected
  dsimp only
  rw [if_neg (by simp), if_pos rfl, if_neg (by simp), if_neg (by simp)]

theorem adminPolicyProtected_answers (audit : Peer σ) {server : PolicyServer}
    (h : server.ready = true) (t : σ) :
    AnswersStatus (adminPolicyProtected audit 1) (server, t) server.live := by
  intro mr
  unfold adminPolicyProtected
  dsimp only
  rw [if_neg (by rw [h]; simp), if_pos rfl, if_pos rfl, if_neg (by simp)]

/-- **A query through the relays.** With a policy server that answers for a good table, the client
gets the snapshot of its subject, and nothing changes. -/
theorem clientPath_selfStatus (h : AnswersStatus policy s p) (hp : TableOk p) (first second : Noise)
    (mr noise : Registers) :
    let out := clientPath first second policy s ⟨tcsLabel Op.clientStatus, 0, mr⟩
    snapshotResponse (out.1.deliver noise) = (p.at 1).snapshot ∧ out.2 = s := by
  have hm : tcsMessage ⟨tcsLabel Op.clientStatus, 0, mr⟩ Op.clientStatus 0 = true := by
    simp [tcsMessage]
  have hv : snapshotValid (p.at 1).snapshot = true := (snapshotValid_snapshot _).mpr (hp _)
  obtain ⟨mr', hstate, hview⟩ := clientPath_status first second policy hm s
  rw [h mr'] at hstate hview
  refine ⟨?_, hstate⟩
  calc snapshotResponse
        ((clientPath first second policy s ⟨tcsLabel Op.clientStatus, 0, mr⟩).1.deliver noise)
      = snapshotResponse (snapshotReply mr' (policySelfStatus p .storage)) := by
        apply snapshotResponse_view
        rw [Message.deliver_view, hview]
    _ = snapshotResponse (snapshotReply mr' (p.at 1).snapshot) := by rw [selfStatus_of_tableOk hp]
    _ = (p.at 1).snapshot := snapshotResponse_reply mr' rfl hv

theorem clientProtected_words (storage : Peer σ) (t : σ) {m : Message}
    (hl : m.label = tcsLabel Op.clientStatus) (hn : m.count ≠ 0) :
    clientProtected storage 0 t m = (tcsReply m.mr ⟨Status.badMessage, 0⟩, t) := by
  have hother : ∀ op n, tcsLabel Op.clientStatus ≠ tcsLabel op → tcsMessage m op n = false := by
    intro op n hne
    apply tcsMessage_of_ne
    rwa [hl]
  have hstatus : tcsMessage m Op.clientStatus 0 = false := by
    simp [tcsMessage, hn]
  unfold clientProtected
  rw [if_neg (by simp), if_neg (by rw [hstatus]; decide),
    if_neg (by rw [hother _ _ (by decide)]; decide), if_neg (by rw [hother _ _ (by decide)]; decide),
    if_pos (by rw [hother _ _ (by decide)]; decide)]

end

/-! ### Tables of the seed system -/

/-- What a message to the policy server does to the table is a step of the policy. -/
theorem seedPolicy_table (hops : Hops) (ch : ℕ) (s : Seed) (m : Message) {xs : List PolicyCall}
    (h : s.live = policyRun xs) : ∃ ys, (seedPolicy hops ch s m).2.live = policyRun ys := by
  by_cases he : Evaluates ch s.1.1 m
  · obtain ⟨mr, heq⟩ := seedPolicy_evaluated hops he
    refine ⟨xs ++ [⟨channelActor ch, .plain (policyRequest m), s.1.2.room⟩], ?_⟩
    rw [heq, policyRun, Run.final_snoc, ← policyRun, ← h]
    rfl
  · rw [seedPolicy_other he]
    exact ⟨xs, h⟩

/-- Every table of the seed system is reached by steps of the policy. -/
theorem seedRun_table (calls : List SeedCall) : ∃ xs, (seedRun calls).live = policyRun xs := by
  apply Run.final_induct (P := fun s : Seed => ∃ xs, s.live = policyRun xs)
  · exact ⟨[], rfl⟩
  · rintro s x ⟨xs, h⟩
    cases x with
    | policy m hops => exact seedPolicy_table hops 0 s m h
    | client m hops =>
      rcases seedClient_state hops s m with heq | ⟨m', heq⟩
      · exact ⟨xs, by rw [show (seedStep s (.client m hops)).1 = s from heq]; exact h⟩
      · have hstep : (seedStep s (.client m hops)).1 = (seedPolicy hops 1 s m').2 := heq
        rw [hstep]
        exact seedPolicy_table hops 1 s m' h
    | audit m => exact ⟨xs, h⟩

/-- The policy server of the seed system answers for its table, in every run. -/
theorem seedPolicy_answers (hops : Hops) (calls : List SeedCall) :
    AnswersStatus (seedPolicy hops 1) (seedRun calls) (seedRun calls).live := by
  intro mr
  have hready := (seedOk_run calls).ready
  generalize seedRun calls = s at hready ⊢
  obtain ⟨⟨⟨live, ready⟩, log⟩, evaluations⟩ := s
  obtain rfl : ready = true := hready
  have hnot : ¬ Evaluates 1 ⟨live, true⟩ ⟨tcsLabel Op.selfStatus, 0, mr⟩ := by
    rintro ⟨-, -, hn, -⟩
    exact absurd hn (show (0 : ℕ) ≠ 4 by decide)
  have heq := policyProtected_answers (ppcall hops.third (auditProtected 0)) live log mr
  unfold seedPolicy observed evaluated
  dsimp only
  rw [heq, if_neg hnot, List.append_nil]
  rfl

/-- **Self status is faithful and free of side effects.**

* For every table that the policy reaches, with any audit server in any state, whatever is in the
  registers: a status query without words on the client's channel is decoded as the snapshot of
  subject 1. Table and audit are left as they were, and no message reaches the audit.
* The same with the policy server of the signed images.
* The same after any run of the seed system, whatever its audit log holds.
* A status query with words is answered with an error by the client server, and no message reaches
  the storage server.
* Any message at all is decoded as a valid snapshot, or as a status from 1 to 6 and nothing else. -/
theorem self_status_faithful {σ τ : Type*} (audit : Peer σ) (t : σ) (storage : Peer τ) (u : τ)
    (log : List Message) :
    (∀ (xs : List PolicyCall) (first second : Noise) (mr noise : Registers),
      let out := clientPath first second (policyProtected (logged audit) 1)
        (⟨policyRun xs, true⟩, t, log) ⟨tcsLabel Op.clientStatus, 0, mr⟩
      snapshotResponse (out.1.deliver noise) = ((policyRun xs).at 1).snapshot ∧
        out.2 = (⟨policyRun xs, true⟩, t, log)) ∧
    (∀ (xs : List PolicyCall) (server : PolicyServer) (first second : Noise) (mr noise : Registers),
      server.ready = true → server.live = policyRun xs →
      let out := clientPath first second (adminPolicyProtected (logged audit) 1)
        (server, t, log) ⟨tcsLabel Op.clientStatus, 0, mr⟩
      snapshotResponse (out.1.deliver noise) = (server.live.at 1).snapshot ∧
        out.2 = (server, t, log)) ∧
    (∀ (calls : List SeedCall) (hops : Hops) (mr noise : Registers),
      let out := seedClient hops (seedRun calls) ⟨tcsLabel Op.clientStatus, 0, mr⟩
      snapshotResponse (out.1.deliver noise) = ((seedRun calls).live.at 1).snapshot ∧
        out.2 = seedRun calls) ∧
    (∀ m : Message, m.label = tcsLabel Op.clientStatus → m.count ≠ 0 → ∀ noise : Registers,
      let out := clientProtected (logged storage) 0 (u, log) m
      tcsResponse (out.1.deliver noise) = ⟨Status.badMessage, 0⟩ ∧
        snapshotResponse (out.1.deliver noise) = ⟨Status.badMessage, 0, 0, 0, 0⟩ ∧
        out.2 = (u, log)) ∧
    ∀ m : Message, Answered (snapshotResponse m) := by
  refine ⟨?_, ?_, ?_, ?_, snapshotResponse_cases⟩
  · intro xs first second mr noise
    exact clientPath_selfStatus (policyProtected_answers (logged audit) (policyRun xs) (t, log))
      (tableOk_run xs) first second mr noise
  · intro xs server first second mr noise hready hlive
    have hp : TableOk server.live := by
      rw [hlive]
      exact tableOk_run xs
    exact clientPath_selfStatus (adminPolicyProtected_answers (logged audit) hready (t, log)) hp
      first second mr noise
  · intro calls hops mr noise
    obtain ⟨xs, hxs⟩ := seedRun_table calls
    have hp : TableOk (seedRun calls).live := by
      rw [hxs]
      exact tableOk_run xs
    exact clientPath_selfStatus (seedPolicy_answers hops calls) hp hops.first hops.second mr noise
  · intro m hl hn noise
    rw [clientProtected_words (logged storage) (u, log) hl hn]
    exact ⟨tcsResponse_reply _ _ _, snapshotResponse_refused m.mr noise, rfl⟩

end Tcs
