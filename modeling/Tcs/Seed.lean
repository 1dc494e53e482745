/-
# The seed system

`servers/policy.c` with the audit, storage and client servers. The policy
server evaluates a request of channel 0 (the administrator's) or channel 1
(the storage server's) on a copy of its table, puts the decision before the
audit and commits with the audit's answer.

Which requests it has evaluated is kept beside its state (`observed`), so
the audit log can be compared with them: it holds the first 64, in order
(`SeedOk`), and a decision that is not a reduction is worth nothing without
its record.

Key definitions: `policyProtected`, `Evaluation`, `seedStep`, `SeedOk`,
`Audited`.
Key theorems: `policyProtected_evaluated`, `seedOk_step`, `audited_step`,
`audit_complete`.
-/
import Tcs.Servers
import Tcs.Lib.Run

namespace Tcs

open Ipc

/-! ### The policy server -/

/-- The statics of the server: `live` and `ready`. -/
structure SeedPolicy where
  live : Policy
  ready : Bool

/-- The statics as they are loaded. -/
def SeedPolicy.start : SeedPolicy := ⟨Policy.zero, false⟩

/-- `init`. -/
def SeedPolicy.init (s : SeedPolicy) : SeedPolicy := { s with ready := true }

/-- The request of a message. -/
def policyRequest (m : Message) : Request := ⟨m.label &&& 0xff, m.mr 0, m.mr 1, m.mr 2, m.mr 3⟩

/-- The actor of a channel. -/
def channelActor (ch : ℕ) : Actor := if ch = 0 then .admin else .storage

section

variable {σ : Type*} (audit : Peer σ)

/-- `protected`. -/
def policyProtected (ch : ℕ) : Peer (SeedPolicy × σ) := fun (s, t) m =>
  if !s.ready ∨ (ch ≠ 0 ∧ ch ≠ 1) then (tcsReply m.mr ⟨Status.denied, 0⟩, s, t)
  else if m.label = tcsLabel Op.selfStatus then
    if ch ≠ 1 then (tcsReply m.mr ⟨Status.denied, 0⟩, s, t)
    else if m.count ≠ 0 then (tcsReply m.mr ⟨Status.badMessage, 0⟩, s, t)
    else (snapshotReply m.mr (policySelfStatus s.live .storage), s, t)
  else if m.count ≠ 4 ∨ m.label < tcsLabel Op.grant ∨ m.label > tcsLabel Op.restore then
    (tcsReply m.mr ⟨Status.badMessage, 0⟩, s, t)
  else
    let r := policyRequest m
    let actor := channelActor ch
    let candidate := policyApply s.live actor r
    let out := audit t ⟨tcsLabel Op.auditAppend, 7, decisionWords m.mr r actor candidate.1⟩
    let logged := tcsResponse out.1
    let committed := policyCommit s.live candidate.2 r candidate.1 (logged.status = Status.ok)
    (tcsReply out.1.mr committed.1, { s with live := committed.2 }, out.2)

/-- The message is a request on channel 0 or 1, and the server is ready for it. -/
def Evaluates (ch : ℕ) (s : SeedPolicy) (m : Message) : Prop :=
  s.ready = true ∧ (ch = 0 ∨ ch = 1) ∧ m.count = 4 ∧
    tcsLabel Op.grant ≤ m.label ∧ m.label ≤ tcsLabel Op.restore

instance (ch : ℕ) (s : SeedPolicy) (m : Message) : Decidable (Evaluates ch s m) :=
  inferInstanceAs (Decidable (_ ∧ _ ∧ _ ∧ _ ∧ _))

variable {ch : ℕ} {s : SeedPolicy} {m : Message}

/-- The server on a request: the decision goes to the audit, whose answer decides the commit. -/
theorem policyProtected_evaluated (h : Evaluates ch s m) (t : σ) :
    let r := policyRequest m
    let candidate := policyApply s.live (channelActor ch) r
    let out := audit t ⟨tcsLabel Op.auditAppend, 7,
      decisionWords m.mr r (channelActor ch) candidate.1⟩
    let committed := policyCommit s.live candidate.2 r candidate.1
      ((tcsResponse out.1).status = Status.ok)
    policyProtected audit ch (s, t) m =
      (tcsReply out.1.mr committed.1, { s with live := committed.2 }, out.2) := by
  obtain ⟨hr, hch, hn, hlo, hhi⟩ := h
  have h1 : ¬ ((!s.ready) = true ∨ (ch ≠ 0 ∧ ch ≠ 1)) := by
    rw [hr]
    rcases hch with rfl | rfl <;> simp
  have h2 : m.label ≠ tcsLabel Op.selfStatus := by
    intro hl
    rw [hl] at hhi
    exact absurd hhi (by decide)
  have h3 : ¬ (m.count ≠ 4 ∨ m.label < tcsLabel Op.grant ∨ m.label > tcsLabel Op.restore) := by
    rintro (h | h | h)
    · exact h hn
    · exact UInt64.not_lt.mpr hlo h
    · exact UInt64.not_lt.mpr hhi h
  unfold policyProtected
  dsimp only
  rw [if_neg h1, if_neg h2, if_neg h3]

/-- What the server answers to a message that is no request: an error without a value, or its
snapshot of the client's subject. -/
theorem policyProtected_other (h : ¬ Evaluates ch s m) (t : σ) :
    (∃ status, policyProtected audit ch (s, t) m = (tcsReply m.mr ⟨status, 0⟩, s, t) ∧
      status ≠ Status.ok) ∨
    policyProtected audit ch (s, t) m =
      (snapshotReply m.mr (policySelfStatus s.live .storage), s, t) := by
  unfold policyProtected
  dsimp only
  split_ifs with h1 h2 h3 h4 h5
  · exact Or.inl ⟨_, rfl, by decide⟩
  · exact Or.inl ⟨_, rfl, by decide⟩
  · exact Or.inl ⟨_, rfl, by decide⟩
  · exact Or.inr rfl
  · exact Or.inl ⟨_, rfl, by decide⟩
  · exfalso
    simp only [not_or, not_and, not_not, Bool.not_eq_true', Bool.not_eq_false] at h1 h5
    refine h ⟨h1.1, ?_, h5.1, UInt64.not_lt.mp h5.2.1, UInt64.not_lt.mp h5.2.2⟩
    by_cases hch : ch = 0
    · exact Or.inl hch
    · exact Or.inr (h1.2 hch)

theorem policyProtected_other_state (h : ¬ Evaluates ch s m) (t : σ) :
    (policyProtected audit ch (s, t) m).2 = (s, t) := by
  rcases policyProtected_other audit h t with ⟨status, heq, -⟩ | heq <;> rw [heq]

end

/-! ### The evaluated requests -/

/-- A request that the policy server evaluated, with what it decided. -/
structure Evaluation where
  actor : Actor
  request : Request
  decision : Result
  deriving DecidableEq

/-- The record that the audit should hold. -/
def Evaluation.record (e : Evaluation) : Fin 7 → UInt64 :=
  decisionRecord e.request e.actor e.decision

/-- What the server evaluates when it meets a message. -/
def evaluated (ch : ℕ) (s : SeedPolicy) (m : Message) : List Evaluation :=
  if Evaluates ch s m then
    [⟨channelActor ch, policyRequest m, (policyApply s.live (channelActor ch) (policyRequest m)).1⟩]
  else []

/-- The policy server on a channel, and beside it the requests it has evaluated. -/
def observed {σ : Type*} (ch : ℕ) (server : Peer (SeedPolicy × σ)) :
    Peer ((SeedPolicy × σ) × List Evaluation) := fun s m =>
  let out := server s.1 m
  (out.1, out.2, s.2 ++ evaluated ch s.1.1 m)

/-! ### The system -/

/-- The policy and the audit server, and the requests that were evaluated. -/
abbrev Seed := (SeedPolicy × AuditLog) × List Evaluation

def Seed.live (s : Seed) : Policy := s.1.1.live

def Seed.records (s : Seed) : List (Fin 7 → UInt64) := s.1.2.records

/-- The system as it starts, with the policy server ready. -/
def Seed.start : Seed := ((SeedPolicy.start.init, AuditLog.empty), [])

/-- A message to channel 0 of the policy, to channel 0 of the client or to channel 1 of the audit. -/
inductive SeedCall
  | policy (m : Message) (hops : Hops)
  | client (m : Message) (hops : Hops)
  | audit (m : Message)

/-- The policy server with its audit, as it is called on channel `ch`. -/
def seedPolicy (hops : Hops) (ch : ℕ) : Peer Seed :=
  observed ch (policyProtected (ppcall hops.third (auditProtected 0)) ch)

/-- The client server with the servers behind it. -/
def seedClient (hops : Hops) : Peer Seed := clientPath hops.first hops.second (seedPolicy hops 1)

/-- One message: the system after it and the reply. -/
def seedStep (s : Seed) : SeedCall → Seed × Message
  | .policy m hops => ((seedPolicy hops 0 s m).2, (seedPolicy hops 0 s m).1)
  | .client m hops => ((seedClient hops s m).2, (seedClient hops s m).1)
  | .audit m =>
    let out := auditProtected 1 s.1.2 m
    (((s.1.1, out.2), s.2), out.1)

abbrev SeedEntry := Run.Entry Seed SeedCall Message

/-- The system after the calls. -/
def seedRun (calls : List SeedCall) : Seed := Run.final seedStep Seed.start calls

/-- The history of the calls. -/
def seedTrace (calls : List SeedCall) : List SeedEntry := Run.trace seedStep Seed.start calls

/-! ### One message to the policy server -/

section Step

variable {hops : Hops} {ch : ℕ} {s : Seed} {m : Message}

/-- What the policy server decides on a message. -/
def Seed.evaluation (s : Seed) (ch : ℕ) (m : Message) : Evaluation :=
  ⟨channelActor ch, policyRequest m, (policyApply s.live (channelActor ch) (policyRequest m)).1⟩

/-- What it commits: the answer and the table. -/
def Seed.committed (s : Seed) (ch : ℕ) (m : Message) : Result × Policy :=
  policyCommit s.live (policyApply s.live (channelActor ch) (policyRequest m)).2 (policyRequest m)
    (s.evaluation ch m).decision s.1.2.room

/-- A request is decided, recorded if there is room, and committed with the audit's answer. -/
theorem seedPolicy_evaluated (hops : Hops) (h : Evaluates ch s.1.1 m) :
    ∃ mr, seedPolicy hops ch s m = (tcsReply mr (s.committed ch m).1,
      (({ s.1.1 with live := (s.committed ch m).2 }, s.1.2.record (s.evaluation ch m).record),
        s.2 ++ [s.evaluation ch m])) := by
  have heq := policyProtected_evaluated (ppcall hops.third (auditProtected 0)) h s.1.2
  obtain ⟨h1, h2⟩ := auditAppend_eq hops.third s.1.2 m.mr (policyRequest m) (channelActor ch)
    (policyApply s.1.1.live (channelActor ch) (policyRequest m)).1
  dsimp only at heq h1 h2
  rw [h1, s.1.2.appended_ok, h2] at heq
  have hout : seedPolicy hops ch s m =
      ((policyProtected (ppcall hops.third (auditProtected 0)) ch (s.1.1, s.1.2) m).1,
        (policyProtected (ppcall hops.third (auditProtected 0)) ch (s.1.1, s.1.2) m).2,
        s.2 ++ [s.evaluation ch m]) := by
    unfold seedPolicy observed evaluated
    rw [if_pos h]
    rfl
  rw [hout, heq]
  exact ⟨_, rfl⟩

theorem seedPolicy_other (h : ¬ Evaluates ch s.1.1 m) : (seedPolicy hops ch s m).2 = s := by
  have heq := policyProtected_other_state (ppcall hops.third (auditProtected 0)) h s.1.2
  unfold seedPolicy observed evaluated
  rw [if_neg h, List.append_nil]
  exact Prod.ext heq rfl

/-- The client's path does to the system what some message to the policy does, or nothing. -/
theorem seedClient_state (hops : Hops) (s : Seed) (m : Message) :
    (seedClient hops s m).2 = s ∨ ∃ m', (seedClient hops s m).2 = (seedPolicy hops 1 s m').2 := by
  unfold seedClient
  by_cases hs : tcsMessage m Op.clientStatus 0 = true
  · obtain ⟨mr, h, -⟩ := clientPath_status hops.first hops.second
      (seedPolicy hops 1) hs s
    exact Or.inr ⟨_, h⟩
  · by_cases hr : tcsMessage m Op.clientRead 3 = true
    · obtain ⟨mr, -, h, -⟩ := clientPath_read hops.first hops.second
        (seedPolicy hops 1) hr s
      exact Or.inr ⟨_, h⟩
    · exact Or.inl (clientPath_other _ _ _ (by simpa using hs) (by simpa using hr) s).1

/-- The log is the first of the evaluated requests, as many as it can hold. -/
structure SeedOk (s : Seed) : Prop where
  ready : s.1.1.ready = true
  log : s.records = (s.2.take auditCapacity).map Evaluation.record

theorem SeedOk.length (h : SeedOk s) : s.records.length = min auditCapacity s.2.length := by
  rw [h.log, List.length_map, List.length_take]

theorem records_record (log : AuditLog) (fields : Fin 7 → UInt64) :
    (log.record fields).records = if log.room then log.records ++ [fields] else log.records := by
  unfold AuditLog.record AuditLog.room
  by_cases h : log.records.length < auditCapacity
  · rw [dif_pos h, if_pos (by simpa using h)]
  · rw [dif_neg h, if_neg (by simpa using h)]

theorem SeedOk.policy (h : SeedOk s) (hops : Hops) (ch : ℕ) (m : Message) :
    SeedOk (seedPolicy hops ch s m).2 := by
  by_cases he : Evaluates ch s.1.1 m
  · obtain ⟨mr, heq⟩ := seedPolicy_evaluated hops he
    rw [heq]
    refine ⟨h.ready, ?_⟩
    show (s.1.2.record _).records = _
    have hlen := h.length
    rw [records_record]
    by_cases hroom : s.1.2.room = true
    · have hlt : s.1.2.records.length < auditCapacity := by simpa [AuditLog.room] using hroom
      change s.1.2.records.length = _ at hlen
      rw [if_pos hroom, List.take_append, List.map_append,
        List.take_of_length_le (l := [s.evaluation ch m]) (by rw [List.length_singleton]; omega)]
      exact congrArg (· ++ [(s.evaluation ch m).record]) h.log
    · have hge : ¬ s.1.2.records.length < auditCapacity := by simpa [AuditLog.room] using hroom
      change s.1.2.records.length = _ at hlen
      rw [if_neg hroom, List.take_append_of_le_length (by omega)]
      exact h.log
  · rw [seedPolicy_other he]
    exact h

theorem SeedOk.client (h : SeedOk s) (hops : Hops) (m : Message) : SeedOk (seedClient hops s m).2 := by
  rcases seedClient_state hops s m with heq | ⟨m', heq⟩ <;> rw [heq]
  · exact h
  · exact h.policy hops 1 m'

theorem auditProtected_state (log : AuditLog) (m : Message) : (auditProtected 1 log m).2 = log := by
  unfold auditProtected
  dsimp only
  split_ifs with h1 h2 h3
  · rfl
  · split <;> rfl
  · rfl
  · exact absurd (by decide) h3
  · exact absurd (by decide) h3
  · exact absurd (by decide) h3

end Step

theorem seedOk_step {s : Seed} (h : SeedOk s) (x : SeedCall) : SeedOk (seedStep s x).1 := by
  cases x with
  | policy m hops => exact h.policy hops 0 m
  | client m hops => exact h.client hops m
  | audit m =>
    refine ⟨h.ready, ?_⟩
    show (auditProtected 1 s.1.2 m).2.records = _
    rw [auditProtected_state]
    exact h.log

theorem seedOk_start : SeedOk Seed.start := ⟨rfl, rfl⟩

theorem seedOk_run (calls : List SeedCall) : SeedOk (seedRun calls) :=
  Run.final_induct seedOk_start (fun _ x h => seedOk_step h x) calls

/-! ### What a commit needs -/

theorem policyCommit_ok {live candidate : Policy} {r : Request} {decision : Result} {b : Bool}
    (h : (policyCommit live candidate r decision b).1.status = Status.ok) :
    b = true ∧ decision.status = Status.ok := by
  unfold policyCommit at h
  cases b with
  | false => exact absurd h (show Status.auditFull ≠ Status.ok by decide)
  | true => exact ⟨rfl, h⟩

/-- A change that is not a reduction has its record. -/
theorem policyCommit_changed {live candidate : Policy} {r : Request} {decision : Result} {b : Bool}
    (hr : r.reduction = false) (h : (policyCommit live candidate r decision b).2 ≠ live) :
    b = true ∧ decision.status = Status.ok := by
  rw [policyCommit_live] at h
  by_cases hc : decision.status = Status.ok ∧ (b = true ∨ r.reduction = true)
  · obtain ⟨hok, hb | hr'⟩ := hc
    · exact ⟨hb, hok⟩
    · rw [hr] at hr'
      cases hr'
  · exact absurd (if_neg hc) h

/-- A snapshot is no result, and carries no sample. -/
theorem snapshotReply_response (mr : Registers) (s : Snapshot) :
    (tcsResponse (snapshotReply mr s)).status ≠ Status.ok := by
  unfold snapshotReply
  split_ifs with h1 h2
  · have := tcsResponse_reply mr ⟨s.status, 0⟩ (tcsReply mr ⟨s.status, 0⟩).mr
    rw [tcsResponse_deliver] at this
    rw [this]
    exact h1
  · have := tcsResponse_reply mr ⟨Status.badMessage, 0⟩ mr
    rw [tcsResponse_deliver] at this
    rw [this]
    decide
  · show (tcsResponse ⟨Label.snapshotReply, 4, _⟩).status ≠ Status.ok
    unfold tcsResponse
    rw [if_pos (Or.inl (show Label.snapshotReply ≠ Label.reply by decide))]
    decide

/-- A reply that carries the word of the fixture: a result with that value. -/
def Fixture (reply : Message) : Prop :=
  reply.label = Label.reply ∧ reply.count = 2 ∧ reply.mr 1 = tcsSample

theorem Fixture.of_view {reply : Message} (h : Fixture reply) {status value : UInt64}
    (hv : reply.view = (Label.reply, [status, value])) : value = tcsSample := by
  obtain ⟨-, hn, hw⟩ := h
  have hlist := congrArg Prod.snd hv
  simp only [Message.view, hn, List.range_succ, List.range_zero, List.nil_append,
    List.map_cons, List.map_nil, List.cons_append, List.cons.injEq, and_true] at hlist
  rw [← hlist.2, hw]

theorem Fixture.read {reply : Message} (h : Fixture reply) {decision : Result}
    (hv : reply.view = readReply decision) : decision.status = Status.ok := by
  by_contra hne
  have := h.of_view hv
  rw [if_neg hne] at this
  exact absurd this (by decide)

theorem fixture_snapshotReply {reply : Message} {mr : Registers} {s : Snapshot}
    (hv : reply.view = (snapshotReply mr s).view) : ¬ Fixture reply := by
  intro h
  unfold snapshotReply at hv
  split_ifs at hv
  · rw [tcsReply_view] at hv
    exact absurd (h.of_view hv) (show (0 : UInt64) ≠ tcsSample by decide)
  · rw [tcsReply_view] at hv
    exact absurd (h.of_view hv) (show (0 : UInt64) ≠ tcsSample by decide)
  · have hl : reply.label = Label.snapshotReply := congrArg Prod.fst hv
    rw [h.1] at hl
    exact absurd hl (by decide)

/-! ### Every message of a run -/

/-- What a reduction leaves of a subject. -/
def Subject.reduced (x : Subject) (label : UInt64) : Subject where
  generation := Word.satSucc x.generation
  object := 0
  rights := 0
  state := if label = tcsLabel Op.quarantine ∨ x.state = .quarantined then .quarantined else .restricted

/-- What a message of a run does, as far as the audit is concerned. -/
structure Audited (e : SeedEntry) : Prop where
  /-- A record is returned with its number, as it was written. -/
  query : ∀ m, e.input = .audit m → tcsMessage m Op.auditGet 1 = true → ∀ fields,
    e.pre.records[(m.mr 0).toNat]? = some fields → e.output.label = tcsLabel Op.auditGet ∧
      e.output.count = 8 ∧ e.output.mr 0 = m.mr 0 + 1 ∧ ∀ i : Fin 7, e.output.mr (i + 1) = fields i
  /-- Only the administrator's channel changes the table. -/
  quiet : (∀ m hops, e.input ≠ .policy m hops) → e.post.live = e.pre.live
  increase : ∀ m hops, e.input = .policy m hops →
    m.label = tcsLabel Op.grant ∨ m.label = tcsLabel Op.restore →
    e.post.live ≠ e.pre.live ∨ (tcsResponse e.output).status = Status.ok →
    e.post.records = e.pre.records ++ [decisionRecord (policyRequest m) .admin ⟨Status.ok, 0⟩]
  read : ∀ m hops, e.input = .client m hops → Fixture e.output →
    e.post.records = e.pre.records ++
      [decisionRecord ⟨Op.check, 1, m.mr 0, m.mr 1, m.mr 2⟩ .storage ⟨Status.ok, 0⟩]
  fullRead : e.pre.records.length = auditCapacity → ∀ m hops, e.input = .client m hops →
    ¬ Fixture e.output
  fullIncrease : e.pre.records.length = auditCapacity → ∀ m hops, e.input = .policy m hops →
    m.label = tcsLabel Op.grant ∨ m.label = tcsLabel Op.restore →
    e.post.live = e.pre.live ∧ (tcsResponse e.output).status ≠ Status.ok
  fullReduction : e.pre.records.length = auditCapacity → ∀ m hops, e.input = .policy m hops →
    m.label = tcsLabel Op.revoke ∨ m.label = tcsLabel Op.quarantine → m.count = 4 →
    m.mr 0 < subjectCount → m.mr 1 = 0 → m.mr 2 = 0 → m.mr 3 = 0 →
    tcsResponse e.output = ⟨Status.auditFull, 0⟩ ∧
      e.post.live = e.pre.live.set (m.mr 0) ((e.pre.live.at (m.mr 0)).reduced m.label)

section Step

variable {hops : Hops} {ch : ℕ} {s : Seed} {m : Message}

theorem record_of_ok {e : Evaluation} (h : e.decision.status = Status.ok) :
    e.record = decisionRecord e.request e.actor ⟨Status.ok, 0⟩ := by
  unfold Evaluation.record decisionRecord
  rw [h]

/-- With room and a successful decision, the record of the decision is appended. -/
theorem seedPolicy_recorded (h : Evaluates ch s.1.1 m) (hroom : s.1.2.room = true)
    (hok : (s.evaluation ch m).decision.status = Status.ok) :
    (seedPolicy hops ch s m).2.records = s.records ++
      [decisionRecord (policyRequest m) (channelActor ch) ⟨Status.ok, 0⟩] := by
  obtain ⟨mr, heq⟩ := seedPolicy_evaluated hops h
  rw [heq]
  show (s.1.2.record _).records = _
  rw [records_record, if_pos hroom, record_of_ok hok]
  rfl

theorem response_tcsReply (mr : Registers) (r : Result) : tcsResponse (tcsReply mr r) = r := by
  have := tcsResponse_reply mr r mr
  rwa [tcsResponse_deliver] at this

/-- What a request of the administrator that is no reduction needs. -/
theorem seedPolicy_increase (hl : m.label = tcsLabel Op.grant ∨ m.label = tcsLabel Op.restore)
    (h : (seedPolicy hops 0 s m).2.live ≠ s.live ∨
      (tcsResponse (seedPolicy hops 0 s m).1).status = Status.ok) :
    Evaluates 0 s.1.1 m ∧ s.1.2.room = true ∧
      (s.evaluation 0 m).decision.status = Status.ok := by
  by_cases he : Evaluates 0 s.1.1 m
  · obtain ⟨mr, heq⟩ := seedPolicy_evaluated hops he
    rw [heq, response_tcsReply] at h
    refine ⟨he, ?_⟩
    rcases h with h | h
    · refine policyCommit_changed ?_ h
      show decide (m.label &&& 0xff = Op.revoke ∨ m.label &&& 0xff = Op.quarantine) = false
      rcases hl with hl | hl <;> rw [hl] <;> decide
    · exact policyCommit_ok h
  · exfalso
    rcases h with h | h
    · rw [seedPolicy_other he] at h
      exact h rfl
    · change (tcsResponse (policyProtected (ppcall hops.third (auditProtected 0)) 0
        (s.1.1, s.1.2) m).1).status = Status.ok at h
      rcases policyProtected_other (ppcall hops.third (auditProtected 0)) he s.1.2 with
        ⟨status, heq, hne⟩ | heq
      · rw [heq, response_tcsReply] at h
        exact hne h
      · rw [heq] at h
        exact snapshotReply_response _ _ h

/-- What a read that returns the fixture needs. -/
theorem seedClient_fixture (hok : SeedOk s) (h : Fixture (seedClient hops s m).1) :
    s.1.2.room = true ∧ (seedClient hops s m).2.records = s.records ++
      [decisionRecord ⟨Op.check, 1, m.mr 0, m.mr 1, m.mr 2⟩ .storage ⟨Status.ok, 0⟩] := by
  unfold seedClient at h ⊢
  by_cases hs : tcsMessage m Op.clientStatus 0 = true
  · -- a status query is answered with a snapshot or an error
    exfalso
    obtain ⟨mr, -, hv⟩ := clientPath_status hops.first hops.second
      (seedPolicy hops 1) hs s
    have he : ¬ Evaluates 1 s.1.1 ⟨tcsLabel Op.selfStatus, 0, mr⟩ := fun he => by
      have := he.2.2.1
      cases this
    change _ = (policyProtected (ppcall hops.third (auditProtected 0)) 1 (s.1.1, s.1.2)
      ⟨tcsLabel Op.selfStatus, 0, mr⟩).1.view at hv
    rcases policyProtected_other (ppcall hops.third (auditProtected 0)) he s.1.2 with
      ⟨status, heq, -⟩ | heq
    · rw [heq, tcsReply_view] at hv
      exact absurd (h.of_view hv) (show (0 : UInt64) ≠ tcsSample by decide)
    · rw [heq] at hv
      exact fixture_snapshotReply hv h
  by_cases hr : tcsMessage m Op.clientRead 3 = true
  · obtain ⟨mr, ⟨h0, h1, h2, h3⟩, hst, hv⟩ := clientPath_read hops.first
      hops.second (seedPolicy hops 1) hr s
    have he : Evaluates 1 s.1.1 ⟨tcsLabel Op.check, 4, mr⟩ :=
      ⟨hok.ready, Or.inr rfl, rfl, by show tcsLabel Op.grant ≤ tcsLabel Op.check; decide,
        by show tcsLabel Op.check ≤ tcsLabel Op.restore; decide⟩
    have hreq : policyRequest ⟨tcsLabel Op.check, 4, mr⟩ =
        ⟨Op.check, 1, m.mr 0, m.mr 1, m.mr 2⟩ := by
      show Request.mk (tcsLabel Op.check &&& 0xff) (mr 0) (mr 1) (mr 2) (mr 3) = _
      rw [h0, h1, h2, h3]
      rfl
    obtain ⟨mr', heq⟩ := seedPolicy_evaluated hops he
    have hcommit := h.read hv
    rw [heq, response_tcsReply] at hcommit
    obtain ⟨hroom, hdec⟩ := policyCommit_ok hcommit
    refine ⟨hroom, ?_⟩
    rw [hst, seedPolicy_recorded he hroom hdec, hreq]
    rfl
  · exfalso
    have hv := (clientPath_other hops.first hops.second
      (seedPolicy hops 1) (by simpa using hs) (by simpa using hr) s).2
    exact absurd (h.of_view hv) (show (0 : UInt64) ≠ tcsSample by decide)

theorem seedPolicy_storage (hops : Hops) (s : Seed) (m : Message) :
    (seedPolicy hops 1 s m).2.live = s.live := by
  by_cases he : Evaluates 1 s.1.1 m
  · obtain ⟨mr, heq⟩ := seedPolicy_evaluated hops he
    rw [heq]
    show (s.committed 1 m).2 = s.live
    unfold Seed.committed
    rw [show channelActor 1 = .storage from rfl, policyApply_storage, policyCommit_live, ite_self]
  · rw [seedPolicy_other he]

theorem seedClient_live (hops : Hops) (s : Seed) (m : Message) :
    (seedClient hops s m).2.live = s.live := by
  rcases seedClient_state hops s m with heq | ⟨m', heq⟩ <;> rw [heq]
  exact seedPolicy_storage hops s m'

/-- A reduction in the administrator's words, with no room for a record. -/
theorem seedPolicy_reduction (hok : SeedOk s) (hroom : s.1.2.room = false)
    (hl : m.label = tcsLabel Op.revoke ∨ m.label = tcsLabel Op.quarantine) (hn : m.count = 4)
    (hs : m.mr 0 < subjectCount) (h1 : m.mr 1 = 0) (h2 : m.mr 2 = 0) (h3 : m.mr 3 = 0) :
    tcsResponse (seedPolicy hops 0 s m).1 = ⟨Status.auditFull, 0⟩ ∧
      (seedPolicy hops 0 s m).2.live =
        s.live.set (m.mr 0) ((s.live.at (m.mr 0)).reduced m.label) := by
  have he : Evaluates 0 s.1.1 m := by
    refine ⟨hok.ready, Or.inl rfl, hn, ?_⟩
    rcases hl with hl | hl <;> rw [hl] <;> decide
  obtain ⟨mr, heq⟩ := seedPolicy_evaluated hops he
  have hreq : policyRequest m = ⟨m.label &&& 0xff, m.mr 0, 0, 0, 0⟩ := by
    rw [policyRequest, h1, h2, h3]
  have happly : ∃ v, policyApply s.live .admin (policyRequest m) =
      (⟨Status.ok, v⟩, s.live.set (m.mr 0) ((s.live.at (m.mr 0)).reduced m.label)) := by
    rw [hreq]
    unfold Subject.reduced
    rcases hl with hl | hl <;> rw [hl]
    · refine ⟨_, (policyApply_ok_iff _ _ _ _ _).mpr ⟨hs, _, .revoke (m.mr 0), rfl, ?_⟩⟩
      simp only [show ¬ tcsLabel Op.revoke = tcsLabel Op.quarantine by decide, false_or]
    · refine ⟨_, (policyApply_ok_iff _ _ _ _ _).mpr ⟨hs, _, .quarantine (m.mr 0), rfl, ?_⟩⟩
      simp only [true_or, if_true]
  obtain ⟨v, happly⟩ := happly
  have hred : (policyRequest m).reduction = true := by
    show decide (m.label &&& 0xff = Op.revoke ∨ m.label &&& 0xff = Op.quarantine) = true
    rcases hl with hl | hl <;> rw [hl] <;> decide
  have hcommit : s.committed 0 m =
      (⟨Status.auditFull, 0⟩, s.live.set (m.mr 0) ((s.live.at (m.mr 0)).reduced m.label)) := by
    unfold Seed.committed Seed.evaluation
    rw [show channelActor 0 = .admin from rfl, happly, hroom]
    exact Prod.ext rfl (if_pos ⟨rfl, Or.inr hred⟩)
  rw [heq, hcommit]
  exact ⟨response_tcsReply _ _, rfl⟩

/-- The audit returns a record with its number. -/
theorem auditProtected_get {log : AuditLog} (h : tcsMessage m Op.auditGet 1 = true)
    {fields : Fin 7 → UInt64} (hf : log.records[(m.mr 0).toNat]? = some fields) :
    let reply := (auditProtected 1 log m).1
    reply.label = tcsLabel Op.auditGet ∧ reply.count = 8 ∧ reply.mr 0 = m.mr 0 + 1 ∧
      ∀ i : Fin 7, reply.mr (i + 1) = fields i := by
  have hl := (tcsMessage_label h).1
  unfold auditProtected
  dsimp only
  rw [if_neg (by rw [tcsMessage_of_ne 0 (by rw [hl]; decide)]; simp), if_pos ⟨rfl, h⟩, hf]
  refine ⟨rfl, rfl, ?_, fun i => ?_⟩
  · simp [List.finRange_succ, Registers.set_apply]
  · fin_cases i <;> simp [List.finRange_succ, Registers.set_apply]

end Step

/-- **One message.** -/
theorem audited_step {s : Seed} (h : SeedOk s) (x : SeedCall) : Audited (Run.entry seedStep s x) where
  query m hx hm fields hf := by
    rw [Run.entry_input] at hx
    subst hx
    exact auditProtected_get hm hf
  quiet hx := by
    cases x with
    | policy m hops => exact absurd rfl (hx m hops)
    | client m hops => exact seedClient_live hops s m
    | audit m => rfl
  increase m hops hx hl he := by
    rw [Run.entry_input] at hx
    subst hx
    obtain ⟨h1, h2, h3⟩ := seedPolicy_increase hl he
    exact seedPolicy_recorded h1 h2 h3
  read m hops hx hf := by
    rw [Run.entry_input] at hx
    subst hx
    exact (seedClient_fixture h hf).2
  fullRead hfull m hops hx hf := by
    rw [Run.entry_input] at hx
    subst hx
    have hroom := (seedClient_fixture h hf).1
    simp only [AuditLog.room, decide_eq_true_eq] at hroom
    exact absurd hfull (Nat.ne_of_lt hroom)
  fullIncrease hfull m hops hx hl := by
    rw [Run.entry_input] at hx
    subst hx
    by_contra hn
    rw [not_and_or, not_not] at hn
    have hroom := (seedPolicy_increase hl hn).2.1
    simp only [AuditLog.room, decide_eq_true_eq] at hroom
    exact absurd hfull (Nat.ne_of_lt hroom)
  fullReduction hfull m hops hx hl hn hs h1 h2 h3 := by
    rw [Run.entry_input] at hx
    subst hx
    refine seedPolicy_reduction h ?_ hl hn hs h1 h2 h3
    simp only [AuditLog.room, decide_eq_false_iff_not]
    exact fun hlt => absurd hfull (Nat.ne_of_lt hlt)

theorem records_step {s : Seed} (x : SeedCall) : s.records <+: (seedStep s x).1.records := by
  have hpolicy : ∀ hops ch m, s.records <+: (seedPolicy hops ch s m).2.records := by
    intro hops ch m
    by_cases he : Evaluates ch s.1.1 m
    · obtain ⟨mr, heq⟩ := seedPolicy_evaluated hops he
      rw [heq]
      show s.1.2.records <+: (s.1.2.record _).records
      rw [records_record]
      split_ifs
      · exact List.prefix_append _ _
      · exact List.prefix_rfl
    · rw [seedPolicy_other he]
  cases x with
  | policy m hops => exact hpolicy hops 0 m
  | client m hops =>
    show s.records <+: (seedClient hops s m).2.records
    rcases seedClient_state hops s m with heq | ⟨m', heq⟩ <;> rw [heq]
    exact hpolicy hops 1 m'
  | audit m =>
    show s.1.2.records <+: (auditProtected 1 s.1.2 m).2.records
    rw [auditProtected_state]

theorem records_run (s : Seed) (calls : List SeedCall) :
    s.records <+: (Run.final seedStep s calls).records := by
  induction calls generalizing s with
  | nil => exact List.prefix_rfl
  | cons x calls ih => exact (records_step x).trans (ih _)

/-- **The audit is complete.** In every run, the log is the first of the requests that the policy
server has evaluated, in order and as many as it can hold, and is only ever added to. A grant or a
restoration that takes effect and a read that returns the fixture have added their own record, so
none does once the log is full, while a reduction still takes effect and is answered so. -/
theorem audit_complete (calls : List SeedCall) :
    (seedRun calls).records = ((seedRun calls).2.take auditCapacity).map Evaluation.record ∧
      (∀ more, (seedRun calls).records <+: (seedRun (calls ++ more)).records) ∧
      ∀ e ∈ seedTrace calls, Audited e := by
  refine ⟨(seedOk_run calls).log, fun more => ?_, fun e he => ?_⟩
  · rw [seedRun, seedRun, Run.final_append]
    exact records_run _ more
  · obtain ⟨is₁, x, is₂, -, rfl⟩ := Run.mem_trace he
    exact audited_step (seedOk_run is₁) x

end Tcs
