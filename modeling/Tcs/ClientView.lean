/-
# What the client can do and see

The client server, the storage server behind it and the policy server of
the seed system, with an audit that answers as it likes. The client's
channel changes no table, and a read is answered with the fixture only when
the client's subject is active at the generation the read names.

What the client sees is its own subject: two runs whose client messages and
whose administrative requests on subject 1 are alike, with the same audit
acknowledgements, give the client the same replies, whatever else the
administrator does. Nothing of a register beyond the counted words matters.

Key definitions: `RelayCall`, `relayStep`, `RelayCall.view`, `Alike`.
Key theorems: `relay_seen`, `relay_hidden`, `client_confined`.
-/
import Tcs.Seed
import Tcs.PolicyHistory

namespace Tcs

open Ipc

/-! ### The system -/

/-- A message to the client's channel 0 or to the policy's channel 0, with the audit's answer to the
decision that it may lead to. -/
inductive RelayCall
  | client (m : Message) (first second : Noise) (ack : Message)
  | admin (m : Message) (ack : Message)

/-- The policy server with an audit that answers `ack`, on channel `ch`. -/
def relayPolicy (ack : Message) (ch : ℕ) : Peer (SeedPolicy × Unit) :=
  policyProtected (answering ack) ch

/-- One message: the policy server after it and the reply. -/
def relayStep (s : SeedPolicy × Unit) : RelayCall → (SeedPolicy × Unit) × Message
  | .client m first second ack =>
    let out := clientPath first second (relayPolicy ack 1) s m
    (out.2, out.1)
  | .admin m ack =>
    let out := relayPolicy ack 0 s m
    (out.2, out.1)

abbrev RelayEntry := Run.Entry (SeedPolicy × Unit) RelayCall Message

/-- The audit acknowledged. -/
def acknowledged (ack : Message) : Bool := (tcsResponse ack).status = Status.ok

/-! ### The policy server's answer -/

section Answer

variable {ack : Message} {ch : ℕ} {s : SeedPolicy × Unit} {m : Message}

/-- What a request is answered and what it leaves. -/
def relayCommitted (s : SeedPolicy) (ch : ℕ) (r : Request) (b : Bool) : Result × Policy :=
  policyCommit s.live (policyApply s.live (channelActor ch) r).2 r
    (policyApply s.live (channelActor ch) r).1 b

theorem relayPolicy_evaluated (h : Evaluates ch s.1 m) :
    let committed := relayCommitted s.1 ch (policyRequest m) (acknowledged ack)
    tcsResponse (relayPolicy ack ch s m).1 = committed.1 ∧
      (relayPolicy ack ch s m).2 = ({ s.1 with live := committed.2 }, ()) := by
  have heq := policyProtected_evaluated (answering ack : Peer Unit) h ()
  dsimp only at heq
  unfold relayPolicy
  rw [heq]
  exact ⟨response_tcsReply _ _, rfl⟩

theorem relayPolicy_other (h : ¬ Evaluates ch s.1 m) : (relayPolicy ack ch s m).2 = s :=
  policyProtected_other_state (answering ack : Peer Unit) h ()

theorem relayPolicy_not_ready (h : s.1.ready = false) :
    relayPolicy ack ch s m = (tcsReply m.mr ⟨Status.denied, 0⟩, s) := by
  unfold relayPolicy policyProtected
  dsimp only
  rw [if_pos (Or.inl (by rw [h]; rfl))]

theorem relayPolicy_status (h : s.1.ready = true) (mr : Registers) :
    relayPolicy ack 1 s ⟨tcsLabel Op.selfStatus, 0, mr⟩ =
      (snapshotReply mr (policySelfStatus s.1.live .storage), s) := by
  unfold relayPolicy policyProtected
  dsimp only
  rw [if_neg (by rw [h]; simp), if_pos rfl, if_neg (by simp), if_neg (by simp)]

theorem relayPolicy_storage : (relayPolicy ack 1 s m).2 = s := by
  by_cases he : Evaluates 1 s.1 m
  · rw [(relayPolicy_evaluated he).2]
    unfold relayCommitted
    rw [show channelActor 1 = .storage from rfl, policyApply_storage, policyCommit_live, ite_self]
  · exact relayPolicy_other he

theorem check_evaluates (h : s.1.ready = true) (mr : Registers) :
    Evaluates 1 s.1 ⟨tcsLabel Op.check, 4, mr⟩ :=
  ⟨h, Or.inr rfl, rfl, by show tcsLabel Op.grant ≤ tcsLabel Op.check; decide,
    by show tcsLabel Op.check ≤ tcsLabel Op.restore; decide⟩

theorem check_request {mr : Registers} {o r g : UInt64}
    (h : mr 0 = 1 ∧ mr 1 = o ∧ mr 2 = r ∧ mr 3 = g) :
    policyRequest ⟨tcsLabel Op.check, 4, mr⟩ = ⟨Op.check, 1, o, r, g⟩ := by
  obtain ⟨h0, h1, h2, h3⟩ := h
  show Request.mk (tcsLabel Op.check &&& 0xff) (mr 0) (mr 1) (mr 2) (mr 3) = _
  rw [h0, h1, h2, h3]
  rfl

end Answer

/-! ### The client's channel carries no authority -/

section Client

variable {first second : Noise} {ack : Message} {s : SeedPolicy × Unit} {m : Message}

theorem relayClient_state : (clientPath first second (relayPolicy ack 1) s m).2 = s := by
  by_cases hs : tcsMessage m Op.clientStatus 0 = true
  · obtain ⟨mr, h, -⟩ := clientPath_status first second
      (relayPolicy ack 1) hs s
    rw [h, relayPolicy_storage]
  · by_cases hr : tcsMessage m Op.clientRead 3 = true
    · obtain ⟨mr, -, h, -⟩ := clientPath_read first second
        (relayPolicy ack 1) hr s
      rw [h, relayPolicy_storage]
    · exact (clientPath_other _ _ _ (by simpa using hs) (by simpa using hr) s).1

/-- A check on a subject succeeds only for its one object, its one right and its generation, and
while it is active. -/
theorem check_needs {p : Policy} {o r g : UInt64}
    (h : (policyApply p .storage ⟨Op.check, 1, o, r, g⟩).1.status = Status.ok) :
    o = tcsObject ∧ r = tcsRead ∧ g = (p.at 1).generation ∧ (p.at 1).state = .active := by
  obtain ⟨-, s', hs, -⟩ := (policyApply_ok_iff p .storage ⟨Op.check, 1, o, r, g⟩
    (policyApply p .storage ⟨Op.check, 1, o, r, g⟩).1.value _).mp (by rw [← h])
  change Accepts (p.at 1) .storage _ s' at hs
  generalize hreq : (⟨Op.check, 1, o, r, g⟩ : Request) = req at hs
  cases hs with
  | check i ha =>
    simp only [Request.mk.injEq] at hreq
    obtain ⟨-, -, rfl, rfl, rfl⟩ := hreq
    exact ⟨rfl, rfl, rfl, ha⟩

/-- What a reply with the fixture shows. -/
theorem relayClient_fixture (h : Fixture (clientPath first second (relayPolicy ack 1) s m).1) :
    tcsMessage m Op.clientRead 3 = true ∧ m.mr 0 = tcsObject ∧ m.mr 1 = tcsRead ∧
      m.mr 2 = (s.1.live.at 1).generation ∧ (s.1.live.at 1).state = .active ∧
      acknowledged ack = true := by
  by_cases hs : tcsMessage m Op.clientStatus 0 = true
  · exfalso
    obtain ⟨mr, -, hv⟩ := clientPath_status first second
      (relayPolicy ack 1) hs s
    by_cases hready : s.1.ready = true
    · rw [relayPolicy_status hready] at hv
      exact fixture_snapshotReply hv h
    · rw [relayPolicy_not_ready (by simpa using hready), tcsReply_view] at hv
      exact absurd (h.of_view hv) (show (0 : UInt64) ≠ tcsSample by decide)
  by_cases hr : tcsMessage m Op.clientRead 3 = true
  · obtain ⟨mr, hmr, -, hv⟩ := clientPath_read first second
      (relayPolicy ack 1) hr s
    have hok := h.read hv
    by_cases hready : s.1.ready = true
    · rw [(relayPolicy_evaluated (check_evaluates hready mr)).1, check_request hmr] at hok
      obtain ⟨hack, hdec⟩ := policyCommit_ok hok
      obtain ⟨h1, h2, h3, h4⟩ := check_needs hdec
      exact ⟨hr, h1, h2, h3, h4, hack⟩
    · rw [relayPolicy_not_ready (by simpa using hready), response_tcsReply] at hok
      exact absurd hok (show Status.denied ≠ Status.ok by decide)
  · exfalso
    have hv := (clientPath_other first second (relayPolicy ack 1)
      (by simpa using hs) (by simpa using hr) s).2
    exact absurd (h.of_view hv) (show (0 : UInt64) ≠ tcsSample by decide)

end Client

/-! ### What the client sees -/

/-- An administrative request on the client's subject. -/
def OnClient (m : Message) : Prop :=
  m.count = 4 ∧ tcsLabel Op.grant ≤ m.label ∧ m.label ≤ tcsLabel Op.restore ∧ m.mr 0 = 1

instance (m : Message) : Decidable (OnClient m) := inferInstanceAs (Decidable (_ ∧ _ ∧ _ ∧ _))

/-- What two runs have to share: a client message, with the audit's acknowledgement if it leads to a
check, and an administrative request on the client's subject, with its acknowledgement. -/
inductive RelayView
  | client (m : UInt64 × List UInt64) (ack : Option Bool)
  | admin (m : UInt64 × List UInt64) (ack : Bool)
  deriving DecidableEq

def RelayCall.view : RelayCall → Option RelayView
  | .client m _ _ ack =>
    some (.client m.view (if tcsMessage m Op.clientRead 3 then some (acknowledged ack) else none))
  | .admin m ack => if OnClient m then some (.admin m.view (acknowledged ack)) else none

/-- The reply to a client message. -/
def clientReply (e : RelayEntry) : Option (UInt64 × List UInt64) :=
  match e.input with
  | .client _ _ _ _ => some e.output.view
  | .admin _ _ => none

/-- Two policy servers agree on the client's subject. -/
structure Alike (s s' : SeedPolicy × Unit) : Prop where
  ready : s.1.ready = s'.1.ready
  subject : s.1.live.at 1 = s'.1.live.at 1

theorem Alike.symm {s s' : SeedPolicy × Unit} (h : Alike s s') : Alike s' s :=
  ⟨h.ready.symm, h.subject.symm⟩

theorem policyApply_congr {p p' : Policy} {r : Request} (h : p.at r.subject = p'.at r.subject)
    (actor : Actor) : (policyApply p actor r).1 = (policyApply p' actor r).1 ∧
      (policyApply p actor r).2.at r.subject = (policyApply p' actor r).2.at r.subject := by
  unfold policyApply
  split_ifs with h1 h2
  · exact ⟨rfl, h⟩
  · exact ⟨rfl, h⟩
  · dsimp only
    rw [h, Policy.at_set, Policy.at_set]
    exact ⟨rfl, rfl⟩

theorem relayCommitted_congr {s s' : SeedPolicy} {r : Request}
    (h : s.live.at r.subject = s'.live.at r.subject) (ch : ℕ) (b : Bool) :
    (relayCommitted s ch r b).1 = (relayCommitted s' ch r b).1 ∧
      (relayCommitted s ch r b).2.at r.subject = (relayCommitted s' ch r b).2.at r.subject := by
  obtain ⟨h1, h2⟩ := policyApply_congr h (channelActor ch)
  unfold relayCommitted policyCommit
  rw [h1]
  by_cases hc : (policyApply s'.live (channelActor ch) r).1.status = Status.ok ∧
      (b = true ∨ r.reduction = true)
  · rw [if_pos hc, if_pos hc]
    split_ifs <;> exact ⟨rfl, h2⟩
  · rw [if_neg hc, if_neg hc]
    split_ifs <;> exact ⟨rfl, h⟩

theorem policyApply_at_ne {p : Policy} {actor : Actor} {r : Request} {i : UInt64}
    (hi : i < subjectCount) (hne : r.subject ≠ i) : (policyApply p actor r).2.at i = p.at i := by
  unfold policyApply
  split_ifs with h1 h2
  · rfl
  · rfl
  · exact Policy.at_set_ne hi (UInt64.not_le.mp fun h => h1 (Or.inl h)) hne

/-- What the policy answers to a message depends on its words only. -/
theorem snapshotReply_view (mr mr' : Registers) (s : Snapshot) :
    (snapshotReply mr s).view = (snapshotReply mr' s).view := by
  unfold snapshotReply
  split_ifs
  · rw [tcsReply_view, tcsReply_view]
  · rw [tcsReply_view, tcsReply_view]
  · simp [Message.view, Registers.set_apply, List.range_succ]

theorem tcsMessage_congr {m m' : Message} (h : m.view = m'.view) (op : UInt64) (n : ℕ) :
    tcsMessage m op n = tcsMessage m' op n := by
  unfold tcsMessage
  rw [show m.label = m'.label from congrArg Prod.fst h, Message.view_count h]

/-- **A client message is answered alike** from policy servers that agree on the client's
subject. -/
theorem relayClient_congr {s s' : SeedPolicy × Unit} (h : Alike s s') {m m' : Message}
    (hm : m.view = m'.view) {first second first' second' : Noise} {ack ack' : Message}
    (hack : tcsMessage m Op.clientRead 3 = true → acknowledged ack = acknowledged ack') :
    (clientPath first second (relayPolicy ack 1) s m).1.view =
      (clientPath first' second' (relayPolicy ack' 1) s' m').1.view := by
  by_cases hs : tcsMessage m Op.clientStatus 0 = true
  · have hs' : tcsMessage m' Op.clientStatus 0 = true := by rwa [← tcsMessage_congr hm]
    obtain ⟨mr, -, hv⟩ := clientPath_status first second
      (relayPolicy ack 1) hs s
    obtain ⟨mr', -, hv'⟩ := clientPath_status first' second'
      (relayPolicy ack' 1) hs' s'
    rw [hv, hv']
    by_cases hready : s.1.ready = true
    · rw [relayPolicy_status hready, relayPolicy_status (by rwa [← h.ready]),
        snapshotReply_view mr mr']
      unfold policySelfStatus
      rw [h.subject]
    · have hready' : s.1.ready = false := by simpa using hready
      rw [relayPolicy_not_ready hready', relayPolicy_not_ready (by rwa [← h.ready]), tcsReply_view,
        tcsReply_view]
  by_cases hr : tcsMessage m Op.clientRead 3 = true
  · have hr' : tcsMessage m' Op.clientRead 3 = true := by rwa [← tcsMessage_congr hm]
    obtain ⟨mr, hmr, -, hv⟩ := clientPath_read first second
      (relayPolicy ack 1) hr s
    obtain ⟨mr', hmr', -, hv'⟩ := clientPath_read first' second'
      (relayPolicy ack' 1) hr' s'
    have hn := (tcsMessage_label hr).2
    have hw : ∀ i < 3, m'.mr i = m.mr i := fun i hi => (Message.view_mr hm (by omega)).symm
    rw [hw 0 (by omega), hw 1 (by omega), hw 2 (by omega)] at hmr'
    rw [hv, hv']
    by_cases hready : s.1.ready = true
    · rw [(relayPolicy_evaluated (check_evaluates hready mr)).1,
        (relayPolicy_evaluated (check_evaluates (by rwa [← h.ready]) mr')).1, check_request hmr,
        check_request hmr', hack hr, (relayCommitted_congr h.subject 1 _).1]
    · have hready' : s.1.ready = false := by simpa using hready
      rw [relayPolicy_not_ready hready', relayPolicy_not_ready (by rwa [← h.ready]),
        response_tcsReply, response_tcsReply]
  · have hs' : tcsMessage m' Op.clientStatus 0 = false := by
      rw [← tcsMessage_congr hm]
      simpa using hs
    have hr' : tcsMessage m' Op.clientRead 3 = false := by
      rw [← tcsMessage_congr hm]
      simpa using hr
    rw [(clientPath_other _ _ _ (by simpa using hs) (by simpa using hr) s).2,
      (clientPath_other _ _ _ hs' hr' s').2]

/-- An administrative request on the client's subject does the same to it. -/
theorem relayAdmin_congr {s s' : SeedPolicy × Unit} (h : Alike s s') {m m' : Message}
    (hm : m.view = m'.view) (hc : OnClient m) {ack ack' : Message}
    (hack : acknowledged ack = acknowledged ack') :
    Alike (relayPolicy ack 0 s m).2 (relayPolicy ack' 0 s' m').2 := by
  obtain ⟨hn, hlo, hhi, hsub⟩ := hc
  have hl : m'.label = m.label := (congrArg Prod.fst hm).symm
  have hn' : m'.count = 4 := by rw [← Message.view_count hm, hn]
  have hw : ∀ i < 4, m'.mr i = m.mr i := fun i hi => (Message.view_mr hm (by omega)).symm
  have hreq : policyRequest m' = policyRequest m := by
    unfold policyRequest
    rw [hl, hw 0 (by omega), hw 1 (by omega), hw 2 (by omega), hw 3 (by omega)]
  by_cases hready : s.1.ready = true
  · have he : Evaluates 0 s.1 m := ⟨hready, Or.inl rfl, hn, hlo, hhi⟩
    have he' : Evaluates 0 s'.1 m' := by
      refine ⟨by rwa [← h.ready], Or.inl rfl, hn', ?_⟩
      rw [hl]
      exact ⟨hlo, hhi⟩
    rw [(relayPolicy_evaluated he).2, (relayPolicy_evaluated he').2, hreq, ← hack]
    have hr : (policyRequest m).subject = 1 := hsub
    have hat : s.1.live.at (policyRequest m).subject = s'.1.live.at (policyRequest m).subject := by
      rw [hr]
      exact h.subject
    have hcongr := (relayCommitted_congr hat 0 (acknowledged ack)).2
    rw [hr] at hcongr
    exact ⟨h.ready, hcongr⟩
  · have hready' : s.1.ready = false := by simpa using hready
    rw [relayPolicy_not_ready hready', relayPolicy_not_ready (by rwa [← h.ready])]
    exact h

theorem relayAdmin_other {s s' : SeedPolicy × Unit} (h : Alike s s') {m : Message} {ack : Message}
    (hc : ¬ OnClient m) : Alike s (relayPolicy ack 0 s' m).2 := by
  by_cases he : Evaluates 0 s'.1 m
  · have hne : (policyRequest m).subject ≠ 1 :=
      fun h1 => hc ⟨he.2.2.1, he.2.2.2.1, he.2.2.2.2, h1⟩
    rw [(relayPolicy_evaluated he).2]
    refine ⟨h.ready, ?_⟩
    show s.1.live.at 1 = (relayCommitted s'.1 0 (policyRequest m) (acknowledged ack)).2.at 1
    unfold relayCommitted
    rw [policyCommit_live, h.subject]
    split_ifs
    · exact (policyApply_at_ne (by decide) hne).symm
    · rfl
  · rw [relayPolicy_other he]
    exact h

/-- What the client does not see keeps its subject and shows it nothing. -/
theorem relay_hidden (s s' : SeedPolicy × Unit) (x : RelayCall) (h : Alike s s')
    (hv : x.view = none) :
    Alike s (relayStep s' x).1 ∧ clientReply (Run.entry relayStep s' x) = none := by
  cases x with
  | client m first second ack => cases hv
  | admin m ack =>
    have hc : ¬ OnClient m := by
      intro hc
      unfold RelayCall.view at hv
      dsimp only at hv
      rw [if_pos hc] at hv
      cases hv
    exact ⟨relayAdmin_other h hc, rfl⟩

/-- What it sees alike keeps the agreement and is answered alike. -/
theorem relay_seen (s s' : SeedPolicy × Unit) (x x' : RelayCall) (v : RelayView) (h : Alike s s')
    (hv : x.view = some v) (hv' : x'.view = some v) :
    Alike (relayStep s x).1 (relayStep s' x').1 ∧
      clientReply (Run.entry relayStep s x) = clientReply (Run.entry relayStep s' x') := by
  rw [← hv'] at hv
  cases x with
  | client m first second ack =>
    cases x' with
    | client m' first' second' ack' =>
      simp only [RelayCall.view, Option.some.injEq, RelayView.client.injEq] at hv
      obtain ⟨hm, hack⟩ := hv
      have hack' : tcsMessage m Op.clientRead 3 = true → acknowledged ack = acknowledged ack' := by
        intro hr
        rw [if_pos hr, if_pos (by rwa [← tcsMessage_congr hm])] at hack
        exact Option.some.inj hack
      refine ⟨?_, congrArg some (relayClient_congr h hm hack')⟩
      show Alike (clientPath _ _ _ s m).2 (clientPath _ _ _ s' m').2
      rw [relayClient_state, relayClient_state]
      exact h
    | admin m' ack' =>
      simp only [RelayCall.view] at hv
      split_ifs at hv <;> cases hv
  | admin m ack =>
    cases x' with
    | client m' first' second' ack' =>
      simp only [RelayCall.view] at hv
      split_ifs at hv <;> cases hv
    | admin m' ack' =>
      simp only [RelayCall.view] at hv hv'
      by_cases hc : OnClient m
      · rw [if_pos hc] at hv
        split_ifs at hv with hc'
        simp only [Option.some.injEq, RelayView.admin.injEq] at hv
        exact ⟨relayAdmin_congr h hv.1 hc hv.2, rfl⟩
      · rw [if_neg hc] at hv
        rw [← hv] at hv'
        cases hv'

/-- A message to the client's channel. -/
def RelayCall.isClient : RelayCall → Bool
  | .client _ _ _ _ => true
  | .admin _ _ => false

/-- **The client's path carries no authority and sees its own subject only.** Messages to the
client's channel change no table. A reply with the fixture answers a read of three words that names
the object, the right and the generation of subject 1, while that is active and the audit has
acknowledged. And two runs that share the client's messages, the administrator's requests on
subject 1 and the audit's acknowledgements of both give the client the same replies. -/
theorem client_confined (s : SeedPolicy × Unit) :
    (∀ calls : List RelayCall, (∀ x ∈ calls, x.isClient = true) →
      (Run.final relayStep s calls).1.live = s.1.live) ∧
    (∀ calls, ∀ e ∈ Run.trace relayStep s calls, ∀ m first second ack,
      e.input = .client m first second ack → Fixture e.output →
        tcsMessage m Op.clientRead 3 = true ∧ m.mr 0 = tcsObject ∧ m.mr 1 = tcsRead ∧
          m.mr 2 = (e.pre.1.live.at 1).generation ∧ (e.pre.1.live.at 1).state = .active ∧
          acknowledged ack = true) ∧
    ∀ xs ys : List RelayCall, xs.filterMap RelayCall.view = ys.filterMap RelayCall.view →
      (Run.trace relayStep s xs).filterMap clientReply =
        (Run.trace relayStep s ys).filterMap clientReply := by
  refine ⟨fun calls hc => ?_, fun calls e he m first second ack hx hf => ?_, fun xs ys hv => ?_⟩
  · induction calls with
    | nil => rfl
    | cons x calls ih =>
      have hx := hc x List.mem_cons_self
      have hs : (relayStep s x).1 = s := by
        cases x with
        | client m first second ack => exact relayClient_state
        | admin m ack => cases hx
      rw [Run.final, hs]
      exact ih fun y hy => hc y (List.mem_cons_of_mem x hy)
  · obtain ⟨is₁, x, is₂, -, rfl⟩ := Run.mem_trace he
    rw [Run.entry_input] at hx
    subst hx
    exact relayClient_fixture hf
  · exact Run.trace_unwinding (fun _ _ h => h.symm) relay_hidden relay_seen xs ys ⟨rfl, rfl⟩ hv

end Tcs
