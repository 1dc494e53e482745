/-
# Administration over whole runs

The administrator, the conditional policy server and an audit peer that may
answer anything, under arbitrary messages to the administrator's channel 0
and the policy's channel 1 in any order. The administrator alone sends on
the policy's channel 0; what it sends there is recorded with each call
(`AdministrationReply.forwarded`).

Every change of the table is traced back to one signed packet
(`Changed`), and the packets that reach the policy carry the sequences
`1, 2, ...` (`Ledger`): the administrator's counter has handed out as many
sequences as commands were forwarded.

Key definitions: `Administration`, `administrationStep`, `forwarded`,
`Ledger`, `Changed`.
Key theorems: `administrationStep_forwards`, `ledger_run`,
`administration_authenticated_once`.
-/
import Tcs.AdminPolicy
import Tcs.AdminServer

namespace Tcs

open Ipc

/-! ### The system -/

/-- The two servers. -/
structure Administration where
  admin : Admin
  policy : PolicyServer

/-- A message to the policy's channel 1, and what the audit answers if it is asked. -/
structure StorageCall where
  message : Message
  audit : Message

/-- A message to the administrator's channel 0 or to the policy's channel 1. A message to the
administrator comes with what the audit answers, what the registers hold that a call does not carry,
and the storage calls that the policy serves while the administrator waits for it. -/
inductive AdministrationCall
  | submit (m : Message) (noise : Noise) (waiting : List StorageCall) (audit : Message)
  | storage (x : StorageCall)

/-- What was answered, and the messages that the administrator sent to the policy. -/
structure AdministrationReply where
  reply : Message
  forwarded : List Message

section

variable (check : List UInt8 → List UInt8 → List UInt8 → Bool)

/-- A storage call: the reply, and the policy server after it. -/
def serveStorage (s : PolicyServer) (x : StorageCall) : Message × PolicyServer :=
  let out := adminPolicyProtected (answering x.audit) 1 (s, ()) x.message
  (out.1, out.2.1)

/-- The policy server as the administrator calls it, behind the storage calls that were first. -/
def policyBehind (waiting : List StorageCall) (audit : Message) : Peer PolicyServer := fun s m =>
  let s := waiting.foldl (fun s x => (serveStorage s x).2) s
  let out := adminPolicyProtected (answering audit) 0 (s, ()) m
  (out.1, out.2.1)

/-- One call. -/
def administrationStep (s : Administration) :
    AdministrationCall → Administration × AdministrationReply
  | .submit m noise waiting audit =>
    let policy := ppcall noise (logged (policyBehind waiting audit))
    let out := adminServerRequest check policy 0 (s.admin, s.policy, []) m
    (⟨out.2.1, out.2.2.1⟩, ⟨out.1, out.2.2.2⟩)
  | .storage x =>
    let out := serveStorage s.policy x
    (⟨s.admin, out.2⟩, ⟨out.1, []⟩)

/-- The servers as they start: the policy server's `init` has run or not, and the administrator is
set up with `tcs_admin_init`. -/
def Administration.start (key realm boot : Vector UInt8 32) (ready : Bool) : Administration :=
  ⟨(adminInit Admin.zero key realm boot).2,
    if ready then PolicyServer.start.init else PolicyServer.start⟩

end

/-- The history of a run. -/
abbrev AdministrationEntry := Run.Entry Administration AdministrationCall AdministrationReply

/-- The commands that reached the policy. -/
def forwarded (h : List AdministrationEntry) : List AdminCommand :=
  h.flatMap fun e => e.output.forwarded.map fun m => executionFromWords m.mr

/-- The packet that a call submits. -/
def AdministrationCall.packet : AdministrationCall → Option (List UInt8)
  | .submit m _ _ _ =>
    if m.label = Label.adminSubmit ∧ m.count = adminPacketWords then
      some (bytesFromWords m.mr adminPacketBytes)
    else none
  | .storage _ => none

theorem forwarded_append (h h' : List AdministrationEntry) :
    forwarded (h ++ h') = forwarded h ++ forwarded h' := List.flatMap_append

theorem forwarded_singleton (e : AdministrationEntry) :
    forwarded [e] = e.output.forwarded.map fun m => executionFromWords m.mr := List.flatMap_singleton ..

/-! ### What one call can do -/

theorem serveStorage_policy (s : PolicyServer) (x : StorageCall) : (serveStorage s x).2 = s :=
  adminPolicy_storage (answering x.audit) s () x.message

/-- The administrator's call finds the server as it was when the call was made. -/
theorem waiting_policy (waiting : List StorageCall) : ∀ s : PolicyServer,
    waiting.foldl (fun s x => (serveStorage s x).2) s = s := by
  induction waiting with
  | nil => intro s; rfl
  | cons x waiting ih =>
    intro s
    rw [List.foldl_cons, serveStorage_policy, ih]

section

variable (check : List UInt8 → List UInt8 → List UInt8 → Bool)

/-- What a call leaves: nothing happened, or one admitted packet was forwarded. -/
inductive Forwards (s : Administration) (x : AdministrationCall) : Prop
  | quiet (hs : (administrationStep check s x).1 = s)
    (hf : forwarded [Run.entry (administrationStep check) s x] = [])
  | packet (p : List UInt8) (hp : x.packet = some p) (ha : Admits check s.admin p)
    (hf : forwarded [Run.entry (administrationStep check) s x] = [packetCommand p])
    (hn : (administrationStep check s x).1.admin = s.admin.consumed ∨
      (administrationStep check s x).1.admin = { s.admin.consumed with pendingSequence := 0 })
    (hl : (administrationStep check s x).1.policy.live = s.policy.live ∨
      ∃ b, (administrationStep check s x).1.policy.live =
        (adminExecute s.policy.live (packetCommand p) b).2)

/-- **One call forwards at most one packet**, and only a packet that the administrator admits. -/
theorem administrationStep_forwards (s : Administration) (x : AdministrationCall) :
    Forwards check s x := by
  cases x with
  | storage x =>
    refine .quiet ?_ rfl
    show (⟨s.admin, (serveStorage s.policy x).2⟩ : Administration) = s
    rw [serveStorage_policy]
  | submit m noise waiting audit =>
    by_cases hm : Submitted check s.admin m
    · have hfrom : executionFromWords ((forwardedMessage m).deliver noise.callee).mr =
          packetCommand (bytesFromWords m.mr adminPacketBytes) :=
        executionFromWords_deliver m.mr rfl noise.callee
      have hpolicy := adminServer_policy (ppcall noise (logged (policyBehind waiting audit))) hm
        (s.policy, [])
      refine .packet (bytesFromWords m.mr adminPacketBytes) (if_pos ⟨hm.1, hm.2.1⟩) hm.2.2 ?_
        (adminServer_consumed _ hm _) ?_
      · rw [forwarded_singleton]
        simp only [Run.entry_output, administrationStep, hpolicy]
        simp only [ppcall, logged, List.nil_append, List.map_cons, List.map_nil, hfrom]
      · simp only [administrationStep, hpolicy]
        simp only [ppcall, logged, policyBehind, waiting_policy]
        rcases adminPolicy_cases (answering audit) s.policy ()
          ((forwardedMessage m).deliver noise.callee) with h | ⟨b, h⟩
        · exact Or.inl (by rw [h])
        · exact Or.inr ⟨b, by rw [h, hfrom]⟩
    · obtain ⟨status, -, -, h⟩ := adminServer_rejected (ppcall noise
        (logged (policyBehind waiting audit))) hm (s.policy, [])
      refine .quiet ?_ ?_
      · simp only [administrationStep, h]
      · rw [forwarded_singleton]
        simp only [Run.entry_output, administrationStep, h, List.map_nil]

end

/-! ### The invariant of a run -/

variable {check : List UInt8 → List UInt8 → List UInt8 → Bool}

/-- The administrator keeps its configuration, and has handed out a sequence for every command that
reached the policy. -/
structure Ledger (key realm boot : Vector UInt8 32) (h : List AdministrationEntry)
    (s : Administration) : Prop where
  config : s.admin.initialized = true →
    s.admin.publicKey = key ∧ s.admin.realm = realm ∧ s.admin.boot = boot
  issued : s.admin.initialized = true →
    Word.Issued s.admin.nextSequence s.admin.exhausted (forwarded h).length
  sequences : (forwarded h).map (fun c => c.sequence.toNat) = List.range' 1 (forwarded h).length

theorem Ledger.step {key realm boot : Vector UInt8 32} {h : List AdministrationEntry}
    {s : Administration} (hl : Ledger key realm boot h s) (x : AdministrationCall) :
    Ledger key realm boot (h ++ [Run.entry (administrationStep check) s x])
      (administrationStep check s x).1 := by
  cases administrationStep_forwards check s x with
  | quiet hs hf =>
    have heq : forwarded (h ++ [Run.entry (administrationStep check) s x]) = forwarded h := by
      rw [forwarded_append, hf, List.append_nil]
    refine ⟨?_, ?_, ?_⟩
    · rw [hs]
      exact hl.config
    · rw [hs, heq]
      exact hl.issued
    · rw [heq]
      exact hl.sequences
  | packet p hp ha hf hn _ =>
    have heq : forwarded (h ++ [Run.entry (administrationStep check) s x]) =
        forwarded h ++ [packetCommand p] := by
      rw [forwarded_append, hf]
    have hissued := hl.issued ha.initialized
    have hnext := Admin.issued_consumed ha.notExhausted hissued
    rw [ha.notExhausted] at hissued
    refine ⟨fun _ => ?_, fun _ => ?_, ?_⟩
    · have hc := hl.config ha.initialized
      rcases hn with hn | hn <;> rw [hn] <;> simpa using hc
    · rw [heq, List.length_append, List.length_singleton]
      rcases hn with hn | hn <;> rw [hn] <;> exact hnext
    · rw [heq, List.map_append, hl.sequences, List.length_append, List.length_singleton,
        List.range'_1_concat, List.map_singleton, ha.next, hissued.next, Nat.add_comm 1]

theorem ledger_start (key realm boot : Vector UInt8 32) (ready : Bool) :
    Ledger key realm boot [] (Administration.start key realm boot ready) := by
  rcases adminInit_zero key realm boot with h | h
  · refine ⟨fun hi => ?_, fun hi => ?_, rfl⟩
    all_goals
      simp only [Administration.start, h] at hi
      cases hi
  · refine ⟨fun _ => ?_, fun _ => ?_, rfl⟩
    all_goals
      unfold Administration.start
      rw [h]
    · exact ⟨rfl, rfl, rfl⟩
    · rfl

/-- **The ledger over whole runs.** -/
theorem ledger_run (key realm boot : Vector UInt8 32) (ready : Bool)
    (calls : List AdministrationCall) :
    Ledger key realm boot
      (Run.trace (administrationStep check) (Administration.start key realm boot ready) calls)
      (Run.final (administrationStep check) (Administration.start key realm boot ready) calls) :=
  Run.trace_induct (ledger_start key realm boot ready) (fun _ _ x h => h.step x) calls

/-! ### What changes the table -/

/-- A change of the table by a call, made at a place of the history with `before` calls forwarded:
one signed packet that met the generation it names, whose request alone explains the change. -/
structure Changed (check : List UInt8 → List UInt8 → List UInt8 → Bool)
    (key realm boot : Vector UInt8 32) (before : ℕ) (e : AdministrationEntry) (p : List UInt8) :
    Prop where
  submitted : e.input.packet = some p
  signed : Signed check key realm boot p
  generation : (e.pre.policy.live.at (packetCommand p).request.subject).generation =
    (packetCommand p).expectedGeneration
  applied : e.post.policy.live = (policyApply e.pre.policy.live .admin (packetCommand p).request).2
  forwarded : forwarded [e] = [packetCommand p]
  sequence : (packetCommand p).sequence.toNat = before + 1

/-- A call that forwards something forwards one signed packet, in its turn. -/
theorem Ledger.forwards {key realm boot : Vector UInt8 32} {h : List AdministrationEntry}
    {s : Administration} (hl : Ledger key realm boot h s) (x : AdministrationCall)
    (hf : forwarded [Run.entry (administrationStep check) s x] ≠ []) :
    ∃ p, x.packet = some p ∧ Signed check key realm boot p ∧
      forwarded [Run.entry (administrationStep check) s x] = [packetCommand p] ∧
      (packetCommand p).sequence.toNat = (forwarded h).length + 1 := by
  cases administrationStep_forwards check s x with
  | quiet _ hq => exact absurd hq hf
  | packet p hp ha hf' _ _ =>
    have hissued := hl.issued ha.initialized
    rw [ha.notExhausted] at hissued
    have hsigned := ha.signed
    obtain ⟨h1, h2, h3⟩ := hl.config ha.initialized
    rw [h1, h2, h3] at hsigned
    exact ⟨p, hp, hsigned, hf', by rw [ha.next, hissued.next]⟩

theorem Ledger.changed {key realm boot : Vector UInt8 32} {h : List AdministrationEntry}
    {s : Administration} (hl : Ledger key realm boot h s) (x : AdministrationCall)
    (hne : (administrationStep check s x).1.policy.live ≠ s.policy.live) :
    ∃ p, Changed check key realm boot (forwarded h).length
      (Run.entry (administrationStep check) s x) p := by
  cases administrationStep_forwards check s x with
  | quiet hs _ => exact absurd (by rw [hs]) hne
  | packet p hp ha hf _ hlive =>
    obtain ⟨q, hq, hsigned, -, hseq⟩ := hl.forwards x (by rw [hf]; simp)
    obtain rfl : p = q := Option.some.inj (hp.symm.trans hq)
    obtain ⟨b, hb⟩ := hlive.resolve_left hne
    rw [hb] at hne
    obtain ⟨hgen, happly⟩ := adminExecute_changed hne
    exact ⟨p, hp, hsigned, hgen, by rw [Run.entry_post, hb, happly]; rfl, hf, hseq⟩

/-- **Authenticated, ordered, at-most-once administration.** In every run, whatever is sent to the
two channels, in whatever order the policy serves them and whatever the audit answers: a change of
the table comes from one submitted packet, signed for the configured realm and boot under the
configured key, that names the generation its subject had, and is the change of the signed request;
the packets that reach the policy are signed and carry the sequences `1, 2, ...`; and no packet
reaches it at two places. -/
theorem administration_authenticated_once (check : List UInt8 → List UInt8 → List UInt8 → Bool)
    (key realm boot : Vector UInt8 32) (ready : Bool) (calls : List AdministrationCall) :
    let history := Run.trace (administrationStep check)
      (Administration.start key realm boot ready) calls
    (∀ h₁ e h₂, history = h₁ ++ e :: h₂ → e.post.policy.live ≠ e.pre.policy.live →
      ∃ p, Changed check key realm boot (forwarded h₁).length e p) ∧
    (forwarded history).map (fun c => c.sequence.toNat) =
      List.range' 1 (forwarded history).length ∧
    (∀ e ∈ history, forwarded [e] ≠ [] → ∃ p, e.input.packet = some p ∧
      Signed check key realm boot p ∧ forwarded [e] = [packetCommand p]) ∧
    (∀ h₁ e h₂ e' h₃, history = h₁ ++ e :: (h₂ ++ e' :: h₃) → forwarded [e] ≠ [] →
      forwarded [e'] ≠ [] → e.input.packet ≠ e'.input.packet) := by
  intro history
  -- the ledger holds at every place of the history
  have place : ∀ h₁ e h₂, history = h₁ ++ e :: h₂ → ∃ s x, Ledger key realm boot h₁ s ∧
      e = Run.entry (administrationStep check) s x := by
    intro h₁ e h₂ hh
    obtain ⟨xs, x, ys, -, rfl, rfl, -⟩ := Run.trace_split hh
    exact ⟨_, x, ledger_run key realm boot ready xs, rfl⟩
  refine ⟨?_, (ledger_run key realm boot ready calls).sequences, ?_, ?_⟩
  · intro h₁ e h₂ hh hne
    obtain ⟨s, x, hl, rfl⟩ := place _ _ _ hh
    exact hl.changed x hne
  · intro e he hf
    obtain ⟨h₁, h₂, hh⟩ := List.append_of_mem he
    obtain ⟨s, x, hl, rfl⟩ := place _ _ _ hh
    obtain ⟨p, hp, hs, hc, -⟩ := hl.forwards x hf
    exact ⟨p, hp, hs, hc⟩
  · intro h₁ e h₂ e' h₃ hh hf hf' heq
    obtain ⟨s, x, hl, rfl⟩ := place _ _ _ hh
    obtain ⟨s', x', hl', rfl⟩ := place (h₁ ++ _ :: h₂) e' h₃
      (by rw [hh, List.append_assoc]; rfl)
    obtain ⟨p, hp, -, hc, hseq⟩ := hl.forwards x hf
    obtain ⟨p', hp', -, -, hseq'⟩ := hl'.forwards x' hf'
    obtain rfl : p = p' := Option.some.inj (hp.symm.trans (heq.trans hp'))
    -- the second place has counted the first one
    have hlen : (forwarded h₁).length + 1 ≤
        (forwarded (h₁ ++ Run.entry (administrationStep check) s x :: h₂)).length := by
      rw [← List.singleton_append, forwarded_append, forwarded_append, hc]
      simp
    omega

end Tcs
