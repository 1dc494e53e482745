/-
# Admission over whole runs

Two machines around `lib/admin.c`. The first is an instance of the gate
itself under arbitrary calls of `tcs_admin_init`, `tcs_admin_admit` and
`tcs_admin_complete`: what a call can do is said once (`GateMoves`), and
the order of the accepted sequences, the completions between them and the
pending sequence are read off that.

The second is the administrator's server with an arbitrary policy peer. A
reply that is not a valid receipt for the admitted command leaves the
command pending, and a pending command is never given up: from there on
nothing reaches the policy and nothing changes (`Stuck`).

Key definitions: `gateCall`, `GateMoves`, `Stuck`.
Key theorems: `gateCall_moves`, `completed_between`,
`admission_state_machine`, `Stuck.not_admitted`, `Stuck.run`,
`uncertain_completion_fails_closed`.
-/
import Tcs.AdminServer
import Tcs.Lib.Run

namespace Tcs

open Ipc

/-! ### Calls on an instance -/

/-- A call on the instance. -/
inductive GateCall
  | init (key realm boot : Vector UInt8 32)
  | submit (packet : List UInt8)
  | complete (sequence : UInt64)

/-- What a call returns, the output command of an admission included. -/
inductive GateAnswer
  | init (ok : Bool)
  | submit (status : AdminStatus) (command : AdminCommand)
  | complete (status : AdminStatus)
  deriving DecidableEq

abbrev GateEntry := Run.Entry Admin GateCall GateAnswer

section

variable (check : List UInt8 → List UInt8 → List UInt8 → Bool)

/-- One call on the instance. -/
def gateCall (a : Admin) : GateCall → Admin × GateAnswer
  | .init key realm boot =>
    ((adminInit a key realm boot).2, .init (adminInit a key realm boot).1)
  | .submit packet =>
    ((adminAdmit check a packet).2.2,
      .submit (adminAdmit check a packet).1 (adminAdmit check a packet).2.1)
  | .complete sequence => ((adminComplete a sequence).2, .complete (adminComplete a sequence).1)

/-- The call did not succeed, and handed out no command. -/
def GateAnswer.Refused : GateAnswer → Prop
  | .init ok => ok = false
  | .submit status command => status ≠ .accepted ∧ command = .zero
  | .complete status => status ≠ .accepted

/-- What a call can do to an instance. -/
inductive GateMoves (a : Admin) : GateCall → Admin → GateAnswer → Prop
  | init (key realm boot : Vector UInt8 32) : a.initialized = false →
    GateMoves a (.init key realm boot) ⟨key, realm, boot, 1, 0, true, false⟩ (.init true)
  | submit (packet : List UInt8) : Admits check a packet →
    GateMoves a (.submit packet) a.consumed (.submit .accepted (packetCommand packet))
  | complete : a.initialized = true → a.pendingSequence ≠ 0 →
    GateMoves a (.complete a.pendingSequence) { a with pendingSequence := 0 } (.complete .accepted)
  | refused (x : GateCall) (answer : GateAnswer) : answer.Refused → GateMoves a x a answer

theorem gateCall_moves (a : Admin) (x : GateCall) :
    GateMoves check a x (gateCall check a x).1 (gateCall check a x).2 := by
  cases x with
  | init key realm boot =>
    simp only [gateCall, adminInit]
    split_ifs with hc
    · exact .refused _ _ rfl
    · simp only [not_or, Bool.not_eq_true] at hc
      exact .init key realm boot hc.1
  | submit packet =>
    simp only [gateCall]
    by_cases ha : Admits check a packet
    · rw [ha.accepted]
      exact .submit packet ha
    · obtain ⟨status, h1, -, h2⟩ := adminAdmit_of_not_admits ha
      rw [h2]
      exact .refused _ _ ⟨h1, rfl⟩
  | complete sequence =>
    simp only [gateCall, adminComplete]
    split_ifs with h1 h2
    · exact .refused _ _ (by simp [GateAnswer.Refused])
    · exact .refused _ _ (by simp [GateAnswer.Refused])
    · simp only [not_or, not_not] at h2
      obtain ⟨h2, rfl⟩ := h2
      exact .complete (by simpa using h1) h2

end

/-! ### The history of an instance -/

/-- The command that an entry admitted. -/
def admittedBy (e : GateEntry) : Option AdminCommand :=
  match e.output with
  | .submit .accepted c => some c
  | _ => none

/-- The sequence that an entry completed. -/
def completedBy (e : GateEntry) : Option UInt64 :=
  match e.input, e.output with
  | .complete sequence, .complete .accepted => some sequence
  | _, _ => none

theorem GateAnswer.Refused.admittedBy {e : GateEntry} (h : e.output.Refused) :
    admittedBy e = none := by
  obtain ⟨pre, input, output, post⟩ := e
  cases output with
  | init ok => rfl
  | complete status => rfl
  | submit status command =>
    unfold Tcs.admittedBy
    split
    · next heq => cases heq; exact absurd rfl h.1
    · rfl

theorem GateAnswer.Refused.completedBy {e : GateEntry} (h : e.output.Refused) :
    completedBy e = none := by
  obtain ⟨pre, input, output, post⟩ := e
  cases output with
  | init ok => cases input <;> rfl
  | submit status command => cases input <;> rfl
  | complete status =>
    unfold Tcs.completedBy
    split
    · next heq => cases heq; exact absurd rfl h
    · rfl

section Instance

variable {check : List UInt8 → List UInt8 → List UInt8 → Bool}

/-- The commands that a history admitted. -/
def admitted (h : List GateEntry) : List AdminCommand := h.filterMap admittedBy

/-- The sequences that a history completed. -/
def completed (h : List GateEntry) : List UInt64 := h.filterMap completedBy

theorem admitted_snoc (h : List GateEntry) (e : GateEntry) :
    admitted (h ++ [e]) = admitted h ++ (admittedBy e).toList := by
  unfold admitted
  rw [List.filterMap_append]
  cases he : admittedBy e with
  | none => rw [List.filterMap_cons_none he]; rfl
  | some c => rw [List.filterMap_cons_some he]; rfl

theorem completed_snoc (h : List GateEntry) (e : GateEntry) :
    completed (h ++ [e]) = completed h ++ (completedBy e).toList := by
  unfold completed
  rw [List.filterMap_append]
  cases he : completedBy e with
  | none => rw [List.filterMap_cons_none he]; rfl
  | some c => rw [List.filterMap_cons_some he]; rfl

/-- The pending sequence is the last one handed out, or none. -/
def PendingOk (a : Admin) : Prop :=
  a.pendingSequence = 0 ∨ a.pendingSequence = a.nextSequence - 1 ∨
    (a.exhausted = true ∧ a.pendingSequence = Word.max)

theorem PendingOk.consumed (a : Admin) : PendingOk a.consumed := by
  unfold Admin.consumed
  split_ifs with hm
  · exact Or.inr (Or.inr ⟨rfl, hm⟩)
  · refine Or.inr (Or.inl ?_)
    show a.nextSequence = a.nextSequence + 1 - 1
    rw [UInt64.add_sub_cancel]

/-- What the history tells of the instance. -/
structure AdmissionTold (h : List GateEntry) (a : Admin) : Prop where
  fresh : a.initialized = false → admitted h = []
  issued : a.initialized = true → Word.Issued a.nextSequence a.exhausted (admitted h).length
  sequences : (admitted h).map (fun c => c.sequence.toNat) = List.range' 1 (admitted h).length
  pending : PendingOk a

theorem admissionTold_step {h : List GateEntry} {a : Admin} (ht : AdmissionTold h a) (x : GateCall) :
    AdmissionTold (h ++ [Run.entry (gateCall check) a x]) (gateCall check a x).1 := by
  have hsnoc := admitted_snoc h (Run.entry (gateCall check) a x)
  have hmoves := gateCall_moves check a x
  generalize he : Run.entry (gateCall check) a x = e at hsnoc ⊢
  have hout : e.output = (gateCall check a x).2 := by rw [← he, Run.entry_output]
  generalize gateCall check a x = out at hmoves hout
  obtain ⟨a', answer⟩ := out
  dsimp only at hmoves hout ⊢
  have hnone : admittedBy e = none → admitted (h ++ [e]) = admitted h := by
    intro hn
    rw [hsnoc, hn, Option.toList_none, List.append_nil]
  cases hmoves with
  | init key realm boot h0 =>
    have heq := hnone (by unfold admittedBy; rw [hout])
    have hnil := ht.fresh h0
    refine ⟨fun h1 => ?_, fun _ => ?_, ?_, Or.inl rfl⟩
    · cases h1
    · rw [heq, hnil]
      rfl
    · rw [heq, hnil]
      rfl
  | submit packet ha =>
    have heq : admitted (h ++ [e]) = admitted h ++ [packetCommand packet] := by
      rw [hsnoc, show admittedBy e = some (packetCommand packet) by unfold admittedBy; rw [hout]]
      rfl
    have hissued := ht.issued ha.initialized
    have hnext := Admin.issued_consumed ha.notExhausted hissued
    rw [ha.notExhausted] at hissued
    refine ⟨fun h1 => ?_, fun _ => ?_, ?_, PendingOk.consumed a⟩
    · rw [Admin.consumed_initialized, ha.initialized] at h1
      cases h1
    · rwa [heq, List.length_append, List.length_singleton]
    · rw [heq, List.map_append, ht.sequences, List.length_append, List.length_singleton,
        List.range'_1_concat, List.map_singleton, ha.next, hissued.next, Nat.add_comm 1]
  | complete h0 hp =>
    have heq := hnone (by unfold admittedBy; rw [hout])
    exact ⟨by rw [heq]; exact ht.fresh, by rw [heq]; exact ht.issued, by rw [heq]; exact ht.sequences,
      Or.inl rfl⟩
  | refused _ _ hr =>
    have heq := hnone (GateAnswer.Refused.admittedBy (by rwa [hout]))
    exact ⟨by rw [heq]; exact ht.fresh, by rw [heq]; exact ht.issued, by rw [heq]; exact ht.sequences,
      ht.pending⟩

theorem admissionTold_zero : AdmissionTold [] Admin.zero where
  fresh _ := rfl
  issued h := by cases h
  sequences := rfl
  pending := Or.inl rfl

theorem admissionTold_run (calls : List GateCall) :
    AdmissionTold (Run.trace (gateCall check) Admin.zero calls)
      (Run.final (gateCall check) Admin.zero calls) :=
  Run.trace_induct admissionTold_zero (fun _ _ x ht => admissionTold_step ht x) calls

/-! ### The configuration -/

/-- The key, the realm and the boot of an instance. -/
def Admin.config (a : Admin) : Vector UInt8 32 × Vector UInt8 32 × Vector UInt8 32 :=
  (a.publicKey, a.realm, a.boot)

theorem GateMoves.config {a a' : Admin} {x : GateCall} {answer : GateAnswer}
    (h : GateMoves check a x a' answer) (hi : a.initialized = true) :
    a'.initialized = true ∧ a'.config = a.config ∧ answer ≠ .init true := by
  cases h with
  | init key realm boot h0 => rw [hi] at h0; cases h0
  | submit packet ha =>
    refine ⟨by rw [Admin.consumed_initialized, hi], ?_, by simp⟩
    unfold Admin.config
    rw [Admin.consumed_publicKey, Admin.consumed_realm, Admin.consumed_boot]
  | complete h0 hp => exact ⟨hi, rfl, by simp⟩
  | refused _ _ hr =>
    refine ⟨hi, rfl, fun h => ?_⟩
    rw [h] at hr
    cases hr

theorem config_kept {a : Admin} (hi : a.initialized = true) (calls : List GateCall) :
    ∀ e ∈ Run.trace (gateCall check) a calls,
      e.post.config = a.config ∧ e.output ≠ .init true := by
  have hkeep := fun (s : Admin) (x : GateCall) => (gateCall_moves check s x).config
  intro e he
  obtain ⟨hp, -, hc⟩ := Run.trace_rel (R := fun s t : Admin => t.config = s.config)
    (P := fun s : Admin => s.initialized = true) (fun _ => rfl) (fun _ _ _ h h' => h'.trans h)
    (fun s x h => (hkeep s x h).1) (fun s x h => (hkeep s x h).2.1) hi calls e he
  obtain ⟨is₁, i, is₂, -, rfl⟩ := Run.mem_trace he
  exact ⟨hc, (hkeep _ i hp).2.2⟩

/-! ### Completions -/

/-- While no packet is admitted, the pending sequence stays until it is completed, once. -/
theorem completed_between {a : Admin} {q : UInt64} (hi : a.initialized = true)
    (hp : a.pendingSequence = q) (calls : List GateCall)
    (hn : admitted (Run.trace (gateCall check) a calls) = []) :
    let b := Run.final (gateCall check) a calls
    b.initialized = true ∧
      ((b.pendingSequence = q ∧ completed (Run.trace (gateCall check) a calls) = []) ∨
        (b.pendingSequence = 0 ∧ completed (Run.trace (gateCall check) a calls) = [q])) := by
  revert hn
  refine Run.trace_induct (P := fun h b => admitted h = [] →
    b.initialized = true ∧ ((b.pendingSequence = q ∧ completed h = []) ∨
      (b.pendingSequence = 0 ∧ completed h = [q]))) ?_ ?_ calls
  · exact fun _ => ⟨hi, Or.inl ⟨hp, rfl⟩⟩
  · intro h b x ih hn
    have hsnoc := completed_snoc h (Run.entry (gateCall check) b x)
    rw [admitted_snoc, List.append_eq_nil_iff] at hn
    obtain ⟨hb, hcases⟩ := ih hn.1
    have hmoves := gateCall_moves check b x
    generalize he : Run.entry (gateCall check) b x = e at hn hsnoc ⊢
    have hin : e.input = x := by rw [← he, Run.entry_input]
    have hout : e.output = (gateCall check b x).2 := by rw [← he, Run.entry_output]
    refine ⟨(hmoves.config hb).1, ?_⟩
    generalize gateCall check b x = out at hmoves hout
    obtain ⟨b', answer⟩ := out
    dsimp only at hmoves hout ⊢
    cases hmoves with
    | init key realm boot h0 => rw [hb] at h0; cases h0
    | submit packet ha =>
      have : admittedBy e = some (packetCommand packet) := by unfold admittedBy; rw [hout]
      simp [this] at hn
    | complete h0 hne =>
      have hc : completedBy e = some b.pendingSequence := by
        unfold completedBy
        rw [hin, hout]
      rw [hsnoc, hc]
      rcases hcases with ⟨h1, h2⟩ | ⟨h1, -⟩
      · exact Or.inr ⟨rfl, by rw [h2, h1]; rfl⟩
      · exact absurd h1 hne
    | refused _ _ hr =>
      rw [hsnoc, GateAnswer.Refused.completedBy (by rwa [hout]), Option.toList_none, List.append_nil]
      exact hcases

/-- The call succeeded. -/
def GateAnswer.Succeeded : GateAnswer → Prop
  | .init ok => ok = true
  | .submit status _ => status = .accepted
  | .complete status => status = .accepted

theorem GateMoves.of_not_succeeded {a a' : Admin} {x : GateCall} {answer : GateAnswer}
    (h : GateMoves check a x a' answer) (hs : ¬ answer.Succeeded) : a' = a ∧ answer.Refused := by
  cases h with
  | init key realm boot h0 => exact absurd rfl hs
  | submit packet ha => exact absurd rfl hs
  | complete h0 hp => exact absurd rfl hs
  | refused _ _ hr => exact ⟨rfl, hr⟩

theorem pending_of_admittedBy {a : Admin} {x : GateCall} {c : AdminCommand}
    (h : admittedBy (Run.entry (gateCall check) a x) = some c) :
    a.initialized = true ∧ a.pendingSequence = 0 ∧
      (gateCall check a x).1.initialized = true ∧
      (gateCall check a x).1.pendingSequence = c.sequence ∧ c.sequence ≠ 0 := by
  have hmoves := gateCall_moves check a x
  unfold admittedBy at h
  rw [Run.entry_output] at h
  generalize gateCall check a x = out at hmoves h
  obtain ⟨a', answer⟩ := out
  dsimp only at hmoves h ⊢
  cases hmoves with
  | init key realm boot h0 => cases h
  | complete h0 hp => cases h
  | refused _ _ hr =>
    split at h
    · exact absurd rfl hr.1
    · cases h
  | submit packet ha =>
    obtain rfl : packetCommand packet = c := Option.some.inj h
    exact ⟨ha.initialized, ha.idle, by rw [Admin.consumed_initialized, ha.initialized],
      by rw [Admin.consumed_pending, ha.next], ha.signed.command.sequence_ne_zero⟩

/-- Numbers that count up from one do not repeat. -/
theorem AdmissionTold.max_once {h : List GateEntry} {a : Admin} (ht : AdmissionTold h a) :
    (admitted h).countP (fun c => c.sequence = Word.max) ≤ 1 := by
  have hcount : (admitted h).countP (fun c => c.sequence = Word.max) =
      ((admitted h).map fun c => c.sequence.toNat).count (2 ^ 64 - 1) := by
    rw [List.count_eq_countP, List.countP_map]
    refine List.countP_congr fun c _ => ?_
    simp only [decide_eq_true_eq, Function.comp_apply, beq_iff_eq]
    exact Word.toNat_eq_max.symm
  rw [hcount, ht.sequences]
  exact List.nodup_iff_count_le_one.mp List.nodup_range' _

end Instance

/-- **The admission gate over whole runs.** From the zeroed instance, under any calls: the first
successful set-up fixes the key, the realm and the boot; the admitted sequences count up from one;
between one admission and the next there is one completion, of the earlier sequence; a call that
does not succeed changes nothing and hands out nothing; and the pending sequence is the last one
handed out or none. -/
theorem admission_state_machine (check : List UInt8 → List UInt8 → List UInt8 → Bool)
    (calls : List GateCall) :
    let h := Run.trace (gateCall check) Admin.zero calls
    let a := Run.final (gateCall check) Admin.zero calls
    (∀ h₁ e h₂ key realm boot, h = h₁ ++ e :: h₂ → e.input = .init key realm boot →
      e.output = .init true → e.post.config = (key, realm, boot) ∧
        ∀ f ∈ h₂, f.post.config = (key, realm, boot) ∧ f.output ≠ .init true) ∧
      ((admitted h).map (fun c => c.sequence.toNat) = List.range' 1 (admitted h).length ∧
        (admitted h).countP (fun c => c.sequence = Word.max) ≤ 1) ∧
      (∀ h₁ e h₂ f h₃ c d, h = h₁ ++ e :: (h₂ ++ f :: h₃) → admittedBy e = some c →
        admittedBy f = some d → admitted h₂ = [] → completed h₂ = [c.sequence]) ∧
      (∀ e ∈ h, ¬ e.output.Succeeded → e.post = e.pre ∧
        ∀ status c, e.output = .submit status c → c = .zero) ∧
      (a.initialized = true → a.pendingSequence = 0 ∨ a.pendingSequence = a.nextSequence - 1 ∨
        (a.exhausted = true ∧ a.pendingSequence = Word.max)) := by
  intro h a
  have ht : AdmissionTold h a := admissionTold_run calls
  refine ⟨?_, ⟨ht.sequences, ht.max_once⟩, ?_, ?_, fun _ => ht.pending⟩
  · intro h₁ e h₂ key realm boot hsplit hin hout
    obtain ⟨is₁, i, is₂, -, -, rfl, rfl⟩ := Run.trace_split hsplit
    rw [Run.entry_input] at hin
    subst hin
    rw [Run.entry_output] at hout
    rw [Run.entry_post]
    have hmoves := gateCall_moves check (Run.final (gateCall check) Admin.zero is₁)
      (.init key realm boot)
    generalize gateCall check (Run.final (gateCall check) Admin.zero is₁) (.init key realm boot) =
      out at hmoves hout ⊢
    obtain ⟨a', answer⟩ := out
    dsimp only at hmoves hout ⊢
    subst hout
    cases hmoves with
    | init key realm boot h0 => exact ⟨rfl, config_kept rfl is₂⟩
    | refused _ _ hr => cases hr
  · intro h₁ e h₂ f h₃ c d hsplit he hf hn
    obtain ⟨is₁, i, is₂, -, -, rfl, hrest⟩ := Run.trace_split hsplit
    obtain ⟨js₁, j, js₂, -, rfl, rfl, -⟩ := Run.trace_split hrest.symm
    obtain ⟨-, -, hi, hp, hq⟩ := pending_of_admittedBy he
    obtain ⟨-, hidle, -⟩ := pending_of_admittedBy hf
    obtain ⟨-, ⟨h1, -⟩ | ⟨-, h2⟩⟩ := completed_between hi hp js₁ hn
    · rw [hidle] at h1
      exact absurd h1.symm hq
    · exact h2
  · intro e he hs
    obtain ⟨is₁, i, is₂, -, rfl⟩ := Run.mem_trace he
    obtain ⟨h1, h2⟩ := (gateCall_moves check _ i).of_not_succeeded hs
    refine ⟨h1, fun status c hc => ?_⟩
    rw [Run.entry_output] at hc
    rw [hc] at h2
    exact h2.2

/-! ### The server with a command it cannot complete -/

/-- An administrator that is set up and has a command pending. -/
structure Stuck (a : Admin) : Prop where
  initialized : a.initialized = true
  pending : a.pendingSequence ≠ 0

section Server

variable (check : List UInt8 → List UInt8 → List UInt8 → Bool) {σ : Type*} (policy : Peer σ)

/-- One message to the server, on one of its channels. -/
def adminServerStep (s : Admin × σ) (x : ℕ × Message) : (Admin × σ) × Message :=
  ((adminServerRequest check policy x.1 s x.2).2, (adminServerRequest check policy x.1 s x.2).1)

/-- The message submits a packet, and the packet is admitted. -/
def Admitted (a : Admin) (ch : ℕ) (m : Message) : Prop :=
  ch = 0 ∧ m.label = Label.adminSubmit ∧ m.count = adminPacketWords ∧
    (adminAdmit check a (bytesFromWords m.mr adminPacketBytes)).1 = .accepted

variable {check}

theorem admitted_iff {a : Admin} {ch : ℕ} {m : Message} :
    Admitted check a ch m ↔ ch = 0 ∧ Submitted check a m := by
  unfold Admitted Submitted
  rw [adminAdmit_accepted_iff]

/-- Without an admitted packet the server changes nothing, calls nobody and returns no receipt. -/
theorem adminServer_not_admitted {a : Admin} {ch : ℕ} {m : Message} (h : ¬ Admitted check a ch m)
    (t : σ) : (adminServerRequest check policy ch (a, t) m).2 = (a, t) ∧
      (adminServerRequest check policy ch (a, t) m).1.label ≠ Label.adminReceipt := by
  by_cases hc : ch = 0
  · subst hc
    have hs : ¬ Submitted check a m := fun hs => h (admitted_iff.mpr ⟨rfl, hs⟩)
    obtain ⟨status, -, -, heq⟩ := adminServer_rejected policy hs t
    rw [heq]
    exact ⟨rfl, by show Label.adminAdmission ≠ _; decide⟩
  · unfold adminServerRequest
    simp only [ne_eq, hc, not_false_eq_true, if_true, true_and]
    show Label.reply ≠ _
    decide

/-- A stuck administrator admits nothing. -/
theorem Stuck.not_admitted {a : Admin} (h : Stuck a) (ch : ℕ) (m : Message) :
    ¬ Admitted check a ch m := by
  intro ha
  exact h.pending (admitted_iff.mp ha).2.2.2.idle

/-- **A stuck administrator stays as it is**, whatever it is sent. -/
theorem Stuck.run {a : Admin} (h : Stuck a) (t : σ) (calls : List (ℕ × Message)) :
    Run.final (adminServerStep check policy) (a, t) calls = (a, t) ∧
      ∀ e ∈ Run.trace (adminServerStep check policy) (a, t) calls,
        e.output.label ≠ Label.adminReceipt := by
  have hstep : ∀ x, (adminServerStep check policy (a, t) x).1 = (a, t) :=
    fun x => (adminServer_not_admitted policy (h.not_admitted x.1 x.2) t).1
  induction calls with
  | nil => exact ⟨rfl, fun e he => by cases he⟩
  | cons x calls ih =>
    rw [Run.final, Run.trace, hstep x]
    refine ⟨ih.1, fun e he => ?_⟩
    rcases List.mem_cons.mp he with rfl | he
    · exact (adminServer_not_admitted policy (h.not_admitted x.1 x.2) t).2
    · exact ih.2 e he

/-- A decoded receipt is sent on as the words it was read from. -/
theorem adminReceiptReply_words {m : Message} {receipt : AdminReceipt}
    (h : adminReceiptDecode m = some receipt) (mr : Registers) :
    ∀ i < adminReceiptWords, (adminReceiptReply mr receipt).mr i = m.mr i := by
  unfold adminReceiptDecode at h
  split_ifs at h
  obtain rfl := Option.some.inj h
  intro i hi
  change i < 13 at hi
  unfold adminReceiptReply executionWords executionFromWords
  interval_cases i <;> simp [Registers.set_apply]

end Server

/-- **An uncertain completion fails closed for ever.** The server returns a receipt only for an
admitted packet whose reply decodes to a receipt that is valid for the admitted command, and returns
it word for word. When the reply of an admitted packet is anything else, the server answers
`BAD_COMPLETION` and keeps the consumed sequence pending; from there on no message, on any channel,
reaches the policy, changes the administrator or is answered with a receipt. A packet that is not
admitted changes nothing and does not reach the policy. -/
theorem uncertain_completion_fails_closed
    (check : List UInt8 → List UInt8 → List UInt8 → Bool) {σ : Type} (policy : Peer σ) (a : Admin)
    (t : σ) (log : List Message) (ch : ℕ) (m : Message) :
    let out := adminServerRequest check (logged policy) ch (a, t, log) m
    let command := packetCommand (bytesFromWords m.mr adminPacketBytes)
    let reply := (policy t (forwardedMessage m)).1
    let certain := ∃ receipt, adminReceiptDecode reply = some receipt ∧
      adminReceiptValid command receipt = true
    (out.1.label = Label.adminReceipt → Admitted check a ch m ∧ certain) ∧
      (Admitted check a ch m → certain → out.1.label = Label.adminReceipt ∧
        out.1.count = reply.count ∧ ∀ i < reply.count, out.1.mr i = reply.mr i) ∧
      (Admitted check a ch m → ¬ certain →
        out.1 = adminAdmissionReply reply.mr .badCompletion ∧
        out.2.1.pendingSequence = command.sequence ∧
        ∀ calls : List (ℕ × Message),
          Run.final (adminServerStep check (logged policy)) out.2 calls = out.2 ∧
          ∀ e ∈ Run.trace (adminServerStep check (logged policy)) out.2 calls,
            e.output.label ≠ Label.adminReceipt) ∧
      (¬ Admitted check a ch m → out.2 = (a, t, log)) := by
  intro out command reply certain
  by_cases ha : Admitted check a ch m
  · obtain ⟨rfl, hs⟩ := admitted_iff.mp ha
    by_cases hc : certain
    · obtain ⟨receipt, hd, hv⟩ := hc
      have hout : out = (adminReceiptReply reply.mr receipt, _, _) :=
        adminServer_certain (logged policy) hs (t, log) hd hv
      refine ⟨fun _ => ⟨ha, receipt, hd, hv⟩, fun _ _ => ?_, fun _ hn => absurd ⟨receipt, hd, hv⟩ hn,
        fun hn => absurd ha hn⟩
      rw [hout, (adminReceiptDecode_shape hd).2]
      exact ⟨rfl, rfl, adminReceiptReply_words hd reply.mr⟩
    · have hbad : out = (adminAdmissionReply reply.mr .badCompletion, a.consumed, _) :=
        adminServer_uncertain (logged policy) hs (t, log) hc
      have hseq : a.consumed.pendingSequence = command.sequence := by
        rw [Admin.consumed_pending]
        exact hs.2.2.next.symm
      have hstuck : Stuck a.consumed :=
        ⟨by rw [Admin.consumed_initialized, hs.2.2.initialized],
          by rw [hseq]; exact hs.2.2.signed.command.sequence_ne_zero⟩
      rw [hbad]
      refine ⟨fun hl => absurd hl (by show Label.adminAdmission ≠ _; decide), fun _ h => absurd h hc,
        fun _ _ => ⟨rfl, hseq, hstuck.run (logged policy) _⟩, fun hn => absurd ha hn⟩
  · obtain ⟨h1, h2⟩ := adminServer_not_admitted (logged policy) ha (t, log)
    exact ⟨fun hl => absurd hl h2, fun h => absurd h ha, fun h => absurd h ha, fun _ => h1⟩

/-- The first grant to subject 0 for the realm of ones and the boot of twos, and its signature under
`grantKey`. -/
def grantPacket : List UInt8 :=
  adminDomain ++ List.replicate 32 1 ++ List.replicate 32 2 ++ Bytes.store64 1 ++
  Bytes.store64 Op.grant ++ Bytes.store64 0 ++ Bytes.store64 tcsObject ++ Bytes.store64 tcsRead ++
  Bytes.store64 0 ++
  [0x24, 0xed, 0xf4, 0x2a, 0xed, 0x62, 0xf8, 0x58, 0x37, 0xde, 0xd0, 0x77, 0x3b, 0x61, 0x84, 0x3e,
    0xb0, 0x1f, 0xce, 0x7b, 0x0d, 0x4d, 0xd7, 0x7e, 0x8b, 0xd9, 0xd0, 0x9d, 0x20, 0x0a, 0xd1, 0x9a,
    0x8c, 0xf8, 0x43, 0xb2, 0x23, 0x3d, 0xdb, 0xaf, 0x22, 0xdf, 0x22, 0xb2, 0xb1, 0x29, 0xd1, 0x1b,
    0x8b, 0xd7, 0xb7, 0xb2, 0x2c, 0x6f, 0x94, 0x51, 0x58, 0xb0, 0x15, 0x60, 0x4f, 0x01, 0x20, 0x09]

/-- The public key of the grant. -/
def grantKey : Vector UInt8 32 :=
  ⟨[0xd7, 0x5a, 0x98, 0x01, 0x82, 0xb1, 0x0a, 0xb7, 0xd5, 0x4b, 0xfe, 0xd3, 0xc9, 0x64, 0x07, 0x3a,
    0x0e, 0xe1, 0x72, 0xf3, 0xda, 0xa6, 0x23, 0x25, 0xaf, 0x02, 0x1a, 0x68, 0xf7, 0x07, 0x51, 0x1a].toArray,
    rfl⟩

/-- A verifier that knows one signature: it answers as Ed25519 does on the grant. -/
def grantCheck (signature key message : List UInt8) : Bool :=
  signature = grantPacket.drop 128 ∧ key = grantKey.toList ∧ message = grantPacket.take 128

/-- The administrator that has been set up for the grant. -/
def grantAdmin : Admin :=
  ⟨grantKey, Vector.replicate 32 1, Vector.replicate 32 2, 1, 0, true, false⟩

/-- The grant as a message. -/
def grantMessage : Message :=
  ⟨Label.adminSubmit, adminPacketWords, wordsFromBytes (fun _ => 0) grantPacket⟩

theorem grantMessage_sequence :
    (packetCommand (bytesFromWords grantMessage.mr adminPacketBytes)).sequence = 1 := by
  decide +kernel

/-- A policy that answers with no receipt. -/
def noReceipt : Peer Unit := answering ⟨Label.adminAdmission, 1, fun _ => 0⟩

/-- The grant is answered with no receipt, and is then sent again. -/
theorem uncertain_completion_fails_closed_grant :
    let out := adminServerRequest grantCheck (logged noReceipt) 0 (grantAdmin, (), []) grantMessage
    out.2.1.pendingSequence = 1 ∧
      Run.final (adminServerStep grantCheck (logged noReceipt)) out.2 [(0, grantMessage)] = out.2 := by
  have hadmit : Admitted grantCheck grantAdmin 0 grantMessage := by
    refine ⟨rfl, rfl, rfl, ?_⟩
    decide +kernel
  have hreply : adminReceiptDecode (noReceipt () (forwardedMessage grantMessage)).1 = none := rfl
  obtain ⟨-, hpending, hrun⟩ :=
    (uncertain_completion_fails_closed grantCheck noReceipt grantAdmin () [] 0 grantMessage).2.2.1
      hadmit (by rw [hreply]; simp)
  rw [grantMessage_sequence] at hpending
  exact ⟨hpending, (hrun [(0, grantMessage)]).1⟩

end Tcs
