/-
# The request mailbox

`tcs_rd_publish` and `tcs_rd_sample` of `lib/reduction.c`: writers add
requests to one atomic word, and the owner of a reduction latch loads the
word and later hands what it loaded to the latch. Between the load and its
use the writers go on, and the owner may hold several samples and use them
in any order, or not at all.

What the latch holds is read off the history: the requests that were
published before the last of the samples it was given (`latestUse`,
`beforeSample`). The samples grow along the run, so the union of those the
owner has used is the last of them.

Key definitions: `Mailbox`, `mailboxStep`, `published`, `beforeSample`,
`latestUse`, `MailboxTold`.
Key theorems: `mailboxTold_step`, `no_lost_or_invented_request`.
-/
import Tcs.Reduction

namespace Tcs

/-! ### The word, its writers and its owner -/

/-- `tcs_rd_publish`: what it returns and the word it leaves. -/
def rdPublish (word requests : UInt64) : Bool × UInt64 :=
  if requests &&& ~~~rdAll ≠ 0 then (false, word) else (true, word ||| requests)

/-- `tcs_rd_sample`. -/
def rdSample (word : UInt64) : UInt64 := word

/-- The shared word, the samples the owner has taken, oldest first, and its control. -/
structure Mailbox where
  requests : UInt64
  samples : List UInt64
  control : Reduction

/-- The zeroed word and control. -/
def Mailbox.zero : Mailbox := ⟨0, [], Reduction.zero⟩

/-- A step of some writer (`publish`) or of the owner. A call on the latch names the sample it
passes by its place among those taken. -/
inductive MailboxStep
  | publish (requests : UInt64)
  | sample
  | poll (k : ℕ)
  | apply (k : ℕ) (actor : LcActor) (event : LcEvent) (auditOk : Bool)
  deriving DecidableEq, Repr

/-- What a step returns; `idle` for a call that names no sample, which is no step. -/
inductive MailboxReply
  | published (ok : Bool)
  | sampled (word : UInt64)
  | polled (status : RdPollStatus)
  | applied (result : LcResult)
  | idle
  deriving DecidableEq, Repr

/-- One indivisible step of a writer or of the owner. -/
def mailboxStep (s : Mailbox) : MailboxStep → Mailbox × MailboxReply
  | .publish requests =>
    let out := rdPublish s.requests requests
    ({ s with requests := out.2 }, .published out.1)
  | .sample => ({ s with samples := s.samples ++ [rdSample s.requests] }, .sampled (rdSample s.requests))
  | .poll k =>
    match s.samples[k]? with
    | none => (s, .idle)
    | some word =>
      let out := rdPoll s.control word
      ({ s with control := out.2 }, .polled out.1)
  | .apply k actor event auditOk =>
    match s.samples[k]? with
    | none => (s, .idle)
    | some word =>
      let out := rdApply s.control word actor event auditOk
      ({ s with control := out.2 }, .applied out.1)

abbrev MailboxEntry := Run.Entry Mailbox MailboxStep MailboxReply

/-! ### The history -/

/-- The requests that an entry published: those of a publication that returned true. -/
def publishedBy (e : MailboxEntry) : UInt64 :=
  match e.input, e.output with
  | .publish requests, .published true => requests
  | _, _ => 0

/-- The union of the requests published in a history. -/
def published : List MailboxEntry → UInt64
  | [] => 0
  | e :: h => publishedBy e ||| published h

/-- The entry takes a sample. -/
def isSample (e : MailboxEntry) : Bool := e.input = .sample

/-- The history before sample number `k` was taken. -/
def beforeSample : List MailboxEntry → ℕ → List MailboxEntry
  | [], _ => []
  | e :: h, k =>
    if isSample e then
      if k = 0 then [] else e :: beforeSample h (k - 1)
    else e :: beforeSample h k

/-- The sample that an entry passed to the latch. -/
def usedBy (e : MailboxEntry) : Option ℕ :=
  match e.input, e.output with
  | .poll k, .polled _ => some k
  | .apply k _ _ _, .applied _ => some k
  | _, _ => none

/-- The most recently taken of the samples that the latch was given. -/
def latestUse (h : List MailboxEntry) : Option ℕ := (h.filterMap usedBy).max?

theorem published_append (h h' : List MailboxEntry) :
    published (h ++ h') = published h ||| published h' := by
  induction h with
  | nil => simp [published]
  | cons e h ih => rw [List.cons_append, published, published, ih, UInt64.or_assoc]

theorem published_snoc (h : List MailboxEntry) (e : MailboxEntry) :
    published (h ++ [e]) = published h ||| publishedBy e := by
  rw [published_append]
  simp [published]

theorem hasBit_published {h : List MailboxEntry} {i : ℕ} (hi : i < 64) :
    Word.hasBit (published h) i = true ↔ ∃ e ∈ h, Word.hasBit (publishedBy e) i = true := by
  induction h with
  | nil =>
    rw [published, Word.hasBit_eq_testBit _ hi]
    simp
  | cons e h ih => rw [published, Word.hasBit_or _ _ hi, Bool.or_eq_true, ih, List.exists_mem_cons_iff]

/-- An entry after sample `k` does not change what came before it. -/
theorem beforeSample_snoc {h : List MailboxEntry} {k : ℕ} (hk : k < h.countP isSample)
    (e : MailboxEntry) : beforeSample (h ++ [e]) k = beforeSample h k := by
  induction h generalizing k with
  | nil => simp at hk
  | cons a h ih =>
    rw [List.countP_cons] at hk
    rw [List.cons_append, beforeSample, beforeSample]
    by_cases ha : isSample a = true
    · rw [if_pos ha, if_pos ha]
      rw [if_pos ha] at hk
      by_cases h0 : k = 0
      · rw [if_pos h0, if_pos h0]
      · rw [if_neg h0, if_neg h0, ih (by omega)]
    · rw [if_neg ha, if_neg ha]
      rw [if_neg ha] at hk
      rw [ih (by omega)]

theorem beforeSample_new {h : List MailboxEntry} {e : MailboxEntry} (he : isSample e = true) :
    beforeSample (h ++ [e]) (h.countP isSample) = h := by
  induction h with
  | nil => simp [beforeSample, he]
  | cons a h ih =>
    rw [List.cons_append, beforeSample, List.countP_cons]
    by_cases ha : isSample a = true
    · rw [if_pos ha, if_pos ha, if_neg (by omega), Nat.add_sub_cancel, ih]
    · rw [if_neg ha, if_neg ha, Nat.add_zero, ih]

theorem beforeSample_mono (h : List MailboxEntry) {k k' : ℕ} (hk : k ≤ k') :
    beforeSample h k <+: beforeSample h k' := by
  induction h generalizing k k' with
  | nil => exact List.prefix_rfl
  | cons a h ih =>
    rw [beforeSample, beforeSample]
    by_cases ha : isSample a = true
    · rw [if_pos ha, if_pos ha]
      by_cases h0 : k = 0
      · rw [if_pos h0]
        exact List.nil_prefix
      · rw [if_neg h0, if_neg (by omega)]
        exact (List.prefix_cons_inj a).mpr (ih (by omega))
    · rw [if_neg ha, if_neg ha]
      exact (List.prefix_cons_inj a).mpr (ih hk)

/-- Two samples together are the later one. -/
theorem published_or (h : List MailboxEntry) (k k' : ℕ) :
    published (beforeSample h k) ||| published (beforeSample h k') =
      published (beforeSample h (max k k')) := by
  have hle : ∀ {i j : ℕ}, i ≤ j → published (beforeSample h i) ||| published (beforeSample h j) =
      published (beforeSample h j) := by
    intro i j hij
    obtain ⟨rest, hrest⟩ := beforeSample_mono h hij
    rw [← hrest, published_append, ← UInt64.or_assoc, UInt64.or_self]
  rcases Nat.le_total k k' with hk | hk
  · rw [hle hk, Nat.max_eq_right hk]
  · rw [UInt64.or_comm, hle hk, Nat.max_eq_left hk]

theorem latestUse_snoc_none {h : List MailboxEntry} {e : MailboxEntry} (he : usedBy e = none) :
    latestUse (h ++ [e]) = latestUse h := by
  unfold latestUse
  rw [List.filterMap_append, List.filterMap_cons_none he, List.filterMap_nil, List.append_nil]

theorem latestUse_snoc_some {h : List MailboxEntry} {e : MailboxEntry} {k : ℕ}
    (he : usedBy e = some k) :
    latestUse (h ++ [e]) = some ((latestUse h).elim k fun j => max j k) := by
  unfold latestUse
  rw [List.filterMap_append, List.filterMap_cons_some he, List.filterMap_nil]
  generalize h.filterMap usedBy = l
  cases l with
  | nil => rfl
  | cons a l =>
    rw [List.cons_append, List.max?_cons', List.max?_cons', List.foldl_append]
    rfl

/-! ### What the history tells -/

/-- The requests that the latch should hold after a history. -/
def toldRequests (h : List MailboxEntry) : UInt64 :=
  (latestUse h).elim 0 fun k => published (beforeSample h k)

/-- The word, the samples and the latch are what the history tells. -/
structure MailboxTold (h : List MailboxEntry) (s : Mailbox) : Prop where
  word : s.requests = published h
  mask : s.requests ≤ rdAll
  length : s.samples.length = h.countP isSample
  samples : ∀ k < s.samples.length, s.samples[k]? = some (published (beforeSample h k))
  small : ∀ w ∈ s.samples, w ≤ rdAll
  used : ∀ k, latestUse h = some k → k < s.samples.length
  rdOk : RdOk s.control
  fault : s.control.inputFault = 0
  inhibited : s.control.inhibited = toldRequests h

/-- What a sample without foreign bits does to the latch. -/
theorem observe_of_le {control : Reduction} {sample : UInt64} (hw : sample ≤ rdAll) :
    (control.observe sample).inhibited = control.inhibited ||| sample ∧
      (control.observe sample).inputFault = control.inputFault := by
  have hm := malformed_eq_false.mpr hw
  unfold Reduction.observe Reduction.latch
  simp [hm]

theorem toldRequests_of_none {h : List MailboxEntry} {e : MailboxEntry} (he : usedBy e = none)
    (hused : ∀ k, latestUse h = some k → k < h.countP isSample) :
    toldRequests (h ++ [e]) = toldRequests h := by
  unfold toldRequests
  rw [latestUse_snoc_none he]
  cases hu : latestUse h with
  | none => rfl
  | some k => exact congrArg published (beforeSample_snoc (hused k hu) e)

theorem toldRequests_of_some {h : List MailboxEntry} {e : MailboxEntry} {k : ℕ}
    (he : usedBy e = some k) (hk : k < h.countP isSample)
    (hused : ∀ k, latestUse h = some k → k < h.countP isSample) :
    toldRequests (h ++ [e]) = toldRequests h ||| published (beforeSample h k) := by
  unfold toldRequests
  rw [latestUse_snoc_some he]
  cases hu : latestUse h with
  | none => simp [beforeSample_snoc hk]
  | some j =>
    have hj := hused j hu
    simp only [Option.elim_some]
    rw [published_or, beforeSample_snoc (by omega)]

/-! ### One step -/

section Step

variable {h : List MailboxEntry} {s : Mailbox} {e : MailboxEntry}

theorem countP_snoc (hs : isSample e = false) :
    (h ++ [e]).countP isSample = h.countP isSample := by
  rw [List.countP_append]
  simp [hs]

theorem MailboxTold.used_lt (ht : MailboxTold h s) :
    ∀ k, latestUse h = some k → k < h.countP isSample := by
  rw [← ht.length]
  exact ht.used

/-- A step that takes no sample leaves the history before each sample as it was. -/
theorem MailboxTold.samples_snoc (ht : MailboxTold h s) (e : MailboxEntry) {k : ℕ}
    (hk : k < s.samples.length) : s.samples[k]? = some (published (beforeSample (h ++ [e]) k)) := by
  rw [beforeSample_snoc (by rwa [← ht.length])]
  exact ht.samples k hk

theorem MailboxTold.publish (ht : MailboxTold h s) (hs : isSample e = false)
    (hu : usedBy e = none) (hp : publishedBy e ≤ rdAll) :
    MailboxTold (h ++ [e]) { s with requests := s.requests ||| publishedBy e } where
  word := by rw [published_snoc, ht.word]
  mask := or_le_rdAll ht.mask hp
  length := by rw [countP_snoc hs, ht.length]
  samples k hk := ht.samples_snoc e hk
  small := ht.small
  used k hk := ht.used k (by rwa [latestUse_snoc_none hu] at hk)
  rdOk := ht.rdOk
  fault := ht.fault
  inhibited := by rw [toldRequests_of_none hu ht.used_lt, ht.inhibited]

theorem MailboxTold.sample (ht : MailboxTold h s) (hs : isSample e = true)
    (hu : usedBy e = none) (hp : publishedBy e = 0) :
    MailboxTold (h ++ [e]) { s with samples := s.samples ++ [rdSample s.requests] } where
  word := by rw [published_snoc, hp, UInt64.or_zero, ht.word]
  mask := ht.mask
  length := by
    rw [List.length_append, List.countP_append, ht.length]
    simp [hs]
  samples k hk := by
    rw [List.length_append, List.length_singleton] at hk
    by_cases hlt : k < s.samples.length
    · rw [List.getElem?_append_left hlt]
      exact ht.samples_snoc e hlt
    · obtain rfl : k = s.samples.length := by omega
      rw [List.getElem?_concat_length, ht.length, beforeSample_new hs]
      exact congrArg some ht.word
  small w hw := by
    rcases List.mem_append.mp hw with hw | hw
    · exact ht.small w hw
    · rw [List.mem_singleton.mp hw]
      exact ht.mask
  used k hk := by
    rw [latestUse_snoc_none hu] at hk
    have := ht.used k hk
    rw [List.length_append]
    omega
  rdOk := ht.rdOk
  fault := ht.fault
  inhibited := by rw [toldRequests_of_none hu ht.used_lt, ht.inhibited]

theorem MailboxTold.use (ht : MailboxTold h s) {k : ℕ} {w : UInt64} (hw : s.samples[k]? = some w)
    (hs : isSample e = false) (hu : usedBy e = some k) (hp : publishedBy e = 0)
    {control : Reduction} (hok : RdOk control)
    (hi : control.inhibited = (s.control.observe w).inhibited)
    (hf : control.inputFault = (s.control.observe w).inputFault) :
    MailboxTold (h ++ [e]) { s with control := control } := by
  obtain ⟨hk, hget⟩ := List.getElem?_eq_some_iff.mp hw
  have hmem : w ∈ s.samples := hget ▸ List.getElem_mem hk
  have htold : w = published (beforeSample h k) := by
    rw [ht.samples k hk] at hw
    exact (Option.some.inj hw).symm
  have hlatch := @observe_of_le s.control w (ht.small w hmem)
  refine ⟨?_, ht.mask, ?_, fun j hj => ht.samples_snoc e hj, ht.small, ?_, hok, ?_, ?_⟩
  · rw [published_snoc, hp, UInt64.or_zero, ht.word]
  · rw [countP_snoc hs, ht.length]
  · intro j hj
    rw [latestUse_snoc_some hu, Option.some.injEq] at hj
    subst hj
    cases hl : latestUse h with
    | none => exact hk
    | some i => exact Nat.max_lt.mpr ⟨ht.used i hl, hk⟩
  · rw [hf, hlatch.2, ht.fault]
  · rw [hi, hlatch.1, ht.inhibited, htold,
      toldRequests_of_some hu (by rwa [← ht.length]) ht.used_lt]

theorem MailboxTold.idle (ht : MailboxTold h s) (hs : isSample e = false)
    (hu : usedBy e = none) (hp : publishedBy e = 0) : MailboxTold (h ++ [e]) s := by
  have := ht.publish hs hu (by rw [hp]; decide)
  rwa [hp, UInt64.or_zero] at this

/-- **One step.** The history goes on telling the word, the samples and the latch. -/
theorem mailboxTold_step (ht : MailboxTold h s) (x : MailboxStep) :
    MailboxTold (h ++ [Run.entry mailboxStep s x]) (mailboxStep s x).1 := by
  cases x with
  | publish requests =>
    by_cases hm : requests &&& ~~~rdAll ≠ 0
    · have hout : mailboxStep s (.publish requests) = (s, .published false) := by
        simp only [mailboxStep, rdPublish, if_pos hm]
      rw [hout]
      refine ht.idle rfl rfl ?_
      simp only [publishedBy, Run.entry_input, Run.entry_output, hout]
    · have hle := and_not_rdAll.mp (not_not.mp hm)
      have hout : mailboxStep s (.publish requests) =
          ({ s with requests := s.requests ||| requests }, .published true) := by
        simp only [mailboxStep, rdPublish, if_neg hm]
      have hp : publishedBy (Run.entry mailboxStep s (.publish requests)) = requests := by
        simp only [publishedBy, Run.entry_input, Run.entry_output, hout]
      rw [hout]
      have := ht.publish (e := Run.entry mailboxStep s (.publish requests)) rfl rfl (by rwa [hp])
      rwa [hp] at this
  | sample => exact ht.sample rfl rfl rfl
  | poll k =>
    cases hw : s.samples[k]? with
    | none =>
      have hout : mailboxStep s (.poll k) = (s, .idle) := by simp only [mailboxStep, hw]
      rw [hout]
      refine ht.idle rfl ?_ rfl
      simp only [usedBy, Run.entry_input, Run.entry_output, hout]
    | some w =>
      have hout : mailboxStep s (.poll k) =
          ({ s with control := (rdPoll s.control w).2 }, .polled (rdPoll s.control w).1) := by
        simp only [mailboxStep, hw]
      rw [hout]
      refine ht.use hw rfl ?_ rfl (ht.rdOk.rdPoll w) ?_ ?_
      · simp only [usedBy, Run.entry_input, Run.entry_output, hout]
      · rw [rdPoll_eq ht.rdOk]
      · rw [rdPoll_eq ht.rdOk]
  | apply k actor event auditOk =>
    cases hw : s.samples[k]? with
    | none =>
      have hout : mailboxStep s (.apply k actor event auditOk) = (s, .idle) := by
        simp only [mailboxStep, hw]
      rw [hout]
      refine ht.idle rfl ?_ rfl
      simp only [usedBy, Run.entry_input, Run.entry_output, hout]
    | some w =>
      have hout : mailboxStep s (.apply k actor event auditOk) =
          ({ s with control := (rdApply s.control w actor event auditOk).2 },
            .applied (rdApply s.control w actor event auditOk).1) := by
        simp only [mailboxStep, hw]
      rw [hout]
      refine ht.use hw rfl ?_ rfl (ht.rdOk.rdApply w actor event auditOk) ?_ ?_
      · simp only [usedBy, Run.entry_input, Run.entry_output, hout]
      · rw [rdApply_latch.1, rdPoll_eq ht.rdOk]
      · rw [rdApply_latch.2, rdPoll_eq ht.rdOk]

end Step

/-! ### Every interleaving -/

theorem mailboxTold_zero : MailboxTold [] Mailbox.zero where
  word := rfl
  mask := by decide
  length := rfl
  samples k hk := by simp [Mailbox.zero] at hk
  small w hw := by simp [Mailbox.zero] at hw
  used k hk := by simp [latestUse] at hk
  rdOk := (rdValid_iff _).mp (by decide)
  fault := rfl
  inhibited := rfl

/-- The history of the steps, from zero. -/
def mailboxTrace (xs : List MailboxStep) : List MailboxEntry :=
  Run.trace mailboxStep Mailbox.zero xs

/-- The word, the samples and the control after the steps, from zero. -/
def mailboxRun (xs : List MailboxStep) : Mailbox := Run.final mailboxStep Mailbox.zero xs

theorem mailboxTold_run (xs : List MailboxStep) : MailboxTold (mailboxTrace xs) (mailboxRun xs) :=
  Run.trace_induct mailboxTold_zero (fun _ _ x ht => mailboxTold_step ht x) xs

/-- A reservation or an activation succeeds on a slot that its sample does not request. -/
theorem clear_of_ok {control : Reduction} (h : RdOk control) {sample : UInt64} {actor : LcActor}
    {e : LcEvent} {b : Bool} (hok : (rdApply control sample actor e b).1.status = LcStatus.ok)
    (hop : e.op = LcOp.reserve ∨ e.op = LcOp.activate) :
    Word.hasBit sample e.slot.toNat = false ∧ e.slot.toNat < 2 := by
  rw [rdApply_eq h] at hok
  split_ifs at hok with hd
  · cases hok
  · have hlt := (lcStep_of_ok hok).2.guards.1
    have hslot := slotIx_val hlt
    refine ⟨?_, by rw [← hslot]; exact (slotIx e.slot).isLt⟩
    by_contra hb
    refine hd ⟨hlt, ?_, hop⟩
    have := hasBit_latch control sample (slotIx e.slot) (Or.inr (by rw [hslot]; simpa using hb))
    rwa [hslot] at this

/-- **No request is lost or invented.** In every interleaving of the writers' publications with the
owner's samples and its uses of them, the latch holds the requests that were published before the
last sample it was given, no input fault arises, and a slot is reserved or activated only when no
publication before the sample of that call asked for it. -/
theorem no_lost_or_invented_request (xs : List MailboxStep) :
    (mailboxRun xs).control.inhibited =
        (match latestUse (mailboxTrace xs) with
          | none => 0
          | some k => published (beforeSample (mailboxTrace xs) k)) ∧
      (mailboxRun xs).control.inputFault = 0 ∧
      ∀ h₁ e h₂, mailboxTrace xs = h₁ ++ e :: h₂ → ∀ k actor event auditOk v,
        e.input = .apply k actor event auditOk → e.output = .applied ⟨LcStatus.ok, v⟩ →
        event.op = LcOp.reserve ∨ event.op = LcOp.activate →
        ∀ p ∈ beforeSample h₁ k, Word.hasBit (publishedBy p) event.slot.toNat = false := by
  have ht := mailboxTold_run xs
  refine ⟨?_, ht.fault, ?_⟩
  · rw [ht.inhibited, toldRequests]
    cases latestUse (mailboxTrace xs) <;> rfl
  · intro h₁ e h₂ hsplit k actor event auditOk v hin hout hop p hp
    obtain ⟨is₁, i, is₂, -, rfl, rfl, -⟩ := Run.trace_split hsplit
    have ht₁ := mailboxTold_run is₁
    rw [Run.entry_input] at hin
    subst hin
    simp only [Run.entry_output, mailboxStep] at hout
    split at hout
    · cases hout
    · next w hw =>
      change (mailboxRun is₁).samples[k]? = some w at hw
      simp only [MailboxReply.applied.injEq] at hout
      have hok : (rdApply (mailboxRun is₁).control w actor event auditOk).1.status = LcStatus.ok :=
        congrArg LcResult.status hout
      obtain ⟨hclear, hlt⟩ := clear_of_ok ht₁.rdOk hok hop
      have hk := (List.getElem?_eq_some_iff.mp hw).1
      rw [ht₁.samples k hk, Option.some.injEq] at hw
      by_contra hb
      have hpub := (hasBit_published (i := event.slot.toNat) (by omega)).mpr ⟨p, hp, by simpa using hb⟩
      change Word.hasBit (published (beforeSample (mailboxTrace is₁) k)) event.slot.toNat = true at hpub
      rw [← hw, hpub] at hclear
      cases hclear

end Tcs
