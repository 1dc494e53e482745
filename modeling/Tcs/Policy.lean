/-
# The policy table

`include/tcs/policy.h`, `lib/policy.c` and `lib/admin_policy.c`: four
subjects, each with a generation, one object, its rights and a state. A
request is evaluated on a copy of the table (`policyApply`, or
`policyAdminCompareApply` for a signed command) and the copy is committed
once the decision has been audited (`policyCommit`).

Words keep their C type, `uint64_t`, and so do the operations and statuses,
which are words on the wire; `enum tcs_state` and `enum tcs_actor` are
inductive. A null pointer is not modelled: every caller passes an address.

`Accepts` says once what an accepted request does to its subject
(`policyApply_ok_iff`); the table's invariant and its frame are read off it.

Key definitions: `policyApply`, `policyCommit`, `policyAdminCompareApply`,
`Accepts`, `policyStep`.
Key theorems: `policyApply_ok_iff`, `tableOk_step`, `stepFrame`,
`policy_table_invariant`.
-/
import Tcs.Lib.Run
import Tcs.Lib.Word

namespace Tcs

/-! ### The data model -/

/-- `TCS_SUBJECTS`. -/
@[simp] abbrev subjectCount : UInt64 := 4
/-- `TCS_OBJECT`, the one object of the seed. -/
@[simp] abbrev tcsObject : UInt64 := 42
/-- `TCS_READ`. -/
@[simp] abbrev tcsRead : UInt64 := 1

/-- `enum tcs_actor`. A value cast from outside the enumeration is `other`. -/
inductive Actor
  | unknown
  | admin
  | storage
  | other (n : ℕ)
  deriving DecidableEq, Repr

/-- The value of the enumerator, as it is written to a message register. -/
def Actor.word : Actor → UInt64
  | .unknown => 0
  | .admin => 1
  | .storage => 2
  | .other n => UInt64.ofNat (3 + n)

/-- `enum tcs_state`. -/
inductive State
  | restricted
  | active
  | quarantined
  deriving DecidableEq, Repr

/-- The value of the enumerator. -/
def State.word : State → UInt64
  | .restricted => 0
  | .active => 1
  | .quarantined => 2

/-! `enum tcs_op` and `enum tcs_status`, as words. -/

namespace Op

@[simp] abbrev grant : UInt64 := 1
@[simp] abbrev check : UInt64 := 2
@[simp] abbrev revoke : UInt64 := 3
@[simp] abbrev quarantine : UInt64 := 4
@[simp] abbrev restore : UInt64 := 5

end Op

namespace Status

@[simp] abbrev ok : UInt64 := 0
@[simp] abbrev denied : UInt64 := 1
@[simp] abbrev badMessage : UInt64 := 2
@[simp] abbrev stale : UInt64 := 3
@[simp] abbrev isolated : UInt64 := 4
@[simp] abbrev auditFull : UInt64 := 5
@[simp] abbrev exhausted : UInt64 := 6

end Status

/-- `struct tcs_subject`. -/
structure Subject where
  generation : UInt64
  object : UInt64
  rights : UInt64
  state : State
  deriving DecidableEq, Repr

/-- `struct tcs_policy`. -/
structure Policy where
  subjects : Fin 4 → Subject
  deriving DecidableEq

/-- `struct tcs_request`. -/
structure Request where
  op : UInt64
  subject : UInt64
  object : UInt64
  rights : UInt64
  generation : UInt64
  deriving DecidableEq, Repr

/-- `struct tcs_result`. -/
structure Result where
  status : UInt64
  value : UInt64
  deriving DecidableEq, Repr

/-- `struct tcs_snapshot`. -/
structure Snapshot where
  status : UInt64
  state : UInt64
  generation : UInt64
  object : UInt64
  rights : UInt64
  deriving DecidableEq, Repr

/-- `struct tcs_admin_command`. -/
structure AdminCommand where
  sequence : UInt64
  expectedGeneration : UInt64
  request : Request
  deriving DecidableEq, Repr

/-- A zeroed subject. -/
def Subject.zero : Subject := ⟨0, 0, 0, .restricted⟩

/-- The zeroed table. -/
def Policy.zero : Policy := ⟨fun _ => Subject.zero⟩

/-- The place of a subject word in the table, used behind `subject < TCS_SUBJECTS`. -/
def subjectIx (s : UInt64) : Fin 4 := Fin.ofNat 4 s.toNat

/-- `policy->subjects[s]`. -/
def Policy.at (p : Policy) (s : UInt64) : Subject := p.subjects (subjectIx s)

/-- The table with `policy->subjects[s]` replaced. -/
def Policy.set (p : Policy) (s : UInt64) (x : Subject) : Policy :=
  ⟨Function.update p.subjects (subjectIx s) x⟩

/-! ### The operations -/

/-- `tcs_snapshot_valid`. -/
def snapshotValid (s : Snapshot) : Bool :=
  if s.status ≠ Status.ok ∨ s.state > State.word .quarantined then false
  else if s.state = State.word .active then
    s.generation ≠ 0 ∧ s.object = tcsObject ∧ s.rights = tcsRead
  else s.object = 0 ∧ s.rights = 0

/-- The snapshot of a subject, `{TCS_OK, s->state, s->generation, s->object, s->rights}`. -/
def Subject.snapshot (s : Subject) : Snapshot :=
  ⟨Status.ok, s.state.word, s.generation, s.object, s.rights⟩

/-- `tcs_policy_self_status`: `TCS_CLIENT_SUBJECT` is 1. -/
def policySelfStatus (p : Policy) (actor : Actor) : Snapshot :=
  if actor ≠ .storage then ⟨Status.denied, 0, 0, 0, 0⟩
  else
    let snapshot := (p.at 1).snapshot
    if !snapshotValid snapshot then ⟨Status.badMessage, 0, 0, 0, 0⟩ else snapshot

/-- The body of `tcs_policy_apply` behind its guards: what it answers and what it leaves in
`*s`. -/
def subjectApply (s : Subject) (r : Request) : Result × Subject :=
  if r.op = Op.revoke ∨ r.op = Op.quarantine ∨ r.op = Op.restore then
    if r.object ≠ 0 ∨ r.rights ≠ 0 ∨ r.generation ≠ 0 then (⟨Status.badMessage, 0⟩, s)
    else if r.op = Op.restore ∧ s.state ≠ .quarantined then (⟨Status.denied, 0⟩, s)
    else
      let generation := Word.satSucc s.generation
      let state :=
        if r.op = Op.quarantine then .quarantined
        else if r.op = Op.restore ∨ s.state ≠ .quarantined then .restricted
        else s.state
      (⟨Status.ok, generation⟩, ⟨generation, 0, 0, state⟩)
  else if s.state = .quarantined then (⟨Status.isolated, 0⟩, s)
  -- the seed has one read-only object and no wildcard rights
  else if r.object ≠ tcsObject ∨ r.rights ≠ tcsRead then (⟨Status.denied, 0⟩, s)
  else if r.op = Op.grant then
    if r.generation ≠ 0 then (⟨Status.badMessage, 0⟩, s)
    else if s.generation = Word.max then (⟨Status.exhausted, 0⟩, s)
    else (⟨Status.ok, s.generation + 1⟩, ⟨s.generation + 1, r.object, r.rights, .active⟩)
  else if s.state ≠ .active ∨ s.rights ≠ tcsRead then (⟨Status.denied, 0⟩, s)
  else if r.generation = 0 ∨ r.generation ≠ s.generation then (⟨Status.stale, 0⟩, s)
  else if s.object ≠ r.object then (⟨Status.denied, 0⟩, s)
  else (⟨Status.ok, s.generation⟩, s)

/-- `tcs_policy_apply`: the answer and the table it leaves. -/
def policyApply (p : Policy) (actor : Actor) (r : Request) : Result × Policy :=
  if r.subject ≥ subjectCount ∨ r.op < Op.grant ∨ r.op > Op.restore then (⟨Status.badMessage, 0⟩, p)
  else if (r.op = Op.check ∧ actor ≠ .storage) ∨ (r.op ≠ Op.check ∧ actor ≠ .admin) then
    (⟨Status.denied, 0⟩, p)
  else
    let out := subjectApply (p.at r.subject) r
    (out.1, p.set r.subject out.2)

/-- The operations whose commit an audit failure does not prevent. -/
def Request.reduction (r : Request) : Bool := r.op = Op.revoke ∨ r.op = Op.quarantine

/-- `tcs_policy_commit`: the answer and the live table it leaves. -/
def policyCommit (live candidate : Policy) (r : Request) (decision : Result) (auditOk : Bool) :
    Result × Policy :=
  let live := if decision.status = Status.ok ∧ (auditOk ∨ r.reduction) then candidate else live
  if !auditOk then (⟨Status.auditFull, 0⟩, live) else (decision, live)

/-- `tcs_policy_admin_compare_apply`. -/
def policyAdminCompareApply (p : Policy) (actor : Actor) (c : AdminCommand) : Result × Policy :=
  if actor ≠ .admin then (⟨Status.denied, 0⟩, p)
  else if c.sequence = 0 ∨ c.request.subject ≥ subjectCount ∨ c.request.op < Op.grant ∨
      c.request.op > Op.restore ∨ c.request.op = Op.check then (⟨Status.badMessage, 0⟩, p)
  else if (p.at c.request.subject).generation ≠ c.expectedGeneration then (⟨Status.stale, 0⟩, p)
  else policyApply p actor c.request

/-! ### What an accepted request does -/

/-- An accepted request: who made it, what it asked of which state of its subject, and the subject
it leaves. The answer's value is the generation left. -/
inductive Accepts (s : Subject) : Actor → Request → Subject → Prop
  | grant (i : UInt64) (hq : s.state ≠ .quarantined) (hg : s.generation ≠ Word.max) :
    Accepts s .admin ⟨Op.grant, i, tcsObject, tcsRead, 0⟩
      ⟨s.generation + 1, tcsObject, tcsRead, .active⟩
  | check (i : UInt64) (ha : s.state = .active) (hr : s.rights = tcsRead) (ho : s.object = tcsObject)
    (hg : s.generation ≠ 0) :
    Accepts s .storage ⟨Op.check, i, tcsObject, tcsRead, s.generation⟩ s
  | revoke (i : UInt64) :
    Accepts s .admin ⟨Op.revoke, i, 0, 0, 0⟩
      ⟨Word.satSucc s.generation, 0, 0, if s.state = .quarantined then .quarantined else .restricted⟩
  | quarantine (i : UInt64) :
    Accepts s .admin ⟨Op.quarantine, i, 0, 0, 0⟩ ⟨Word.satSucc s.generation, 0, 0, .quarantined⟩
  | restore (i : UInt64) (hq : s.state = .quarantined) :
    Accepts s .admin ⟨Op.restore, i, 0, 0, 0⟩ ⟨Word.satSucc s.generation, 0, 0, .restricted⟩

theorem Policy.set_at (p : Policy) (s : UInt64) : p.set s (p.at s) = p := by
  simp [Policy.set, Policy.at]

theorem Policy.at_set (p : Policy) (s : UInt64) (x : Subject) : (p.set s x).at s = x := by
  simp [Policy.set, Policy.at]

theorem subjectIx_val {s : UInt64} (h : s < subjectCount) : (subjectIx s).val = s.toNat := by
  have : s.toNat < 4 := UInt64.lt_iff_toNat_lt.mp h
  simpa [subjectIx, Fin.ofNat] using Nat.mod_eq_of_lt this

theorem subjectIx_inj {s t : UInt64} (hs : s < subjectCount) (ht : t < subjectCount)
    (h : subjectIx s = subjectIx t) : s = t := by
  rw [← UInt64.toNat_inj, ← subjectIx_val hs, ← subjectIx_val ht, h]

theorem subjectApply_of_ne (s : Subject) (r : Request) (h : (subjectApply s r).1.status ≠ Status.ok) :
    (subjectApply s r).2 = s := by
  let Kept (out : Result × Subject) : Prop := out.1.status ≠ Status.ok → out.2 = s
  have refused : ∀ answer, Kept (answer, s) := fun _ _ => rfl
  have accepted : ∀ value s', Kept (⟨Status.ok, value⟩, s') := fun _ _ hne => absurd rfl hne
  suffices hkept : Kept (subjectApply s r) from hkept h
  unfold subjectApply
  by_cases hzero : r.op = Op.revoke ∨ r.op = Op.quarantine ∨ r.op = Op.restore
  · rw [if_pos hzero]
    refine iteInduction (motive := Kept) (fun _ => refused _) fun _ => ?_
    exact iteInduction (motive := Kept) (fun _ => refused _) fun _ => accepted _ _
  rw [if_neg hzero]
  refine iteInduction (motive := Kept) (fun _ => refused _) fun _ => ?_
  refine iteInduction (motive := Kept) (fun _ => refused _) fun _ => ?_
  by_cases hgrant : r.op = Op.grant
  · rw [if_pos hgrant]
    refine iteInduction (motive := Kept) (fun _ => refused _) fun _ => ?_
    exact iteInduction (motive := Kept) (fun _ => refused _) fun _ => accepted _ _
  · rw [if_neg hgrant]
    refine iteInduction (motive := Kept) (fun _ => refused _) fun _ => ?_
    refine iteInduction (motive := Kept) (fun _ => refused _) fun _ => ?_
    exact iteInduction (motive := Kept) (fun _ => refused _) fun _ => refused _

theorem policyApply_of_ne (p : Policy) (actor : Actor) (r : Request)
    (h : (policyApply p actor r).1.status ≠ Status.ok) : (policyApply p actor r).2 = p := by
  unfold policyApply at h ⊢
  split_ifs at h ⊢
  · rfl
  · rfl
  · simp only [subjectApply_of_ne _ _ h, Policy.set_at]

theorem Accepts.apply {s s' : Subject} {actor : Actor} {r : Request} (h : Accepts s actor r s') :
    subjectApply s r = (⟨Status.ok, s'.generation⟩, s') := by
  cases h with
  | grant i hq hg => simp [subjectApply, hq, hg]
  | check i ha hr ho hg => simp [subjectApply, ha, hr, ho, hg]
  | revoke i =>
    by_cases hq : s.state = .quarantined <;> simp [subjectApply, hq]
  | quarantine i => simp [subjectApply]
  | restore i hq => simp [subjectApply, hq]

theorem Accepts.guards {s s' : Subject} {actor : Actor} {r : Request} (h : Accepts s actor r s') :
    ¬ (r.op < Op.grant ∨ r.op > Op.restore) ∧
      ¬ ((r.op = Op.check ∧ actor ≠ .storage) ∨ (r.op ≠ Op.check ∧ actor ≠ .admin)) := by
  cases h <;> simp

theorem Op.cases {op : UInt64} (h : ¬ (op < grant ∨ op > restore)) :
    op = grant ∨ op = check ∨ op = revoke ∨ op = quarantine ∨ op = restore := by
  simp only [not_or, UInt64.not_lt, gt_iff_lt, UInt64.le_iff_toNat_le] at h
  simp only [← UInt64.toNat_inj]
  have h1 : grant.toNat = 1 := rfl
  have h2 : check.toNat = 2 := rfl
  have h3 : revoke.toNat = 3 := rfl
  have h4 : quarantine.toNat = 4 := rfl
  have h5 : restore.toNat = 5 := rfl
  omega

/-- What a reduction or a restore needs to be evaluated. -/
theorem subjectApply_zeroed {s : Subject} {r : Request}
    (hop : r.op = Op.revoke ∨ r.op = Op.quarantine ∨ r.op = Op.restore)
    (h : (subjectApply s r).1.status = Status.ok) :
    r.object = 0 ∧ r.rights = 0 ∧ r.generation = 0 ∧ (r.op = Op.restore → s.state = .quarantined) := by
  unfold subjectApply at h
  rw [if_pos hop] at h
  by_cases hz : r.object ≠ 0 ∨ r.rights ≠ 0 ∨ r.generation ≠ 0
  · rw [if_pos hz] at h
    cases h
  rw [if_neg hz] at h
  by_cases hq : r.op = Op.restore ∧ s.state ≠ .quarantined
  · rw [if_pos hq] at h
    cases h
  · simp only [not_or, not_not] at hz
    simp only [not_and, not_not] at hq
    exact ⟨hz.1, hz.2.1, hz.2.2, hq⟩

/-- What a grant or a check needs to be evaluated. -/
theorem subjectApply_object {s : Subject} {r : Request}
    (hop : ¬ (r.op = Op.revoke ∨ r.op = Op.quarantine ∨ r.op = Op.restore))
    (h : (subjectApply s r).1.status = Status.ok) :
    s.state ≠ .quarantined ∧ r.object = tcsObject ∧ r.rights = tcsRead := by
  unfold subjectApply at h
  rw [if_neg hop] at h
  by_cases hq : s.state = .quarantined
  · rw [if_pos hq] at h
    cases h
  rw [if_neg hq] at h
  by_cases ho : r.object ≠ tcsObject ∨ r.rights ≠ tcsRead
  · rw [if_pos ho] at h
    cases h
  · simp only [not_or, not_not] at ho
    exact ⟨hq, ho⟩

/-- What is evaluated to `TCS_OK` is one of `Accepts`. -/
theorem Accepts.of_apply {s : Subject} {actor : Actor} {r : Request}
    (hop : ¬ (r.op < Op.grant ∨ r.op > Op.restore))
    (hactor : ¬ ((r.op = Op.check ∧ actor ≠ .storage) ∨ (r.op ≠ Op.check ∧ actor ≠ .admin)))
    (h : (subjectApply s r).1.status = Status.ok) : ∃ s', Accepts s actor r s' := by
  obtain ⟨op, i, object, rights, generation⟩ := r
  simp only [not_or, not_and, not_not] at hactor
  rcases Op.cases hop with rfl | rfl | rfl | rfl | rfl
  · obtain rfl : actor = .admin := hactor.2 (by decide)
    obtain ⟨hq, rfl, rfl⟩ := subjectApply_object (by simp) h
    simp only [subjectApply, hq] at h
    by_cases hgen : generation = 0
    swap
    · simp [hgen] at h
    by_cases hmax : s.generation = Word.max
    · simp [hgen, hmax] at h
    · subst hgen
      exact ⟨_, .grant i hq hmax⟩
  · obtain rfl : actor = .storage := hactor.1 rfl
    obtain ⟨hq, rfl, rfl⟩ := subjectApply_object (by simp) h
    simp only [subjectApply, hq] at h
    by_cases hact : s.state ≠ .active ∨ s.rights ≠ tcsRead
    · simp [hact] at h
    by_cases hgen : generation = 0 ∨ generation ≠ s.generation
    · simp [hact, hgen] at h
    by_cases hobj : s.object = tcsObject
    swap
    · simp [hact, hgen, hobj] at h
    · simp only [not_or, not_not] at hact hgen
      obtain ⟨hne, rfl⟩ := hgen
      exact ⟨_, .check i hact.1 hact.2 hobj hne⟩
  · obtain rfl : actor = .admin := hactor.2 (by decide)
    obtain ⟨rfl, rfl, rfl, -⟩ := subjectApply_zeroed (by simp) h
    exact ⟨_, .revoke i⟩
  · obtain rfl : actor = .admin := hactor.2 (by decide)
    obtain ⟨rfl, rfl, rfl, -⟩ := subjectApply_zeroed (by simp) h
    exact ⟨_, .quarantine i⟩
  · obtain rfl : actor = .admin := hactor.2 (by decide)
    obtain ⟨rfl, rfl, rfl, hq⟩ := subjectApply_zeroed (by simp) h
    exact ⟨_, .restore i (hq rfl)⟩

/-- **An accepted request, and only that, is one of `Accepts`.** -/
theorem policyApply_ok_iff (p : Policy) (actor : Actor) (r : Request) (v : UInt64) (p' : Policy) :
    policyApply p actor r = (⟨Status.ok, v⟩, p') ↔
      r.subject < subjectCount ∧ ∃ s', Accepts (p.at r.subject) actor r s' ∧ v = s'.generation ∧
        p' = p.set r.subject s' := by
  constructor
  · intro h
    unfold policyApply at h
    split_ifs at h with hb ha
    · simp at h
    · simp at h
    simp only [not_or] at hb
    obtain ⟨hi, hop⟩ := hb
    simp only [Prod.mk.injEq] at h
    obtain ⟨hres, hp⟩ := h
    obtain ⟨s', hs⟩ := Accepts.of_apply (not_or.mpr hop) ha (by rw [hres])
    rw [hs.apply] at hres hp
    cases hres
    exact ⟨UInt64.not_le.mp hi, s', hs, rfl, hp.symm⟩
  · rintro ⟨hi, s', hs, rfl, rfl⟩
    obtain ⟨hop, hactor⟩ := hs.guards
    have hi' : ¬ (r.subject ≥ subjectCount ∨ r.op < Op.grant ∨ r.op > Op.restore) := by
      rintro (h | h)
      · exact UInt64.not_le.mpr hi h
      · exact hop h
    rw [policyApply, if_neg hi', if_neg hactor, hs.apply]

/-! ### The invariant of a subject -/

/-- Active with authority, or without any. -/
def SubjectOk (s : Subject) : Prop :=
  (s.state = .active ∧ s.generation ≠ 0 ∧ s.object = tcsObject ∧ s.rights = tcsRead) ∨
    ((s.state = .restricted ∨ s.state = .quarantined) ∧ s.object = 0 ∧ s.rights = 0)

/-- The invariant is what the snapshot's validator checks. -/
theorem snapshotValid_snapshot (s : Subject) : snapshotValid s.snapshot = true ↔ SubjectOk s := by
  obtain ⟨generation, object, rights, state⟩ := s
  cases state <;> simp only [snapshotValid, Subject.snapshot, SubjectOk, State.word] <;> simp <;>
    exact decide_eq_true_iff

theorem Accepts.subjectOk {s s' : Subject} {actor : Actor} {r : Request} (h : Accepts s actor r s')
    (hs : SubjectOk s) : SubjectOk s' := by
  cases h with
  | grant i hq hg => exact Or.inl ⟨rfl, by grind, rfl, rfl⟩
  | check => exact hs
  | revoke i => by_cases hq : s.state = .quarantined <;> exact Or.inr ⟨by simp [hq], rfl, rfl⟩
  | quarantine i => exact Or.inr ⟨Or.inr rfl, rfl, rfl⟩
  | restore i hq => exact Or.inr ⟨Or.inl rfl, rfl, rfl⟩

theorem Accepts.generation_le {s s' : Subject} {actor : Actor} {r : Request}
    (h : Accepts s actor r s') : s.generation ≤ s'.generation := by
  cases h with
  | grant i hq hg => grind
  | check => exact UInt64.le_refl _
  | revoke | quarantine | restore => exact Word.le_satSucc _

theorem Accepts.rights_ne_zero {s s' : Subject} {actor : Actor} {r : Request}
    (h : Accepts s actor r s') (h0 : s.rights = 0) (h1 : s'.rights ≠ 0) :
    actor = .admin ∧ r.op = Op.grant ∧ r.reduction = false := by
  cases h with
  | grant => exact ⟨rfl, rfl, rfl⟩
  | check => exact absurd h0 h1
  | revoke | quarantine | restore => exact absurd rfl h1

theorem Accepts.quarantined {s s' : Subject} {actor : Actor} {r : Request}
    (h : Accepts s actor r s') (h0 : s.state = .quarantined) (h1 : s'.state ≠ .quarantined) :
    actor = .admin ∧ r.op = Op.restore ∧ r.reduction = false ∧ s'.state = .restricted := by
  cases h with
  | grant i hq => exact absurd h0 hq
  | check i ha => rw [ha] at h0; cases h0
  | revoke => exact absurd (if_pos h0) h1
  | quarantine => exact absurd rfl h1
  | restore => exact ⟨rfl, rfl, rfl, rfl⟩

/-! ### Steps of the table

A step evaluates a request, or a signed command against its expected
generation, on a copy of the table and commits with the audit's outcome. -/

/-- What a step evaluates. -/
inductive PolicyCommand
  | plain (r : Request)
  | conditional (c : AdminCommand)

/-- The request that is evaluated and committed. -/
def PolicyCommand.request : PolicyCommand → Request
  | .plain r => r
  | .conditional c => c.request

/-- The decision, on a copy. -/
def PolicyCommand.evaluate (p : Policy) (actor : Actor) : PolicyCommand → Result × Policy
  | .plain r => policyApply p actor r
  | .conditional c => policyAdminCompareApply p actor c

/-- A step: the actor, what it evaluates and whether the audit acknowledged it. -/
structure PolicyCall where
  actor : Actor
  command : PolicyCommand
  auditOk : Bool

/-- What a step answers: the decision that was audited and what the commit returned. -/
structure PolicyReply where
  decision : Result
  reply : Result

/-- One step: evaluate on a copy, commit. -/
def policyStep (p : Policy) (x : PolicyCall) : Policy × PolicyReply :=
  let out := x.command.evaluate p x.actor
  let committed := policyCommit p out.2 x.command.request out.1 x.auditOk
  (committed.2, ⟨out.1, committed.1⟩)

/-- The step's copy replaces the live table. -/
def commits (x : PolicyCall) (decision : Result) : Prop :=
  decision.status = Status.ok ∧ (x.auditOk = true ∨ x.command.request.reduction = true)

instance (x : PolicyCall) (decision : Result) : Decidable (commits x decision) := by
  unfold commits; infer_instance

theorem evaluate_ok {p p' : Policy} {actor : Actor} {c : PolicyCommand} {v : UInt64}
    (h : c.evaluate p actor = (⟨Status.ok, v⟩, p')) :
    c.request.subject < subjectCount ∧ ∃ s', Accepts (p.at c.request.subject) actor c.request s' ∧
      v = s'.generation ∧ p' = p.set c.request.subject s' := by
  cases c with
  | plain r => exact (policyApply_ok_iff p actor r v p').mp h
  | conditional c =>
    simp only [PolicyCommand.evaluate, policyAdminCompareApply] at h
    split_ifs at h
    any_goals simp at h
    exact (policyApply_ok_iff p actor c.request v p').mp h

/-- **What a step that commits does.** -/
theorem policyStep_of_commits {p : Policy} {x : PolicyCall}
    (h : commits x (policyStep p x).2.decision) :
    x.command.request.subject < subjectCount ∧
      ∃ s', Accepts (p.at x.command.request.subject) x.actor x.command.request s' ∧
        (policyStep p x).2.decision = ⟨Status.ok, s'.generation⟩ ∧
        (policyStep p x).1 = p.set x.command.request.subject s' := by
  simp only [policyStep] at h ⊢
  generalize hout : x.command.evaluate p x.actor = out at h ⊢
  obtain ⟨⟨status, value⟩, p'⟩ := out
  obtain ⟨rfl, ha⟩ := h
  obtain ⟨hi, s', hs, rfl, rfl⟩ := evaluate_ok hout
  refine ⟨hi, s', hs, rfl, ?_⟩
  simp only [policyCommit, ha, and_self, if_true]
  split <;> rfl

theorem policyStep_of_not_commits {p : Policy} {x : PolicyCall}
    (h : ¬ commits x (policyStep p x).2.decision) : (policyStep p x).1 = p := by
  simp only [policyStep, commits] at h
  simp only [policyStep, policyCommit, if_neg h]
  split <;> rfl

/-- The table after a run of steps from zero. -/
def policyRun (xs : List PolicyCall) : Policy := Run.final policyStep Policy.zero xs

/-- Every subject of the table keeps the invariant. -/
def TableOk (p : Policy) : Prop := ∀ i, SubjectOk (p.subjects i)

theorem tableOk_set {p : Policy} (h : TableOk p) {s : UInt64} {x : Subject} (hx : SubjectOk x) :
    TableOk (p.set s x) := by
  intro i
  by_cases hi : i = subjectIx s
  · subst hi; simpa [Policy.set] using hx
  · simpa [Policy.set, hi] using h i

theorem tableOk_step {p : Policy} (h : TableOk p) (x : PolicyCall) : TableOk (policyStep p x).1 := by
  by_cases hc : commits x (policyStep p x).2.decision
  · obtain ⟨-, s', hs, -, hp⟩ := policyStep_of_commits hc
    rw [hp]
    exact tableOk_set h (hs.subjectOk (h _))
  · rw [policyStep_of_not_commits hc]; exact h

theorem tableOk_run (xs : List PolicyCall) : TableOk (policyRun xs) :=
  Run.final_induct (P := TableOk) (fun _ => Or.inr ⟨Or.inl rfl, rfl, rfl⟩)
    (fun _ x h => tableOk_step h x) xs

/-! ### What a step may change -/

/-- A step of the table: it touches the requested subject only, no generation falls, nothing
changes unless the decision is committed, authority comes from an audited grant alone, and
quarantine ends by an audited restore alone, without authority. -/
structure StepFrame (p : Policy) (x : PolicyCall) : Prop where
  frame : ∀ i : Fin 4, i.val ≠ x.command.request.subject.toNat →
    (policyStep p x).1.subjects i = p.subjects i
  generation : ∀ i, (p.subjects i).generation ≤ ((policyStep p x).1.subjects i).generation
  gated : (policyStep p x).1 ≠ p → (policyStep p x).2.decision.status = Status.ok ∧
    (x.auditOk = true ∨ x.command.request.op = Op.revoke ∨ x.command.request.op = Op.quarantine)
  rights : ∀ i, (p.subjects i).rights = 0 → ((policyStep p x).1.subjects i).rights ≠ 0 →
    x.actor = .admin ∧ x.command.request.op = Op.grant ∧ x.auditOk = true
  quarantine : ∀ i, (p.subjects i).state = .quarantined →
    ((policyStep p x).1.subjects i).state ≠ .quarantined →
      x.actor = .admin ∧ x.command.request.op = Op.restore ∧ x.auditOk = true ∧
        ((policyStep p x).1.subjects i).state = .restricted

theorem stepFrame_of_eq {p : Policy} {x : PolicyCall} (h : (policyStep p x).1 = p) :
    StepFrame p x where
  frame _ _ := by rw [h]
  generation _ := by rw [h]; exact UInt64.le_refl _
  gated hne := absurd h hne
  rights _ h0 h1 := by rw [h] at h1; exact absurd h0 h1
  quarantine _ h0 h1 := by rw [h] at h1; exact absurd h0 h1

theorem stepFrame (p : Policy) (x : PolicyCall) : StepFrame p x := by
  by_cases hc : commits x (policyStep p x).2.decision
  · obtain ⟨hi, s', hs, -, hp⟩ := policyStep_of_commits hc
    have hother : ∀ i, i ≠ subjectIx x.command.request.subject →
        (policyStep p x).1.subjects i = p.subjects i := by
      intro i hne
      rw [hp]; simp [Policy.set, hne]
    have hself : (policyStep p x).1.subjects (subjectIx x.command.request.subject) = s' := by
      rw [hp]; simp [Policy.set]
    have haudit : x.command.request.reduction = false → x.auditOk = true := by
      intro hr
      simpa [hr] using hc.2
    refine ⟨fun i hne => hother i fun he => hne ?_, fun i => ?_, fun _ => ⟨hc.1, ?_⟩,
      fun i h0 h1 => ?_, fun i h0 h1 => ?_⟩
    · rw [he]; exact subjectIx_val hi
    · by_cases hne : i = subjectIx x.command.request.subject
      · subst hne; rw [hself]; exact hs.generation_le
      · rw [hother i hne]; exact UInt64.le_refl _
    · simpa [Request.reduction] using hc.2
    · by_cases hne : i = subjectIx x.command.request.subject
      · subst hne
        rw [hself] at h1
        obtain ⟨ha, hop, hr⟩ := hs.rights_ne_zero h0 h1
        exact ⟨ha, hop, haudit hr⟩
      · rw [hother i hne] at h1; exact absurd h0 h1
    · by_cases hne : i = subjectIx x.command.request.subject
      · subst hne
        rw [hself] at h1 ⊢
        obtain ⟨ha, hop, hr, hst⟩ := hs.quarantined h0 h1
        exact ⟨ha, hop, haudit hr, hst⟩
      · rw [hother i hne] at h1; exact absurd h0 h1
  · exact stepFrame_of_eq (policyStep_of_not_commits hc)

/-- A table that keeps the invariant answers the storage actor with the client's snapshot. -/
theorem selfStatus_of_tableOk {p : Policy} (h : TableOk p) :
    policySelfStatus p .storage = (p.at 1).snapshot := by
  have hv : snapshotValid (p.at 1).snapshot = true := (snapshotValid_snapshot _).mpr (h _)
  simp only [policySelfStatus, hv]
  rfl

/-- **The table over whole runs.** Every subject of a reachable table is active with authority or
has none, every step is a `StepFrame`, and the client's self status is never malformed. -/
theorem policy_table_invariant (xs : List PolicyCall) :
    (∀ i, SubjectOk ((policyRun xs).subjects i)) ∧ (∀ x, StepFrame (policyRun xs) x) ∧
      (policySelfStatus (policyRun xs) .storage).status ≠ Status.badMessage := by
  refine ⟨tableOk_run xs, stepFrame _, ?_⟩
  rw [selfStatus_of_tableOk (tableOk_run xs)]
  simp [Subject.snapshot]

end Tcs
