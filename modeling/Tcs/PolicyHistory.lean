/-
# Access is decided by history

The policy table keeps no history, but a check of access is decided by it:
a check by storage passes when the latest committed mutation of the subject
is a grant that returned the generation asked for (`check_iff_latest_grant`).
A grant's generation is above every earlier one (`grants_increasing`), and a
reduction leaves no authority even where the generation has saturated at
`UINT64_MAX`, so a generation that a later mutation has overtaken never
passes again (`stale_forever`).

The invariant (`Latest`) ties the subject's state and generation to the
latest committed mutation in the history; a step that does not commit, among
them a grant whose audit failed, changes neither.

Key definitions: `mutates`, `grants`, `lastMutation`, `Latest`.
Key theorems: `latest_run`, `access_decided_by_history`.
-/
import Tcs.Policy

namespace Tcs

/-- An entry of the table's history. -/
abbrev PolicyEntry := Run.Entry Policy PolicyCall PolicyReply

/-- The history of a run of steps from the zeroed table. -/
def policyTrace (xs : List PolicyCall) : List PolicyEntry := Run.trace policyStep Policy.zero xs

/-- The entry's request. -/
def reqOf (e : PolicyEntry) : Request := e.input.command.request

/-- A committed mutation of `s`: its copy became the live table and it is not a check. -/
def mutates (s : UInt64) (e : PolicyEntry) : Prop :=
  commits e.input e.output.decision ∧ (reqOf e).op ≠ Op.check ∧ (reqOf e).subject = s

/-- A successful grant to `s`. -/
def grants (s : UInt64) (e : PolicyEntry) : Prop :=
  (reqOf e).op = Op.grant ∧ (reqOf e).subject = s ∧ e.output.reply.status = Status.ok

instance (s : UInt64) : DecidablePred (mutates s) := fun _ => inferInstanceAs (Decidable (_ ∧ _ ∧ _))

instance (s : UInt64) : DecidablePred (grants s) := fun _ => inferInstanceAs (Decidable (_ ∧ _ ∧ _))

/-- The latest committed mutation of `s`. -/
def lastMutation (s : UInt64) (h : List PolicyEntry) : Option PolicyEntry :=
  (h.filter (mutates s ·)).getLast?

theorem lastMutation_snoc_of_mutates {s : UInt64} {h : List PolicyEntry} {e : PolicyEntry}
    (he : mutates s e) : lastMutation s (h ++ [e]) = some e := by
  simp [lastMutation, List.filter_append, he]

theorem lastMutation_snoc_of_not {s : UInt64} {h : List PolicyEntry} {e : PolicyEntry}
    (he : ¬ mutates s e) : lastMutation s (h ++ [e]) = lastMutation s h := by
  simp [lastMutation, List.filter_append, he]

theorem mutates_of_lastMutation {s : UInt64} {h : List PolicyEntry} {e : PolicyEntry}
    (he : lastMutation s h = some e) : e ∈ h ∧ mutates s e := by
  have := List.mem_of_getLast? he
  simpa using this

/-! ### A check -/

theorem check_ok_iff {p : Policy} (hp : TableOk p) (actor : Actor) (auditOk : Bool)
    (s o r g : UInt64) :
    (policyStep p ⟨actor, .plain ⟨Op.check, s, o, r, g⟩, auditOk⟩).2.reply.status = Status.ok ↔
      actor = .storage ∧ auditOk = true ∧ s < subjectCount ∧ o = tcsObject ∧ r = tcsRead ∧
        (p.at s).state = .active ∧ (p.at s).generation = g := by
  cases auditOk with
  | false => simp [policyStep, policyCommit]
  | true =>
    have hreply : (policyStep p ⟨actor, .plain ⟨Op.check, s, o, r, g⟩, true⟩).2.reply =
        (policyApply p actor ⟨Op.check, s, o, r, g⟩).1 := by
      simp [policyStep, policyCommit, PolicyCommand.evaluate]
    rw [hreply]
    constructor
    · intro h
      obtain ⟨hs, s', ha, -⟩ := (policyApply_ok_iff p actor ⟨Op.check, s, o, r, g⟩
        (policyApply p actor ⟨Op.check, s, o, r, g⟩).1.value
        (policyApply p actor ⟨Op.check, s, o, r, g⟩).2).mp (by rw [← h])
      simp only at ha hs
      generalize hx : p.at s = x at ha
      cases ha with
      | check i hst => exact ⟨rfl, rfl, hs, rfl, rfl, hst, rfl⟩
    · rintro ⟨rfl, -, hs, rfl, rfl, hst, rfl⟩
      have hok : SubjectOk (p.at s) := hp _
      rcases hok with ⟨-, hg, ho, hr⟩ | ⟨h, -⟩
      · have ha : Accepts (p.at s) .storage ⟨Op.check, s, tcsObject, tcsRead, (p.at s).generation⟩
            (p.at s) := .check s hst hr ho hg
        rw [(policyApply_ok_iff _ _ _ _ _).mpr ⟨hs, _, ha, rfl, rfl⟩]
      · rw [hst] at h; simp at h

/-! ### The latest mutation -/

/-- The subject follows its latest committed mutation: it is active when that is a grant, at the
generation the grant returned, and every grant so far returned at most the current generation. -/
structure Latest (s : UInt64) (h : List PolicyEntry) (p : Policy) : Prop where
  active : (p.at s).state = .active ↔ ∃ e, lastMutation s h = some e ∧ (reqOf e).op = Op.grant
  returned : ∀ e, lastMutation s h = some e → (reqOf e).op = Op.grant →
    e.output.reply = ⟨Status.ok, (p.at s).generation⟩
  below : ∀ e ∈ h, grants s e → e.output.reply.value ≤ (p.at s).generation
  increasing : (h.filter (grants s ·)).Pairwise fun a b => a.output.reply.value < b.output.reply.value

theorem latest_zero (s : UInt64) : Latest s [] Policy.zero where
  active := by simp [Policy.zero, Policy.at, Subject.zero, lastMutation]
  returned e he := by simp [lastMutation] at he
  below e he := by cases he
  increasing := by simp

theorem commits_of_grants {s : UInt64} {p : Policy} {x : PolicyCall}
    (h : grants s (Run.entry policyStep p x)) :
    commits x (policyStep p x).2.decision ∧ (policyStep p x).2.reply = (policyStep p x).2.decision := by
  obtain ⟨-, -, hr⟩ := h
  simp only [Run.entry_output, policyStep, policyCommit] at hr ⊢
  cases ha : x.auditOk with
  | false => simp [ha] at hr
  | true => simp [ha] at hr ⊢; exact ⟨hr, Or.inl ha⟩

/-- An entry that neither mutates nor grants, and leaves the subject, leaves what history says. -/
theorem Latest.keep {s : UInt64} {h : List PolicyEntry} {p p' : Policy} {e : PolicyEntry}
    (hl : Latest s h p) (hm : ¬ mutates s e) (hg : ¬ grants s e) (hp : p'.at s = p.at s) :
    Latest s (h ++ [e]) p' where
  active := by rw [hp, lastMutation_snoc_of_not hm]; exact hl.active
  returned := by rw [hp, lastMutation_snoc_of_not hm]; exact hl.returned
  below e' he' hge := by
    rw [hp]
    rcases List.mem_append.mp he' with he' | he'
    · exact hl.below e' he' hge
    · rw [List.mem_singleton.mp he'] at hge; exact absurd hge hg
  increasing := by simpa [List.filter_append, hg] using hl.increasing

/-- A committed reduction or restore: no authority is left and the generation does not fall. -/
theorem Latest.reduce {s : UInt64} {h : List PolicyEntry} {p p' : Policy} {e : PolicyEntry}
    (hl : Latest s h p) (hm : mutates s e) (hop : (reqOf e).op ≠ Op.grant)
    (hst : (p'.at s).state ≠ .active) (hgen : (p.at s).generation ≤ (p'.at s).generation) :
    Latest s (h ++ [e]) p' := by
  have hg : ¬ grants s e := fun hg => hop hg.1
  refine ⟨?_, ?_, ?_, by simpa [List.filter_append, hg] using hl.increasing⟩
  · rw [lastMutation_snoc_of_mutates hm]
    constructor
    · intro h1; exact absurd h1 hst
    · rintro ⟨e', he', hop'⟩
      cases he'
      exact absurd hop' hop
  · rw [lastMutation_snoc_of_mutates hm]
    intro e' he' hop'
    cases he'
    exact absurd hop' hop
  · intro e' he' hge
    rcases List.mem_append.mp he' with he' | he'
    · exact UInt64.le_trans (hl.below e' he' hge) hgen
    · rw [List.mem_singleton.mp he'] at hge; exact absurd hge hg

/-- A committed grant: active at a generation above every earlier one. -/
theorem Latest.grant {s : UInt64} {h : List PolicyEntry} {p p' : Policy} {e : PolicyEntry}
    (hl : Latest s h p) (hm : mutates s e) (hop : (reqOf e).op = Op.grant)
    (hr : e.output.reply = ⟨Status.ok, (p'.at s).generation⟩) (hst : (p'.at s).state = .active)
    (hgen : (p.at s).generation < (p'.at s).generation) : Latest s (h ++ [e]) p' := by
  have hg : grants s e := ⟨hop, hm.2.2, by rw [hr]⟩
  refine ⟨?_, ?_, ?_, ?_⟩
  · rw [lastMutation_snoc_of_mutates hm]
    exact ⟨fun _ => ⟨e, rfl, hop⟩, fun _ => hst⟩
  · rw [lastMutation_snoc_of_mutates hm]
    intro e' he' _
    cases he'
    exact hr
  · intro e' he' hge
    rcases List.mem_append.mp he' with he' | he'
    · exact UInt64.le_of_lt (UInt64.lt_of_le_of_lt (hl.below e' he' hge) hgen)
    · rw [List.mem_singleton.mp he', hr]; exact UInt64.le_refl _
  · simp only [List.filter_append, List.filter_cons, hg, decide_true, if_true, List.filter_nil]
    refine List.pairwise_append.mpr ⟨hl.increasing, by simp, fun a ha b hb => ?_⟩
    obtain ⟨ha, hga⟩ := List.mem_filter.mp ha
    rw [List.mem_singleton.mp hb, hr]
    exact UInt64.lt_of_le_of_lt (hl.below a ha (by simpa using hga)) hgen

theorem Policy.at_set_ne {p : Policy} {s t : UInt64} {x : Subject} (hs : s < subjectCount)
    (ht : t < subjectCount) (h : t ≠ s) : (p.set t x).at s = p.at s := by
  have hne : subjectIx s ≠ subjectIx t := fun he => h (subjectIx_inj ht hs he.symm)
  simp [Policy.set, Policy.at, hne]

theorem latest_step {s : UInt64} (hs : s < subjectCount) {h : List PolicyEntry} {p : Policy}
    (hl : Latest s h p) (x : PolicyCall) :
    Latest s (h ++ [Run.entry policyStep p x]) (policyStep p x).1 := by
  by_cases hc : commits x (policyStep p x).2.decision
  · obtain ⟨hi, s', ha, hd, hp⟩ := policyStep_of_commits hc
    by_cases hsub : x.command.request.subject = s
    · have hat : (policyStep p x).1.at s = s' := by rw [hp, hsub]; exact Policy.at_set ..
      have hgen := ha.generation_le
      rw [hsub] at ha hgen
      have hm : (reqOf (Run.entry policyStep p x)).op ≠ Op.check →
          mutates s (Run.entry policyStep p x) := fun hop => ⟨hc, hop, hsub⟩
      generalize hx : p.at s = x0 at ha
      generalize hr : x.command.request = r at ha
      generalize x.actor = actor at ha
      have hop : (reqOf (Run.entry policyStep p x)).op = r.op := by rw [← hr]; rfl
      cases ha with
      | grant i hq hg =>
        -- a grant is committed only with its audit, so the commit returns the decision
        have haud : x.auditOk = true := by simpa [commits, Request.reduction, hr] using hc.2
        have hrep : (policyStep p x).2.reply = (policyStep p x).2.decision := by
          simp [policyStep, policyCommit, haud]
        refine hl.grant (hm (by rw [hop]; simp)) hop ?_ (by rw [hat]) ?_
        · rw [Run.entry_output, hrep, hd, hat]
        · rw [hat, hx]; grind
      | check i =>
        refine hl.keep (fun hm => hm.2.1 hop) (fun hg => ?_) (by rw [hat, hx])
        have := hg.1.symm.trans hop
        simp at this
      | revoke i =>
        refine hl.reduce (hm (by rw [hop]; simp)) (by rw [hop]; simp) ?_ (by rw [hat]; exact hgen)
        rw [hat]; simp only; split <;> simp
      | quarantine i =>
        exact hl.reduce (hm (by rw [hop]; simp)) (by rw [hop]; simp) (by rw [hat]; simp)
          (by rw [hat]; exact hgen)
      | restore i =>
        exact hl.reduce (hm (by rw [hop]; simp)) (by rw [hop]; simp) (by rw [hat]; simp)
          (by rw [hat]; exact hgen)
    · refine hl.keep (fun hm => hsub hm.2.2) (fun hg => hsub hg.2.1) ?_
      rw [hp]; exact Policy.at_set_ne hs hi hsub
  · refine hl.keep (fun hm => hc hm.1) (fun hg => hc (commits_of_grants hg).1) ?_
    rw [policyStep_of_not_commits hc]

theorem latest_run {s : UInt64} (hs : s < subjectCount) (xs : List PolicyCall) :
    Latest s (policyTrace xs) (policyRun xs) :=
  Run.trace_induct (latest_zero s) (fun _ _ x hl => latest_step hs hl x) xs

theorem subject_lt_of_commits {xs : List PolicyCall} {e : PolicyEntry} (he : e ∈ policyTrace xs)
    (hc : commits e.input e.output.decision) : (reqOf e).subject < subjectCount := by
  obtain ⟨xs₁, x, -, -, rfl⟩ := Run.mem_trace he
  exact (policyStep_of_commits hc).1

theorem subject_lt_of_grants {xs : List PolicyCall} {e : PolicyEntry} {s : UInt64}
    (he : e ∈ policyTrace xs) (hg : grants s e) : s < subjectCount := by
  rw [← hg.2.1]
  refine subject_lt_of_commits he ?_
  obtain ⟨xs₁, x, -, -, rfl⟩ := Run.mem_trace he
  exact (commits_of_grants hg).1

/-! ### Access -/

theorem check_iff_latest_grant (xs : List PolicyCall) (s o r g : UInt64) :
    (policyStep (policyRun xs) ⟨.storage, .plain ⟨Op.check, s, o, r, g⟩, true⟩).2.reply.status =
        Status.ok ↔
      o = tcsObject ∧ r = tcsRead ∧ ∃ e, lastMutation s (policyTrace xs) = some e ∧
        (reqOf e).op = Op.grant ∧ e.output.reply = ⟨Status.ok, g⟩ := by
  rw [check_ok_iff (tableOk_run xs)]
  constructor
  · rintro ⟨-, -, hs, ho, hr, hst, rfl⟩
    have hl := latest_run hs xs
    obtain ⟨e, he, hop⟩ := hl.active.mp hst
    exact ⟨ho, hr, e, he, hop, hl.returned e he hop⟩
  · rintro ⟨ho, hr, e, he, hop, hrep⟩
    obtain ⟨hmem, hm⟩ := mutates_of_lastMutation he
    have hs : s < subjectCount := by rw [← hm.2.2]; exact subject_lt_of_commits hmem hm.1
    have hl := latest_run hs xs
    have hgen := hl.returned e he hop
    rw [hrep] at hgen
    exact ⟨rfl, rfl, hs, ho, hr, hl.active.mpr ⟨e, he, hop⟩, (Result.mk.inj hgen).2.symm⟩

theorem grants_increasing (xs : List PolicyCall) (s : UInt64) :
    ((policyTrace xs).filter (grants s ·)).Pairwise
      fun a b => a.output.reply.value < b.output.reply.value := by
  by_cases hs : s < subjectCount
  · exact (latest_run hs xs).increasing
  · rw [List.filter_eq_nil_iff.mpr]
    · exact List.Pairwise.nil
    · intro e he hg
      exact hs (subject_lt_of_grants he (by simpa using hg))

/-- Once a mutation of `s` has been committed, no generation granted before it passes again. -/
theorem stale_forever {xs : List PolicyCall} {s : UInt64} {h₁ h₂ : List PolicyEntry}
    {m e : PolicyEntry} (hsplit : policyTrace xs = h₁ ++ m :: h₂) (hm : mutates s m) (he : e ∈ h₁)
    (hg : grants s e) (actor : Actor) (o r : UInt64) (auditOk : Bool) :
    (policyStep (policyRun xs) ⟨actor, .plain ⟨Op.check, s, o, r, e.output.reply.value⟩,
      auditOk⟩).2.reply.status ≠ Status.ok := by
  intro hok
  rw [check_ok_iff (tableOk_run xs)] at hok
  obtain ⟨-, -, hs, -, -, hst, hgen⟩ := hok
  have hl := latest_run hs xs
  obtain ⟨e', he', hop⟩ := hl.active.mp hst
  have hret := hl.returned e' he' hop
  have hge' : grants s e' := ⟨hop, (mutates_of_lastMutation he').2.2.2, by rw [hret]⟩
  -- the latest mutation is `m` or comes after it, so it comes after `e`
  have hlater : e' ∈ m :: h₂ := by
    have hlast : lastMutation s (policyTrace xs) = ((m :: h₂).filter (mutates s ·)).getLast? := by
      rw [lastMutation, hsplit, List.filter_append,
        List.getLast?_append_of_ne_nil _ (by simp [hm])]
    rw [hlast] at he'
    exact (List.mem_filter.mp (List.mem_of_getLast? he')).1
  have hinc := hl.increasing
  rw [hsplit, List.filter_append, List.pairwise_append] at hinc
  have hlt := hinc.2.2 e (List.mem_filter.mpr ⟨he, by simpa using hg⟩) e'
    (List.mem_filter.mpr ⟨hlater, by simpa using hge'⟩)
  rw [hret, hgen] at hlt
  exact UInt64.lt_irrefl _ hlt

/-- **Access is decided by history.** Over every run from the zeroed table: an audited check by
storage passes when the latest committed mutation of the subject is a grant that returned the
generation asked for; successive grants return strictly increasing generations; and once a
mutation is committed, no check with a generation granted before it passes. -/
theorem access_decided_by_history (xs : List PolicyCall) (s : UInt64) :
    (∀ o r g, (policyStep (policyRun xs)
        ⟨.storage, .plain ⟨Op.check, s, o, r, g⟩, true⟩).2.reply.status = Status.ok ↔
      o = tcsObject ∧ r = tcsRead ∧ ∃ e, lastMutation s (policyTrace xs) = some e ∧
        (reqOf e).op = Op.grant ∧ e.output.reply = ⟨Status.ok, g⟩) ∧
    ((policyTrace xs).filter (grants s ·)).Pairwise
      (fun a b => a.output.reply.value < b.output.reply.value) ∧
    (∀ h₁ m h₂, policyTrace xs = h₁ ++ m :: h₂ → mutates s m → ∀ e ∈ h₁, grants s e →
      ∀ actor o r auditOk, (policyStep (policyRun xs)
        ⟨actor, .plain ⟨Op.check, s, o, r, e.output.reply.value⟩, auditOk⟩).2.reply.status ≠
          Status.ok) :=
  ⟨check_iff_latest_grant xs s, grants_increasing xs s,
    fun _ _ _ hsplit hm _ he hg => stale_forever hsplit hm he hg⟩

end Tcs
