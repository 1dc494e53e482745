/-
# Observations coalesce

Notifications are merged on their way to the supervisor, so the request words
that it polls are the bits of several, and several samples of the clock become
one. A poll of a valid control, or owner, is the function `observe`; two polls
one after the other are one poll with the bits of both
(`Reduction.observe_observe`), and for the owner with the later tick
(`Deadline.observe_observe`), since a slot whose end the first tick reached is
also past it at the later one.

Key definitions: `rdPolls`, `dlPolls`.
Key theorems: `Reduction.observe_observe`, `Deadline.observe_observe`,
`observations_coalesce`.
-/
import Tcs.Deadline

namespace Tcs

/-! ### The latch -/

theorem le_or_left (a b : UInt64) : a ≤ a ||| b := by
  rw [UInt64.le_iff_toNat_le, UInt64.toNat_or]
  exact Nat.left_le_or

theorem malformed_or (a b : UInt64) : malformed (a ||| b) = (malformed a || malformed b) := by
  cases h : malformed (a ||| b) with
  | false =>
    have hle := malformed_eq_false.mp h
    have ha : malformed a = false := malformed_eq_false.mpr (UInt64.le_trans (le_or_left a b) hle)
    have hb : malformed b = false :=
      malformed_eq_false.mpr (UInt64.le_trans (UInt64.or_comm a b ▸ le_or_left b a) hle)
    rw [ha, hb]
    rfl
  | true =>
    by_contra hne
    obtain ⟨ha, hb⟩ := Bool.or_eq_false_iff.mp (Bool.eq_false_iff.mpr (Ne.symm hne))
    have hle := or_le_rdAll (malformed_eq_false.mp ha) (malformed_eq_false.mp hb)
    rw [malformed_eq_false.mpr hle] at h
    cases h

/-- What two words latch is what the word with their bits latches. -/
theorem latched_or (a b : UInt64) :
    (if malformed a then rdAll else a) ||| (if malformed b then rdAll else b) =
      if malformed (a ||| b) then rdAll else a ||| b := by
  rw [malformed_or]
  cases ha : malformed a with
  | true => exact (rdAll_or (latched_le b) rfl).2
  | false =>
    cases hb : malformed b with
    | true => exact (rdAll_or (malformed_eq_false.mp ha) rfl).1
    | false => rfl

theorem LcSlot.contained_contained {a b : UInt64} {i : Fin 2} {s : LcSlot}
    (h : Word.hasBit a i = true → Word.hasBit b i = true) :
    (s.contained a i).contained b i = s.contained b i := by
  by_cases hc : Word.hasBit a i = true ∧ s.live = true
  · have hbit : Word.hasBit b i = true ∧ s.live = true := ⟨h hc.1, hc.2⟩
    have hclosing : s.contained a i = s.contained b i := by
      unfold LcSlot.contained
      rw [if_pos hc, if_pos hbit]
    rw [hclosing]
    exact LcSlot.contained_of_not_live fun hb => LcSlot.contained_live hb
  · have hsame : s.contained a i = s := if_neg hc
    rw [hsame]

/-- **Two polls of the latch** are one poll with the bits of both. -/
theorem Reduction.observe_observe {control : Reduction} (a b : UInt64) :
    (control.observe a).observe b = control.observe (a ||| b) := by
  have hlatch : (control.observe a).latch b = control.latch (a ||| b) := by
    unfold Reduction.latch Reduction.observe Reduction.latch
    rw [UInt64.or_assoc, latched_or]
  have hlife : (control.life.contain (control.latch a)).contain (control.latch (a ||| b)) =
      control.life.contain (control.latch (a ||| b)) := by
    unfold Lifecycle.contain
    congr 1
    funext i
    refine LcSlot.contained_contained fun hbit => ?_
    rw [← hlatch]
    exact hasBit_latch _ _ i (Or.inl hbit)
  have hfault : (if malformed b then 1 else if malformed a then 1 else control.inputFault) =
      if malformed (a ||| b) then 1 else control.inputFault := by
    rw [malformed_or]
    cases malformed a <;> cases malformed b <;> rfl
  show Reduction.mk ((control.life.contain (control.latch a)).contain ((control.observe a).latch b))
    ((control.observe a).latch b)
    (if malformed b then 1 else if malformed a then 1 else control.inputFault) = _
  rw [hlatch, hlife, hfault]
  rfl

/-- One word after the other. -/
def rdPolls (control : Reduction) (words : List UInt64) : Reduction :=
  words.foldl (fun control word => (rdPoll control word).2) control

theorem rdPolls_eq {control : Reduction} (h : RdOk control) (words : List UInt64) :
    rdPolls control words = control.observe (Word.orAll words) := by
  induction words generalizing control with
  | nil => exact h.observe_zero.symm
  | cons word words ih =>
    show rdPolls (rdPoll control word).2 words = _
    rw [rdPoll_eq h, ih (h.observe word), Reduction.observe_observe, Word.orAll_cons]

/-! ### The clock -/

/-- The bit of a slot whose end the tick has reached. -/
def expiredBit (ends : Fin 2 → UInt64) (tick : UInt64) (i : Fin 2) : UInt64 :=
  if ends i ≠ 0 ∧ tick ≥ ends i then 1 <<< i.val.toUInt64 else 0

theorem expire_eq (ends : Fin 2 → UInt64) (tick requests : UInt64) :
    expire ends tick requests = requests ||| (expiredBit ends tick 0 ||| expiredBit ends tick 1) := by
  have hturn : ∀ (w : UInt64) (i : Fin 2),
      (if ends i ≠ 0 ∧ tick ≥ ends i then w ||| (1 <<< i.val.toUInt64) else w) =
        w ||| expiredBit ends tick i := by
    intro w i
    unfold expiredBit
    split_ifs
    · rfl
    · exact UInt64.or_zero.symm
  unfold expire
  rw [show List.finRange 2 = [0, 1] from rfl]
  simp only [List.foldl_cons, List.foldl_nil, hturn, UInt64.or_assoc]

theorem expiredBit_or {ends : Fin 2 → UInt64} {a b : UInt64} (h : a ≤ b) (i : Fin 2) :
    expiredBit ends a i ||| expiredBit ends b i = expiredBit ends b i := by
  unfold expiredBit
  by_cases ha : ends i ≠ 0 ∧ a ≥ ends i
  · rw [if_pos ha, if_pos ⟨ha.1, UInt64.le_trans ha.2 h⟩, UInt64.or_self]
  · rw [if_neg ha, UInt64.zero_or]

/-- What two samples expire, the later one expires. -/
theorem expire_or {ends : Fin 2 → UInt64} {a b : UInt64} (h : a ≤ b) (r r' : UInt64) :
    expire ends a r ||| expire ends b r' = expire ends b (r ||| r') := by
  rw [expire_eq, expire_eq, expire_eq]
  calc r ||| (expiredBit ends a 0 ||| expiredBit ends a 1) |||
        (r' ||| (expiredBit ends b 0 ||| expiredBit ends b 1))
      = r ||| r' ||| (expiredBit ends a 0 ||| expiredBit ends b 0 |||
          (expiredBit ends a 1 ||| expiredBit ends b 1)) := by ac_rfl
    _ = r ||| r' ||| (expiredBit ends b 0 ||| expiredBit ends b 1) := by
      rw [expiredBit_or h, expiredBit_or h]

section

variable {owner : Deadline} {r r' : UInt64} {first second : Reading}

theorem faulty_iff {reading : Reading} (hok : reading.ok = true)
    (hle : owner.lastTick ≤ reading.tick) : owner.faulty reading ↔ owner.clockFault ≠ 0 := by
  unfold Deadline.faulty
  constructor
  · rintro (h | h | h)
    · exact absurd hok h
    · exact absurd h (UInt64.not_lt.mpr hle)
    · exact h
  · exact fun h => Or.inr (Or.inr h)

theorem observe_of_faulty {reading : Reading} (h : owner.faulty reading) :
    owner.observe r reading =
      ⟨owner.control.observe (r ||| rdAll), owner.lastTick, 1, owner.ends⟩ := by
  unfold Deadline.observe Deadline.requests
  rw [if_pos h, if_pos h, if_pos h]

theorem observe_of_not_faulty {reading : Reading} (h : ¬ owner.faulty reading) :
    owner.observe r reading =
      ⟨owner.control.observe (expire owner.ends reading.tick r), reading.tick, 0, owner.ends⟩ := by
  unfold Deadline.observe Deadline.requests
  rw [if_neg h, if_neg h, if_neg h]

/-- **Two polls of the owner**, with readings in order, are one poll at the later. -/
theorem Deadline.observe_observe (hfirst : first.ok = true) (hsecond : second.ok = true)
    (hlast : owner.lastTick ≤ first.tick) (hle : first.tick ≤ second.tick) :
    (owner.observe r first).observe r' second = owner.observe (r ||| r') second := by
  have hf := faulty_iff hfirst hlast
  have hs := faulty_iff hsecond (UInt64.le_trans hlast hle)
  by_cases hc : owner.clockFault ≠ 0
  · have hwords : r ||| rdAll ||| (r' ||| rdAll) = r ||| r' ||| rdAll := by
      calc r ||| rdAll ||| (r' ||| rdAll) = r ||| r' ||| (rdAll ||| rdAll) := by ac_rfl
        _ = r ||| r' ||| rdAll := by rw [UInt64.or_self]
    rw [observe_of_faulty (hf.mpr hc), observe_of_faulty (hs.mpr hc),
      observe_of_faulty (Or.inr (Or.inr (by decide : (1 : UInt64) ≠ 0))), Reduction.observe_observe,
      hwords]
  · rw [observe_of_not_faulty (fun h => hc (hf.mp h)), observe_of_not_faulty fun h => hc (hs.mp h)]
    have hgood : ¬ Deadline.faulty ⟨owner.control.observe (expire owner.ends first.tick r),
        first.tick, 0, owner.ends⟩ second := by
      rw [faulty_iff hsecond hle]
      exact fun h => h rfl
    rw [observe_of_not_faulty hgood, Reduction.observe_observe, expire_or hle]

end

/-- One sample after the other. -/
def dlPolls (owner : Deadline) (samples : List (UInt64 × Reading)) : Deadline :=
  samples.foldl (fun owner sample => (dlPoll owner sample.1 sample.2).2) owner

/-- The readings are good, and their ticks do not go back behind `tick`. -/
def InOrder (tick : UInt64) (samples : List (UInt64 × Reading)) : Prop :=
  (∀ sample ∈ samples, sample.2.ok = true) ∧
    (tick :: samples.map fun sample => sample.2.tick).Pairwise (· ≤ ·)

/-- The samples behind the first are in order for the owner that polled it. -/
theorem InOrder.observe {owner : Deadline} {sample : UInt64 × Reading}
    {samples : List (UInt64 × Reading)} (h : InOrder owner.lastTick (sample :: samples)) :
    InOrder (owner.observe sample.1 sample.2).lastTick samples := by
  obtain ⟨hok, hticks⟩ := h
  rw [List.map_cons, List.pairwise_cons] at hticks
  obtain ⟨hlast, hticks⟩ := hticks
  refine ⟨fun s hs => hok s (List.mem_cons_of_mem _ hs), List.pairwise_cons.mpr ⟨?_, ?_⟩⟩
  · intro tick ht
    show (if owner.faulty sample.2 then owner.lastTick else sample.2.tick) ≤ tick
    split_ifs
    · exact hlast tick (List.mem_cons_of_mem _ ht)
    · exact (List.pairwise_cons.mp hticks).1 tick ht
  · exact (List.pairwise_cons.mp hticks).2

theorem dlPolls_eq {owner : Deadline} (h : DlOk owner) {front : List (UInt64 × Reading)}
    {last : UInt64 × Reading} (ho : InOrder owner.lastTick (front ++ [last])) :
    dlPolls owner (front ++ [last]) =
      owner.observe (Word.orAll ((front ++ [last]).map Prod.fst)) last.2 := by
  induction front generalizing owner with
  | nil =>
    show (dlPoll owner last.1 last.2).2 = owner.observe (last.1 ||| 0) last.2
    rw [dlPoll_eq h, UInt64.or_zero]
  | cons sample front ih =>
    have hmem : last ∈ front ++ [last] := by simp
    obtain ⟨hok, hticks⟩ := ho
    rw [List.cons_append, List.map_cons, List.pairwise_cons, List.pairwise_cons] at hticks
    have hle : sample.2.tick ≤ last.2.tick :=
      hticks.2.1 _ (List.mem_map.mpr ⟨last, hmem, rfl⟩)
    show dlPolls (dlPoll owner sample.1 sample.2).2 (front ++ [last]) = _
    rw [dlPoll_eq h, ih (h.observe _ _) (InOrder.observe ⟨hok, ?_⟩),
      Deadline.observe_observe (hok sample List.mem_cons_self)
        (hok last (List.mem_cons_of_mem _ hmem)) (hticks.1 _ List.mem_cons_self) hle]
    · rfl
    · rw [List.map_cons, List.pairwise_cons, List.pairwise_cons]
      exact hticks

/-- **Observations coalesce.** The control that polls words one after another is the control that
polls their bits at once, whatever the order and however often each is polled; and the owner that
polls good samples in order is the owner that polls all requests with the last of them. -/
theorem observations_coalesce {control : Reduction} (hc : rdValid control = true)
    {owner : Deadline} (ho : dlValid owner = true) :
    (∀ words polls : List UInt64, (∀ word, word ∈ polls ↔ word ∈ words) →
        rdPolls control polls = (rdPoll control (Word.orAll words)).2) ∧
      ∀ front last, InOrder owner.lastTick (front ++ [last]) →
        dlPolls owner (front ++ [last]) =
          (dlPoll owner (Word.orAll ((front ++ [last]).map Prod.fst)) last.2).2 := by
  have hrd := (rdValid_iff _).mp hc
  have hdl := (dlValid_iff _).mp ho
  refine ⟨fun words polls hsame => ?_, fun front last horder => ?_⟩
  · rw [rdPolls_eq hrd, rdPoll_eq hrd, Word.orAll_congr hsame]
  · rw [dlPolls_eq hdl horder, dlPoll_eq hdl]

/-- An owner whose first slot is active and has its end at 15. -/
def workingOwner : Deadline :=
  ⟨workingReduction, 10, 0, Function.update (fun _ => 0) (slotIx 0) 15⟩

/-- A request for the first slot and a malformed word, each polled again; requests for the second
slot with ticks up to and past the end of the first. -/
theorem observations_coalesce_working :
    rdPolls workingReduction [4, 1, 1, 4, 1] = (rdPoll workingReduction (Word.orAll [1, 4])).2 ∧
      dlPolls workingOwner [(2, ⟨12, true⟩), (2, ⟨15, true⟩), (0, ⟨20, true⟩)] =
        (dlPoll workingOwner (Word.orAll [2, 2, 0]) ⟨20, true⟩).2 ∧
      ((dlPoll workingOwner (Word.orAll [2, 2, 0]) ⟨20, true⟩).2.control.life.at 0).state =
        LcState.closing := by
  have hcontrol : rdValid workingReduction = true := by decide
  have howner : dlValid workingOwner = true := by decide
  obtain ⟨hpolls, hsamples⟩ := observations_coalesce hcontrol howner
  refine ⟨hpolls [1, 4] _ (fun word => by simp; tauto), ?_, by decide⟩
  exact hsamples [(2, ⟨12, true⟩), (2, ⟨15, true⟩)] (0, ⟨20, true⟩) ⟨by decide, by decide⟩

end Tcs
