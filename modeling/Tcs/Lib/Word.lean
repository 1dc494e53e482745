/-
# 64-bit words

Counters and masks of a program that computes on `uint64_t`. A counter is
incremented behind a test against the largest word, so its value in `ℕ` goes
up by one (`toNat_succ`), or it saturates (`satSucc`). A mask is read one bit
at a time (`hasBit`), and the reading commutes with `|||`.

Key definitions: `Word.max`, `Word.satSucc`, `Word.Issued`, `Word.hasBit`,
`Word.orAll`.
Key theorems: `Word.toNat_succ`, `Word.toNat_add_of_le`, `Word.hasBit_or`,
`Word.orAll_congr`, `Word.and_not_mask`.
-/
import Mathlib.Data.Nat.Bitwise
import Mathlib.Tactic

namespace Word

/-! ### Counters -/

/-- The largest word, `UINT64_MAX`. -/
abbrev max : UInt64 := 0xFFFFFFFFFFFFFFFF

theorem toNat_max : max.toNat = 2 ^ 64 - 1 := by decide

theorem ne_max_iff {x : UInt64} : x ≠ max ↔ x.toNat < 2 ^ 64 - 1 := by
  have := x.toNat_lt
  rw [Ne, ← UInt64.toNat_inj, toNat_max]
  omega

theorem toNat_eq_max {x : UInt64} : x.toNat = 2 ^ 64 - 1 ↔ x = max := by
  rw [← UInt64.toNat_inj, toNat_max]

/-- A counter below the largest word goes up by one. -/
theorem toNat_succ {x : UInt64} (h : x ≠ max) : (x + 1).toNat = x.toNat + 1 := by
  have := ne_max_iff.mp h
  rw [UInt64.toNat_add, UInt64.toNat_one, Nat.mod_eq_of_lt (by omega)]

/-- A sum that fits is the sum in `ℕ`. -/
theorem toNat_add_of_le {x d : UInt64} (h : d ≤ max - x) : (x + d).toNat = x.toNat + d.toNat := by
  have hx := x.toNat_lt
  rw [UInt64.le_iff_toNat_le, UInt64.toNat_sub_of_le _ _ (by grind), toNat_max] at h
  rw [UInt64.toNat_add, Nat.mod_eq_of_lt (by omega)]

theorem le_max_sub_iff {x d : UInt64} : d ≤ max - x ↔ d.toNat ≤ 2 ^ 64 - 1 - x.toNat := by
  rw [UInt64.le_iff_toNat_le, UInt64.toNat_sub_of_le _ _ (by grind), toNat_max]

/-- The increment that stays at the largest word. -/
def satSucc (x : UInt64) : UInt64 := if x ≠ max then x + 1 else x

theorem satSucc_of_ne {x : UInt64} (h : x ≠ max) : satSucc x = x + 1 := if_pos h

theorem le_satSucc (x : UInt64) : x ≤ satSucc x := by
  unfold satSucc
  split <;> grind

/-- A counter that hands out `1, 2, ...` and stops after the largest word: its next number and
whether it has stopped, after `n` numbers. -/
def Issued (next : UInt64) (exhausted : Bool) (n : ℕ) : Prop :=
  if exhausted then n = 2 ^ 64 - 1 else next.toNat = n + 1

theorem Issued.next {next : UInt64} {n : ℕ} (h : Issued next false n) : next.toNat = n + 1 := h

/-- The largest word is handed out last. -/
theorem Issued.stop {n : ℕ} (h : Issued max false n) : Issued max true (n + 1) := by
  have hn : max.toNat = n + 1 := h.next
  rw [toNat_max] at hn
  exact hn.symm

theorem Issued.succ {next : UInt64} {n : ℕ} (h : Issued next false n) (hm : next ≠ max) :
    Issued (next + 1) false (n + 1) := by
  show (next + 1).toNat = n + 1 + 1
  rw [toNat_succ hm, h.next]

/-! ### Words as numbers -/

theorem toNat_eq_zero {x : UInt64} : x.toNat = 0 ↔ x = 0 := by
  rw [← UInt64.toNat_inj, UInt64.toNat_zero]

theorem toNat_eq_ofNat {x : UInt64} {n : ℕ} (h : n < 2 ^ 64) : x.toNat = n ↔ x = UInt64.ofNat n := by
  rw [← UInt64.toNat_inj, UInt64.toNat_ofNat_of_lt' (by simpa using h)]

/-! ### Masks -/

theorem testBit_ge (w : UInt64) {i : ℕ} (hi : 64 ≤ i) : w.toNat.testBit i = false := by
  apply Nat.testBit_lt_two_pow
  calc w.toNat < 2 ^ 64 := w.toNat_lt
    _ ≤ 2 ^ i := Nat.pow_le_pow_right (by omega) hi

/-- Bit `i` of a mask, read as C reads it: `w & (1 << i)` is not zero. -/
def hasBit (w : UInt64) (i : ℕ) : Bool := w &&& (1 <<< i.toUInt64) ≠ 0

theorem toNat_bit {i : ℕ} (hi : i < 64) : (1 <<< i.toUInt64 : UInt64).toNat = 2 ^ i := by
  have hm : i.toUInt64.toNat % 64 = i := by simp [Nat.toUInt64]; omega
  rw [UInt64.toNat_shiftLeft, hm, UInt64.toNat_one, Nat.one_shiftLeft]
  exact Nat.mod_eq_of_lt (Nat.pow_lt_pow_right (by omega) hi)

theorem hasBit_eq_testBit (w : UInt64) {i : ℕ} (hi : i < 64) : hasBit w i = w.toNat.testBit i := by
  have h : w &&& (1 <<< i.toUInt64) ≠ 0 ↔ w.toNat.testBit i = true := by
    rw [Ne, ← toNat_eq_zero, UInt64.toNat_and, toNat_bit hi, Nat.and_two_pow]
    cases w.toNat.testBit i <;> simp
  unfold hasBit
  cases hb : w.toNat.testBit i <;> simp_all

theorem hasBit_or (a b : UInt64) {i : ℕ} (hi : i < 64) :
    hasBit (a ||| b) i = (hasBit a i || hasBit b i) := by
  simp only [hasBit_eq_testBit _ hi, UInt64.toNat_or, Nat.testBit_or]

theorem hasBit_bit {i j : ℕ} (hi : i < 64) (hj : j < 64) :
    hasBit (1 <<< j.toUInt64) i = decide (j = i) := by
  rw [hasBit_eq_testBit _ hi, toNat_bit hj, Nat.testBit_two_pow]

/-- A small word has low bits only. -/
theorem lt_of_hasBit {w : UInt64} {i n : ℕ} (hi : i < 64) (hw : w.toNat < 2 ^ n)
    (hb : hasBit w i = true) : i < n := by
  rw [hasBit_eq_testBit w hi] at hb
  by_contra hn
  have hlow : w.toNat < 2 ^ i := lt_of_lt_of_le hw (Nat.pow_le_pow_right (by omega) (by omega))
  rw [Nat.testBit_lt_two_pow hlow] at hb
  exact Bool.false_ne_true hb

/-- The bits of any of these words. -/
def orAll (words : List UInt64) : UInt64 := words.foldr (· ||| ·) 0

@[simp] theorem orAll_cons (w : UInt64) (words : List UInt64) :
    orAll (w :: words) = w ||| orAll words := rfl

theorem testBit_orAll (words : List UInt64) (i : ℕ) :
    (orAll words).toNat.testBit i = words.any fun w => w.toNat.testBit i := by
  induction words with
  | nil => exact Nat.zero_testBit i
  | cons w words ih => rw [orAll_cons, UInt64.toNat_or, Nat.testBit_or, ih, List.any_cons]

/-- The order of the words does not matter, and neither does how often one is there. -/
theorem orAll_congr {words words' : List UInt64} (h : ∀ w, w ∈ words ↔ w ∈ words') :
    orAll words = orAll words' := by
  rw [← UInt64.toNat_inj]
  apply Nat.eq_of_testBit_eq
  intro i
  rw [testBit_orAll, testBit_orAll, Bool.eq_iff_iff, List.any_eq_true, List.any_eq_true]
  simp only [h]

/-- `w & ~m` on words is the difference of bits on numbers. -/
theorem toNat_and_not (w m : UInt64) : (w &&& ~~~m).toNat = Nat.ldiff w.toNat m.toNat := by
  rw [UInt64.toNat_and, UInt64.toNat_not]
  apply Nat.eq_of_testBit_eq
  intro i
  have hm : UInt64.size - 1 - m.toNat = 2 ^ 64 - (m.toNat + 1) := by
    have := m.toNat_lt
    simp only [UInt64.size]
    omega
  rw [Nat.testBit_and, Nat.testBit_ldiff, hm, Nat.testBit_two_pow_sub_succ m.toNat_lt]
  by_cases hi : i < 64
  · simp [hi]
  · simp [testBit_ge w (show 64 ≤ i by omega)]

/-- `w & ~m` is zero when `w` is not above `m`, a mask of the lowest `k` bits. -/
theorem and_not_mask {w m : UInt64} {k : ℕ} (hm : m.toNat = 2 ^ k - 1) :
    w &&& ~~~m = 0 ↔ w ≤ m := by
  have hpos : 0 < 2 ^ k := Nat.two_pow_pos k
  rw [← toNat_eq_zero, toNat_and_not, UInt64.le_iff_toNat_le, hm]
  constructor
  · intro h
    have hlt : w.toNat < 2 ^ k := by
      refine Nat.lt_pow_two_of_testBit _ fun i hi => ?_
      have hb := congrArg (Nat.testBit · i) h
      have hk : ¬ i < k := by omega
      simpa [Nat.testBit_ldiff, Nat.testBit_two_pow_sub_one, hk] using hb
    omega
  · intro h
    refine Nat.eq_of_testBit_eq fun i => ?_
    rw [Nat.testBit_ldiff, Nat.testBit_two_pow_sub_one, Nat.zero_testBit]
    by_cases hi : i < k
    · simp [hi]
    · have hp : 2 ^ k ≤ 2 ^ i := Nat.pow_le_pow_right (by omega) (by omega)
      simp [Nat.testBit_lt_two_pow (show w.toNat < 2 ^ i by omega)]

end Word
