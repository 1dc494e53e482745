/-
# Numerals

The text of a number in a base of at most ten: digits of the base, at least
one, and no zero in front of another digit (`Numeral.Canonical`). A number has
one such text, which `Nat.toDigits` prints (`canonical_iff`), and
`Nat.ofDigitChars` reads the number back.

Key definitions: `Numeral.IsDigit`, `Numeral.Canonical`.
Key theorems: `canonical_toDigits`, `Canonical.eq_toDigits`, `canonical_iff`.
-/
import Mathlib.Tactic

namespace Numeral

variable {b : ℕ}

/-- A digit of the base `b`. -/
def IsDigit (b : ℕ) (c : Char) : Prop := c.isDigit = true ∧ c.toNat - '0'.toNat < b

/-- The text of the number `n` in the base `b`. -/
structure Canonical (b : ℕ) (text : List Char) (n : ℕ) : Prop where
  some_digit : text ≠ []
  digits : ∀ c ∈ text, IsDigit b c
  leading : text.head? = some '0' → text.length = 1
  value : Nat.ofDigitChars b text 0 = n

/-! ### Digits -/

theorem digitChar_value {c : Char} (h : c.isDigit = true) :
    Nat.digitChar (c.toNat - '0'.toNat) = c := by
  obtain ⟨hlow, hhigh⟩ := Char.isDigit_iff_toNat.mp h
  have h0 : '0'.toNat = 48 := rfl
  have h9 : '9'.toNat = 57 := rfl
  apply Char.toNat_inj.mp
  rw [Nat.toNat_digitChar_of_lt_ten (by omega)]
  omega

theorem isDigit_digitChar {d : ℕ} (hd : d < b) (hb : b ≤ 10) : IsDigit b (Nat.digitChar d) := by
  have hten : d < 10 := lt_of_lt_of_le hd hb
  refine ⟨?_, ?_⟩
  · rw [Nat.isDigit_digitChar]
    exact decide_eq_true hten
  · have hvalue : (Nat.digitChar d).toNat - '0'.toNat = d := Nat.toNat_digitChar_sub_48_of_lt_ten hten
    rw [hvalue]
    exact hd

theorem ofDigitChars_snoc (text : List Char) (c : Char) :
    Nat.ofDigitChars b (text ++ [c]) 0 =
      b * Nat.ofDigitChars b text 0 + (c.toNat - '0'.toNat) := by
  rw [Nat.ofDigitChars_append, Nat.ofDigitChars_cons, Nat.ofDigitChars_nil]

/-! ### The text that is printed -/

theorem head_toDigits (hb : 1 < b) {n : ℕ} (hn : 0 < n) : (Nat.toDigits b n).head? ≠ some '0' := by
  induction n using Nat.base_induction b hb with
  | single m hm =>
    rw [Nat.toDigits_of_lt_base hm, List.head?_cons, Ne, Option.some.injEq, Nat.digitChar_eq_zero]
    omega
  | digit m k hk hm ih =>
    rw [← Nat.toDigits_append_toDigits hb hm hk, List.head?_append_of_ne_nil _ Nat.toDigits_ne_nil]
    exact ih hm

/-- **What is printed is the text of the number.** -/
theorem canonical_toDigits (hb : 1 < b) (hb' : b ≤ 10) (n : ℕ) :
    Canonical b (Nat.toDigits b n) n where
  some_digit := Nat.toDigits_ne_nil
  digits := by
    induction n using Nat.base_induction b hb with
    | single m hm =>
      rw [Nat.toDigits_of_lt_base hm]
      intro c hc
      obtain rfl := List.mem_singleton.mp hc
      exact isDigit_digitChar hm hb'
    | digit m k hk hm ih =>
      rw [← Nat.toDigits_append_toDigits hb hm hk, Nat.toDigits_of_lt_base hk]
      intro c hc
      rcases List.mem_append.mp hc with hc | hc
      · exact ih c hc
      · obtain rfl := List.mem_singleton.mp hc
        exact isDigit_digitChar hk hb'
  leading h := by
    rcases Nat.eq_zero_or_pos n with rfl | hn
    · rw [Nat.toDigits_zero, List.length_singleton]
    · exact absurd h (head_toDigits hb hn)
  value := Nat.ofDigitChars_toDigits hb hb'

/-- **There is no other text of the number.** -/
theorem Canonical.eq_toDigits (hb : 1 < b) {text : List Char} {n : ℕ} (h : Canonical b text n) :
    text = Nat.toDigits b n := by
  induction text using List.reverseRecOn generalizing n with
  | nil => exact absurd rfl h.some_digit
  | append_singleton text c ih =>
    obtain ⟨hdigit, hlt⟩ := h.digits c (by simp)
    have hlast : Nat.toDigits b (c.toNat - '0'.toNat) = [c] := by
      rw [Nat.toDigits_of_lt_base hlt, digitChar_value hdigit]
    have hvalue := h.value
    rw [ofDigitChars_snoc] at hvalue
    rcases eq_or_ne text [] with rfl | hne
    · rw [Nat.ofDigitChars_nil, Nat.mul_zero, Nat.zero_add] at hvalue
      rw [← hvalue, hlast, List.nil_append]
    -- the text in front is one too, and not the text of zero
    have hfirst : text.head? ≠ some '0' := by
      intro hzero
      have hone := h.leading (by rw [List.head?_append_of_ne_nil _ hne, hzero])
      rw [List.length_append, List.length_singleton] at hone
      exact hne (List.eq_nil_of_length_eq_zero (by omega))
    have hfront : text = Nat.toDigits b (Nat.ofDigitChars b text 0) :=
      ih ⟨hne, fun c hc => h.digits c (List.mem_append_left _ hc),
        fun hzero => absurd hzero hfirst, rfl⟩
    have hpos : 0 < Nat.ofDigitChars b text 0 := by
      apply Nat.pos_of_ne_zero
      intro hzero
      rw [hzero, Nat.toDigits_zero] at hfront
      exact hfirst (by rw [hfront, List.head?_cons])
    calc text ++ [c]
        = Nat.toDigits b (Nat.ofDigitChars b text 0) ++ Nat.toDigits b (c.toNat - '0'.toNat) := by
          rw [← hfront, hlast]
      _ = Nat.toDigits b (b * Nat.ofDigitChars b text 0 + (c.toNat - '0'.toNat)) :=
          Nat.toDigits_append_toDigits hb hpos hlt
      _ = Nat.toDigits b n := by rw [hvalue]

theorem canonical_iff (hb : 1 < b) (hb' : b ≤ 10) {text : List Char} {n : ℕ} :
    Canonical b text n ↔ text = Nat.toDigits b n := by
  constructor
  · exact Canonical.eq_toDigits hb
  · intro h
    rw [h]
    exact canonical_toDigits hb hb' n

end Numeral
