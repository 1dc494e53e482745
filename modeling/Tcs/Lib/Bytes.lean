/-
# Bytes and words

Little-endian words: `store64` writes the eight bytes of a word, `load64`
reads them back. Both are loops over the byte index, as a C program writes
them, so each is read one bit at a time: bit `8 * q + r` of the word is bit
`r` of byte `q` (`testBit_load64`, `testBit_store64`). A buffer whose length
is a multiple of eight is carried through words without loss
(`flatMap_store64`).

Key definitions: `Bytes.load64`, `Bytes.store64`, `Bytes.slice`.
Key theorems: `Bytes.load64_store64`, `Bytes.store64_load64`,
`Bytes.flatMap_store64`.
-/
import Tcs.Lib.Word

namespace Bytes

/-- The word at the start of `p`; a missing byte is read as zero. -/
def load64 (p : List UInt8) : UInt64 :=
  (List.range 8).foldl (fun value i => value ||| ((p.getD i 0).toUInt64 <<< (8 * i).toUInt64)) 0

/-- The eight bytes of a word. -/
def store64 (value : UInt64) : List UInt8 :=
  (List.range 8).map fun i => (value >>> (8 * i).toUInt64).toUInt8

/-- `length` bytes of `p` from `offset` on. -/
def slice (p : List UInt8) (offset length : ℕ) : List UInt8 := (p.drop offset).take length

/-- The `n` bytes of `p` from `offset` on, copied to an array; a missing byte is read as zero. -/
def field (p : List UInt8) (offset n : ℕ) : Vector UInt8 n :=
  Vector.ofFn fun i => p.getD (offset + i) 0

@[simp] theorem length_store64 (w : UInt64) : (store64 w).length = 8 := rfl

/-! ### Bits -/

theorem testBit_byte_ge (b : UInt8) {i : ℕ} (hi : 8 ≤ i) : b.toNat.testBit i = false := by
  apply Nat.testBit_lt_two_pow
  calc b.toNat < 2 ^ 8 := b.toNat_lt
    _ ≤ 2 ^ i := Nat.pow_le_pow_right (by omega) hi

/-- A byte moved up by `i` bytes: its bits are those of byte `i` and no others. -/
theorem testBit_shifted (b : UInt8) {i q r : ℕ} (hi : i < 8) (hq : q < 8) (hr : r < 8) :
    (b.toUInt64 <<< (8 * i).toUInt64).toNat.testBit (8 * q + r) =
      (decide (i = q) && b.toNat.testBit r) := by
  have hs : (8 * i).toUInt64.toNat % 64 = 8 * i := by
    simp only [Nat.toUInt64, UInt64.toNat_ofNat']
    omega
  rw [UInt64.toNat_shiftLeft, hs, UInt8.toNat_toUInt64, Nat.testBit_mod_two_pow,
    Nat.testBit_shiftLeft]
  rcases Nat.lt_trichotomy i q with h | rfl | h
  · have : 8 ≤ 8 * q + r - 8 * i := by omega
    simp [testBit_byte_ge b this, Nat.ne_of_lt h]
  · have h1 : 8 * i + r < 64 := by omega
    simp [h1]
  · have h1 : ¬ 8 * q + r ≥ 8 * i := by omega
    simp [h1, Nat.ne_of_gt h]

theorem testBit_load64 (p : List UInt8) {q r : ℕ} (hq : q < 8) (hr : r < 8) :
    (load64 p).toNat.testBit (8 * q + r) = (p.getD q 0).toNat.testBit r := by
  -- after `n` turns of the loop the bytes below `n` are in place
  have loop : ∀ n ≤ 8, ((List.range n).foldl (fun value i =>
      value ||| ((p.getD i 0).toUInt64 <<< (8 * i).toUInt64)) (0 : UInt64)).toNat.testBit
        (8 * q + r) = (decide (q < n) && (p.getD q 0).toNat.testBit r) := by
    intro n
    induction n with
    | zero => simp
    | succ n ih =>
      intro hn
      rw [List.range_succ, List.foldl_append]
      simp only [List.foldl_cons, List.foldl_nil, UInt64.toNat_or, Nat.testBit_or]
      rw [ih (by omega), testBit_shifted _ (by omega) hq hr]
      rcases Nat.lt_trichotomy q n with h | rfl | h
      · have h1 : q < n + 1 := by omega
        have h2 : n ≠ q := by omega
        simp [h, h1, h2]
      · simp
      · have h1 : ¬ q < n + 1 := by omega
        have h2 : n ≠ q := by omega
        have h3 : ¬ q < n := by omega
        simp [h1, h2, h3]
  unfold load64
  rw [loop 8 le_rfl]
  simp [hq]

theorem getD_store64 (w : UInt64) {q : ℕ} (hq : q < 8) :
    (store64 w).getD q 0 = (w >>> (8 * q).toUInt64).toUInt8 := by
  unfold store64
  rw [List.getD_eq_getElem?_getD, List.getElem?_map, List.getElem?_range hq]
  rfl

theorem testBit_store64 (w : UInt64) {q r : ℕ} (hq : q < 8) (hr : r < 8) :
    ((store64 w).getD q 0).toNat.testBit r = w.toNat.testBit (8 * q + r) := by
  have hs : (8 * q).toUInt64.toNat % 64 = 8 * q := by
    simp only [Nat.toUInt64, UInt64.toNat_ofNat']
    omega
  rw [getD_store64 w hq, UInt64.toNat_toUInt8, UInt64.toNat_shiftRight, hs,
    Nat.testBit_mod_two_pow, Nat.testBit_shiftRight]
  simp [hr]

/-! ### Round trips -/

theorem eq_of_bytes {a b : UInt64}
    (h : ∀ q < 8, ∀ r < 8, a.toNat.testBit (8 * q + r) = b.toNat.testBit (8 * q + r)) : a = b := by
  rw [← UInt64.toNat_inj]
  apply Nat.eq_of_testBit_eq
  intro k
  by_cases hk : k < 64
  · have := h (k / 8) (by omega) (k % 8) (by omega)
    rwa [Nat.div_add_mod] at this
  · rw [Word.testBit_ge a (by omega), Word.testBit_ge b (by omega)]

theorem eq_of_bits {a b : UInt8} (h : ∀ r < 8, a.toNat.testBit r = b.toNat.testBit r) : a = b := by
  rw [← UInt8.toNat_inj]
  apply Nat.eq_of_testBit_eq
  intro k
  by_cases hk : k < 8
  · exact h k hk
  · rw [testBit_byte_ge a (by omega), testBit_byte_ge b (by omega)]

/-- A word that was stored is loaded. -/
theorem load64_store64 (w : UInt64) (rest : List UInt8) : load64 (store64 w ++ rest) = w := by
  apply eq_of_bytes
  intro q hq r hr
  rw [testBit_load64 _ hq hr, List.getD_append _ _ _ _ (by simpa using hq), testBit_store64 w hq hr]

/-- Bytes that were loaded are stored. -/
theorem store64_load64 {p : List UInt8} (h : 8 ≤ p.length) : store64 (load64 p) = p.take 8 := by
  apply List.ext_getElem (by simp [h])
  intro q h1 h2
  have hq : q < 8 := by simpa using h1
  have key : (store64 (load64 p)).getD q 0 = p.getD q 0 := by
    apply eq_of_bits
    intro r hr
    rw [testBit_store64 _ hq hr, testBit_load64 _ hq hr]
  rw [List.getD_eq_getElem _ _ h1, List.getD_eq_getElem _ _ (by omega)] at key
  rw [key, List.getElem_take]

/-- A buffer that is carried as words comes back: the first `n` words hold the first `8 * n`
bytes. -/
theorem flatMap_store64 (p : List UInt8) : ∀ n : ℕ, 8 * n ≤ p.length →
    (List.range n).flatMap (fun i => store64 (load64 (p.drop (8 * i)))) = p.take (8 * n)
  | 0, _ => by simp
  | n + 1, h => by
    have hd : 8 ≤ (p.drop (8 * n)).length := by
      rw [List.length_drop]
      omega
    rw [List.range_succ, List.flatMap_append, flatMap_store64 p n (by omega), List.flatMap_singleton,
      store64_load64 hd, Nat.mul_succ, List.take_add]

/-! ### Fields of a record -/

/-- A field that was written is read back: as an array, -/
theorem field_append {p q : List UInt8} {offset n : ℕ} {v : Vector UInt8 n}
    (h : p.length = offset) : field (p ++ (v.toList ++ q)) offset n = v := by
  ext i hi
  have hv : i < v.toList.length := by rwa [Vector.length_toList]
  rw [field, Vector.getElem_ofFn, ← h, List.getD_append_right _ _ _ _ (Nat.le_add_right _ _),
    Nat.add_sub_cancel_left, List.getD_append _ _ _ _ hv, List.getD_eq_getElem _ _ hv,
    Vector.getElem_toList]

/-- as bytes, -/
theorem slice_append {p q r : List UInt8} {offset length : ℕ} (hp : p.length = offset)
    (hq : q.length = length) : slice (p ++ (q ++ r)) offset length = q := by
  subst hp hq
  rw [slice, List.drop_left, List.take_left]

theorem slice_left {q r : List UInt8} {length : ℕ} (hq : q.length = length) :
    slice (q ++ r) 0 length = q := by
  subst hq
  rw [slice, List.drop_zero, List.take_left]

theorem slice_right {p q : List UInt8} {offset length : ℕ} (hp : p.length = offset)
    (hq : q.length = length) : slice (p ++ q) offset length = q := by
  have h := slice_append (r := []) hp hq
  rwa [List.append_nil] at h

/-- A slice is read in two parts. -/
theorem slice_add (p : List UInt8) (offset m n : ℕ) :
    slice p offset (m + n) = slice p offset m ++ slice p (offset + m) n := by
  rw [slice, slice, slice, List.take_add, List.drop_drop]

/-- A field inside the record is its slice. -/
theorem toList_field {p : List UInt8} {offset n : ℕ} (h : offset + n ≤ p.length) :
    (field p offset n).toList = slice p offset n := by
  have hlen : (slice p offset n).length = n := by
    rw [slice, List.length_take, List.length_drop]
    omega
  refine List.ext_getElem (by rw [Vector.length_toList, hlen]) fun i h1 h2 => ?_
  have hi : i < n := by rwa [Vector.length_toList] at h1
  have hget : (field p offset n)[i] = p.getD (offset + i) 0 := by
    rw [field, Vector.getElem_ofFn]
  rw [Vector.getElem_toList, hget, List.getD_eq_getElem _ _ (by omega : offset + i < p.length)]
  simp only [slice, List.getElem_take, List.getElem_drop]

theorem slice_all {p : List UInt8} {length : ℕ} (h : p.length = length) : slice p 0 length = p := by
  rw [slice, List.drop_zero, List.take_of_length_le h.le]

/-- A word that was loaded from its place is stored as the slice that it came from. -/
theorem store64_slice {p : List UInt8} {offset : ℕ} (h : offset + 8 ≤ p.length) :
    store64 (load64 (p.drop offset)) = slice p offset 8 :=
  store64_load64 (by rw [List.length_drop]; omega)

/-- and as a word, where words stand in a row. -/
theorem load64_words {p q : List UInt8} {offset : ℕ} (hp : p.length = offset) :
    ∀ (ws : List UInt64) (i : ℕ) (h : i < ws.length),
      load64 ((p ++ (ws.flatMap store64 ++ q)).drop (offset + 8 * i)) = ws[i] := by
  subst hp
  intro ws i h
  rw [← List.drop_drop, List.drop_left]
  induction ws generalizing i with
  | nil => cases h
  | cons w ws ih =>
    rw [List.flatMap_cons, List.append_assoc]
    cases i with
    | zero => exact load64_store64 w _
    | succ i =>
      have hd : 8 * (i + 1) = (store64 w).length + 8 * i := by
        rw [length_store64]
        omega
      rw [hd, ← List.drop_drop, List.drop_left, List.getElem_cons_succ]
      exact ih i (Nat.lt_of_succ_lt_succ h)

end Bytes
