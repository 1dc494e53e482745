/-
# Decimal text and words

How the code writes a word in decimal and reads one: `decimal` of
`servers/terminal.c` with its buffer of 21 bytes, `number` of
`tools/operator.c` over a string in memory, and the last loop of
`tcs_command_parse`. An access outside the buffer or the memory, and a product
that wraps, is `none`.

There is one text of a word (`Lib/Numeral.lean`), and it has at most twenty
digits. `decimal` prints it (`decimalAt_eq`), `number` accepts it and nothing
else (`number_iff`, `numberAt_eq`), and `read` with it reads the word
(`commandParse_entry`). A generation that is shown can be typed in and asks
for the same session (`typed_ready`, `execute_entry`).

Key definitions: `decimalAt`, `Operator.numberAt`, `entry`.
Key theorems: `decimalAt_eq`, `number_iff`, `numberAt_eq`,
`commandParse_entry`, `decimal_text_exact`.
-/
import Tcs.CommandGrammar
import Tcs.LineSpec
import Tcs.Operator
import Tcs.Output
import Tcs.Lib.Numeral

namespace Tcs

open Ipc

/-! ### `decimal` -/

/-- The size of `digits`. -/
@[simp] abbrev digitBytes : ℕ := 21

/-- The first loop of `decimal`: `digits` and `length`. -/
def decimalFill (digits : Vector Char digitBytes) (length : ℕ) (value : UInt64) :
    Option (Vector Char digitBytes × ℕ) :=
  if length < digitBytes then
    let digits := digits.setIfInBounds length (Char.ofNat ('0'.toNat + (value % 10).toNat))
    if value / 10 = 0 then some (digits, length + 1)
    else decimalFill digits (length + 1) (value / 10)
  else none
termination_by digitBytes - length
decreasing_by exact Nat.sub_lt_sub_left ‹length < digitBytes› (Nat.lt_succ_self _)

/-- The second loop of `decimal`. -/
def decimalEmit (digits : Vector Char digitBytes) (t : Terminal) : ℕ → Option Terminal
  | 0 => some t
  | length + 1 => digits[length]?.bind fun digit => decimalEmit digits (t.append [digit]) length

/-- `decimal`, with what is in its buffer at first. -/
def decimalAt (digits : Vector Char digitBytes) (t : Terminal) (value : UInt64) : Option Terminal :=
  (decimalFill digits 0 value).bind fun out => decimalEmit out.1 t out.2

theorem take_write {digits : Vector Char digitBytes} {length : ℕ} (h : length < digitBytes)
    (c : Char) :
    (digits.setIfInBounds length c).toList.take (length + 1) = digits.toList.take length ++ [c] := by
  have hlt : length < digits.toList.length := by
    rw [Vector.length_toList]
    exact h
  rw [Vector.toList_setIfInBounds,
    List.take_succ_eq_append_getElem (by rw [List.length_set]; exact hlt), List.getElem_set_self,
    List.take_set_of_le le_rfl]

/-- The first loop puts the digits behind what is there. -/
theorem decimalFill_eq (value : UInt64) {digits : Vector Char digitBytes} {length : ℕ}
    (hl : length + (decimalDigits value).length ≤ digitBytes) :
    ∃ digits' : Vector Char digitBytes,
      decimalFill digits length value = some (digits', length + (decimalDigits value).length) ∧
      digits'.toList.take (length + (decimalDigits value).length) =
        digits.toList.take length ++ decimalDigits value := by
  induction value using decimalDigits.induct generalizing digits length with
  | case1 value h =>
    rw [decimalDigits, if_pos h, List.length_singleton] at hl ⊢
    refine ⟨_, ?_, take_write (by omega) _⟩
    rw [decimalFill, if_pos (by omega)]
    exact if_pos h
  | case2 value h ih =>
    rw [decimalDigits, if_neg h, List.length_cons] at hl ⊢
    have hlength : length + 1 + (decimalDigits (value / 10)).length =
        length + ((decimalDigits (value / 10)).length + 1) := by omega
    obtain ⟨digits', hfill, htake⟩ := @ih
      (digits.setIfInBounds length (Char.ofNat ('0'.toNat + (value % 10).toNat))) (length + 1)
      (by omega)
    rw [hlength] at hfill htake
    refine ⟨digits', ?_, ?_⟩
    · rw [decimalFill, if_pos (by omega)]
      exact (if_neg h).trans hfill
    · rw [htake, take_write (by omega), List.append_assoc]
      rfl

/-- The second loop prints the digits, the last one first. -/
theorem decimalEmit_eq {digits : Vector Char digitBytes} {text : List Char}
    (h : digits.toList.take text.length = text) (t : Terminal) :
    decimalEmit digits t text.length =
      some (text.reverse.foldl (fun t digit => t.append [digit]) t) := by
  induction text using List.reverseRecOn generalizing t with
  | nil => rfl
  | append_singleton text c ih =>
    rw [List.length_append, List.length_singleton] at h ⊢
    have hlast : digits[text.length]? = some c := by
      calc digits[text.length]? = digits.toList[text.length]? := Vector.getElem?_toList.symm
        _ = (digits.toList.take (text.length + 1))[text.length]? :=
            (List.getElem?_take_of_lt (Nat.lt_succ_self _)).symm
        _ = some c := by rw [h, List.getElem?_concat_length]
    have hfront : digits.toList.take text.length = text := by
      calc digits.toList.take text.length
          = (digits.toList.take (text.length + 1)).take text.length := by
            rw [List.take_take, Nat.min_eq_left (Nat.le_succ _)]
        _ = text := by rw [h, List.take_left]
    rw [decimalEmit, hlast, Option.bind_some, ih hfront, List.reverse_append]
    rfl

/-- **`decimal` stays in its buffer**, whatever is in it at first, and prints the text of the
word. -/
theorem decimalAt_eq (digits : Vector Char digitBytes) (t : Terminal) (value : UInt64) :
    decimalAt digits t value = some (t.append (decimalText value)) := by
  have hlength : (decimalDigits value).length ≤ 20 := by
    rw [← List.length_reverse, reverse_decimalDigits]
    exact length_toDigits value
  have hfits : 0 + (decimalDigits value).length ≤ digitBytes := by
    rw [Nat.zero_add]
    exact hlength.trans (by decide)
  obtain ⟨digits', hfill, htake⟩ := @decimalFill_eq value digits 0 hfits
  rw [Nat.zero_add] at hfill htake
  calc decimalAt digits t value = decimalEmit digits' t (decimalDigits value).length := by
        rw [decimalAt, hfill, Option.bind_some]
    _ = some (t.decimal value) := decimalEmit_eq htake t
    _ = some (t.append (decimalText value)) := by rw [Terminal.decimal_eq, decimalText]

/-! ### The text of a word -/

theorem isDigit_ten {c : Char} : Numeral.IsDigit 10 c ↔ c.isDigit = true := by
  constructor
  · exact fun h => h.1
  · intro h
    exact ⟨h, Nat.lt_succ_of_le (digit_toNat h).2⟩

theorem canonical_decimalText (v : UInt64) : Numeral.Canonical 10 (decimalText v) v.toNat :=
  Numeral.canonical_toDigits (by decide) (by decide) v.toNat

theorem decimalText_digits (v : UInt64) : ∀ c ∈ decimalText v, c.isDigit = true :=
  fun c hc => isDigit_ten.mp ((canonical_decimalText v).digits c hc)

theorem decimalText_injective : Function.Injective decimalText := by
  intro v w h
  apply UInt64.toNat_inj.mp
  calc v.toNat = Nat.ofDigitChars 10 (decimalText v) 0 := (canonical_decimalText v).value.symm
    _ = Nat.ofDigitChars 10 (decimalText w) 0 := by rw [h]
    _ = w.toNat := (canonical_decimalText w).value

theorem foldlM_decimalText (v : UInt64) : (decimalText v).foldlM digitStep 0 = some v :=
  (foldlM_digitStep _ 0 v).mpr ⟨decimalText_digits v, (canonical_decimalText v).value⟩

/-! ### `number` -/

namespace Operator

/-- The loop of `number`, from `text[i]` on. -/
def numberLoop (text : List Char) (i : ℕ) (value : UInt64) : Option (Bool × UInt64) :=
  if h : i < text.length then
    if text[i] = '\x00' then some (true, value)
    else if i = 20 then some (false, value)
    else (digitTurn value text[i]).bind fun
      | none => some (false, value)
      | some value => numberLoop text (i + 1) value
  else none
termination_by text.length - i

/-- `number`, on the memory from `text` on: what it returns and leaves in `*value`. -/
def numberAt (text : List Char) : Option (Bool × UInt64) :=
  text[0]?.bind fun first =>
    if first = '\x00' then some (false, 0)
    else
      (if first = '0' then text[1]?.map (fun c => decide (c ≠ '\x00'))
        else some false).bind fun padded =>
      if padded then some (false, 0) else numberLoop text 0 0

/-- **`number` accepts the texts of words**, and nothing else. -/
theorem number_iff {text : List Char} {v : UInt64} : number text = some v ↔ text = decimalText v := by
  unfold number
  constructor
  · intro h
    by_cases hguard : text = [] ∨ (text.head? = some '0' ∧ text.length ≠ 1)
    · rw [if_pos hguard] at h
      cases h
    rw [if_neg hguard] at h
    by_cases hlong : text.length > 20
    · rw [if_pos hlong] at h
      cases h
    rw [if_neg hlong] at h
    obtain ⟨hdigits, hvalue⟩ := (foldlM_digitStep text 0 v).mp h
    rw [not_or, not_and, not_not] at hguard
    have hcanonical : Numeral.Canonical 10 text v.toNat :=
      ⟨hguard.1, fun c hc => isDigit_ten.mpr (hdigits c hc), hguard.2, hvalue⟩
    exact hcanonical.eq_toDigits (by decide)
  · rintro rfl
    have hcanonical := canonical_decimalText v
    have hlength : ¬ (decimalText v).length > 20 := Nat.not_lt.mpr (length_toDigits v)
    rw [if_neg, if_neg hlength, foldlM_decimalText]
    rw [not_or, not_and, not_not]
    exact ⟨hcanonical.some_digit, hcanonical.leading⟩

/-- The edges: the largest word, the next number, and a zero in front. -/
example :
    number "18446744073709551615".toList = some Word.max ∧
      number "18446744073709551616".toList = none ∧ number "00".toList = none := by
  decide +kernel

/-- The loop accepts up to twenty digits in all, if their value is a word. -/
theorem numberLoop_eq {text rest : List Char} (h : '\x00' ∉ text) {front : List Char}
    {value : UInt64} (hf : front.length ≤ 20) :
    ∃ out, numberLoop (front ++ (text ++ '\x00' :: rest)) front.length value = some out ∧
      ∀ v, out = (true, v) ↔
        front.length + text.length ≤ 20 ∧ text.foldlM digitStep value = some v := by
  induction text generalizing front value with
  | nil =>
    refine ⟨(true, value), ?_, fun v => ?_⟩
    · rw [numberLoop, dif_pos (by simp)]
      exact if_pos (by simp)
    · rw [List.length_nil, Nat.add_zero, and_iff_right hf, Prod.mk.injEq, and_iff_right rfl]
      exact Option.some_inj.symm
  | cons c text ih =>
    rw [List.mem_cons, not_or] at h
    obtain ⟨hc, htext⟩ := h
    have hi : front.length < (front ++ (c :: text ++ '\x00' :: rest)).length := by simp
    have hget : (front ++ (c :: text ++ '\x00' :: rest))[front.length] = c := by simp
    rw [numberLoop, dif_pos hi, hget, if_neg (Ne.symm hc)]
    by_cases htwenty : front.length = 20
    · rw [if_pos htwenty]
      refine ⟨_, rfl, fun v => iff_of_false ?_ ?_⟩
      · simp
      · rw [List.length_cons]
        omega
    rw [if_neg htwenty, digitTurn_eq, Option.bind_some, List.foldlM_cons]
    cases hstep : digitStep value c with
    | none =>
      refine ⟨_, rfl, fun v => iff_of_false ?_ ?_⟩
      · simp
      · simp
    | some value' =>
      obtain ⟨out, hout, hiff⟩ := @ih htext (front ++ [c]) value' (by simp; omega)
      rw [List.length_append, List.length_singleton, List.append_assoc] at hout
      refine ⟨out, hout, fun v => (hiff v).trans ?_⟩
      rw [List.length_append, List.length_singleton, List.length_cons, Nat.add_assoc,
        Nat.add_comm 1]
      rfl

/-- The checks in front of the loop: no text, and no zero in front of another character. -/
theorem numberAt_cons {c : Char} {text rest : List Char} (h : '\x00' ∉ c :: text) :
    numberAt (c :: text ++ '\x00' :: rest) =
      if c = '0' ∧ text ≠ [] then some (false, 0)
      else numberLoop (c :: text ++ '\x00' :: rest) 0 0 := by
  have hc : ¬ c = '\x00' := fun hc => h (by rw [hc]; exact List.mem_cons_self)
  have hnext : (text ++ '\x00' :: rest)[0]?.map (fun c => decide (c ≠ '\x00')) =
      some (decide (text ≠ [])) := by
    cases text with
    | nil => rfl
    | cons d text =>
      have hd : ¬ d = '\x00' := fun hd => h (by simp [hd])
      simp [hd]
  unfold numberAt
  rw [List.cons_append, List.getElem?_cons_zero, Option.bind_some, if_neg hc,
    List.getElem?_cons_succ, hnext]
  by_cases hzero : c = '0'
  · rw [if_pos hzero, Option.bind_some]
    simp only [decide_eq_true_eq, hzero, true_and]
  · rw [if_neg hzero, Option.bind_some, if_neg Bool.false_ne_true, if_neg fun hpad => hzero hpad.1]

/-- **`number` over its memory** reads nothing behind the terminator, wraps nothing, and accepts what
`number` of the string accepts. -/
theorem numberAt_eq {text rest : List Char} (h : '\x00' ∉ text) :
    ∃ out, numberAt (text ++ '\x00' :: rest) = some out ∧
      ∀ v, out = (true, v) ↔ number text = some v := by
  cases text with
  | nil =>
    refine ⟨(false, 0), rfl, fun v => iff_of_false ?_ ?_⟩
    · simp
    · simp [number]
  | cons c text =>
    rw [numberAt_cons h]
    unfold number
    by_cases hpad : c = '0' ∧ text ≠ []
    · rw [if_pos hpad, if_pos (Or.inr (by simpa using hpad))]
      refine ⟨(false, 0), rfl, fun v => iff_of_false ?_ ?_⟩
      · simp
      · simp
    · obtain ⟨out, hout, hiff⟩ := @numberLoop_eq (c :: text) rest h [] 0 (Nat.zero_le _)
      rw [if_neg hpad, if_neg (by simpa using hpad)]
      refine ⟨out, hout, fun v => (hiff v).trans ?_⟩
      rw [List.length_nil, Nat.zero_add]
      by_cases hlong : (c :: text).length > 20
      · rw [if_pos hlong]
        exact iff_of_false (fun hle => Nat.not_le.mpr hlong hle.1) (by simp)
      · rw [if_neg hlong, and_iff_right (Nat.not_lt.mp hlong)]

end Operator

/-! ### A generation that is typed in -/

/-- The command that reads the session of a generation. -/
def entry (v : UInt64) : List Char := "read".toList ++ ' ' :: decimalText v

theorem length_entry (v : UInt64) : (entry v).length ≤ 25 := by
  have hl := length_toDigits v
  have hread : "read".toList.length = 4 := rfl
  unfold entry
  rw [List.length_append, List.length_cons, hread, decimalText]
  omega

/-- **`read` and the text of a word read the word.** -/
theorem commandParse_entry {v : UInt64} (hv : v ≠ 0) : commandParse (entry v) = ⟨.read, v⟩ := by
  have hblank : Blank [' '] := by
    intro c hc
    rw [List.mem_singleton.mp hc]
    rfl
  have hpos : 1 ≤ v.toNat := Nat.one_le_iff_ne_zero.mpr fun h0 => hv (Word.toNat_eq_zero.mp h0)
  have hspells : Spells ([] ++ ("read".toList ++ ([' '] ++ decimalText v) ++ []))
      ⟨.read, UInt64.ofNat v.toNat⟩ :=
    .read (fun _ hc => by cases hc) (fun _ hc => by cases hc) hblank (List.cons_ne_nil _ _)
      (canonical_decimalText v).some_digit (decimalText_digits v) (canonical_decimalText v).value
      hpos (Nat.le_sub_one_of_lt v.toNat_lt)
  rw [List.nil_append, List.append_nil, UInt64.ofNat_toNat] at hspells
  exact hspells.parsed (lt_of_le_of_lt (length_entry v) (by decide))

theorem byteChar_charByte {c : Char} (h : c.toNat < 256) : byteChar (charByte c) = c := by
  apply Char.toNat_inj.mp
  rw [toNat_byteChar, charByte, UInt8.toNat_ofNat', Nat.mod_eq_of_lt h]

/-- The keys of a text. -/
def keys (text : List Char) : List EditorInput := text.map fun c => .byte (charByte c)

/-- A character that is printed for a key. -/
def Visible (c : Char) : Prop := 32 ≤ c.toNat ∧ c.toNat ≤ 126

theorem charByte_visible {c : Char} (h : Visible c) : 32 ≤ charByte c ∧ charByte c ≤ 126 := by
  have hb : (charByte c).toNat = c.toNat := by
    rw [charByte, UInt8.toNat_ofNat', Nat.mod_eq_of_lt (by have := h.2; omega)]
  rw [UInt8.le_iff_toNat_le, UInt8.le_iff_toNat_le, hb]
  exact h

theorem stackStep_visible {c : Char} (h : Visible c) {stack : List Char} (hl : stack.length < 127) :
    stackStep stack (.byte (charByte c)) = some (stack ++ [c]) := by
  have hb := charByte_visible h
  have h8 : ¬ (charByte c = 8 ∨ charByte c = 127) := by
    rintro (heq | heq)
    · exact absurd (heq ▸ hb.1) (by decide)
    · exact absurd (heq ▸ hb.2) (by decide)
  rw [stackStep_byte, if_neg h8, if_pos (Or.inl hb), if_pos hl,
    byteChar_charByte (lt_of_le_of_lt h.2 (by decide))]

theorem lineStack_keys {text : List Char} (h : ∀ c ∈ text, Visible c) (hl : text.length ≤ 127) :
    lineStack (keys text) = some text := by
  induction text using List.reverseRecOn with
  | nil => rfl
  | append_singleton text c ih =>
    rw [List.length_append, List.length_singleton] at hl
    have hfront := ih (fun c hc => h c (List.mem_append_left _ hc)) (by omega)
    rw [keys, List.map_append, List.map_singleton, lineStack_snoc]
    change (lineStack (keys text)).bind _ = _
    rw [hfront, Option.bind_some]
    exact stackStep_visible (h c (by simp)) (by omega)

theorem lineSegment_keys {ins : List EditorInput} (hstart : lineSegment ins = []) {text : List Char}
    (h : ∀ c ∈ text, Visible c) : lineSegment (ins ++ keys text) = keys text := by
  induction text using List.reverseRecOn with
  | nil => rw [keys, List.map_nil, List.append_nil, hstart]
  | append_singleton text c ih =>
    have hb := charByte_visible (h c (by simp))
    have hne : ∀ b : UInt8, ¬ 32 ≤ b → charByte c ≠ b := fun b hlow heq => hlow (heq ▸ hb.1)
    have hd : (EditorInput.byte (charByte c)).delimits = false := by
      refine decide_eq_false ?_
      rintro (heq | heq | heq)
      · exact hne returnByte (by decide) heq
      · exact hne lineFeedByte (by decide) heq
      · exact hne ctrlC (by decide) heq
    rw [keys, List.map_append, List.map_singleton, ← List.append_assoc, lineSegment_snoc, hd]
    change lineSegment (ins ++ keys text) ++ _ = _
    rw [ih fun c hc => h c (List.mem_append_left _ hc)]
    rfl

/-- **A text that is typed at the start of a line**, and return: the line is ready, and is the
text. -/
theorem typed_ready {ins : List EditorInput} (hstart : lineSegment ins = []) {text : List Char}
    (h : ∀ c ∈ text, Visible c) (hl : text.length ≤ 127) :
    let line := Run.final bufferStep LineBuffer.zero (ins ++ keys text)
    (bufferFeed line returnByte).1 = .ready ∧ (bufferFeed line returnByte).2.text = text := by
  intro line
  obtain ⟨hok, hheld⟩ : LineOk (ins ++ keys text) line := lineOk_run _
  obtain ⟨hevent, hview, -⟩ := bufferFeed_view hok returnByte
  obtain ⟨hline, -, hbytes⟩ := lineHeld_step hheld returnByte
  have hstack : lineStack (lineSegment (ins ++ keys text)) = some text := by
    rw [lineSegment_keys hstart h]
    exact lineStack_keys h hl
  have hready : (lineFeed line.view returnByte).1 = .ready := by
    rw [hline, lineEvent, hstack, if_neg fun hc => absurd hc.1 (by decide), if_neg (by decide),
      if_pos (Or.inl rfl)]
    rfl
  refine ⟨hevent.trans hready, ?_⟩
  have htext := (hbytes hready).symm.trans hstack
  rw [← hview] at htext
  exact Option.some.inj htext

theorem visible_entry (v : UInt64) : ∀ c ∈ entry v, Visible c := by
  have hread : "read ".toList.all (fun c => decide (32 ≤ c.toNat ∧ c.toNat ≤ 126)) = true := by
    decide
  intro c hc
  have hsplit : entry v = "read ".toList ++ decimalText v := rfl
  rw [hsplit] at hc
  rcases List.mem_append.mp hc with hc | hc
  · have hc : 32 ≤ c.toNat ∧ c.toNat ≤ 126 := of_decide_eq_true (List.all_eq_true.mp hread c hc)
    exact hc
  · obtain ⟨hlow, hhigh⟩ := Char.isDigit_iff_toNat.mp (decimalText_digits v c hc)
    have h0 : '0'.toNat = 48 := rfl
    have h9 : '9'.toNat = 57 := rfl
    unfold Visible
    omega

theorem execute_entry {τ : Type*} (profile : Profile) (mr : Registers) (client : Peer τ)
    {t : Terminal} (peer : τ) {v : UInt64} (hv : v ≠ 0) (ht : t.line.bytes = entry v) :
    execute profile mr client t peer =
      (let out := client peer ⟨tcsLabel Op.clientRead, 3,
        ((mr.set 0 tcsObject).set 1 tcsRead).set 2 v⟩
      ((t.readReply (tcsResponse out.1)).append promptText, out.2)) := by
  have hsubmit : ¬ (profile.signed = true ∧ t.line.bytes = "submit".toList) := by
    rintro ⟨-, heq⟩
    rw [ht] at heq
    cases heq
  unfold execute
  rw [if_neg hsubmit, ht, commandParse_entry hv]

/-- The status line shows the generation between two names. -/
theorem generation_shown {s : Snapshot} (hs : s.status = Status.ok) :
    " generation=".toList ++ decimalText s.generation ++ " object=".toList <:+: statusText s := by
  unfold statusText
  rw [if_pos hs]
  refine ⟨"SELF state=".toList ++ (if s.state = State.word .active then "active".toList
      else if s.state = State.word .quarantined then "quarantined".toList
      else "restricted".toList),
    decimalText s.object ++ (" rights=".toList ++ (decimalText s.rights ++ "\r\n".toList)), ?_⟩
  simp only [List.append_assoc]

theorem terminator_notMem {s : List UInt8} (h : 0 ∉ s) : '\x00' ∉ s.map byteChar := by
  intro hmem
  obtain ⟨b, hb, heq⟩ := List.mem_map.mp hmem
  have hzero : b.toNat = 0 := by rw [← toNat_byteChar b, heq]; rfl
  exact h (UInt8.toNat_inj.mp (hzero.trans UInt8.toNat_zero.symm) ▸ hb)

/-- **Decimal text and words correspond one to one.**

* A word has one canonical text, and different words have different ones.
* It has at most twenty digits, and `decimal` appends it, whatever is in its buffer at first and
  without leaving it.
* `number` accepts a string with a value if and only if the string is the text of the value. It
  reads nothing behind the terminator and wraps nothing.
* `read` and the text of a word other than zero parse as a read of the word.
* A generation other than zero that a status line shows can be typed in at the start of a line,
  and the client is asked for the session of this generation. -/
theorem decimal_text_exact {τ : Type*} (profile : Profile) (mr : Registers) (client : Peer τ)
    (peer : τ) :
    (∀ (v : UInt64) (text : List Char),
      Numeral.Canonical 10 text v.toNat ↔ text = decimalText v) ∧
    Function.Injective decimalText ∧
    (∀ (digits : Vector Char digitBytes) (t : Terminal) (v : UInt64),
      (decimalText v).length ≤ 20 ∧ decimalAt digits t v = some (t.append (decimalText v)) ∧
      (t.output.length + (decimalText v).length ≤ outputBytes →
        t.append (decimalText v) = { t with output := t.output ++ decimalText v })) ∧
    (∀ s rest : List UInt8, 0 ∉ s →
      ∃ out, Operator.numberAt ((s ++ 0 :: rest).map byteChar) = some out ∧
        ∀ v, out = (true, v) ↔ s.map byteChar = decimalText v) ∧
    (∀ v : UInt64, v ≠ 0 → commandParseAt (entry v) = some ⟨.read, v⟩) ∧
    ∀ s : Snapshot, s.status = Status.ok → s.generation ≠ 0 →
      (∀ t : Terminal, t.statusReply s = t.append (statusText s)) ∧
      " generation=".toList ++ decimalText s.generation ++ " object=".toList <:+: statusText s ∧
      (∀ ins : List EditorInput, lineSegment ins = [] →
        let line := Run.final bufferStep LineBuffer.zero (ins ++ keys (entry s.generation))
        (bufferFeed line returnByte).1 = .ready ∧
          (bufferFeed line returnByte).2.text = entry s.generation) ∧
      ∀ t : Terminal, t.line.bytes = entry s.generation →
        execute profile mr client t peer =
          (let out := client peer ⟨tcsLabel Op.clientRead, 3,
            ((mr.set 0 tcsObject).set 1 tcsRead).set 2 s.generation⟩
          ((t.readReply (tcsResponse out.1)).append promptText, out.2)) := by
  refine ⟨fun v text => ?_, decimalText_injective, fun digits t v => ?_, fun s rest hs => ?_,
    fun v hv => ?_, fun s hs hg => ⟨fun t => statusReply_eq t s, generation_shown hs,
      fun ins hstart => ?_, fun t ht => execute_entry profile mr client peer hg ht⟩⟩
  · exact Numeral.canonical_iff (by decide) (by decide)
  · exact ⟨length_toDigits v, decimalAt_eq digits t v, Terminal.append_eq _ t⟩
  · obtain ⟨out, hout, hiff⟩ := @Operator.numberAt_eq _ (rest.map byteChar) (terminator_notMem hs)
    rw [List.map_append, List.map_cons]
    exact ⟨out, hout, fun v => (hiff v).trans Operator.number_iff⟩
  · rw [commandParseAt_eq, commandParse_entry hv]
  · exact typed_ready hstart (visible_entry _) ((length_entry _).trans (by decide))

end Tcs
