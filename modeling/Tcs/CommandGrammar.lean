/-
# The grammar of the console's commands

`tcs_command_parse` as it walks over its bytes, and what it accepts.
`commandParseAt` moves the indices of the C function; every read is checked
against the length of the text and every product against the word size, and
`none` would be a read outside it or a number that wrapped. It has neither, and
computes `commandParse` (`commandParseAt_eq`).

`Spells` is the grammar: an empty line, one of three words, or `read` and a
generation, with blanks around. The parser accepts what is spelt, and answers
with the invalid command to everything else (`command_parser_exact`).

Key definitions: `commandParseAt`, `Spells`.
Key theorems: `commandParseAt_eq`, `foldlM_digitStep`, `Spells.parsed`,
`spells_of_parsed`, `command_parser_exact`.
-/
import Tcs.LineInput
import Tcs.Lib.Scan

namespace Tcs

/-! ### The parser over its indices -/

/-- The invalid command. -/
def Command.rejected : Command := ⟨.invalid, 0⟩

/-- The bytes that a line may hold. -/
def printable (c : Char) : Bool := !((c.toNat < 32 ∧ c ≠ '\t') ∨ c.toNat > 126)

/-- The characters of a string literal, with the terminator. -/
def literal (s : String) : List Char := s.toList ++ ['\x00']

/-- The loop of `word`, on the bytes from `start` on: the index where it ends. -/
def wordLoop (bytes expected : List Char) (start length i : ℕ) : Option ℕ :=
  if i < length then
    expected[i]?.bind fun e =>
      if e = '\x00' then some i
      else bytes[start + i]?.bind fun c =>
        if c = e then wordLoop bytes expected start length (i + 1) else some i
  else some i
termination_by length - i

/-- `word`, on the bytes from `start` on. -/
def wordAt (bytes : List Char) (start length : ℕ) (expected : List Char) : Option Bool :=
  (wordLoop bytes expected start length 0).bind fun i =>
    if i = length then expected[i]?.map fun e => e = '\x00' else some false

/-- One turn of the last loop of `tcs_command_parse`: no number if the character is no digit or the
number gets too large. A result that does not fit would wrap. -/
def digitTurn (generation : UInt64) (c : Char) : Option (Option UInt64) :=
  if c < '0' ∨ c > '9' then some none
  else
    let digit := UInt64.ofNat (c.toNat - '0'.toNat)
    if generation > (Word.max - digit) / 10 then some none
    else if generation.toNat * 10 + digit.toNat < UInt64.size then
      some (some (generation * 10 + digit))
    else none

/-- The last loop of `tcs_command_parse`, over the digits from `i` on. -/
def digitLoop (bytes : List Char) (i stop : ℕ) (generation : UInt64) : Option Command :=
  if i < stop then
    bytes[i]?.bind fun c => (digitTurn generation c).bind fun
      | none => some .rejected
      | some generation => digitLoop bytes (i + 1) stop generation
  else if generation = 0 then some .rejected
  else some ⟨.read, generation⟩
termination_by stop - i

/-- `tcs_command_parse`, over its indices. -/
def commandParseAt (bytes : List Char) : Option Command :=
  let length := bytes.length
  if length ≥ lineCapacity then some .rejected
  else (Scan.scan printable bytes 0 length).bind fun i =>
    -- the first byte that is not allowed
    if i < length then some .rejected
    else (Scan.scan space bytes 0 length).bind fun start =>
      (Scan.scanBack space bytes start length).bind fun stop =>
        if start = stop then some ⟨.empty, 0⟩
        else (Scan.scan (!space ·) bytes start stop).bind fun split =>
          let word := wordAt bytes start (split - start)
          if split = stop then
            (word (literal "help")).bind fun help =>
              if help then some ⟨.help, 0⟩
              else (word (literal "version")).bind fun version =>
                if version then some ⟨.version, 0⟩
                else (word (literal "status")).bind fun status =>
                  if status then some ⟨.status, 0⟩ else some .rejected
          else (word (literal "read")).bind fun read =>
            if !read then some .rejected
            else (Scan.scan space bytes split stop).bind fun i => digitLoop bytes i stop 0

/-! ### Decimal numbers -/

theorem digit_toNat {c : Char} (h : c.isDigit = true) :
    (UInt64.ofNat (c.toNat - '0'.toNat)).toNat = c.toNat - '0'.toNat ∧ c.toNat - '0'.toNat ≤ 9 := by
  obtain ⟨-, hle⟩ := Char.isDigit_iff_toNat.mp h
  have h9 : '9'.toNat = 57 := rfl
  have h0 : '0'.toNat = 48 := rfl
  rw [UInt64.toNat_ofNat']
  omega

theorem isDigit_iff (c : Char) : c.isDigit = true ↔ ¬ (c < '0' ∨ c > '9') := by
  rw [Char.isDigit_iff_toNat, not_or, gt_iff_lt, Char.lt_def, Char.lt_def]
  simp only [UInt32.lt_iff_toNat_lt, not_lt]
  rfl

theorem fits_iff {value digit : UInt64} (hd : digit.toNat ≤ 9) :
    ¬ value > (Word.max - digit) / 10 ↔ 10 * value.toNat + digit.toNat < 2 ^ 64 := by
  have hmax := Word.toNat_max
  have hsub : (Word.max - digit).toNat = 2 ^ 64 - 1 - digit.toNat := by
    rw [UInt64.toNat_sub_of_le _ _ (by rw [UInt64.le_iff_toNat_le, hmax]; omega), hmax]
  rw [gt_iff_lt, UInt64.not_lt, UInt64.le_iff_toNat_le, UInt64.toNat_div, hsub,
    show (10 : UInt64).toNat = 10 from rfl, Nat.le_div_iff_mul_le (by decide)]
  omega

/-- A turn of the loop does not wrap. -/
theorem digitTurn_eq (value : UInt64) (c : Char) : digitTurn value c = some (digitStep value c) := by
  unfold digitTurn digitStep
  by_cases hc : c < '0' ∨ c > '9'
  · rw [if_pos hc, if_pos hc]
  obtain ⟨heq, hle⟩ := digit_toNat ((isDigit_iff c).mpr hc)
  rw [if_neg hc, if_neg hc]
  dsimp only
  by_cases hbig : value > (Word.max - UInt64.ofNat (c.toNat - '0'.toNat)) / 10
  · rw [if_pos hbig, if_pos hbig]
  · have hfits := (fits_iff (by omega)).mp hbig
    rw [if_neg hbig, if_neg hbig, if_pos]
    rw [Nat.mul_comm]
    exact hfits

/-- A turn of the loop adds a digit to a number that stays a word. -/
theorem digitStep_some {value value' : UInt64} {c : Char} :
    digitStep value c = some value' ↔
      c.isDigit = true ∧ 10 * value.toNat + (c.toNat - '0'.toNat) = value'.toNat := by
  unfold digitStep
  by_cases hc : c < '0' ∨ c > '9'
  · rw [if_pos hc]
    constructor
    · intro h
      cases h
    · intro h
      exact absurd hc ((isDigit_iff c).mp h.1)
  have hdigit := (isDigit_iff c).mpr hc
  obtain ⟨heq, hle⟩ := digit_toNat hdigit
  have hfits : ¬ value > (Word.max - UInt64.ofNat (c.toNat - '0'.toNat)) / 10 ↔
      10 * value.toNat + (UInt64.ofNat (c.toNat - '0'.toNat)).toNat < 2 ^ 64 := fits_iff (by omega)
  rw [heq] at hfits
  have hv' := value'.toNat_lt
  rw [if_neg hc]
  dsimp only
  by_cases hbig : value > (Word.max - UInt64.ofNat (c.toNat - '0'.toNat)) / 10
  · rw [if_pos hbig]
    constructor
    · intro h
      cases h
    · intro h
      exact absurd hbig (hfits.mpr (by omega))
  · have hlt := hfits.mp hbig
    rw [if_neg hbig, Option.some.injEq, ← UInt64.toNat_inj, UInt64.toNat_add, UInt64.toNat_mul, heq,
      UInt64.toNat_ofNat, Nat.mod_eq_of_lt (a := value.toNat * (10 % 2 ^ 64)) (by omega),
      Nat.mod_eq_of_lt (by omega), Nat.mul_comm]
    exact ⟨fun h => ⟨hdigit, h⟩, fun h => h.2⟩

theorem le_ofDigitChars (cs : List Char) (n : ℕ) : n ≤ Nat.ofDigitChars 10 cs n := by
  rw [Nat.ofDigitChars_eq_ofDigitChars_zero]
  calc n ≤ 10 ^ cs.length * n := Nat.le_mul_of_pos_left n (by positivity)
    _ ≤ 10 ^ cs.length * n + Nat.ofDigitChars 10 cs 0 := Nat.le_add_right _ _

/-- **The loop over the digits** ends with a number exactly when there are digits only, and their
value is a word. -/
theorem foldlM_digitStep (cs : List Char) (value value' : UInt64) :
    cs.foldlM digitStep value = some value' ↔
      (∀ c ∈ cs, c.isDigit = true) ∧ Nat.ofDigitChars 10 cs value.toNat = value'.toNat := by
  induction cs generalizing value with
  | nil =>
    rw [List.foldlM_nil, Nat.ofDigitChars_nil, UInt64.toNat_inj]
    simp
  | cons c cs ih =>
    rw [List.foldlM_cons, Nat.ofDigitChars_cons, List.forall_mem_cons, Option.bind_eq_bind,
      Option.bind_eq_some_iff]
    constructor
    · rintro ⟨w, hw, h⟩
      obtain ⟨hc, hsum⟩ := digitStep_some.mp hw
      obtain ⟨hcs, hval⟩ := (ih w).mp h
      exact ⟨⟨hc, hcs⟩, by rw [hsum, hval]⟩
    · rintro ⟨⟨hc, hcs⟩, hval⟩
      have hle := le_ofDigitChars cs (10 * value.toNat + (c.toNat - '0'.toNat))
      have hlt := value'.toNat_lt
      have hw : (UInt64.ofNat (10 * value.toNat + (c.toNat - '0'.toNat))).toNat =
          10 * value.toNat + (c.toNat - '0'.toNat) := by
        rw [UInt64.toNat_ofNat', Nat.mod_eq_of_lt (by omega)]
      refine ⟨_, digitStep_some.mpr ⟨hc, hw.symm⟩, (ih _).mpr ⟨hcs, ?_⟩⟩
      rw [hw, hval]

/-! ### The loops -/

/-- The command of a number: zero is none. -/
def readCommand : Option UInt64 → Command
  | none => .rejected
  | some generation => if generation = 0 then .rejected else ⟨.read, generation⟩

theorem digitLoop_eq {bytes : List Char} {i stop : ℕ} (h : i ≤ stop) (hb : stop ≤ bytes.length)
    (generation : UInt64) :
    digitLoop bytes i stop generation =
      some (readCommand ((Scan.span bytes i stop).foldlM digitStep generation)) := by
  induction hn : stop - i generalizing i generation with
  | zero =>
    obtain rfl : i = stop := by omega
    rw [digitLoop, if_neg (lt_irrefl _), Scan.span_self, List.foldlM_nil]
    by_cases h0 : generation = 0
    · rw [if_pos h0, h0]
      rfl
    · rw [if_neg h0]
      exact congrArg some (if_neg h0).symm
  | succ n ih =>
    have hlt : i < stop := by omega
    rw [digitLoop, if_pos hlt, List.getElem?_eq_getElem (by omega), Option.bind_some, digitTurn_eq,
      Option.bind_some, Scan.span_cons hlt hb, List.foldlM_cons]
    cases digitStep generation bytes[i] with
    | none => rfl
    | some generation' => exact ih hlt generation' (by omega)

/-- What `word` makes of the index where its loop ends. -/
theorem wordLoop_eq {bytes w : List Char} {start length : ℕ} (hw : '\x00' ∉ w)
    (hb : start + length ≤ bytes.length) {i : ℕ} (hi : i ≤ length) (hiw : i ≤ w.length) :
    ((wordLoop bytes (w ++ ['\x00']) start length i).bind fun j =>
      if j = length then (w ++ ['\x00'])[j]?.map fun e => decide (e = '\x00') else some false) =
      some (decide (Scan.span bytes (start + i) (start + length) = w.drop i)) := by
  have hend : (w ++ ['\x00'])[w.length]? = some '\x00' := by simp
  have hin : ∀ k, ∀ h : k < w.length, (w ++ ['\x00'])[k]? = some w[k] ∧ w[k] ≠ '\x00' := fun k h =>
    ⟨by rw [List.getElem?_append_left h, List.getElem?_eq_getElem h],
      fun he => hw (he ▸ List.getElem_mem h)⟩
  induction hn : length - i generalizing i with
  | zero =>
    obtain rfl : i = length := by omega
    rw [wordLoop, if_neg (lt_irrefl _), Option.bind_some, if_pos rfl, Scan.span_self]
    rcases Nat.lt_or_eq_of_le hiw with h | rfl
    · rw [(hin i h).1, Option.map_some, List.drop_eq_getElem_cons h, decide_eq_false (hin i h).2]
      exact congrArg some (decide_eq_false (by simp only [reduceCtorEq, not_false_eq_true])).symm
    · rw [hend, List.drop_length]
      rfl
  | succ n ih =>
    have hlt : i < length := by omega
    rw [wordLoop, if_pos hlt, Scan.span_cons (by omega) hb]
    rcases Nat.lt_or_eq_of_le hiw with h | rfl
    swap
    · rw [hend, Option.bind_some, if_pos rfl, Option.bind_some, if_neg (Nat.ne_of_lt hlt),
        List.drop_length]
      rfl
    rw [(hin i h).1, Option.bind_some, if_neg (hin i h).2, List.getElem?_eq_getElem (by omega),
      Option.bind_some, List.drop_eq_getElem_cons h]
    by_cases hc : bytes[start + i] = w[i]
    · rw [if_pos hc, ih (by omega) (by omega) (by omega), hc]
      simp only [List.cons.injEq, true_and, Nat.add_assoc]
    · rw [if_neg hc, Option.bind_some, if_neg (Nat.ne_of_lt hlt)]
      exact congrArg some (decide_eq_false fun heq => hc (List.cons.inj heq).1).symm

/-- **`word` compares**: the bytes from `start` on are the word. -/
theorem wordAt_eq {bytes : List Char} {start length : ℕ} {s : String} (hs : '\x00' ∉ s.toList)
    (hb : start + length ≤ bytes.length) :
    wordAt bytes start length (literal s) =
      some (decide (Scan.span bytes start (start + length) = s.toList)) :=
  wordLoop_eq hs hb (Nat.zero_le _) (Nat.zero_le _)

/-- **The parser reads no byte outside its text and wraps no number**, and computes
`commandParse`. -/
theorem commandParseAt_eq (bytes : List Char) : commandParseAt bytes = some (commandParse bytes) := by
  unfold commandParseAt commandParse
  dsimp only
  by_cases hlen : bytes.length ≥ lineCapacity
  · rw [if_pos hlen, if_pos hlen]
    rfl
  rw [if_neg hlen, if_neg hlen]
  obtain ⟨i, heq, -, hi, -, hrest⟩ := Scan.scan_eq (p := printable) (Nat.zero_le bytes.length) le_rfl
  rw [heq, Option.bind_some]
  have hbad : i < bytes.length ↔
      (bytes.any fun c => decide ((c.toNat < 32 ∧ c ≠ '\t') ∨ c.toNat > 126)) = true := by
    have hall : i = bytes.length ↔ ∀ c ∈ bytes, printable c = true := by
      rw [← Scan.span_eq_nil_iff hi le_rfl, hrest, Scan.span_zero_length, List.dropWhile_eq_nil_iff]
    rw [Nat.lt_iff_le_and_ne, List.any_eq_true]
    simp only [hi, true_and, hall, printable, Bool.not_eq_true', not_forall, Ne, Bool.not_eq_false,
      exists_prop]
  by_cases hany : i < bytes.length
  · rw [if_pos hany, if_pos (hbad.mp hany)]
    rfl
  rw [if_neg hany, if_neg (hbad.not.mp hany)]
  obtain ⟨start, heq, -, hstart, -, htext⟩ := Scan.scan_eq (p := space) (Nat.zero_le bytes.length) le_rfl
  rw [Scan.span_zero_length] at htext
  rw [heq, Option.bind_some]
  obtain ⟨stop, heq, h1, hstop, htrim⟩ := Scan.scanBack_eq (p := space) hstart le_rfl
  rw [htext] at htrim
  rw [heq, Option.bind_some, ← htrim]
  by_cases hempty : start = stop
  · rw [if_pos hempty, if_pos ((Scan.span_eq_nil_iff h1 hstop).mpr hempty)]
  rw [if_neg hempty, if_neg ((Scan.span_eq_nil_iff h1 hstop).not.mpr hempty)]
  obtain ⟨split, heq, h2, hsplit, hname, hargs⟩ := Scan.scan_eq (p := (!space ·)) h1 hstop
  rw [heq, Option.bind_some, ← hname, ← hargs]
  have hword : ∀ s : String, '\x00' ∉ s.toList → wordAt bytes start (split - start) (literal s) =
      some (decide (Scan.span bytes start split = s.toList)) := by
    intro s hs
    have hadd : start + (split - start) = split := by omega
    rw [wordAt_eq hs (by omega), hadd]
  rw [hword "help" (by decide), hword "version" (by decide), hword "status" (by decide),
    hword "read" (by decide)]
  simp only [Option.bind_some, decide_eq_true_eq]
  by_cases hone : split = stop
  · rw [if_pos hone, if_pos ((Scan.span_eq_nil_iff hsplit hstop).mpr hone)]
    split_ifs <;> rfl
  rw [if_neg hone, if_neg ((Scan.span_eq_nil_iff hsplit hstop).not.mpr hone)]
  by_cases hread : Scan.span bytes start split = "read".toList
  swap
  · rw [if_pos (by simpa using hread), if_pos hread]
    rfl
  obtain ⟨digits, heq, h3, hdigits, -, hnumber⟩ := Scan.scan_eq (p := space) hsplit hstop
  rw [if_neg (by simpa using hread), if_neg (not_not.mpr hread), heq, Option.bind_some,
    digitLoop_eq hdigits hstop, hnumber]
  cases (List.dropWhile space (Scan.span bytes split stop)).foldlM digitStep 0 with
  | none => rfl
  | some generation => rfl

/-! ### The grammar -/

/-- Spaces and tabs. -/
def Blank (text : List Char) : Prop := ∀ c ∈ text, space c = true

/-- The words that are commands of their own. -/
inductive Keyword : String → CommandKind → Prop
  | help : Keyword "help" .help
  | version : Keyword "version" .version
  | status : Keyword "status" .status

/-- The texts that spell a command: nothing, a word, or `read` and a generation that is a word
and not zero. -/
inductive Spells : List Char → Command → Prop
  | empty {text : List Char} (blank : Blank text) : Spells text ⟨.empty, 0⟩
  | word {pre post : List Char} {name : String} {kind : CommandKind} (keyword : Keyword name kind)
    (before : Blank pre) (after : Blank post) :
    Spells (pre ++ (name.toList ++ post)) ⟨kind, 0⟩
  | read {pre gap digits post : List Char} {n : ℕ} (before : Blank pre) (after : Blank post)
    (blank : Blank gap) (apart : gap ≠ []) (some_digit : digits ≠ [])
    (decimal : ∀ c ∈ digits, c.isDigit = true) (value : Nat.ofDigitChars 10 digits 0 = n)
    (pos : 1 ≤ n) (fits : n ≤ 2 ^ 64 - 1) :
    Spells (pre ++ ("read".toList ++ (gap ++ digits) ++ post)) ⟨.read, UInt64.ofNat n⟩

/-- The command of a text without blanks around. -/
def textCommand (text : List Char) : Command :=
  if text = [] then ⟨.empty, 0⟩
  else
    let name := text.takeWhile (!space ·)
    let split := text.dropWhile (!space ·)
    if split = [] then
      if name = "help".toList then ⟨.help, 0⟩
      else if name = "version".toList then ⟨.version, 0⟩
      else if name = "status".toList then ⟨.status, 0⟩
      else .rejected
    else if name ≠ "read".toList then .rejected
    else readCommand ((split.dropWhile space).foldlM digitStep 0)

theorem commandParse_text {bytes : List Char} (hlen : bytes.length < lineCapacity)
    (hprint : ∀ c ∈ bytes, printable c = true) :
    commandParse bytes = textCommand (Scan.trim space bytes) := by
  have hany : ¬ (bytes.any fun c => decide ((c.toNat < 32 ∧ c ≠ '\t') ∨ c.toNat > 126)) = true := by
    rw [List.any_eq_true]
    rintro ⟨c, hc, hbad⟩
    have h := hprint c hc
    rw [printable, hbad] at h
    cases h
  unfold commandParse
  dsimp only
  rw [if_neg (Nat.not_le.mpr hlen), if_neg hany]
  rfl

theorem commandParse_refused {bytes : List Char}
    (h : ¬ (bytes.length < lineCapacity ∧ ∀ c ∈ bytes, printable c = true)) :
    commandParse bytes = .rejected := by
  unfold commandParse
  by_cases hlen : bytes.length ≥ lineCapacity
  · rw [if_pos hlen]
    rfl
  have hany : (bytes.any fun c => decide ((c.toNat < 32 ∧ c ≠ '\t') ∨ c.toNat > 126)) = true := by
    by_contra hany
    refine h ⟨Nat.not_le.mp hlen, fun c hc => ?_⟩
    rw [List.any_eq_true] at hany
    simp only [printable, Bool.not_eq_true', ← Bool.not_eq_true]
    exact fun hbad => hany ⟨c, hc, hbad⟩
  rw [if_neg hlen, if_pos hany]
  rfl

/-- The letters of a word are printable and no blanks. -/
theorem letters {word : List Char} (h : word.all (fun c => printable c && !space c) = true) :
    ∀ c ∈ word, printable c = true ∧ space c = false := by
  intro c hc
  have hboth := List.all_eq_true.mp h c hc
  rw [Bool.and_eq_true, Bool.not_eq_true'] at hboth
  exact hboth

theorem textCommand_keyword {name : String} {kind : CommandKind} (h : Keyword name kind) :
    textCommand name.toList = ⟨kind, 0⟩ := by
  cases h <;> decide

theorem textCommand_read {gap digits : List Char} (hgap : Blank gap) (hne : gap ≠ [])
    (hdigits : ∀ c ∈ digits, space c = false) :
    textCommand ("read".toList ++ (gap ++ digits)) = readCommand (digits.foldlM digitStep 0) := by
  have hread : ∀ c ∈ "read".toList, (!space c) = true := fun c hc =>
    congrArg not (letters (by decide) c hc).2
  have hstop : (gap ++ digits).takeWhile (!space ·) = [] ∧
      (gap ++ digits).dropWhile (!space ·) = gap ++ digits := by
    cases gap with
    | nil => exact absurd rfl hne
    | cons c gap =>
      have hc : ¬ (!space c) = true := by simp [hgap c (by simp)]
      exact ⟨List.takeWhile_cons_of_neg hc, List.dropWhile_cons_of_neg hc⟩
  have hskip : (gap ++ digits).dropWhile space = digits := by
    rw [List.dropWhile_append_of_pos hgap]
    exact Scan.dropWhile_of_head fun hl => hdigits _ (List.head_mem hl)
  unfold textCommand
  dsimp only
  rw [List.takeWhile_append_of_pos hread, List.dropWhile_append_of_pos hread, hstop.1, hstop.2, hskip,
    List.append_nil, if_neg (by simp), if_neg (by simp [hne]), if_neg (not_not.mpr rfl)]

/-- A blank, a letter of a command and a digit are printable, and a digit is no blank. -/
theorem Blank.printable {text : List Char} (h : Blank text) : ∀ c ∈ text, printable c = true := by
  intro c hc
  rcases of_decide_eq_true (h c hc) with rfl | rfl <;> decide

theorem digit_facts {c : Char} (h : c.isDigit = true) : printable c = true ∧ space c = false := by
  obtain ⟨h0, h9⟩ := Char.isDigit_iff_toNat.mp h
  have e0 : '0'.toNat = 48 := rfl
  have e9 : '9'.toNat = 57 := rfl
  refine ⟨?_, ?_⟩
  · unfold Tcs.printable
    rw [Bool.not_eq_true', decide_eq_false_iff_not]
    rintro (⟨hlt, -⟩ | hlt)
    · omega
    · omega
  · unfold space
    rw [decide_eq_false_iff_not]
    rintro (rfl | rfl)
    · exact absurd h0 (by decide)
    · exact absurd h0 (by decide)

/-- **What is spelt is accepted.** -/
theorem Spells.parsed {text : List Char} {command : Command} (h : Spells text command)
    (hlen : text.length < lineCapacity) : commandParse text = command := by
  cases h with
  | empty blank =>
    have htrim : Scan.trim space text = [] := by
      rw [Scan.trim, List.dropWhile_eq_nil_iff.mpr blank]
      rfl
    rw [commandParse_text hlen blank.printable, htrim]
    rfl
  | @word pre post name kind keyword before after =>
    have hname : ∀ c ∈ name.toList, printable c = true ∧ space c = false := by
      cases keyword <;> exact letters (by decide)
    have hprint : ∀ c ∈ pre ++ (name.toList ++ post), printable c = true := by
      intro c hc
      rcases List.mem_append.mp hc with hc | hc
      · exact before.printable c hc
      rcases List.mem_append.mp hc with hc | hc
      · exact (hname c hc).1
      · exact after.printable c hc
    rw [commandParse_text hlen hprint, Scan.trim_append before after
      ⟨fun hl => (hname _ (List.head_mem hl)).2, fun hl => (hname _ (List.getLast_mem hl)).2⟩]
    exact textCommand_keyword keyword
  | @read pre gap digits post n before after blank apart some_digit decimal value pos fits =>
    have hspace : ∀ c ∈ digits, space c = false := fun c hc => (digit_facts (decimal c hc)).2
    have hread : ∀ c ∈ "read".toList, printable c = true := fun c hc => (letters (by decide) c hc).1
    have hprint : ∀ c ∈ pre ++ ("read".toList ++ (gap ++ digits) ++ post), printable c = true := by
      intro c hc
      simp only [List.mem_append] at hc
      rcases hc with hc | (hc | hc | hc) | hc
      · exact before.printable c hc
      · exact hread c hc
      · exact blank.printable c hc
      · exact (digit_facts (decimal c hc)).1
      · exact after.printable c hc
    have hmid : Scan.Trimmed space ("read".toList ++ (gap ++ digits)) := by
      refine ⟨fun hl => rfl, fun hl => ?_⟩
      rw [List.getLast_append_of_ne_nil hl (by simp [some_digit]),
        List.getLast_append_of_ne_nil (by simp [some_digit]) some_digit]
      exact hspace _ (List.getLast_mem some_digit)
    have hn : (UInt64.ofNat n).toNat = n := by
      rw [UInt64.toNat_ofNat', Nat.mod_eq_of_lt (by omega)]
    have hfold : digits.foldlM digitStep 0 = some (UInt64.ofNat n) :=
      (foldlM_digitStep digits 0 _).mpr ⟨decimal, by rw [hn]; exact value⟩
    have hne : UInt64.ofNat n ≠ 0 := by
      rw [Ne, ← UInt64.toNat_inj, hn, UInt64.toNat_zero]
      omega
    rw [commandParse_text hlen hprint, Scan.trim_append before after hmid,
      textCommand_read blank apart hspace, hfold]
    exact if_neg hne

theorem readCommand_ne {number : Option UInt64} (h : readCommand number ≠ .rejected) :
    ∃ generation, number = some generation ∧ generation ≠ 0 ∧
      readCommand number = ⟨.read, generation⟩ := by
  cases number with
  | none => exact absurd rfl h
  | some generation =>
    by_cases h0 : generation = 0
    · exact absurd (if_pos h0) h
    · exact ⟨generation, rfl, h0, if_neg h0⟩

theorem keyword_of_name {name : List Char}
    (h : (if name = "help".toList then (⟨.help, 0⟩ : Command)
      else if name = "version".toList then ⟨.version, 0⟩
      else if name = "status".toList then ⟨.status, 0⟩
      else .rejected) ≠ .rejected) :
    ∃ word kind, Keyword word kind ∧ name = word.toList := by
  by_cases h1 : name = "help".toList
  · exact ⟨_, _, .help, h1⟩
  rw [if_neg h1] at h
  by_cases h2 : name = "version".toList
  · exact ⟨_, _, .version, h2⟩
  rw [if_neg h2] at h
  by_cases h3 : name = "status".toList
  · exact ⟨_, _, .status, h3⟩
  · rw [if_neg h3] at h
    exact absurd rfl h

/-- A text without blanks around that is a command, between blanks, spells it. -/
theorem spells_textCommand {pre mid post : List Char} (before : Blank pre) (after : Blank post)
    (h : textCommand mid ≠ .rejected) :
    Spells (pre ++ (mid ++ post)) (textCommand mid) := by
  unfold textCommand at h ⊢
  dsimp only at h ⊢
  by_cases hempty : mid = []
  · rw [if_pos hempty, hempty]
    refine .empty fun c hc => ?_
    rcases List.mem_append.mp hc with hc | hc
    · exact before c hc
    · exact after c hc
  have hsplit := List.takeWhile_append_dropWhile (p := (!space ·)) (l := mid)
  have hhead := fun hl => List.head_dropWhile_not (!space ·) (l := mid) hl
  rw [if_neg hempty] at h ⊢
  generalize mid.takeWhile (!space ·) = name at hsplit h ⊢
  generalize mid.dropWhile (!space ·) = rest at hsplit hhead h ⊢
  subst hsplit
  by_cases hone : rest = []
  · rw [if_pos hone] at h ⊢
    subst hone
    rw [List.append_nil]
    obtain ⟨word, kind, keyword, rfl⟩ := keyword_of_name h
    cases keyword with
    | help => exact .word .help before after
    | version => exact .word .version before after
    | status => exact .word .status before after
  rw [if_neg hone] at h ⊢
  by_cases hname : name ≠ "read".toList
  · rw [if_pos hname] at h
    exact absurd rfl h
  rw [if_neg hname] at h ⊢
  obtain ⟨generation, hfold, h0, heq⟩ := readCommand_ne h
  obtain ⟨decimal, value⟩ := (foldlM_digitStep _ 0 generation).mp hfold
  rw [heq, not_not.mp hname, ← List.takeWhile_append_dropWhile (p := space) (l := rest),
    ← UInt64.ofNat_toNat (x := generation)]
  have hpos : 1 ≤ generation.toNat := Nat.one_le_iff_ne_zero.mpr fun h => h0 (Word.toNat_eq_zero.mp h)
  refine .read before after (fun c => List.mem_takeWhile_imp) ?_ ?_ decimal value hpos
    (Nat.le_sub_one_of_lt generation.toNat_lt)
  · -- the rest starts with the blank that ended the name
    intro hnil
    cases rest with
    | nil => exact hone rfl
    | cons c rest =>
      have hblank : space c = true := by simpa using hhead hone
      rw [List.takeWhile_cons_of_pos hblank] at hnil
      cases hnil
  · intro hnil
    rw [hnil, List.foldlM_nil] at hfold
    cases hfold
    exact h0 rfl

/-- **What is accepted is spelt.** -/
theorem spells_of_parsed {text : List Char} (h : commandParse text ≠ .rejected) :
    text.length < lineCapacity ∧ Spells text (commandParse text) := by
  by_cases hguard : text.length < lineCapacity ∧ ∀ c ∈ text, printable c = true
  swap
  · exact absurd (commandParse_refused hguard) h
  obtain ⟨pre, post, heq, before, after, -⟩ := Scan.exists_trim space text
  rw [commandParse_text hguard.1 hguard.2] at h ⊢
  refine ⟨hguard.1, ?_⟩
  have hspells := spells_textCommand before after h
  rwa [← heq] at hspells

theorem not_spells_rejected (text : List Char) : ¬ Spells text .rejected := by
  intro h
  generalize hc : Command.rejected = command at h
  cases h with
  | empty => cases hc
  | word keyword => cases keyword <;> cases hc
  | read => cases hc

/-- **The command parser accepts exactly its grammar**, for every string of bytes: it reads no byte
outside the string and wraps no number, answers with the command that the string spells, and with
the invalid command if it spells none or is too long. -/
theorem command_parser_exact (b : List UInt8) (command : Command) :
    commandParseAt (b.map byteChar) = some (commandParse (b.map byteChar)) ∧
    (commandParse (b.map byteChar) = command ↔
      (b.length < 128 ∧ Spells (b.map byteChar) command) ∨
        (command = ⟨.invalid, 0⟩ ∧ ∀ c, ¬ (b.length < 128 ∧ Spells (b.map byteChar) c))) := by
  refine ⟨commandParseAt_eq _, ?_⟩
  have hlen : (b.map byteChar).length = b.length := List.length_map _
  constructor
  · rintro rfl
    by_cases h : commandParse (b.map byteChar) = .rejected
    · refine Or.inr ⟨h, fun c hc => ?_⟩
      have heq := hc.2.parsed (by rw [hlen]; exact hc.1)
      rw [h] at heq
      exact not_spells_rejected _ (heq ▸ hc.2)
    · obtain ⟨h1, h2⟩ := spells_of_parsed h
      rw [hlen] at h1
      exact Or.inl ⟨h1, h2⟩
  · rintro (⟨h1, h2⟩ | ⟨rfl, hnone⟩)
    · exact h2.parsed (by rw [hlen]; exact h1)
    · by_contra h
      obtain ⟨h1, h2⟩ := spells_of_parsed h
      rw [hlen] at h1
      exact hnone _ ⟨h1, h2⟩

/-- The edges of the grammar: the largest generation with leading zeros is read, the next number is
not, and a line of 128 bytes is none. -/
example :
    commandParseAt "\t read  0018446744073709551615 ".toList = some ⟨.read, Word.max⟩ ∧
      commandParseAt "read 18446744073709551616".toList = some ⟨.invalid, 0⟩ ∧
      commandParseAt (List.replicate 128 ' ') = some ⟨.invalid, 0⟩ := by
  simp only [commandParseAt_eq]
  decide +kernel

end Tcs
