/-
# The firmware-configuration reader

The first half of `lib/boot.c`: `tcs_fwcfg_read` looks a file up by its name
in the directory of the firmware interface and copies it out. The interface is
two operations on a device, to select an item and to read its next byte, and
either may fail at any time. The device here hands out the bytes of its items
and zeros behind them, and fails whenever it likes (`FwcfgDevice`); it
remembers whether it did.

As long as nothing failed, what is read is the stream of the selected item
(`readBytes_device`), so the loop over the directory is a loop over its
entries (`readEntries_device`), which accepts exactly the directories that
are well formed and name the file once (`entriesTurn_ok_iff`).

Key definitions: `FwcfgIo`, `readBytes`, `entryTurn`, `readEntries`,
`readItem`, `fwcfgRead`, `FwcfgDevice`, `FwcfgFile`, `Published`.
Key theorems: `readBytes_device`, `readEntries_device`, `entryTurn_ok_iff`,
`entriesTurn_ok_iff`, `fwcfg_read_exact`.
-/
import Mathlib.Tactic

namespace Tcs

/-! ### The reader -/

/-- `TCS_FWCFG_MAX_FILES`. -/
@[simp] abbrev fwcfgMaxFiles : UInt32 := 64
/-- `TCS_FWCFG_MAX_BYTES`. -/
@[simp] abbrev fwcfgMaxBytes : ℕ := 256

/-- `enum tcs_boot_status`. -/
inductive BootStatus
  | ok
  | io
  | device
  | features
  | directory
  | missing
  | length
  | format
  deriving DecidableEq, Repr

/-- `struct tcs_fwcfg_io`: a selection tells whether it succeeded, and a read has a byte if it did;
the context may change in any case. -/
structure FwcfgIo (σ : Type*) where
  select : σ → UInt16 → Bool × σ
  read : σ → Option UInt8 × σ

/-- What a sequence of reads leaves: whether all succeeded, the bytes up to the one that did not, and
the context. -/
structure FwcfgGot (σ : Type*) where
  ok : Bool
  bytes : List UInt8
  state : σ

/-- `be32`. -/
def be32 (p : List UInt8) : UInt32 :=
  (p.getD 0 0).toUInt32 <<< 24 ||| (p.getD 1 0).toUInt32 <<< 16 ||| (p.getD 2 0).toUInt32 <<< 8 |||
    (p.getD 3 0).toUInt32

/-- The loops that look for the terminator of a name, in 56 bytes at most. -/
def nameLength (name : List UInt8) : ℕ := ((name.take 56).takeWhile (· ≠ 0)).length

/-- The selector of a directory entry, `field[4] << 8 | field[5]`. -/
def entryKey (field : List UInt8) : UInt16 :=
  (field.getD 4 0).toUInt16 <<< 8 ||| (field.getD 5 0).toUInt16

/-- One turn of the loop over the directory, behind the read of its 64 bytes: the selector and the
size of the file looked for, as far as it was found. -/
def entryTurn (name : List UInt8) (selectors : List UInt16) (selected : UInt16) (size : UInt32)
    (field : List UInt8) : Except BootStatus (UInt16 × UInt32) :=
  let key := entryKey field
  let n := nameLength (field.drop 8)
  if key < 0x20 ∨ key ≥ 0x4000 ∨ field.getD 6 0 ≠ 0 ∨ field.getD 7 0 ≠ 0 then .error .directory
  else if key ∈ selectors then .error .directory
  else if n = 0 ∨ n = 56 then .error .directory
  else if n = nameLength name ∧ ∀ j < n, field.getD (8 + j) 0 = name.getD j 0 then
    if selected ≠ 0 then .error .directory else .ok (key, be32 field)
  else .ok (selected, size)

/-- What a lookup leaves: the status, the output array and the context. -/
structure FwcfgOut (σ : Type*) where
  status : BootStatus
  out : List UInt8
  state : σ

section

variable {σ : Type*} (io : FwcfgIo σ)

/-- `read_bytes`. -/
def readBytes : ℕ → σ → FwcfgGot σ
  | 0, s => ⟨true, [], s⟩
  | n + 1, s =>
    match io.read s with
    | (none, s) => ⟨false, [], s⟩
    | (some byte, s) =>
      let got := readBytes n s
      ⟨got.ok, byte :: got.bytes, got.state⟩

/-- `io.select` and then `read_bytes`, unless the selection fails. -/
def selectRead (key : UInt16) (n : ℕ) (s : σ) : FwcfgGot σ :=
  match io.select s key with
  | (false, s) => ⟨false, [], s⟩
  | (true, s) => readBytes io n s

/-- The loop over the `n` entries of the directory that are left. -/
def readEntries (name : List UInt8) :
    ℕ → List UInt16 → UInt16 → UInt32 → σ → Except BootStatus (UInt16 × UInt32) × σ
  | 0, _, selected, size, s => (.ok (selected, size), s)
  | n + 1, selectors, selected, size, s =>
    let got := readBytes io 64 s
    if !got.ok then (.error .io, got.state)
    else
      match entryTurn name selectors selected size got.bytes with
      | .error status => (.error status, got.state)
      | .ok (selected, size) =>
        readEntries name n (selectors ++ [entryKey got.bytes]) selected size got.state

/-- The end of `read_item`: the loop over `count` entries and the read of the file found. -/
def readFile (name out : List UInt8) (count : ℕ) (s : σ) : FwcfgOut σ :=
  match readEntries io name count [] 0 0 s with
  | (.error status, s) => ⟨status, out, s⟩
  | (.ok (selected, size), s) =>
    if selected = 0 then ⟨.missing, out, s⟩
    else if size.toNat ≠ out.length then ⟨.length, out, s⟩
    else
      let item := selectRead io selected out.length s
      ⟨if item.ok then .ok else .io, item.bytes ++ out.drop item.bytes.length, item.state⟩

/-- `read_item`, into the array `out`; `name` is the memory that the name is in. -/
def readItem (name out : List UInt8) (s : σ) : FwcfgOut σ :=
  if out.length = 0 ∨ out.length > fwcfgMaxBytes then ⟨.format, out, s⟩
  else if nameLength name = 0 ∨ nameLength name = 56 then ⟨.format, out, s⟩
  else
    let signature := selectRead io 0 4 s
    if !signature.ok then ⟨.io, out, signature.state⟩
    else if signature.bytes ≠ [0x51, 0x45, 0x4d, 0x55] then ⟨.device, out, signature.state⟩
    else
      let features := selectRead io 1 4 signature.state
      if !features.ok then ⟨.io, out, features.state⟩
      else if features.bytes ≠ [1, 0, 0, 0] then ⟨.features, out, features.state⟩
      else
        let count := selectRead io 0x19 4 features.state
        if !count.ok then ⟨.io, out, count.state⟩
        else if be32 count.bytes > fwcfgMaxFiles then ⟨.directory, out, count.state⟩
        else readFile io name out (be32 count.bytes).toNat count.state

/-- `tcs_fwcfg_read`. -/
def fwcfgRead (name out : List UInt8) (s : σ) : FwcfgOut σ :=
  let item := readItem io name out s
  if item.status ≠ .ok ∧ out.length ≤ fwcfgMaxBytes then
    { item with out := List.replicate out.length 0 }
  else item

end

/-! ### The device -/

/-- A device: the bytes of every item, and which of the operations on it fail, counted from the
first. -/
structure FwcfgDevice where
  items : UInt16 → List UInt8
  fails : ℕ → Bool

/-- The selected item, the place in it, the operations so far and whether one of them failed. -/
structure FwcfgState where
  selected : UInt16
  offset : ℕ
  calls : ℕ
  failed : Bool

namespace FwcfgDevice

variable (d : FwcfgDevice)

/-- A byte of an item; behind its end there are zeros. -/
def byte (key : UInt16) (i : ℕ) : UInt8 := (d.items key).getD i 0

/-- The operations of the device. -/
def io : FwcfgIo FwcfgState where
  select s key :=
    if d.fails s.calls then (false, { s with calls := s.calls + 1, failed := true })
    else (true, { s with selected := key, offset := 0, calls := s.calls + 1 })
  read s :=
    if d.fails s.calls then (none, { s with calls := s.calls + 1, failed := true })
    else (some (d.byte s.selected s.offset),
      { s with offset := s.offset + 1, calls := s.calls + 1 })

/-- The `n` bytes of an item from `offset` on. -/
def stream (key : UInt16) : ℕ → ℕ → List UInt8
  | _, 0 => []
  | offset, n + 1 => d.byte key offset :: stream key (offset + 1) n

/-- The `n` entries of the directory from `offset` on. -/
def fields (key : UInt16) : ℕ → ℕ → List (List UInt8)
  | _, 0 => []
  | offset, n + 1 => d.stream key offset 64 :: fields key (offset + 64) n

@[simp] theorem length_stream (key : UInt16) (offset n : ℕ) :
    (d.stream key offset n).length = n := by
  induction n generalizing offset with
  | zero => rfl
  | succ n ih => rw [stream, List.length_cons, ih]

end FwcfgDevice

/-- What reads of `n` bytes leave: one of them failed, or they are the next bytes of the item. -/
def Streamed (d : FwcfgDevice) (key : UInt16) (offset n : ℕ) (got : FwcfgGot FwcfgState) : Prop :=
  (got.ok = false ∧ got.state.failed = true) ∨
    got.ok = true ∧ got.bytes = d.stream key offset n ∧ got.state.failed = false ∧
      got.state.selected = key ∧ got.state.offset = offset + n

section

variable {d : FwcfgDevice} {s : FwcfgState}

/-- **Reads.** -/
theorem readBytes_device (hs : s.failed = false) (n : ℕ) :
    Streamed d s.selected s.offset n (readBytes d.io n s) := by
  induction n generalizing s with
  | zero => exact Or.inr ⟨rfl, rfl, hs, rfl, rfl⟩
  | succ n ih =>
    unfold readBytes
    by_cases hf : d.fails s.calls = true
    · have hread : d.io.read s = (none, { s with calls := s.calls + 1, failed := true }) := if_pos hf
      rw [hread]
      exact Or.inl ⟨rfl, rfl⟩
    · have hread : d.io.read s = (some (d.byte s.selected s.offset),
          { s with offset := s.offset + 1, calls := s.calls + 1 }) := if_neg hf
      rw [hread]
      rcases ih (s := { s with offset := s.offset + 1, calls := s.calls + 1 }) hs with
        h | ⟨hok, hbytes, hfailed, hselected, hoffset⟩
      · exact Or.inl h
      · refine Or.inr ⟨hok, congrArg (_ :: ·) hbytes, hfailed, hselected, ?_⟩
        rw [hoffset]
        show s.offset + 1 + n = s.offset + (n + 1)
        omega

theorem selectRead_device (hs : s.failed = false) (key : UInt16) (n : ℕ) :
    Streamed d key 0 n (selectRead d.io key n s) := by
  unfold selectRead
  by_cases hf : d.fails s.calls = true
  · have hselect : d.io.select s key = (false, { s with calls := s.calls + 1, failed := true }) :=
      if_pos hf
    rw [hselect]
    exact Or.inl ⟨rfl, rfl⟩
  · have hselect : d.io.select s key =
        (true, { s with selected := key, offset := 0, calls := s.calls + 1 }) := if_neg hf
    rw [hselect]
    exact readBytes_device (s := { s with selected := key, offset := 0, calls := s.calls + 1 }) hs n

end

/-- The loop over the directory, on its entries. -/
def entriesTurn (name : List UInt8) :
    List (List UInt8) → List UInt16 → UInt16 → UInt32 → Except BootStatus (UInt16 × UInt32)
  | [], _, selected, size => .ok (selected, size)
  | field :: fields, selectors, selected, size =>
    match entryTurn name selectors selected size field with
    | .error status => .error status
    | .ok (selected, size) =>
      entriesTurn name fields (selectors ++ [entryKey field]) selected size

/-- **The directory.** A read fails, or the loop sees the entries of the directory. -/
theorem readEntries_device {d : FwcfgDevice} {s : FwcfgState} (hs : s.failed = false)
    (name : List UInt8) (n : ℕ) (selectors : List UInt16) (selected : UInt16) (size : UInt32) :
    ((readEntries d.io name n selectors selected size s).2.failed = true ∧
        (readEntries d.io name n selectors selected size s).1 = .error .io) ∨
      ((readEntries d.io name n selectors selected size s).2.failed = false ∧
        (readEntries d.io name n selectors selected size s).1 =
          entriesTurn name (d.fields s.selected s.offset n) selectors selected size) := by
  induction n generalizing s selectors selected size with
  | zero => exact Or.inr ⟨hs, rfl⟩
  | succ n ih =>
    unfold readEntries FwcfgDevice.fields entriesTurn
    dsimp only
    rcases readBytes_device hs 64 with ⟨hok, hfailed⟩ | ⟨hok, hbytes, hfailed, hselected, hoffset⟩
    · rw [hok]
      exact Or.inl ⟨hfailed, rfl⟩
    · rw [hok, hbytes, if_neg (by decide)]
      cases entryTurn name selectors selected size (d.stream s.selected s.offset 64) with
      | error status => exact Or.inr ⟨hfailed, rfl⟩
      | ok found =>
        obtain ⟨selected', size'⟩ := found
        have h := ih hfailed (selectors ++ [entryKey (d.stream s.selected s.offset 64)]) selected'
          size'
        rw [hselected, hoffset] at h
        exact h

/-! ### Directories -/

/-- What an entry of the directory tells. -/
structure FwcfgFile where
  size : UInt32
  selector : UInt16
  reserved : List UInt8
  name : List UInt8

/-- The file of an entry; its name ends before the first zero. -/
def fileOf (field : List UInt8) : FwcfgFile :=
  ⟨be32 field, entryKey field, [field.getD 6 0, field.getD 7 0],
    (field.drop 8).takeWhile (· ≠ 0)⟩

/-- A file with a selector of its own kind, nothing reserved and a terminated name. -/
structure FwcfgFile.WellFormed (file : FwcfgFile) : Prop where
  low : 0x20 ≤ file.selector
  high : file.selector < 0x4000
  reserved : file.reserved = [0, 0]
  named : 1 ≤ file.name.length
  terminated : file.name.length ≤ 55

theorem FwcfgFile.WellFormed.selector_ne_zero {file : FwcfgFile} (h : file.WellFormed) :
    file.selector ≠ 0 := by
  intro h0
  have hlow := h.low
  rw [h0] at hlow
  exact absurd hlow (by decide)

/-- The memory that a name of at most 55 bytes is in. -/
structure NameAt (memory name : List UInt8) : Prop where
  memory : ∃ rest, memory = name ++ 0 :: rest
  text : 0 ∉ name
  length : name.length ≤ 55

section

variable {memory name field : List UInt8}

theorem nameLength_field (h : field.length = 64) :
    nameLength (field.drop 8) = (fileOf field).name.length := by
  have hall : (field.drop 8).take 56 = field.drop 8 :=
    List.take_of_length_le (by rw [List.length_drop]; omega)
  unfold nameLength fileOf
  rw [hall]

theorem NameAt.nameLength (h : NameAt memory name) : nameLength memory = name.length := by
  obtain ⟨⟨rest, rfl⟩, htext, hlength⟩ := h
  have htake : (name ++ 0 :: rest).take 56 = name ++ 0 :: rest.take (55 - name.length) := by
    rw [List.take_append, List.take_of_length_le (by omega),
      show 56 - name.length = 55 - name.length + 1 by omega, List.take_succ_cons]
  have hword : ∀ b ∈ name, decide (b ≠ 0) = true := by
    intro b hb
    rw [decide_eq_true_iff]
    rintro rfl
    exact htext hb
  unfold Tcs.nameLength
  rw [htake, List.takeWhile_append_of_pos hword, List.takeWhile_cons_of_neg (by decide),
    List.append_nil]

theorem NameAt.getD (h : NameAt memory name) {j : ℕ} (hj : j < name.length) :
    memory.getD j 0 = name[j] := by
  obtain ⟨⟨rest, rfl⟩, -, -⟩ := h
  rw [List.getD_eq_getElem?_getD, List.getElem?_append_left hj, List.getElem?_eq_getElem hj]
  rfl

/-- The bytes of an entry's name stand behind its header. -/
theorem fileOf_name_getElem {j : ℕ} (hj : j < (fileOf field).name.length) :
    field.getD (8 + j) 0 = (fileOf field).name[j] := by
  have hprefix : (fileOf field).name <+: field.drop 8 := List.takeWhile_prefix _
  have hdrop : j < (field.drop 8).length := lt_of_lt_of_le hj hprefix.length_le
  rw [List.getD_eq_getElem?_getD, ← List.getElem?_drop, List.getElem?_eq_getElem hdrop,
    hprefix.getElem hj]
  rfl

/-- The loop that compares names compares the names. -/
theorem sameName_iff (hm : NameAt memory name) (h : field.length = 64) :
    (nameLength (field.drop 8) = nameLength memory ∧
        ∀ j < nameLength (field.drop 8), field.getD (8 + j) 0 = memory.getD j 0) ↔
      (fileOf field).name = name := by
  rw [nameLength_field h, hm.nameLength]
  constructor
  · rintro ⟨hlength, hbytes⟩
    refine List.ext_getElem hlength fun j h1 h2 => ?_
    rw [← fileOf_name_getElem h1, hbytes j h1, hm.getD h2]
  · intro heq
    refine ⟨by rw [heq], fun j hj => ?_⟩
    have h2 : j < name.length := heq ▸ hj
    rw [fileOf_name_getElem hj, hm.getD h2]
    exact List.getElem_of_eq heq hj

/-- The checks of an entry are passed by the well-formed files. -/
theorem wellFormed_fileOf (h : field.length = 64) :
    (fileOf field).WellFormed ↔
      ¬(entryKey field < 0x20 ∨ entryKey field ≥ 0x4000 ∨ field.getD 6 0 ≠ 0 ∨ field.getD 7 0 ≠ 0) ∧
        ¬(nameLength (field.drop 8) = 0 ∨ nameLength (field.drop 8) = 56) := by
  have hlen := nameLength_field h
  have hbound : (fileOf field).name.length ≤ 56 := by
    have hprefix : (fileOf field).name <+: field.drop 8 := List.takeWhile_prefix _
    have hle := hprefix.length_le
    rw [List.length_drop] at hle
    omega
  simp only [not_or, not_not, UInt16.not_lt, UInt16.not_le, ge_iff_le]
  constructor
  · intro hf
    have hnamed := hf.named
    have hterminated := hf.terminated
    refine ⟨⟨hf.low, hf.high, ?_, ?_⟩, by omega, by omega⟩
    · exact (List.cons.inj hf.reserved).1
    · exact (List.cons.inj (List.cons.inj hf.reserved).2).1
  · intro ⟨⟨hlow, hhigh, h6, h7⟩, hnamed, hterminated⟩
    exact ⟨hlow, hhigh, by unfold fileOf; rw [h6, h7], by omega, by omega⟩

/-- **One entry.** It is taken if it is well formed and its selector is new; the file looked for is
taken once. -/
theorem entryTurn_ok_iff (hm : NameAt memory name) (h : field.length = 64)
    {selectors : List UInt16} {selected : UInt16} {size : UInt32} {found : UInt16 × UInt32} :
    entryTurn memory selectors selected size field = .ok found ↔
      (fileOf field).WellFormed ∧ (fileOf field).selector ∉ selectors ∧
        if (fileOf field).name = name then
          selected = 0 ∧ found = ((fileOf field).selector, (fileOf field).size)
        else found = (selected, size) := by
  unfold entryTurn
  dsimp only
  by_cases h1 : entryKey field < 0x20 ∨ entryKey field ≥ 0x4000 ∨ field.getD 6 0 ≠ 0 ∨
      field.getD 7 0 ≠ 0
  · rw [if_pos h1]
    exact iff_of_false (by simp) fun hr => ((wellFormed_fileOf h).mp hr.1).1 h1
  rw [if_neg h1]
  by_cases h2 : entryKey field ∈ selectors
  · rw [if_pos h2]
    exact iff_of_false (by simp) fun ⟨_, hnew, _⟩ => hnew h2
  rw [if_neg h2]
  by_cases h3 : nameLength (field.drop 8) = 0 ∨ nameLength (field.drop 8) = 56
  · rw [if_pos h3]
    exact iff_of_false (by simp) fun hr => ((wellFormed_fileOf h).mp hr.1).2 h3
  rw [if_neg h3, and_iff_right ((wellFormed_fileOf h).mpr ⟨h1, h3⟩),
    and_iff_right (show (fileOf field).selector ∉ selectors from h2)]
  by_cases h4 : (fileOf field).name = name
  · rw [if_pos ((sameName_iff hm h).mpr h4), if_pos h4]
    by_cases h5 : selected = 0
    · rw [if_neg (not_not.mpr h5), Except.ok.injEq, and_iff_right h5]
      exact eq_comm
    · rw [if_pos h5]
      exact iff_of_false (by simp) fun h => h5 h.1
  · rw [if_neg (fun hs => h4 ((sameName_iff hm h).mp hs)), if_neg h4, Except.ok.injEq]
    exact eq_comm

/-- Entries that are well formed, with selectors of their own. -/
structure DirectoryOk (selectors : List UInt16) (files : List FwcfgFile) : Prop where
  wellFormed : ∀ file ∈ files, file.WellFormed
  distinct : (files.map (·.selector)).Nodup
  fresh : ∀ file ∈ files, file.selector ∉ selectors

theorem directoryOk_cons {selectors : List UInt16} {file : FwcfgFile} {files : List FwcfgFile} :
    DirectoryOk selectors (file :: files) ↔
      (file.WellFormed ∧ file.selector ∉ selectors) ∧
        DirectoryOk (selectors ++ [file.selector]) files := by
  constructor
  · rintro ⟨hwell, hdistinct, hfresh⟩
    rw [List.map_cons, List.nodup_cons] at hdistinct
    refine ⟨⟨hwell _ List.mem_cons_self, hfresh _ List.mem_cons_self⟩,
      fun f hf => hwell f (List.mem_cons_of_mem _ hf), hdistinct.2, fun f hf => ?_⟩
    rw [List.mem_append, List.mem_singleton, not_or]
    refine ⟨hfresh f (List.mem_cons_of_mem _ hf), fun heq => ?_⟩
    exact hdistinct.1 (List.mem_map.mpr ⟨f, hf, heq⟩)
  · rintro ⟨⟨hwell, hfresh⟩, hrest⟩
    refine ⟨fun f hf => ?_, ?_, fun f hf => ?_⟩
    · rcases List.mem_cons.mp hf with rfl | hf
      · exact hwell
      · exact hrest.wellFormed f hf
    · rw [List.map_cons, List.nodup_cons]
      refine ⟨fun hmem => ?_, hrest.distinct⟩
      obtain ⟨f, hf, heq⟩ := List.mem_map.mp hmem
      exact hrest.fresh f hf (by rw [heq]; simp)
    · rcases List.mem_cons.mp hf with rfl | hf
      · exact hfresh
      · exact fun hmem => hrest.fresh f hf (List.mem_append_left _ hmem)

theorem entriesTurn_cons {memory field : List UInt8} {fields : List (List UInt8)}
    {selectors : List UInt16} {selected : UInt16} {size : UInt32} {found : UInt16 × UInt32} :
    entriesTurn memory (field :: fields) selectors selected size = .ok found ↔
      ∃ next, entryTurn memory selectors selected size field = .ok next ∧
        entriesTurn memory fields (selectors ++ [(fileOf field).selector]) next.1 next.2 =
          .ok found := by
  rw [entriesTurn]
  cases entryTurn memory selectors selected size field with
  | error status => simp
  | ok next =>
    constructor
    · exact fun h => ⟨next, rfl, h⟩
    · rintro ⟨_, heq, h⟩
      cases heq
      exact h

/-- **All entries.** The loop ends with a file if the entries are well formed with distinct
selectors, and one of them, or the one found before them, has the name. -/
theorem entriesTurn_ok_iff (hm : NameAt memory name) {fields : List (List UInt8)}
    (h : ∀ field ∈ fields, field.length = 64) {selectors : List UInt16} {selected : UInt16}
    {size : UInt32} {found : UInt16 × UInt32} (hfound : found.1 ≠ 0) :
    entriesTurn memory fields selectors selected size = .ok found ↔
      DirectoryOk selectors (fields.map fileOf) ∧
        if selected = 0 then
          ∃ file, (fields.map fileOf).filter (·.name = name) = [file] ∧
            found = (file.selector, file.size)
        else (fields.map fileOf).filter (·.name = name) = [] ∧ found = (selected, size) := by
  induction fields generalizing selectors selected size with
  | nil =>
    have hdir : DirectoryOk selectors [] := ⟨by simp, List.nodup_nil, by simp⟩
    unfold entriesTurn
    rw [Except.ok.injEq, List.map_nil, and_iff_right hdir]
    by_cases h0 : selected = 0
    · rw [if_pos h0]
      refine iff_of_false ?_ (by simp)
      rintro rfl
      exact hfound h0
    · rw [if_neg h0, and_iff_right List.filter_nil]
      exact eq_comm
  | cons field fields ih =>
    have hhead := h field List.mem_cons_self
    have htail := fun f hf => h f (List.mem_cons_of_mem _ hf)
    rw [List.map_cons, directoryOk_cons, entriesTurn_cons]
    have hstep : ∀ next, entryTurn memory selectors selected size field = .ok next ↔ _ :=
      fun next => entryTurn_ok_iff hm hhead
    by_cases hname : (fileOf field).name = name
    · -- the file is found here, and must not be found again
      rw [List.filter_cons_of_pos (by simpa using hname)]
      constructor
      · rintro ⟨next, hturn, hrest⟩
        obtain ⟨hwell, hfresh, hmatch⟩ := (hstep next).mp hturn
        rw [if_pos hname] at hmatch
        obtain ⟨h0, rfl⟩ := hmatch
        obtain ⟨hdir, hfilter⟩ := (ih htail).mp hrest
        rw [if_neg hwell.selector_ne_zero] at hfilter
        rw [if_pos h0, hfilter.1]
        exact ⟨⟨⟨hwell, hfresh⟩, hdir⟩, _, rfl, hfilter.2⟩
      · rintro ⟨⟨⟨hwell, hfresh⟩, hdir⟩, hfilter⟩
        by_cases h0 : selected = 0
        · rw [if_pos h0] at hfilter
          obtain ⟨file, hfile, rfl⟩ := hfilter
          obtain ⟨rfl, hnone⟩ := List.cons.inj hfile
          refine ⟨_, (hstep _).mpr ⟨hwell, hfresh, by rw [if_pos hname]; exact ⟨h0, rfl⟩⟩,
            (ih htail).mpr ⟨hdir, ?_⟩⟩
          rw [if_neg hwell.selector_ne_zero]
          exact ⟨hnone, rfl⟩
        · rw [if_neg h0] at hfilter
          cases hfilter.1
    · rw [List.filter_cons_of_neg (by simpa using hname)]
      constructor
      · rintro ⟨next, hturn, hrest⟩
        obtain ⟨hwell, hfresh, hmatch⟩ := (hstep next).mp hturn
        rw [if_neg hname] at hmatch
        subst hmatch
        obtain ⟨hdir, hfilter⟩ := (ih htail).mp hrest
        exact ⟨⟨⟨hwell, hfresh⟩, hdir⟩, hfilter⟩
      · rintro ⟨⟨⟨hwell, hfresh⟩, hdir⟩, hfilter⟩
        exact ⟨_, (hstep _).mpr ⟨hwell, hfresh, by rw [if_neg hname]⟩,
          (ih htail).mpr ⟨hdir, hfilter⟩⟩

end

/-! ### The lookup -/

namespace FwcfgDevice

/-- The number of entries that the directory announces. -/
def count (d : FwcfgDevice) : UInt32 := be32 (d.stream 0x19 0 4)

/-- The files of the directory. -/
def files (d : FwcfgDevice) : List FwcfgFile := (d.fields 0x19 4 d.count.toNat).map fileOf

theorem length_of_mem_fields (d : FwcfgDevice) (key : UInt16) (n : ℕ) : ∀ offset,
    ∀ field ∈ d.fields key offset n, field.length = 64 := by
  induction n with
  | zero => intro offset field h; cases h
  | succ n ih =>
    intro offset field h
    rcases List.mem_cons.mp h with rfl | h
    · exact d.length_stream _ _ _
    · exact ih _ field h

end FwcfgDevice

/-- The device is the traditional interface, its directory is in order, and `file` is the one file
of the name and has the length. -/
structure Published (d : FwcfgDevice) (name : List UInt8) (length : ℕ) (file : FwcfgFile) : Prop where
  signature : d.stream 0 0 4 = [0x51, 0x45, 0x4d, 0x55]
  features : d.stream 1 0 4 = [1, 0, 0, 0]
  count : d.count ≤ fwcfgMaxFiles
  directory : DirectoryOk [] d.files
  unique : d.files.filter (·.name = name) = [file]
  size : file.size.toNat = length

/-- What a lookup comes to: an operation failed, the file is there and was read, or it is not
there. -/
inductive Looked (d : FwcfgDevice) (name out : List UInt8) (r : FwcfgOut FwcfgState) : Prop
  | failed (failed : r.state.failed = true) (status : r.status = .io)
  | found (file : FwcfgFile) (failed : r.state.failed = false) (status : r.status = .ok)
      (published : Published d name out.length file)
      (bytes : r.out = d.stream file.selector 0 out.length)
  | refused (failed : r.state.failed = false) (status : r.status ≠ .ok)
      (missing : ∀ file, ¬ Published d name out.length file)

section

variable {d : FwcfgDevice} {memory name out : List UInt8} {s : FwcfgState}

theorem published_iff (hm : NameAt memory name) (hsig : d.stream 0 0 4 = [0x51, 0x45, 0x4d, 0x55])
    (hfeat : d.stream 1 0 4 = [1, 0, 0, 0]) (hcount : d.count ≤ fwcfgMaxFiles) {length : ℕ}
    {file : FwcfgFile} :
    Published d name length file ↔
      entriesTurn memory (d.fields 0x19 4 d.count.toNat) [] 0 0 =
          .ok (file.selector, file.size) ∧
        d.files.filter (·.name = name) = [file] ∧ file.selector ≠ 0 ∧ file.size.toNat = length := by
  have hfields := d.length_of_mem_fields 0x19 d.count.toNat 4
  constructor
  · rintro ⟨-, -, -, hdir, hunique, hsize⟩
    have hmem : file ∈ d.files := List.mem_of_mem_filter (by rw [hunique]; exact List.mem_singleton_self _)
    have hne := (hdir.wellFormed file hmem).selector_ne_zero
    refine ⟨(entriesTurn_ok_iff hm hfields hne).mpr ⟨hdir, ?_⟩, hunique, hne, hsize⟩
    rw [if_pos rfl]
    exact ⟨file, hunique, rfl⟩
  · rintro ⟨hturn, hunique, hne, hsize⟩
    exact ⟨hsig, hfeat, hcount, ((entriesTurn_ok_iff hm hfields hne).mp hturn).1, hunique, hsize⟩

/-- A file that the loop finds is the one file of its name. -/
theorem found_file (hm : NameAt memory name) {found : UInt16 × UInt32} (hne : found.1 ≠ 0)
    (h : entriesTurn memory (d.fields 0x19 4 d.count.toNat) [] 0 0 = .ok found) :
    ∃ file, d.files.filter (·.name = name) = [file] ∧ found = (file.selector, file.size) := by
  have hfields := d.length_of_mem_fields 0x19 d.count.toNat 4
  have hfile := ((entriesTurn_ok_iff hm hfields hne).mp h).2
  rw [if_pos rfl] at hfile
  exact hfile

theorem entryTurn_error {name : List UInt8} {selectors : List UInt16} {selected : UInt16}
    {size : UInt32} {field : List UInt8} {status : BootStatus}
    (h : entryTurn name selectors selected size field = .error status) : status = .directory := by
  unfold entryTurn at h
  dsimp only at h
  split_ifs at h
  all_goals simp only [Except.error.injEq] at h
  all_goals exact h.symm

theorem entriesTurn_error {name : List UInt8} {fields : List (List UInt8)}
    {selectors : List UInt16} {selected : UInt16} {size : UInt32} {status : BootStatus}
    (h : entriesTurn name fields selectors selected size = .error status) :
    status = .directory := by
  induction fields generalizing selectors selected size with
  | nil => cases h
  | cons field fields ih =>
    rw [entriesTurn] at h
    cases hturn : entryTurn name selectors selected size field with
    | error status' =>
      rw [hturn] at h
      cases h
      exact entryTurn_error hturn
    | ok next =>
      rw [hturn] at h
      exact ih h

theorem readFile_device (hs : s.failed = false) (hselected : s.selected = 0x19)
    (hoffset : s.offset = 4) (hm : NameAt memory name)
    (hsig : d.stream 0 0 4 = [0x51, 0x45, 0x4d, 0x55]) (hfeat : d.stream 1 0 4 = [1, 0, 0, 0])
    (hcount : d.count ≤ fwcfgMaxFiles) :
    Looked d name out (readFile d.io memory out d.count.toNat s) := by
  have hpublished := fun file : FwcfgFile =>
    (published_iff hm hsig hfeat hcount : Published d name out.length file ↔ _)
  have hentries := readEntries_device (d := d) hs memory d.count.toNat [] 0 0
  rw [hselected, hoffset] at hentries
  unfold readFile
  generalize readEntries d.io memory d.count.toNat [] 0 0 s = r at hentries
  obtain ⟨result, s'⟩ := r
  rcases hentries with ⟨hf, hresult⟩ | ⟨hf, hturn⟩
  · dsimp only at hresult
    subst hresult
    exact .failed hf rfl
  cases result with
  | error status =>
    have hstatus := entriesTurn_error hturn.symm
    refine .refused hf (by rw [hstatus]; simp) fun file hp => ?_
    have hok := hturn.trans ((hpublished file).mp hp).1
    cases hok
  | ok found =>
    have hturn : entriesTurn memory (d.fields 0x19 4 d.count.toNat) [] 0 0 = .ok found :=
      hturn.symm
    have hsame : ∀ file, Published d name out.length file → found = (file.selector, file.size) :=
      fun file hp => Except.ok.inj (hturn.symm.trans ((hpublished file).mp hp).1)
    obtain ⟨selected, size⟩ := found
    dsimp only
    by_cases h0 : selected = 0
    · rw [if_pos h0]
      refine .refused hf (by simp) fun file hp => ?_
      have hselector := congrArg Prod.fst (hsame file hp)
      exact ((hpublished file).mp hp).2.2.1 (hselector.symm.trans h0)
    rw [if_neg h0]
    obtain ⟨file, hunique, hfile⟩ := found_file hm h0 hturn
    obtain ⟨rfl, rfl⟩ := Prod.mk.inj hfile
    by_cases hsize : file.size.toNat ≠ out.length
    · rw [if_pos hsize]
      refine .refused hf (by simp) fun other hp => hsize ?_
      have hother : file.size = other.size := congrArg Prod.snd (hsame other hp)
      rw [hother]
      exact hp.size
    rw [if_neg hsize]
    have hp : Published d name out.length file :=
      (hpublished file).mpr ⟨hturn, hunique, h0, not_not.mp hsize⟩
    rcases selectRead_device (d := d) hf file.selector out.length with
      ⟨hok, hf⟩ | ⟨hok, hbytes, hf, -, -⟩
    · rw [hok]
      exact .failed hf rfl
    · rw [hok, hbytes, FwcfgDevice.length_stream, List.drop_length, List.append_nil]
      exact .found file hf rfl hp rfl

/-- **The lookup.** -/
theorem readItem_device (hs : s.failed = false) (hm : NameAt memory name) (hname : name ≠ [])
    (hout : out ≠ []) (hmax : out.length ≤ fwcfgMaxBytes) :
    Looked d name out (readItem d.io memory out s) := by
  have hlen : nameLength memory = name.length := hm.nameLength
  have hpos : 0 < name.length := List.length_pos_of_ne_nil hname
  have hle := hm.length
  have hlength : 0 < out.length := List.length_pos_of_ne_nil hout
  unfold readItem
  rw [if_neg (by simp only [fwcfgMaxBytes] at *; omega), if_neg (by omega)]
  dsimp only
  rcases selectRead_device (d := d) hs 0 4 with ⟨hok, hf⟩ | ⟨hok, hbytes, hf, -, -⟩
  · rw [hok]
    exact .failed hf rfl
  rw [hok, hbytes, if_neg (by decide)]
  by_cases hsig : d.stream 0 0 4 ≠ [0x51, 0x45, 0x4d, 0x55]
  · rw [if_pos hsig]
    exact .refused hf (by simp) fun file hp => hsig hp.signature
  rw [if_neg hsig]
  rcases selectRead_device (d := d) hf 1 4 with ⟨hok, hf⟩ | ⟨hok, hbytes, hf, -, -⟩
  · rw [hok]
    exact .failed hf rfl
  rw [hok, hbytes, if_neg (by decide)]
  by_cases hfeat : d.stream 1 0 4 ≠ [1, 0, 0, 0]
  · rw [if_pos hfeat]
    exact .refused hf (by simp) fun file hp => hfeat hp.features
  rw [if_neg hfeat]
  rcases selectRead_device (d := d) hf 0x19 4 with
    ⟨hok, hf⟩ | ⟨hok, hbytes, hf, hselected, hoffset⟩
  · rw [hok]
    exact .failed hf rfl
  rw [hok, hbytes, if_neg (by decide)]
  by_cases hcount : d.count > fwcfgMaxFiles
  · rw [if_pos (show be32 (d.stream 0x19 0 4) > fwcfgMaxFiles from hcount)]
    exact .refused hf (by simp) fun file hp => UInt32.not_lt.mpr hp.count hcount
  rw [if_neg (show ¬ be32 (d.stream 0x19 0 4) > fwcfgMaxFiles from hcount)]
  exact readFile_device hf hselected hoffset hm (not_not.mp hsig) (not_not.mp hfeat)
    (UInt32.not_lt.mp hcount)

end

/-- **The reader is exact and leaks nothing.** For every device, every name of 1 to 55 bytes and
every length from 1 to 256 the reader succeeds if no operation failed and the device publishes one
file of the name with the length, in a directory that is in order; it then returns the bytes of the
file, and zeros otherwise. -/
theorem fwcfg_read_exact (d : FwcfgDevice) {memory name out : List UInt8} (hm : NameAt memory name)
    (hname : 1 ≤ name.length) (hout : 1 ≤ out.length) (hmax : out.length ≤ 256)
    {s : FwcfgState} (hs : s.failed = false) :
    let r := fwcfgRead d.io memory out s
    (r.status = .ok ↔ r.state.failed = false ∧ ∃ file, Published d name out.length file) ∧
      (r.status = .ok → ∀ file, Published d name out.length file →
        r.out = d.stream file.selector 0 out.length) ∧
      (r.status ≠ .ok → r.out = List.replicate out.length 0) := by
  have hlooked := readItem_device (d := d) hs hm (List.ne_nil_of_length_pos hname)
    (List.ne_nil_of_length_pos hout) hmax
  have hzero : (readItem d.io memory out s).status ≠ .ok →
      fwcfgRead d.io memory out s =
        { readItem d.io memory out s with out := List.replicate out.length 0 } :=
    fun h => if_pos ⟨h, hmax⟩
  dsimp only
  rcases hlooked with ⟨hf, hstatus⟩ | ⟨file, hf, hstatus, hp, hbytes⟩ | ⟨hf, hstatus, hmissing⟩
  · have hne : (readItem d.io memory out s).status ≠ .ok := by
      rw [hstatus]
      simp
    rw [hzero hne]
    refine ⟨iff_of_false hne ?_, fun h => absurd h hne, fun _ => rfl⟩
    rintro ⟨hclean, -⟩
    rw [show (readItem d.io memory out s).state.failed = true from hf] at hclean
    cases hclean
  · have hsame : fwcfgRead d.io memory out s = readItem d.io memory out s :=
      if_neg fun h => h.1 hstatus
    rw [hsame]
    refine ⟨iff_of_true hstatus ⟨hf, file, hp⟩, fun _ other hother => ?_,
      fun h => absurd hstatus h⟩
    have heq := hp.unique.symm.trans hother.unique
    rw [hbytes, (List.cons.inj heq).1]
  · rw [hzero hstatus]
    exact ⟨iff_of_false hstatus fun h => hmissing _ h.2.choose_spec, fun h => absurd h hstatus,
      fun _ => rfl⟩

/-- A device with one file, "a", of one byte. -/
def oneFile : FwcfgDevice where
  items key :=
    if key = 0 then [0x51, 0x45, 0x4d, 0x55]
    else if key = 1 then [1]
    else if key = 0x19 then [0, 0, 0, 1, 0, 0, 0, 1, 0, 0x20, 0, 0, 0x61]
    else [9]
  fails _ := false

theorem fwcfg_read_exact_oneFile :
    ∃ file, Published oneFile [0x61] [(7 : UInt8)].length file :=
  ((fwcfg_read_exact oneFile (⟨⟨[], rfl⟩, by decide, by decide⟩ : NameAt [0x61, 0] [0x61])
    (by decide) (by decide : 1 ≤ [(7 : UInt8)].length) (by decide)
    (s := ⟨0, 0, 0, false⟩) rfl).1.mp (by decide)).2

end Tcs
