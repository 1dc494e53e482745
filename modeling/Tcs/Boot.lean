/-
# From the firmware to the administrator

What an image is set up with. The owner of the firmware interface
(`servers/launch_boot.c`, and `tests/admin/boot.c` in the image of the signed
test) reads its files once, when it starts, and hands them out from then on;
the administrator asks for its context once, when it starts.

The interface is two registers in memory, so no operation fails: a file is
read exactly where the directory is in order and has one file of the name
with the length (`Firmware.Offers`). So an administrator is set up with the
record that the firmware offers, if it is a valid one for the mode of the
build, and with nothing otherwise (`launch_boot_exact`). In the test image
nothing is handed out unless the context and all twelve packets are there
(`test_boot_exact`).

Key definitions: `Firmware`, `mmioIo`, `Firmware.Offers`, `launchBootStart`,
`launchStart`, `testBootInit`, `testStart`.
Key theorems: `mmioIo_device`, `fwcfgRead_mmio`, `launch_boot_exact`,
`test_boot_exact`.
-/
import Tcs.Fwcfg
import Tcs.Records

namespace Tcs

open Ipc

/-! ### The interface -/

/-- The items of a firmware, and what was selected before the image started. -/
structure Firmware where
  items : UInt16 → List UInt8
  selected : UInt16
  offset : ℕ

/-- A device with these items that never fails. -/
def Firmware.device (f : Firmware) : FwcfgDevice := ⟨f.items, fun _ => false⟩

/-- The device as the image finds it. -/
def Firmware.start (f : Firmware) : FwcfgState := ⟨f.selected, f.offset, 0, false⟩

/-- The two bytes that `*(volatile uint16_t *)` writes, in the order of their addresses. -/
def store16 (value : UInt16) : UInt8 × UInt8 := (value.toUInt8, (value >>> 8).toUInt8)

/-- The selector register takes its bytes with the high one first. -/
def selector (bytes : UInt8 × UInt8) : UInt16 := bytes.1.toUInt16 <<< 8 ||| bytes.2.toUInt16

/-- `select_item` and `read_byte`. -/
def mmioIo (f : Firmware) : FwcfgIo FwcfgState where
  select s key :=
    (true, { s with
      selected := selector (store16 (key <<< 8 ||| key >>> 8)), offset := 0, calls := s.calls + 1 })
  read s :=
    (some (f.device.byte s.selected s.offset), { s with offset := s.offset + 1, calls := s.calls + 1 })

/-- The two swaps of the bytes are one read of the key. -/
theorem selector_store16 (key : UInt16) : selector (store16 (key <<< 8 ||| key >>> 8)) = key := by
  apply UInt16.eq_of_toBitVec_eq
  simp only [selector, store16, UInt16.toBitVec_or, UInt16.toBitVec_shiftLeft,
    UInt16.toBitVec_shiftRight, UInt8.toBitVec_toUInt16, UInt16.toBitVec_toUInt8]
  ext i hi
  interval_cases i <;> simp

theorem mmioIo_device (f : Firmware) : mmioIo f = f.device.io := by
  unfold mmioIo FwcfgDevice.io
  simp only [selector_store16]
  rfl

/-! ### No operation fails -/

section

variable {σ : Type*} {io : FwcfgIo σ} {P : σ → Prop}

/-- Both operations keep a property of the context. -/
def FwcfgIo.Keeps (io : FwcfgIo σ) (P : σ → Prop) : Prop :=
  (∀ s key, P s → P (io.select s key).2) ∧ ∀ s, P s → P (io.read s).2

theorem keeps_readBytes (h : io.Keeps P) (n : ℕ) {s : σ} (hs : P s) :
    P (readBytes io n s).state := by
  induction n generalizing s with
  | zero => exact hs
  | succ n ih =>
    have hread := h.2 s hs
    unfold readBytes
    generalize io.read s = got at hread
    obtain ⟨byte, s'⟩ := got
    cases byte with
    | none => exact hread
    | some byte => exact ih hread

theorem keeps_selectRead (h : io.Keeps P) (key : UInt16) (n : ℕ) {s : σ} (hs : P s) :
    P (selectRead io key n s).state := by
  have hselect := h.1 s key hs
  unfold selectRead
  generalize io.select s key = got at hselect
  obtain ⟨ok, s'⟩ := got
  cases ok with
  | false => exact hselect
  | true => exact keeps_readBytes h n hselect

theorem keeps_readEntries (h : io.Keeps P) (name : List UInt8) (n : ℕ) (selectors : List UInt16)
    (selected : UInt16) (size : UInt32) {s : σ} (hs : P s) :
    P (readEntries io name n selectors selected size s).2 := by
  induction n generalizing selectors selected size s with
  | zero => exact hs
  | succ n ih =>
    have hread := keeps_readBytes h 64 hs
    unfold readEntries
    dsimp only
    split_ifs
    · exact hread
    · cases entryTurn name selectors selected size (readBytes io 64 s).bytes with
      | error status => exact hread
      | ok found => exact ih _ _ _ hread

theorem keeps_readFile (h : io.Keeps P) (name out : List UInt8) (count : ℕ) {s : σ} (hs : P s) :
    P (readFile io name out count s).state := by
  have hentries := keeps_readEntries h name count [] 0 0 hs
  unfold readFile
  generalize readEntries io name count [] 0 0 s = found at hentries
  obtain ⟨found, s'⟩ := found
  cases found with
  | error status => exact hentries
  | ok found =>
    dsimp only
    split_ifs
    · exact hentries
    · exact hentries
    all_goals exact keeps_selectRead h _ _ hentries

theorem keeps_readItem (h : io.Keeps P) (name out : List UInt8) {s : σ} (hs : P s) :
    P (readItem io name out s).state := by
  have hsignature := keeps_selectRead h 0 4 hs
  have hfeatures := keeps_selectRead h 1 4 hsignature
  have hcount := keeps_selectRead h 0x19 4 hfeatures
  unfold readItem
  dsimp only
  split_ifs
  any_goals assumption
  exact keeps_readFile h _ _ _ hcount

end

/-- The interface in memory never fails. -/
theorem mmioIo_keeps (f : Firmware) : (mmioIo f).Keeps fun s => s.failed = false :=
  ⟨fun _ _ h => h, fun _ h => h⟩

/-! ### What a firmware offers -/

/-- The firmware offers this file: its directory is in order, and has one file of the name with the
length, of these bytes. -/
def Firmware.Offers (f : Firmware) (name bytes : List UInt8) : Prop :=
  ∃ file, Published f.device name bytes.length file ∧
    f.device.stream file.selector 0 bytes.length = bytes

theorem Firmware.Offers.unique {f : Firmware} {name bytes bytes' : List UInt8}
    (h : f.Offers name bytes) (h' : f.Offers name bytes') : bytes = bytes' := by
  obtain ⟨file, hp, hbytes⟩ := h
  obtain ⟨file', hp', hbytes'⟩ := h'
  obtain rfl : file = file' := (List.cons.inj (hp.unique.symm.trans hp'.unique)).1
  have hl : bytes.length = bytes'.length := hp.size.symm.trans hp'.size
  rw [← hbytes, ← hbytes', hl]

/-- **A read of the firmware**: the file that it offers, or zeros. -/
theorem fwcfgRead_mmio (f : Firmware) {memory name : List UInt8} (hm : NameAt memory name)
    (hname : name ≠ []) {n : ℕ} (hn : n ≠ 0) (hmax : n ≤ 256) {s : FwcfgState}
    (hs : s.failed = false) :
    let r := fwcfgRead (mmioIo f) memory (List.replicate n 0) s
    r.state.failed = false ∧ r.out.length = n ∧
      ((r.status = .ok ∧ f.Offers name r.out) ∨
        (r.status ≠ .ok ∧ ∀ bytes, bytes.length = n → ¬ f.Offers name bytes)) := by
  intro r
  have hlength : (List.replicate n (0 : UInt8)).length = n := List.length_replicate
  have hlooked : Looked f.device name (List.replicate n 0)
      (readItem f.device.io memory (List.replicate n 0) s) :=
    readItem_device hs hm hname
      (by rwa [← List.length_pos_iff_ne_nil, hlength, Nat.pos_iff_ne_zero]) (by rwa [hlength])
  have hclean : (readItem (mmioIo f) memory (List.replicate n 0) s).state.failed = false :=
    keeps_readItem (mmioIo_keeps f) memory _ hs
  have hread : r = if (readItem (mmioIo f) memory (List.replicate n 0) s).status ≠ .ok ∧
        (List.replicate n (0 : UInt8)).length ≤ fwcfgMaxBytes then
      { readItem (mmioIo f) memory (List.replicate n 0) s with
        out := List.replicate (List.replicate n (0 : UInt8)).length 0 }
    else readItem (mmioIo f) memory (List.replicate n 0) s := rfl
  rw [← mmioIo_device] at hlooked
  rcases hlooked with ⟨hf, -⟩ | ⟨file, -, hstatus, hp, hbytes⟩ | ⟨-, hstatus, hmissing⟩
  · rw [hclean] at hf
    cases hf
  · rw [hlength] at hp hbytes
    have hout : r.out.length = n := by
      rw [hread, if_neg fun h => h.1 hstatus, hbytes, FwcfgDevice.length_stream]
    rw [hread, if_neg fun h => h.1 hstatus] at hout ⊢
    refine ⟨hclean, hout, Or.inl ⟨hstatus, file, ?_, ?_⟩⟩
    · rwa [hout]
    · rw [hout, hbytes]
  · rw [hread, if_pos ⟨hstatus, by rwa [hlength]⟩, hlength]
    refine ⟨hclean, hlength, Or.inr ⟨hstatus, ?_⟩⟩
    rintro bytes hl ⟨file, hp, -⟩
    rw [hl] at hp
    rw [hlength] at hmissing
    exact hmissing file hp

/-! ### The interactive image -/

/-- `TCS_LAUNCH_ITEM`. -/
def launchItem : List UInt8 := "opt/tcs/launch-context".toList.map charByte

/-- `init` of `servers/launch_boot.c`. -/
def launchBootStart (mode : LaunchMode) (f : Firmware) : LaunchBoot :=
  let r := fwcfgRead (mmioIo f) (launchItem ++ [0]) (List.replicate launchBytes 0) f.start
  ⟨r.out, decide (r.status = .ok) && (launchDecode r.out mode).1⟩

/-- `protected` of `servers/launch_boot.c`, as a server. -/
def launchBootServer (ch : ℕ) : Peer LaunchBoot := fun s m => (launchBootProtected m.mr s ch m, s)

/-- The administrator after both servers have started. -/
def launchStart (mode : LaunchMode) (f : Firmware) (noise : Noise) (mr : Registers) : Admin :=
  launchAdminInit mode (ppcall noise (launchBootServer 0) (launchBootStart mode f) (launchRequest mr)).1

/-- The firmware offers this launch, and it is valid in this mode. -/
def Firmware.Launches (f : Firmware) (mode : LaunchMode) (launch : Launch) : Prop :=
  (launchEncode launch mode).1 = true ∧ f.Offers launchItem (launch.record mode)

theorem nameAt_launchItem : NameAt (launchItem ++ [0]) launchItem :=
  ⟨⟨[], rfl⟩, by decide, by decide⟩

/-- What the owner of the interface has read. -/
theorem launchBootStart_cases (mode : LaunchMode) (f : Firmware) :
    (∃ launch, f.Launches mode launch ∧
      launchBootStart mode f = launchBootInit mode (launch.record mode)) ∨
    ((∀ launch, ¬ f.Launches mode launch) ∧ (launchBootStart mode f).ready = false) := by
  obtain ⟨-, hlength, hread⟩ := fwcfgRead_mmio f nameAt_launchItem (by decide) (n := launchBytes)
    (by decide) (by decide) (s := f.start) rfl
  unfold launchBootStart
  dsimp only
  generalize fwcfgRead (mmioIo f) (launchItem ++ [0]) (List.replicate launchBytes 0) f.start = r at *
  rcases hread with ⟨hstatus, hoffers⟩ | ⟨hstatus, hnone⟩
  · rw [decide_eq_true hstatus, Bool.true_and]
    cases hdecode : (launchDecode r.out mode).1 with
    | true =>
      have hpair : launchDecode r.out mode = (true, (launchDecode r.out mode).2) := by
        rw [← hdecode]
      obtain ⟨hvalid, hrecord⟩ := launchDecode_ok_iff.mp hpair
      refine Or.inl ⟨_, ⟨launchEncode_ok_iff.mpr hvalid, hrecord ▸ hoffers⟩, ?_⟩
      rw [← hrecord]
      unfold launchBootInit
      rw [hdecode]
    | false =>
      refine Or.inr ⟨?_, rfl⟩
      rintro launch ⟨hvalid, hlaunch⟩
      rw [hoffers.unique hlaunch, launchDecode_record hvalid] at hdecode
      cases hdecode
  · refine Or.inr ⟨fun launch h => hnone _ (launch.length_record mode) h.2, ?_⟩
    rw [decide_eq_false hstatus, Bool.false_and]

theorem launchAdminInit_denied (mode : LaunchMode) {boot : LaunchBoot} (h : boot.ready = false)
    (mr : Registers) (msg : Message) (noise : Registers) :
    launchAdminInit mode ((launchBootProtected mr boot 0 msg).deliver noise) = Admin.zero := by
  have hdenied : launchBootProtected mr boot 0 msg = tcsReply mr ⟨Status.denied, 0⟩ :=
    if_pos (Or.inl (by rw [h]; rfl))
  rw [hdenied]
  exact if_pos (Or.inl (by simp [tcsReply]))

theorem launchStart_cases (mode : LaunchMode) (f : Firmware) (noise : Noise) (mr : Registers) :
    (∃ launch, f.Launches mode launch ∧ launchStart mode f noise mr = launch.admin) ∨
    ((∀ launch, ¬ f.Launches mode launch) ∧ launchStart mode f noise mr = Admin.zero) := by
  have hstart : launchStart mode f noise mr = launchAdminInit mode
      ((launchBootProtected ((launchRequest mr).deliver noise.callee).mr (launchBootStart mode f) 0
        ((launchRequest mr).deliver noise.callee)).deliver noise.caller) := by
    unfold launchStart launchBootServer
    rw [ppcall_eq]
  rcases launchBootStart_cases mode f with ⟨launch, hlaunch, hboot⟩ | ⟨hnone, hready⟩
  · rw [hstart, hboot]
    exact Or.inl ⟨launch, hlaunch, launchAdminInit_record hlaunch.1 _ mr noise⟩
  · rw [hstart]
    exact Or.inr ⟨hnone, launchAdminInit_denied mode hready _ _ noise.caller⟩

theorem Firmware.Launches.unique {f : Firmware} {mode : LaunchMode} {launch other : Launch}
    (h : f.Launches mode launch) (h' : f.Launches mode other) : launch = other := by
  have hdecode := launchDecode_record h.1
  rw [h.2.unique h'.2, launchDecode_record h'.1] at hdecode
  exact (Prod.mk.inj hdecode).2.symm

/-- **The administrator is what the firmware launches.** For every firmware, every mode of the build
and every content of the registers: the administrator is set up with the launch that the firmware
offers under the name, if it is a valid one for the mode; otherwise it is not set up. -/
theorem launch_boot_exact (mode : LaunchMode) (f : Firmware) (noise : Noise) (mr : Registers) :
    (∃ launch, f.Launches mode launch ∧ launchStart mode f noise mr = launch.admin ∧
      ∀ other, f.Launches mode other → other = launch) ∨
    ((∀ launch, ¬ f.Launches mode launch) ∧ launchStart mode f noise mr = Admin.zero) := by
  rcases launchStart_cases mode f noise mr with ⟨launch, hlaunch, hadmin⟩ | hnone
  · exact Or.inl ⟨launch, hlaunch, hadmin, fun _ hother => hother.unique hlaunch⟩
  · exact Or.inr hnone

/-! ### The image of the signed test -/

namespace Label

@[simp] abbrev testBootContext : UInt64 := 0x301
@[simp] abbrev testBootPacket : UInt64 := 0x302
@[simp] abbrev testBootData : UInt64 := 0x380

end Label

/-- `TCS_TEST_ADMIN_COMMANDS`. -/
@[simp] abbrev testCommands : ℕ := 12

/-- `TCS_BOOT_ITEM`. -/
def testItem : List UInt8 := "opt/tcs/test-context".toList.map charByte

/-- The name of a packet: its number, from 1 on, in two digits. -/
def packetItem (i : ℕ) : List UInt8 :=
  "opt/tcs/admin-".toList.map charByte ++
    [UInt8.ofNat (48 + (i + 1) / 10), UInt8.ofNat (48 + (i + 1) % 10)]

/-- The statics of `tests/admin/boot.c`. -/
structure TestBoot where
  ready : Bool
  context : List UInt8
  packets : List (List UInt8)

/-- The arrays of the packets that were not read. -/
def blankPackets (n : ℕ) : List (List UInt8) := List.replicate n (List.replicate adminPacketBytes 0)

/-- The loop over the packets, from packet `i` on, of which `n` are left: whether all were read. -/
def readPackets (f : Firmware) : ℕ → ℕ → FwcfgState → Bool × List (List UInt8)
  | 0, _, _ => (true, [])
  | n + 1, i, s =>
    let r := fwcfgRead (mmioIo f) (packetItem i ++ [0]) (List.replicate adminPacketBytes 0) s
    if r.status ≠ .ok then (false, r.out :: blankPackets n)
    else
      let (ok, packets) := readPackets f n (i + 1) r.state
      (ok, r.out :: packets)

/-- `init` of `tests/admin/boot.c`. -/
def testBootInit (f : Firmware) : TestBoot :=
  let r := fwcfgRead (mmioIo f) (testItem ++ [0]) (List.replicate bootBytes 0) f.start
  if r.status ≠ .ok ∨ (bootDecodeTest r.out).1 ≠ .ok then ⟨false, r.out, blankPackets testCommands⟩
  else
    let (ok, packets) := readPackets f testCommands 0 r.state
    ⟨ok, r.out, packets⟩

/-- `protected` of `tests/admin/boot.c`. -/
def testBootProtected (mr : Registers) (s : TestBoot) (ch : ℕ) (msg : Message) : Message :=
  if !s.ready then tcsReply mr ⟨Status.denied, 0⟩
  else if ch = 0 ∧ msg.label = Label.testBootContext ∧ msg.count = 0 then
    ⟨Label.testBootData, s.context.length / 8, wordsFromBytes mr s.context⟩
  else if ch = 1 ∧ msg.label = Label.testBootPacket ∧ msg.count = 1 ∧
      msg.mr 0 < UInt64.ofNat testCommands then
    ⟨Label.testBootData, adminPacketWords, wordsFromBytes mr (s.packets.getD (msg.mr 0).toNat [])⟩
  else tcsReply mr ⟨Status.badMessage, 0⟩

/-- `init` of `servers/admin.c`: the administrator it leaves, after the reply. -/
def testAdminInit (reply : Message) : Admin :=
  if reply.label ≠ Label.testBootData ∨ reply.count ≠ bootBytes / 8 then .zero
  else
    let (status, context) := bootDecodeTest (bytesFromWords reply.mr bootBytes)
    if status ≠ .ok then .zero
    else (adminInit .zero context.publicKey context.realm context.boot).2

/-! ### The context of the test -/

/-- The bytes of a context. -/
def BootContext.record (context : BootContext) : List UInt8 :=
  bootPrefix ++ (context.realm.toList ++ (context.boot.toList ++ context.publicKey.toList))

@[simp] theorem BootContext.length_record (context : BootContext) :
    context.record.length = bootBytes := by
  simp [BootContext.record, bootPrefix]

/-- All fields are there. -/
def BootContext.Full (context : BootContext) : Prop :=
  nonzero context.realm = true ∧ nonzero context.boot = true ∧ nonzero context.publicKey = true

theorem BootContext.record_fields (context : BootContext) :
    Bytes.slice context.record 0 16 = bootPrefix ∧
      Bytes.field context.record 16 32 = context.realm ∧
      Bytes.field context.record 48 32 = context.boot ∧
      Bytes.field context.record 80 32 = context.publicKey := by
  refine ⟨Bytes.slice_left rfl, Bytes.field_append rfl, ?_, ?_⟩
  · unfold BootContext.record
    rw [← List.append_assoc]
    exact Bytes.field_append (by simp [bootPrefix])
  · unfold BootContext.record
    rw [← List.append_assoc, ← List.append_assoc, ← List.append_nil context.publicKey.toList]
    exact Bytes.field_append (by simp [bootPrefix])

/-- Bytes with the prefix are the record of what is read from them. -/
theorem BootContext.record_of_prefix {bytes : List UInt8} (hlen : bytes.length = bootBytes)
    (hfixed : Bytes.slice bytes 0 16 = bootPrefix) :
    BootContext.record ⟨Bytes.field bytes 16 32, Bytes.field bytes 48 32, Bytes.field bytes 80 32⟩ =
      bytes := by
  have hsize : bytes.length = 16 + (32 + (32 + 32)) := hlen
  calc BootContext.record ⟨Bytes.field bytes 16 32, Bytes.field bytes 48 32, Bytes.field bytes 80 32⟩
      = Bytes.slice bytes 0 16 ++
          (Bytes.slice bytes 16 32 ++ (Bytes.slice bytes 48 32 ++ Bytes.slice bytes 80 32)) := by
        unfold BootContext.record
        rw [hfixed, Bytes.toList_field (by omega), Bytes.toList_field (by omega),
          Bytes.toList_field (by omega)]
    _ = Bytes.slice bytes 0 (16 + (32 + (32 + 32))) := by
        rw [Bytes.slice_add, Bytes.slice_add, Bytes.slice_add]
    _ = bytes := Bytes.slice_all hsize

/-- **Test contexts.** The decoder accepts the records of full contexts and no others. -/
theorem bootDecodeTest_ok_iff {bytes : List UInt8} {context : BootContext} :
    bootDecodeTest bytes = (.ok, context) ↔ context.Full ∧ bytes = context.record := by
  constructor
  · intro h
    obtain ⟨hlen, hfixed⟩ := bootDecodeTest_ok (congrArg Prod.fst h)
    unfold bootDecodeTest at h
    rw [if_neg (not_not.mpr hlen), if_neg (not_not.mpr hfixed)] at h
    have hrecord := BootContext.record_of_prefix hlen hfixed
    split_ifs at h with hany
    · cases congrArg Prod.fst h
    · have hcontext := congrArg Prod.snd h
      dsimp only at hcontext
      rw [← hcontext, hrecord]
      exact ⟨by simpa [BootContext.Full] using hany, rfl⟩
  · rintro ⟨⟨hrealm, hboot, hkey⟩, rfl⟩
    obtain ⟨hfixed, h1, h2, h3⟩ := context.record_fields
    unfold bootDecodeTest
    rw [if_neg (not_not.mpr context.length_record), if_neg (not_not.mpr hfixed)]
    simp [h1, h2, h3, hrealm, hboot, hkey]

/-- The administrator of a context, before its first packet. -/
def BootContext.admin (context : BootContext) : Admin :=
  ⟨context.publicKey, context.realm, context.boot, 1, 0, true, false⟩

/-! ### What the test is supplied with -/

/-- The firmware offers these packets, from packet `i` on. -/
def Firmware.Carries (f : Firmware) : ℕ → List (List UInt8) → Prop
  | _, [] => True
  | i, packet :: packets =>
    (packet.length = adminPacketBytes ∧ f.Offers (packetItem i) packet) ∧ f.Carries (i + 1) packets

/-- The firmware has a context and all packets. -/
structure Firmware.Supplies (f : Firmware) (context : BootContext) (packets : List (List UInt8)) :
    Prop where
  full : context.Full
  context : f.Offers testItem context.record
  count : packets.length = testCommands
  packets : f.Carries 0 packets

theorem Firmware.Carries.unique {f : Firmware} {i : ℕ} {packets packets' : List (List UInt8)}
    (h : f.Carries i packets) (h' : f.Carries i packets') (hl : packets.length = packets'.length) :
    packets = packets' := by
  induction packets generalizing i packets' with
  | nil => exact (List.length_eq_zero_iff.mp hl.symm).symm
  | cons packet packets ih =>
    cases packets' with
    | nil => cases hl
    | cons packet' packets' =>
      rw [h.1.2.unique h'.1.2, ih h.2 h'.2 (Nat.succ.inj hl)]

theorem Firmware.Carries.length {f : Firmware} {i : ℕ} {packets : List (List UInt8)}
    (h : f.Carries i packets) {j : ℕ} (hj : j < packets.length) :
    packets[j].length = adminPacketBytes := by
  induction packets generalizing i j with
  | nil => cases hj
  | cons packet packets ih =>
    cases j with
    | zero => exact h.1.1
    | succ j => exact ih h.2 (Nat.lt_of_succ_lt_succ hj)

theorem nameAt_testItem : NameAt (testItem ++ [0]) testItem := ⟨⟨[], rfl⟩, by decide, by decide⟩

theorem length_packetItem (i : ℕ) : (packetItem i).length = 16 := by
  unfold packetItem
  rw [List.length_append, List.length_map]
  rfl

theorem nameAt_packetItem {i : ℕ} (hi : i < testCommands) :
    NameAt (packetItem i ++ [0]) (packetItem i) := by
  have hall : ∀ i < testCommands, 0 ∉ packetItem i := by decide +kernel
  exact ⟨⟨[], rfl⟩, hall i hi, by rw [length_packetItem]; decide⟩

/-- **The loop reads what the firmware carries**, or stops. -/
theorem readPackets_spec (f : Firmware) (n : ℕ) {i : ℕ} (hi : i + n ≤ testCommands)
    {s : FwcfgState} (hs : s.failed = false) :
    let out := readPackets f n i s
    (out.1 = true → out.2.length = n ∧ f.Carries i out.2) ∧
      (out.1 = false → ∀ packets, packets.length = n → ¬ f.Carries i packets) := by
  induction n generalizing i s with
  | zero => exact ⟨fun _ => ⟨rfl, trivial⟩, fun h => Bool.noConfusion h⟩
  | succ n ih =>
    obtain ⟨hclean, hlength, hread⟩ := fwcfgRead_mmio f (nameAt_packetItem (i := i) (by omega))
      (List.ne_nil_of_length_pos (by rw [length_packetItem]; decide)) (n := adminPacketBytes)
      (by decide) (by decide) hs
    intro out
    have hout : out = readPackets f (n + 1) i s := rfl
    unfold readPackets at hout
    dsimp only at hout
    generalize fwcfgRead (mmioIo f) (packetItem i ++ [0]) (List.replicate adminPacketBytes 0) s = r
      at hclean hlength hread hout
    rcases hread with ⟨hstatus, hoffers⟩ | ⟨hstatus, hnone⟩
    · obtain ⟨hread, hstop⟩ := ih (i := i + 1) (by omega) hclean
      rw [if_neg (not_not.mpr hstatus)] at hout
      rw [hout]
      refine ⟨fun hok => ?_, fun hok packets hl hcarries => ?_⟩
      · obtain ⟨hcount, hrest⟩ := hread hok
        exact ⟨by rw [List.length_cons, hcount], ⟨hlength, hoffers⟩, hrest⟩
      · cases packets with
        | nil => cases hl
        | cons packet packets => exact hstop hok packets (Nat.succ.inj hl) hcarries.2
    · rw [if_pos hstatus] at hout
      rw [hout]
      refine ⟨fun hok => Bool.noConfusion hok, fun _ packets hl hcarries => ?_⟩
      cases packets with
      | nil => cases hl
      | cons packet packets => exact hnone packet hcarries.1.1 hcarries.1.2

theorem testBootInit_cases (f : Firmware) :
    (∃ context packets, f.Supplies context packets ∧
      testBootInit f = ⟨true, context.record, packets⟩) ∨
    ((∀ context packets, ¬ f.Supplies context packets) ∧ (testBootInit f).ready = false) := by
  obtain ⟨hclean, -, hread⟩ := fwcfgRead_mmio f nameAt_testItem (by decide) (n := bootBytes)
    (by decide) (by decide) (s := f.start) rfl
  unfold testBootInit
  dsimp only
  generalize fwcfgRead (mmioIo f) (testItem ++ [0]) (List.replicate bootBytes 0) f.start = r at *
  rcases hread with ⟨hstatus, hoffers⟩ | ⟨hstatus, hnone⟩
  · by_cases hdecode : (bootDecodeTest r.out).1 = .ok
    · rw [if_neg (not_or.mpr ⟨not_not.mpr hstatus, not_not.mpr hdecode⟩)]
      obtain ⟨hfull, hrecord⟩ := bootDecodeTest_ok_iff.mp
        (show bootDecodeTest r.out = (.ok, (bootDecodeTest r.out).2) by rw [← hdecode])
      rw [hrecord] at hoffers
      obtain ⟨hall, hstop⟩ := readPackets_spec f testCommands (i := 0) (by decide) hclean
      generalize readPackets f testCommands 0 r.state = out at hall hstop
      obtain ⟨ok, packets⟩ := out
      cases ok with
      | true =>
        obtain ⟨hcount, hcarries⟩ := hall rfl
        exact Or.inl ⟨_, packets, ⟨hfull, hoffers, hcount, hcarries⟩, by rw [← hrecord]⟩
      | false =>
        exact Or.inr ⟨fun context packets h => hstop rfl packets h.count h.packets, rfl⟩
    · rw [if_pos (Or.inr hdecode)]
      refine Or.inr ⟨fun context packets h => hdecode ?_, rfl⟩
      rw [hoffers.unique h.context, bootDecodeTest_ok_iff.mpr ⟨h.full, rfl⟩]
  · rw [if_pos (Or.inl hstatus)]
    exact Or.inr ⟨fun context packets h => hnone _ context.length_record h.context, rfl⟩

/-- `protected` of `tests/admin/boot.c`, as a server. -/
def testBootServer (ch : ℕ) : Peer TestBoot := fun s m => (testBootProtected m.mr s ch m, s)

/-- The administrator of the test after both servers have started. -/
def testStart (f : Firmware) (noise : Noise) (mr : Registers) : Admin :=
  testAdminInit (ppcall noise (testBootServer 0) (testBootInit f) ⟨Label.testBootContext, 0, mr⟩).1

/-- The call of `exercise` for a packet. -/
def packetCall (f : Firmware) (noise : Noise) (mr : Registers) (i : UInt64) : Message :=
  (ppcall noise (testBootServer 1) (testBootInit f) ⟨Label.testBootPacket, 1, mr.set 0 i⟩).1

theorem testAdminInit_record {context : BootContext} (h : context.Full)
    (packets : List (List UInt8)) (noise : Noise) (mr : Registers) :
    testAdminInit (ppcall noise (testBootServer 0) ⟨true, context.record, packets⟩
      ⟨Label.testBootContext, 0, mr⟩).1 = context.admin := by
  have hlen : context.record.length = 8 * 14 := context.length_record
  have hreply : ∀ mr : Registers, ∀ m : Message, m.label = Label.testBootContext → m.count = 0 →
      testBootProtected mr ⟨true, context.record, packets⟩ 0 m =
        ⟨Label.testBootData, 14, wordsFromBytes mr context.record⟩ := by
    intro mr m hlabel hcount
    have h0 : testBootProtected mr ⟨true, context.record, packets⟩ 0 m =
        ⟨Label.testBootData, context.record.length / 8, wordsFromBytes mr context.record⟩ :=
      (if_neg Bool.false_ne_true).trans (if_pos ⟨rfl, hlabel, hcount⟩)
    rw [h0, hlen]
  unfold testAdminInit testBootServer
  rw [ppcall_eq, hreply _ _ rfl rfl, if_neg (by simp), bytesFromWords_deliver _ hlen,
    bootDecodeTest_ok_iff.mpr ⟨h, rfl⟩]
  simp [adminInit, h.1, h.2.1, h.2.2, Admin.zero, BootContext.admin]

theorem packetCall_reply {f : Firmware} {context : List UInt8} {packets : List (List UInt8)}
    (hboot : testBootInit f = ⟨true, context, packets⟩) (hcount : packets.length = testCommands)
    (noise : Noise) (mr : Registers) {i : ℕ} (hi : i < packets.length)
    (hlength : packets[i].length = adminPacketBytes) :
    let reply := packetCall f noise mr (UInt64.ofNat i)
    reply.label = Label.testBootData ∧ reply.count = adminPacketWords ∧
      bytesFromWords reply.mr adminPacketBytes = packets[i] := by
  rw [hcount] at hi
  have hnat : (UInt64.ofNat i).toNat = i := by
    rw [UInt64.toNat_ofNat']
    exact Nat.mod_eq_of_lt (hi.trans (by decide))
  have hreply : ∀ mr : Registers, ∀ m : Message, m.label = Label.testBootPacket → m.count = 1 →
      m.mr 0 = UInt64.ofNat i → testBootProtected mr ⟨true, context, packets⟩ 1 m =
        ⟨Label.testBootData, adminPacketWords, wordsFromBytes mr packets[i]⟩ := by
    intro mr m hlabel hone hword
    have hlt : m.mr 0 < UInt64.ofNat testCommands := by
      rw [hword, UInt64.lt_iff_toNat_lt, hnat]
      exact hi
    have h0 : testBootProtected mr ⟨true, context, packets⟩ 1 m = ⟨Label.testBootData,
        adminPacketWords, wordsFromBytes mr (packets.getD (m.mr 0).toNat [])⟩ :=
      (if_neg Bool.false_ne_true).trans ((if_neg fun h => absurd h.1 (by decide)).trans
        (if_pos ⟨rfl, hlabel, hone, hlt⟩))
    rw [h0, hword, hnat, List.getD_eq_getElem]
  have hword : ((⟨Label.testBootPacket, 1, mr.set 0 (UInt64.ofNat i)⟩ : Message).deliver
      noise.callee).mr 0 = UInt64.ofNat i := by
    rw [Message.deliver_mr noise.callee (show 0 < 1 by decide)]
    exact (Registers.set_apply mr 0 0 _).trans (if_pos rfl)
  intro reply
  have hcall : reply = (⟨Label.testBootData, adminPacketWords, wordsFromBytes
      ((⟨Label.testBootPacket, 1, mr.set 0 (UInt64.ofNat i)⟩ : Message).deliver noise.callee).mr
        packets[i]⟩ : Message).deliver noise.caller := by
    show packetCall f noise mr (UInt64.ofNat i) = _
    unfold packetCall testBootServer
    rw [hboot, ppcall_eq, hreply _ _ rfl rfl hword]
  rw [hcall]
  exact ⟨rfl, rfl, bytesFromWords_deliver _ hlength _ _⟩

theorem Firmware.Supplies.unique {f : Firmware} {context context' : BootContext}
    {packets packets' : List (List UInt8)} (h : f.Supplies context packets)
    (h' : f.Supplies context' packets') : context = context' ∧ packets = packets' := by
  have hdecode := bootDecodeTest_ok_iff.mpr ⟨h.full, rfl⟩
  rw [h.context.unique h'.context, bootDecodeTest_ok_iff.mpr ⟨h'.full, rfl⟩] at hdecode
  exact ⟨(Prod.mk.inj hdecode).2.symm, h.packets.unique h'.packets (by rw [h.count, h'.count])⟩

/-- **The test starts with all of its files or with none.** For every firmware: if it has a full
context and the twelve packets, the administrator is set up with the context, and a call for a packet
is answered with that packet; otherwise the administrator is not set up, and every call for anything
is denied. -/
theorem test_boot_exact (f : Firmware) (noise : Noise) (mr : Registers) :
    (∃ context packets, f.Supplies context packets ∧ testStart f noise mr = context.admin ∧
      ∀ i : ℕ, ∀ hi : i < packets.length,
        (packetCall f noise mr (UInt64.ofNat i)).label = Label.testBootData ∧
        (packetCall f noise mr (UInt64.ofNat i)).count = adminPacketWords ∧
        bytesFromWords (packetCall f noise mr (UInt64.ofNat i)).mr adminPacketBytes = packets[i]) ∨
    ((∀ context packets, ¬ f.Supplies context packets) ∧ testStart f noise mr = Admin.zero ∧
      ∀ (ch : ℕ) (msg : Message), testBootProtected mr (testBootInit f) ch msg =
        tcsReply mr ⟨Status.denied, 0⟩) := by
  rcases testBootInit_cases f with ⟨context, packets, hsupplies, hboot⟩ | ⟨hnone, hready⟩
  · refine Or.inl ⟨context, packets, hsupplies, ?_, fun i hi => ?_⟩
    · unfold testStart
      rw [hboot]
      exact testAdminInit_record hsupplies.full packets noise mr
    · exact packetCall_reply hboot hsupplies.count noise mr hi (hsupplies.packets.length hi)
  · have hdenied : ∀ (mr : Registers) (ch : ℕ) (msg : Message),
        testBootProtected mr (testBootInit f) ch msg = tcsReply mr ⟨Status.denied, 0⟩ :=
      fun mr ch msg => if_pos (by rw [hready]; rfl)
    refine Or.inr ⟨hnone, ?_, hdenied mr⟩
    unfold testStart testBootServer
    rw [ppcall_eq, hdenied]
    exact if_pos (Or.inl (by simp [tcsReply]))

end Tcs
