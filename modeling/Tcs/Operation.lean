/-
# From the command line to the table

Host and guest together. The operator's tool has run any commands; a session
has been launched, so that `launch.used` is what QEMU gives the guest as the
item of the launch; and the requests of this session are typed at the image,
in the order of their numbers.

Then every request is executed, in its turn (`operation_exact`). The files
are in order (`Operator.host_records`), so each packet is signed for the
launch and has the number that is due; the firmware gives the administrator
this launch (`powerOn_launched`); so no packet is rejected
(`submits_execute`), and the image does what the session says
(`Tallies.session`). What is in the table stood on a command line with its
digest.

Key definitions: `Operator.Numbered`, `Book.execute`, `Turn`.
Key theorems: `Operator.Numbered.inTurn`, `submits_execute`,
`operation_exact`.
-/
import Tcs.Host
import Tcs.PowerOn
import Tcs.Session

namespace Tcs

open Ipc

/-! ### The requests of a session -/

theorem Executable.sequence_ne {c : AdminCommand} (h : Executable c) : c.sequence ≠ 0 := by
  cases h <;> assumption

namespace Operator

/-- The requests 1, 2, ... of a session are there, and whole. -/
def Numbered (d : Files.Dir (List Char) UInt8) (packets : List (List UInt8)) : Prop :=
  ∀ i (hi : i < packets.length), d (requestName (UInt64.ofNat (i + 1))) = some packets[i] ∧
    packets[i].length = adminPacketBytes

/-- A packet of a launch, for the place after `n` others; some command line has asked for it. -/
structure InTurn (crypto : Crypto) (mode : LaunchMode) (asked : Args → List Char → Prop)
    (launch : Launch) (n : ℕ) (packet : List UInt8) : Prop where
  approved : ∃ args approval, asked args approval ∧ Approved crypto mode launch packet args approval
  sequence : (packetCommand packet).sequence.toNat = n + 1

section

variable {crypto : Crypto} {mode : LaunchMode} {known : Identity → Prop}
  {asked : Args → List Char → Prop} {d : Files.Dir (List Char) UInt8} {packets : List (List UInt8)}
  {launch : Launch}

theorem InTurn.signed {n : ℕ} {packet : List UInt8} (h : InTurn crypto mode asked launch n packet) :
    Signed crypto.check launch.identity.publicKey launch.identity.realm launch.boot packet := by
  obtain ⟨_, _, _, happroved⟩ := h.approved
  exact happroved.signed

/-- What a numbered file of a session in order holds. -/
theorem Numbered.request (hp : Numbered d packets) (h : DirOk crypto mode known asked d)
    (hl : SessionOf mode d launch) {i : ℕ} (hi : i < packets.length) :
    (∃ args approval, asked args approval ∧ Approved crypto mode launch packets[i] args approval) ∧
      (packetCommand packets[i]).sequence = UInt64.ofNat (i + 1) := by
  obtain ⟨hfile, hlength⟩ := hp i hi
  obtain ⟨launch', args, approval, hl', happroved, hasked, hsequence⟩ := h.request _ _ hfile hlength
  obtain rfl := hl.unique hl'
  exact ⟨⟨args, approval, hasked, happroved⟩, hsequence⟩

theorem Numbered.length_lt (hp : Numbered d packets) (h : DirOk crypto mode known asked d)
    (hl : SessionOf mode d launch) : packets.length < 2 ^ 64 := by
  by_contra hmany
  obtain ⟨⟨_, _, _, happroved⟩, hsequence⟩ := hp.request h hl (i := 2 ^ 64 - 1) (by omega)
  exact happroved.signed.command.sequence_ne (hsequence.trans rfl)

/-- **The requests are in turn.** -/
theorem Numbered.inTurn (hp : Numbered d packets) (h : DirOk crypto mode known asked d)
    (hl : SessionOf mode d launch) {i : ℕ} (hi : i < packets.length) :
    InTurn crypto mode asked launch i packets[i] := by
  have hbound := hp.length_lt h hl
  obtain ⟨happroved, hsequence⟩ := hp.request h hl hi
  refine ⟨happroved, ?_⟩
  rw [hsequence, UInt64.toNat_ofNat']
  exact Nat.mod_eq_of_lt (by omega)

end

end Operator

/-! ### The book of a session in turn -/

/-- A command is executed, and its receipt is shown. -/
def Book.execute (b : Book) (packet : List UInt8) : Book :=
  let command := packetCommand packet
  let executed := adminExecute b.table command b.audit.room
  ⟨b.admin.completed, executed.2, b.audit.decided b.table command,
    b.printed ++ submitText packet ++ (receiptText executed.1 ++ promptText)⟩

/-- The administrator of a launch, with nothing pending, after `n` commands. -/
structure Turn (launch : Launch) (n : ℕ) (a : Admin) : Prop where
  publicKey : a.publicKey = launch.identity.publicKey
  realm : a.realm = launch.identity.realm
  boot : a.boot = launch.boot
  initialized : a.initialized = true
  idle : a.pendingSequence = 0
  notExhausted : a.exhausted = false
  next : a.nextSequence.toNat = n + 1

theorem turn_start (launch : Launch) : Turn launch 0 launch.admin :=
  ⟨rfl, rfl, rfl, rfl, rfl, rfl, rfl⟩

section

variable {crypto : Operator.Crypto} {mode : LaunchMode}
  {asked : Operator.Args → List Char → Prop} {launch : Launch} {n : ℕ} {a : Admin}
  {packet : List UInt8}

theorem Turn.admits (h : Turn launch n a)
    (hp : Operator.InTurn crypto mode asked launch n packet) : Admits crypto.check a packet := by
  refine ⟨h.initialized, h.idle, h.notExhausted, ?_, ?_⟩
  · rw [h.publicKey, h.realm, h.boot]
    exact hp.signed
  · exact UInt64.toNat_inj.mp (hp.sequence.trans h.next.symm)

theorem Turn.completed (h : Turn launch n a) (hn : n + 2 < 2 ^ 64) :
    Turn launch (n + 1) a.completed := by
  have hne : a.nextSequence ≠ Word.max := by
    intro heq
    have hnext := h.next
    rw [heq] at hnext
    have hmax : Word.max.toNat = 2 ^ 64 - 1 := rfl
    omega
  have hconsumed : a.consumed =
      { a with pendingSequence := a.nextSequence, nextSequence := a.nextSequence + 1 } := if_neg hne
  unfold Admin.completed
  rw [hconsumed]
  refine ⟨h.publicKey, h.realm, h.boot, h.initialized, rfl, h.notExhausted, ?_⟩
  show (a.nextSequence + 1).toNat = n + 1 + 1
  rw [UInt64.toNat_add, h.next]
  exact Nat.mod_eq_of_lt hn

/-- **Nothing is rejected**: packets in turn are executed, one after the other. -/
theorem submits_execute (packets : List (List UInt8)) : ∀ {n : ℕ} {b : Book},
    Turn launch n b.admin → n + packets.length < 2 ^ 64 →
    (∀ i (hi : i < packets.length),
      Operator.InTurn crypto mode asked launch (n + i) packets[i]) →
    packets.foldl (Book.submit crypto.check) b = packets.foldl Book.execute b := by
  induction packets with
  | nil => exact fun _ _ _ => rfl
  | cons packet packets ih =>
    intro n b hturn hn hpackets
    have hfirst : Admits crypto.check b.admin packet := hturn.admits (hpackets 0 (by simp))
    rw [List.foldl_cons, List.foldl_cons, Book.submit_admitted hfirst]
    rw [List.length_cons] at hn
    rcases packets with _ | ⟨second, packets⟩
    · rfl
    rw [List.length_cons] at hn
    refine ih (n := n + 1) (b := b.execute packet) (hturn.completed (by omega))
      (by rw [List.length_cons]; omega) fun i hi => ?_
    have hnext := hpackets (i + 1) (by simpa using hi)
    rw [List.getElem_cons_succ, show n + (i + 1) = n + 1 + i by omega] at hnext
    exact hnext

end

/-! ### The whole way -/

theorem Book.start_launch (profile : Profile) {mode : LaunchMode} {launch : Launch}
    (hl : (launchEncode launch mode).1 = true) :
    (Book.start profile (some (launch.identity.publicKey, launch.identity.realm, launch.boot))).admin =
      launch.admin := by
  obtain ⟨hvalid, hboot⟩ := launchEncode_ok_iff.mp hl
  obtain ⟨hrealm, hkey⟩ := identityValid_nonzero hvalid
  show (adminInit Admin.zero launch.identity.publicKey launch.identity.realm launch.boot).2 = _
  unfold adminInit
  rw [if_neg (by simp [Admin.zero, hkey, hrealm, hboot])]
  rfl

/-- **From the command line to the table.** The operator's tool has run any commands, each of which
may have ended anywhere. A session of the host has been launched, so `launch.used` is whole, and the
firmware of the guest offers it; its requests 1, 2, ... are whole. They are typed at the image in
this order, and nothing else, with room in the queue; registers, interrupts, schedule and transmitter
are arbitrary. Then `launch.used` is a launch of an identity of the host, and each of the packets was
asked for on a command line with the digest of its message. Where nothing is due any more, each of
them has been executed in its turn: administrator, table and audit are what that makes of them, and
the wire carries their receipts. -/
theorem operation_exact {κ : Type*} [DecidableEq κ] {profile : Profile} (hbuilt : profile.Built)
    (hsigned : profile.signed = true) (crypto : Operator.Crypto) (mode : LaunchMode)
    (commands : List (Operator.HostCommand κ)) {path : κ} {d : Files.Dir (List Char) UInt8}
    (hd : Run.final (Operator.hostStep crypto mode) .empty commands path = some d)
    {used : List UInt8} (hused : d Operator.launchUsed = some used)
    (hwhole : used.length = launchBytes) {packets : List (List UInt8)}
    (hpackets : Operator.Numbered d packets) {f : Firmware} (hoffers : f.Offers launchItem used)
    (hop : Noise) (mr : Registers) (noise : ℕ → Noise × Hops) (actions : List LinkAction)
    (hroomy : ∀ e ∈ Run.trace (linkStep profile imageClient (imageAdministrator crypto.check))
      (Link.boot profile (Image.powerOn mode f hop mr noise)) actions, LinkEntry.Roomy e)
    (harrived : actions.flatMap arrivals = (packets.flatMap submitBytes).map some) :
    ∃ launch, used = launch.record mode ∧
      Operator.Knows mode (Run.final (Operator.hostStep crypto mode) .empty commands)
        launch.identity ∧
      (∀ packet ∈ packets, ∃ args approval, Operator.Asked commands path args approval ∧
        Operator.Approved crypto mode launch packet args approval) ∧
      let s := Run.final (linkStep profile imageClient (imageAdministrator crypto.check))
        (Link.boot profile (Image.powerOn mode f hop mr noise)) actions
      let book := packets.foldl Book.execute
        (Book.start profile (some (launch.identity.publicKey, launch.identity.realm, launch.boot)))
      (∀ a, ¬ s.Due a) → s.peer.admin = book.admin ∧ s.peer.policy.live = book.table ∧
        s.peer.audit = book.audit ∧ s.driver.wire = book.printed.map charByte := by
  have hok : Operator.DirOk crypto mode _ (Operator.Asked commands path) d :=
    Operator.coherent_run commands path d hd
  obtain ⟨launch, hl, hbegins⟩ := hok.used used hused
  obtain rfl : used = launch.record mode :=
    hbegins.eq_of_length (hwhole.trans (launch.length_record mode).symm)
  refine ⟨launch, rfl, hok.context launch hl, ?_, ?_⟩
  · intro packet hp
    obtain ⟨i, hi, rfl⟩ := List.getElem_of_mem hp
    exact (hpackets.inTurn hok hl hi).approved
  intro s book hnone
  -- the administrator is the one of the launch
  have hlaunch : f.Launches mode launch := ⟨hl.2, hoffers⟩
  have hadmin : launchStart mode f hop mr = launch.admin := by
    rcases launchStart_cases mode f hop mr with ⟨other, hother, hstart⟩ | ⟨hnot, -⟩
    · rw [hstart, hother.unique hlaunch]
    · exact absurd hlaunch (hnot launch)
  -- every packet is in its turn
  have hturns : ∀ i (hi : i < packets.length),
      Operator.InTurn crypto mode (Operator.Asked commands path) launch (0 + i) packets[i] := by
    intro i hi
    rw [Nat.zero_add]
    exact hpackets.inTurn hok hl hi
  have hexecuted : packets.foldl (Book.submit crypto.check) (Book.start profile
      (some (launch.identity.publicKey, launch.identity.realm, launch.boot))) = book := by
    refine submits_execute packets ?_ ?_ hturns
    · rw [Book.start_launch profile hl.2]
      exact turn_start launch
    · rw [Nat.zero_add]
      exact hpackets.length_lt hok hl
  have hlength : ∀ packet ∈ packets, packet.length = adminPacketBytes := by
    intro packet hp
    obtain ⟨i, hi, rfl⟩ := List.getElem_of_mem hp
    exact (hpackets i hi).2
  obtain ⟨-, hpeer, hwire⟩ := typed_drained hbuilt counted_imageClient
    (counted_imageAdministrator crypto.check) _ actions hroomy harrived.symm hnone
  have h : Tallies (packets.foldl (Book.submit crypto.check) _) _ :=
    (tallies_start profile (some (launch.identity.publicKey, launch.identity.realm,
      launch.boot)) noise).session hsigned hlength
  rw [← powerOn_launched hlaunch hadmin noise, hexecuted] at h
  rw [hpeer, hwire, h.printed]
  exact ⟨h.admin, h.table, h.audit, rfl⟩

/-- An identity is created and a session prepared; the grant is signed, and the session launched. -/
def grantCommands : List (Operator.HostCommand ℕ) :=
  [.create 0 (some (Operator.grantSeed ++ grantLaunch.identity.realm)) .opened .complete .complete,
    .context 0 1 true (some grantLaunch.boot) .opened .complete,
    .request 0 1 true grantArgs (some (hexText Operator.grantDigest)) .complete,
    .launch 0 1 true [0x2f, 0x69] [0x2f, 0x71] (some 2) (some [1, 2]) .complete .complete true]

/-- The image as the firmware with this launch starts it. -/
def grantBoot : Link Image :=
  Link.boot fixtureProfile (Image.powerOn .fixture grantFirmware ⟨fun _ => 0, fun _ => 0⟩
    (fun _ => 0) quietNoise)

theorem grantCommands_files :
    ∃ d, Run.final (Operator.hostStep Operator.grantCrypto .fixture) .empty grantCommands 1 = some d ∧
      d Operator.launchUsed = some (grantLaunch.record .fixture) ∧
      d (Operator.requestName 1) = some grantPacket := by
  have hused : (Run.final (Operator.hostStep Operator.grantCrypto .fixture) .empty grantCommands 1).bind
      (fun d => d Operator.launchUsed) = some (grantLaunch.record .fixture) := by decide +kernel
  have hrequest : (Run.final (Operator.hostStep Operator.grantCrypto .fixture) .empty grantCommands
      1).bind (fun d => d (Operator.requestName 1)) = some grantPacket := by decide +kernel
  obtain ⟨d, hd, hused⟩ := Option.bind_eq_some_iff.mp hused
  rw [hd] at hrequest
  exact ⟨d, hd, hused, hrequest⟩

/-- The grant is signed on the host, typed at the image, and in the table. -/
theorem operation_exact_grant :
    let administrator := imageAdministrator Operator.grantCrypto.check
    let s := Run.final (linkStep fixtureProfile imageClient administrator) grantBoot
      (typing fixtureProfile imageClient administrator ([grantPacket].flatMap submitBytes) grantBoot)
    s.peer.admin.nextSequence = 2 ∧ (s.peer.policy.live.at 0).generation = 1 := by
  obtain ⟨d, hd, hused, hrequest⟩ := grantCommands_files
  obtain ⟨hroomy, harrived, hquiet⟩ := typing_quiet fixtureProfile_built counted_imageClient
    (counted_imageAdministrator Operator.grantCrypto.check) (s := grantBoot)
    ⟨awake_boot _, _, follows_boot fixtureProfile_built _⟩ ([grantPacket].flatMap submitBytes)
  have hnumbered : Operator.Numbered d [grantPacket] := by
    intro i hi
    obtain rfl : i = 0 := by simpa using hi
    exact ⟨hrequest, rfl⟩
  unfold grantBoot at hroomy hquiet harrived ⊢
  obtain ⟨launch, heq, -, -, h⟩ := operation_exact fixtureProfile_built rfl Operator.grantCrypto
    .fixture grantCommands hd hused (grantLaunch.length_record .fixture) hnumbered
    grantFirmware_launches.2 ⟨fun _ => 0, fun _ => 0⟩ (fun _ => 0) quietNoise _ hroomy harrived
  obtain rfl := Operator.launch_of_record heq
  obtain ⟨hadmin, htable, -, -⟩ := h hquiet
  dsimp only
  rw [hadmin, htable]
  have hbook : ∀ book, book = [grantPacket].foldl Book.execute (Book.start fixtureProfile
      (some (grantLaunch.identity.publicKey, grantLaunch.identity.realm, grantLaunch.boot))) →
        book.admin.nextSequence = 2 ∧ (book.table.at 0).generation = 1 := by
    intro book hb
    rw [hb]
    decide +kernel
  exact hbook _ rfl

end Tcs
