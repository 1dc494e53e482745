/-
# The interactive image from power-on

Firmware, boot owner, administrator, policy, audit, client, storage, terminal
and serial driver in one run. What the administrator is set up with comes
from the firmware (`launchStart_cases`), and what it executes was typed
(`executed_called`); so authority has these two sources and no other
(`power_on_authority`). Where the firmware launches nothing, nothing that is
typed has any effect on the policy.

Key definitions: `Image.powerOn`, `Inert`.
Key theorems: `inert_called`, `power_on_authority`.
-/
import Tcs.Boot
import Tcs.Interactive
import Tcs.Operator

namespace Tcs

open Ipc

/-- The servers after they have started: the administrator with what the boot owner gives it. -/
def Image.powerOn (mode : LaunchMode) (f : Firmware) (hop : Noise) (mr : Registers)
    (noise : ℕ → Noise × Hops) : Image :=
  { Image.start none noise with admin := launchStart mode f hop mr }

theorem powerOn_launched {mode : LaunchMode} {f : Firmware} {hop : Noise} {mr : Registers}
    {launch : Launch} (hlaunch : f.Launches mode launch)
    (hadmin : launchStart mode f hop mr = launch.admin) (noise : ℕ → Noise × Hops) :
    Image.powerOn mode f hop mr noise =
      Image.start (some (launch.identity.publicKey, launch.identity.realm, launch.boot)) noise := by
  obtain ⟨hvalid, hboot⟩ := launchEncode_ok_iff.mp hlaunch.1
  obtain ⟨hrealm, hkey⟩ := identityValid_nonzero hvalid
  have hinit : (adminInit Admin.zero launch.identity.publicKey launch.identity.realm
      launch.boot).2 = launch.admin := by
    unfold adminInit
    rw [if_neg (by simp [Admin.zero, hkey, hrealm, hboot])]
    rfl
  unfold Image.powerOn Image.start SignedSystem.start
  dsimp only
  rw [hadmin, hinit]

/-! ### An image that was not launched -/

/-- Nothing was set up, and the table is the first one. -/
structure Inert (s : Image) : Prop where
  admin : s.admin = Admin.zero
  table : s.policy.live = Policy.zero

theorem Inert.step {check : List UInt8 → List UInt8 → List UInt8 → Bool} {s : Image} (h : Inert s) :
    (∀ m, Inert (imageClient s m).2) ∧ ∀ (mr : Registers) (packet : List UInt8),
      packet.length = adminPacketBytes →
        Inert (imageAdministrator check s (submission mr packet)).2 := by
  refine ⟨fun m => ⟨h.admin, ?_⟩, fun mr packet hlength => ?_⟩
  · rw [imageClient_policy]
    exact h.table
  · have hrefused : ¬ Admits check s.admin packet := by
      intro ha
      have hinit := ha.initialized
      rw [h.admin] at hinit
      cases hinit
    obtain ⟨status, mr', -, -, hcall⟩ :=
      adminCall_rejected s.system (s.noise s.calls).2 mr hlength hrefused
    dsimp only [Image.system] at hcall
    unfold imageAdministrator
    dsimp only
    rw [hcall]
    exact ⟨h.admin, h.table⟩

/-- Whatever is called, nothing is executed. -/
theorem inert_called {check : List UInt8 → List UInt8 → List UInt8 → Bool} {s : Image} (h : Inert s)
    {packets : List TypedPacket} {s' : Image}
    (hcalled : Called imageClient (imageAdministrator check) s packets s') : Inert s' := by
  induction hcalled with
  | start => exact h
  | client _ m ih => exact (@Inert.step check _ ih).1 m
  | submit _ p ih => exact ih.step.2 _ _ Vector.length_toList

/-! ### Authority -/

/-- **Authority has two sources.** In every run from power-on, for every firmware, every mode of the
build, whatever the interrupts bring and in whatever order driver and terminal run. If the firmware
launches something, the table is what packets make of the first one that were typed one behind the
other in what has arrived, are signed under the launched key for its realm and its boot, and carry
the sequences 1, 2, ...; if it launches nothing, nobody is set up and the table is the first one. -/
theorem power_on_authority {profile : Profile} (hbuilt : profile.Built)
    (check : List UInt8 → List UInt8 → List UInt8 → Bool) (mode : LaunchMode) (f : Firmware)
    (hop : Noise) (mr : Registers) (noise : ℕ → Noise × Hops) (actions : List LinkAction) :
    let s := Run.final (linkStep profile imageClient (imageAdministrator check))
      (Link.boot profile (Image.powerOn mode f hop mr noise)) actions
    (∀ launch, f.Launches mode launch → ∃ executed : List TypedPacket,
      Lossy.Occur (executed.map TypedPacket.bytes) (actions.flatMap arrivals) ∧
      (∀ p ∈ executed, Signed check launch.identity.publicKey launch.identity.realm launch.boot
        p.packet) ∧
      executed.map (fun p => (packetCommand p.packet).sequence.toNat) =
        List.range' 1 executed.length ∧
      Executes Policy.zero (executed.map fun p => packetCommand p.packet) s.peer.policy.live) ∧
    ((∀ launch, ¬ f.Launches mode launch) →
      s.peer.admin = Admin.zero ∧ s.peer.policy.live = Policy.zero) := by
  intro s
  rcases launchStart_cases mode f hop mr with ⟨launch, hlaunch, hadmin⟩ | ⟨hnone, hadmin⟩
  · refine ⟨fun other hother => ?_, fun hnone => absurd hlaunch (hnone launch)⟩
    obtain rfl : launch = other := hlaunch.unique hother
    obtain ⟨executed, hoccur, h⟩ := executed_typed hbuilt check launch.identity.publicKey
      launch.identity.realm launch.boot noise actions
    rw [← powerOn_launched hlaunch hadmin noise] at h
    refine ⟨executed, hoccur, fun p hp => h.signed _ (List.mem_map_of_mem hp), ?_, ?_⟩
    · have hsequences := h.sequences
      rwa [List.map_map, List.length_map] at hsequences
    · have htable := h.table
      rwa [List.map_map] at htable
  · refine ⟨fun launch hlaunch => absurd hlaunch (hnone launch), fun _ => ?_⟩
    obtain ⟨packets, -, hcalled⟩ := submitted_is_typed hbuilt counted_imageClient
      (counted_imageAdministrator check) (Image.powerOn mode f hop mr noise) actions
    have hinert : Inert (Image.powerOn mode f hop mr noise) := by
      unfold Image.powerOn
      rw [hadmin]
      exact ⟨rfl, rfl⟩
    have h := inert_called hinert hcalled
    exact ⟨h.admin, h.table⟩

/-- A firmware with the launch of the grant. -/
def grantFirmware : Firmware where
  items key :=
    if key = 0 then [0x51, 0x45, 0x4d, 0x55]
    else if key = 1 then [1, 0, 0, 0]
    else if key = 0x19 then [0, 0, 0, 1, 0, 0, 0, 112, 0, 0x20, 0, 0] ++ launchItem
    else grantLaunch.record .fixture
  selected := 0
  offset := 0

theorem grantFirmware_launches : grantFirmware.Launches .fixture grantLaunch := by
  obtain ⟨-, -, hread⟩ := fwcfgRead_mmio grantFirmware nameAt_launchItem (by decide)
    (n := launchBytes) (by decide) (by decide) (s := grantFirmware.start) rfl
  have hstatus : (fwcfgRead (mmioIo grantFirmware) (launchItem ++ [0])
      (List.replicate launchBytes 0) grantFirmware.start).status = .ok := by decide +kernel
  have hout : (fwcfgRead (mmioIo grantFirmware) (launchItem ++ [0])
      (List.replicate launchBytes 0) grantFirmware.start).out = grantLaunch.record .fixture := by
    decide +kernel
  rw [hstatus, hout] at hread
  rcases hread with ⟨-, hoffers⟩ | ⟨hne, -⟩
  · exact ⟨by decide +kernel, hoffers⟩
  · exact absurd rfl hne

/-- It is switched on, and the grant is typed. -/
theorem power_on_authority_grant :
    let s := Run.final (linkStep fixtureProfile imageClient (imageAdministrator grantCheck))
      (Link.boot fixtureProfile (Image.powerOn .fixture grantFirmware ⟨fun _ => 0, fun _ => 0⟩
        (fun _ => 0) quietNoise)) grantSession
    ∃ executed : List TypedPacket,
      (∀ p ∈ executed,
        Signed grantCheck grantKey (Vector.replicate 32 1) (Vector.replicate 32 2) p.packet) ∧
      Executes Policy.zero (executed.map fun p => packetCommand p.packet) s.peer.policy.live := by
  obtain ⟨executed, -, hsigned, -, htable⟩ := (power_on_authority fixtureProfile_built grantCheck
    .fixture grantFirmware ⟨fun _ => 0, fun _ => 0⟩ (fun _ => 0) quietNoise grantSession).1
      grantLaunch grantFirmware_launches
  exact ⟨executed, hsigned, htable⟩

end Tcs
