/-
# The interactive image

The signed terminal with its driver, and the servers that it calls: the
client with storage behind it and the administrator, both in front of the
policy with its audit. In every call that one server makes to another the
registers that carry nothing are arbitrary; what they hold in the calls of a
run is given beforehand (`Image.noise`).

The policy's table is changed by packets of the administrator only, and
these were typed (`submitted_is_typed`). So whatever the table holds, it is
what signed packets make of the first table, executed one after the other
with the sequences 1, 2, ... (`Executed`); and each of them occurs in what
has arrived at the UART, digit for digit, behind a line `submit`
(`executed_typed`).

Key definitions: `Image`, `imageClient`, `imageAdministrator`, `Executes`,
`Executed`.
Key theorems: `imageAdministrator_admitted`, `Executed.admitted`,
`executed_called`, `executed_typed`.
-/
import Tcs.Drain
import Tcs.Launch
import Tcs.Packet
import Tcs.Typed

namespace Tcs

open Ipc

/-! ### The servers behind the terminal -/

/-- The administrator, the policy and the audit, and what the registers hold in the calls of a run:
in the call of the terminal and in those behind it. -/
structure Image where
  admin : Admin
  policy : PolicyServer
  audit : AuditLog
  noise : ℕ → Noise × Hops
  calls : ℕ

/-- The servers as they start. -/
def Image.start (config : Option (Vector UInt8 32 × Vector UInt8 32 × Vector UInt8 32))
    (noise : ℕ → Noise × Hops) : Image :=
  ⟨(SignedSystem.start config).admin, (SignedSystem.start config).policy,
    (SignedSystem.start config).audit, noise, 0⟩

/-- The same servers, as they are called with packets only. -/
def Image.system (s : Image) : SignedSystem := ⟨Terminal.zero, s.admin, s.policy, s.audit⟩

/-- The client, as the terminal calls it. -/
def imageClient : Peer Image := fun s m =>
  let noise := s.noise s.calls
  let out := ppcall noise.1 (clientPath noise.2.first noise.2.second
    (adminPolicyProtected (ppcall noise.2.third (auditProtected 0)) 1)) (s.policy, s.audit) m
  (out.1, { s with policy := out.2.1, audit := out.2.2, calls := s.calls + 1 })

section

variable (check : List UInt8 → List UInt8 → List UInt8 → Bool)

/-- The administrator, as the terminal calls it. -/
def imageAdministrator : Peer Image := fun s m =>
  let out := adminCall check (s.noise s.calls).2 (s.admin, s.policy, s.audit) m
  (out.1, { s with
    admin := out.2.1, policy := out.2.2.1, audit := out.2.2.2, calls := s.calls + 1 })

end

theorem counted_imageClient : Counted imageClient := by
  intro s m m' h
  unfold imageClient
  dsimp only
  rw [counted_ppcall _ _ _ m m' h]

theorem counted_imageAdministrator (check : List UInt8 → List UInt8 → List UInt8 → Bool) :
    Counted (imageAdministrator check) := by
  intro s m m' h
  unfold imageAdministrator adminCall
  dsimp only
  rw [counted_ppcall _ _ _ m m' h]

/-! ### The administrator of the image -/

variable {check : List UInt8 → List UInt8 → List UInt8 → Bool}

/-- The image after a command that was executed. -/
def Image.admitted (s : Image) (c : AdminCommand) : Image :=
  { s with
    admin := s.admin.completed
    policy := { s.policy.consumed with live := (adminExecute s.policy.live c s.audit.room).2 }
    audit := s.audit.decided s.policy.live c
    calls := s.calls + 1 }

/-- A packet that is admitted is executed, and its receipt is answered. -/
theorem imageAdministrator_admitted {s : Image} (hs : Synced s.system) (mr : Registers)
    {packet : List UInt8} (hlength : packet.length = adminPacketBytes)
    (ha : Admits check s.admin packet) :
    let c := packetCommand packet
    let x := adminExecute s.policy.live c s.audit.room
    let out := imageAdministrator check s (submission mr packet)
    adminReceiptDecode out.1 = some x.1 ∧ adminReceiptValid c x.1 = true ∧
      out.2 = s.admitted c := by
  intro c x out
  obtain ⟨hdecode, hvalid, hstate⟩ := adminCall_admitted hs (s.noise s.calls).2 mr hlength ha
  refine ⟨hdecode, hvalid, ?_⟩
  dsimp only [Image.system] at hstate
  show ({ s with admin := _, policy := _, audit := _, calls := _ } : Image) = _
  rw [hstate]
  rfl

theorem Image.synced_admitted {s : Image} (hs : Synced s.system) {packet : List UInt8}
    (ha : Admits check s.admin packet) : Synced (s.admitted (packetCommand packet)).system := by
  have hcounters := consumed_agree (hs.sequence ha.initialized) (hs.exhausted ha.initialized)
  refine ⟨rfl, fun _ => hcounters.1, fun _ => hcounters.2, ?_, tableOk_execute hs.table _ _, rfl⟩
  show s.policy.consumed.ready = true
  rw [PolicyServer.consumed_ready]
  exact hs.ready

/-! ### What was executed -/

/-- The table after these commands, each with some answer of the audit. -/
inductive Executes (p : Policy) : List AdminCommand → Policy → Prop
  | none : Executes p [] p
  | snoc {commands : List AdminCommand} {q : Policy} (h : Executes p commands q)
      (c : AdminCommand) (room : Bool) : Executes p (commands ++ [c]) (adminExecute q c room).2

/-- These packets were executed, and nothing else: they are signed for the configuration, they have
the sequences 1, 2, ..., the administrator goes on with the next one, and the table is what they make
of the first one. -/
structure Executed (check : List UInt8 → List UInt8 → List UInt8 → Bool)
    (key realm boot : Vector UInt8 32) (packets : List (List UInt8)) (s : Image) : Prop where
  synced : Synced s.system
  config : s.admin.initialized = true →
    s.admin.publicKey = key ∧ s.admin.realm = realm ∧ s.admin.boot = boot
  issued : s.admin.initialized = true →
    Word.Issued s.admin.nextSequence s.admin.exhausted packets.length
  signed : ∀ packet ∈ packets, Signed check key realm boot packet
  sequences : packets.map (fun packet => (packetCommand packet).sequence.toNat) =
    List.range' 1 packets.length
  table : Executes Policy.zero (packets.map packetCommand) s.policy.live

section

variable {key realm boot : Vector UInt8 32} {packets : List (List UInt8)} {s : Image}

theorem executed_start (config : Option (Vector UInt8 32 × Vector UInt8 32 × Vector UInt8 32))
    (hconfig : ∀ c, config = some c → c = (key, realm, boot)) (noise : ℕ → Noise × Hops) :
    Executed check key realm boot [] (Image.start config noise) := by
  have hsynced : Synced (Image.start config noise).system := by
    have h := synced_start config
    exact ⟨h.idle, h.sequence, h.exhausted, h.ready, h.table, rfl⟩
  refine ⟨hsynced, ?_, ?_, fun packet => List.not_mem_nil.elim, rfl, ?_⟩
  · cases config with
    | none => exact fun hi => Bool.noConfusion hi
    | some c =>
      obtain rfl := hconfig c rfl
      intro hi
      rcases adminInit_zero key realm boot with h | h
      · have hi : (adminInit Admin.zero key realm boot).2.initialized = true := hi
        rw [h] at hi
        cases hi
      · show (adminInit Admin.zero key realm boot).2.publicKey = key ∧ _
        exact ⟨by rw [h], congrArg Admin.realm h, congrArg Admin.boot h⟩
  · cases config with
    | none => exact fun hi => Bool.noConfusion hi
    | some c =>
      obtain rfl := hconfig c rfl
      intro hi
      have hi : (adminInit Admin.zero key realm boot).2.initialized = true := hi
      show Word.Issued (adminInit Admin.zero key realm boot).2.nextSequence
        (adminInit Admin.zero key realm boot).2.exhausted 0
      rcases adminInit_zero key realm boot with h | h
      · rw [h] at hi
        cases hi
      · rw [h]
        rfl
  · cases config <;> exact .none

theorem imageClient_policy (s : Image) (m : Message) : (imageClient s m).2.policy = s.policy := by
  have hkeep : Keeps (fun s : PolicyServer × AuditLog => s.1)
      (ppcall (s.noise s.calls).1 (clientPath (s.noise s.calls).2.first (s.noise s.calls).2.second
        (adminPolicyProtected (ppcall (s.noise s.calls).2.third (auditProtected 0)) 1))) :=
    (keeps_client ((keeps_storage (Keeps.ppcall
      (fun s m => adminPolicy_storage _ s.1 s.2 m) _) 0).ppcall _) 0).ppcall _
  exact hkeep (s.policy, s.audit) m

theorem Executed.client (h : Executed check key realm boot packets s) (m : Message) :
    Executed check key realm boot packets (imageClient s m).2 := by
  have hpolicy := imageClient_policy s m
  have hadmin : (imageClient s m).2.admin = s.admin := rfl
  generalize (imageClient s m).2 = s' at hpolicy hadmin ⊢
  obtain ⟨hsynced, hconfig, hissued, hsigned, hsequences, htable⟩ := h
  obtain ⟨hidle, hsequence, hexhausted, hready, hok, -⟩ := hsynced
  dsimp only [Image.system] at hidle hsequence hexhausted hready hok
  rw [← hpolicy] at hsequence hexhausted hready hok htable
  rw [← hadmin] at hidle hsequence hexhausted hconfig hissued
  exact ⟨⟨hidle, hsequence, hexhausted, hready, hok, rfl⟩, hconfig, hissued, hsigned, hsequences,
    htable⟩

theorem Executed.rejected (h : Executed check key realm boot packets s) (mr : Registers)
    {packet : List UInt8} (hlength : packet.length = adminPacketBytes)
    (ha : ¬ Admits check s.admin packet) :
    Executed check key realm boot packets (imageAdministrator check s (submission mr packet)).2 := by
  obtain ⟨status, mr', -, -, hcall⟩ := adminCall_rejected s.system (s.noise s.calls).2 mr hlength ha
  dsimp only [Image.system] at hcall
  unfold imageAdministrator
  dsimp only
  rw [hcall]
  exact ⟨h.synced, h.config, h.issued, h.signed, h.sequences, h.table⟩

/-- **A packet that is admitted** is signed, in its turn and executed. -/
theorem Executed.admitted (h : Executed check key realm boot packets s) (mr : Registers)
    {packet : List UInt8} (hlength : packet.length = adminPacketBytes)
    (ha : Admits check s.admin packet) :
    Executed check key realm boot (packets ++ [packet])
      (imageAdministrator check s (submission mr packet)).2 := by
  obtain ⟨-, -, hstate⟩ := imageAdministrator_admitted h.synced mr hlength ha
  have hissued := h.issued ha.initialized
  have hnext := Admin.issued_consumed ha.notExhausted hissued
  rw [ha.notExhausted] at hissued
  obtain ⟨hkey, hrealm, hboot⟩ := h.config ha.initialized
  have hsigned := ha.signed
  rw [hkey, hrealm, hboot] at hsigned
  rw [hstate]
  refine ⟨Image.synced_admitted h.synced ha, fun _ => ?_, fun _ => ?_, ?_, ?_, ?_⟩
  · show s.admin.consumed.publicKey = key ∧ s.admin.consumed.realm = realm ∧
      s.admin.consumed.boot = boot
    simp [hkey, hrealm, hboot]
  · rw [List.length_append, List.length_singleton]
    exact hnext
  · intro p hp
    rcases List.mem_append.mp hp with hp | hp
    · exact h.signed p hp
    · rw [List.mem_singleton.mp hp]
      exact hsigned
  · rw [List.map_append, h.sequences, List.length_append, List.length_singleton,
      List.range'_1_concat, List.map_singleton, ha.next, hissued.next, Nat.add_comm 1]
  · rw [List.map_append]
    exact h.table.snoc (packetCommand packet) s.audit.room

/-- **Of the packets that were submitted some were executed**, in their order. -/
theorem executed_called (h : Executed check key realm boot [] s) {packets : List TypedPacket}
    {s' : Image} (hcalled : Called imageClient (imageAdministrator check) s packets s') :
    ∃ executed : List TypedPacket, executed.Sublist packets ∧
      Executed check key realm boot (executed.map TypedPacket.packet) s' := by
  induction hcalled with
  | start => exact ⟨[], .slnil, h⟩
  | client _ m ih =>
    obtain ⟨executed, hsub, hok⟩ := ih
    exact ⟨executed, hsub, hok.client m⟩
  | @submit packets peer _ p ih =>
    obtain ⟨executed, hsub, hok⟩ := ih
    have hlength : p.packet.length = adminPacketBytes := Vector.length_toList
    by_cases ha : Admits check peer.admin p.packet
    · refine ⟨executed ++ [p], hsub.append_right [p], ?_⟩
      rw [List.map_append]
      exact hok.admitted _ hlength ha
    · exact ⟨executed, hsub.trans (List.sublist_append_left packets [p]),
        hok.rejected _ hlength ha⟩

end

/-- **What was executed was typed.** In every run of the interactive image, whatever the interrupts
bring and in whatever order driver and terminal run, the packets that were executed were typed in
what has arrived one behind the other, each in one piece from its line `submit` to its last Enter. -/
theorem executed_typed {profile : Profile} (hbuilt : profile.Built)
    (check : List UInt8 → List UInt8 → List UInt8 → Bool) (key realm boot : Vector UInt8 32)
    (noise : ℕ → Noise × Hops) (actions : List LinkAction) :
    ∃ executed : List TypedPacket,
      Lossy.Occur (executed.map TypedPacket.bytes) (actions.flatMap arrivals) ∧
      Executed check key realm boot (executed.map TypedPacket.packet)
        (Run.final (linkStep profile imageClient (imageAdministrator check))
          (Link.boot profile (Image.start (some (key, realm, boot)) noise)) actions).peer := by
  obtain ⟨packets, hoccur, hcalled⟩ := submitted_is_typed hbuilt counted_imageClient
    (counted_imageAdministrator check) (Image.start (some (key, realm, boot)) noise) actions
  have hstart : Executed check key realm boot [] (Image.start (some (key, realm, boot)) noise) :=
    executed_start _ (fun _ hc => (Option.some.inj hc).symm) noise
  obtain ⟨executed, hsub, h⟩ := executed_called hstart hcalled
  exact ⟨executed, hoccur.sublist (hsub.map _), h⟩

/-! ### A session with the grant -/

/-- What is typed for a packet. -/
def submitBytes (packet : List UInt8) : List UInt8 :=
  "submit".toList.map charByte ++ [returnByte] ++
    ((hexText packet).map charByte ++ [returnByte])

theorem fixtureProfile_built : fixtureProfile.Built := ⟨by decide, fun _ => by decide⟩

/-- Every register that carries nothing is zero. -/
def quietNoise : ℕ → Noise × Hops := fun _ =>
  let quiet : Noise := ⟨fun _ => 0, fun _ => 0⟩
  (quiet, ⟨quiet, quiet, quiet⟩)

/-- Its terminal and servers, with the key, the realm and the boot identity of the grant. -/
abbrev fixtureBoot : Link Image :=
  Link.boot fixtureProfile
    (Image.start (some (grantKey, Vector.replicate 32 1, Vector.replicate 32 2)) quietNoise)

/-- The grant is typed twice. -/
def grantSession : List LinkAction :=
  typing fixtureProfile imageClient (imageAdministrator grantCheck)
    ([grantPacket, grantPacket].flatMap submitBytes) fixtureBoot

/-- What the session is, and what is left after it. -/
theorem grantSession_quiet :
    (∀ e ∈ Run.trace (linkStep fixtureProfile imageClient (imageAdministrator grantCheck)) fixtureBoot
      grantSession, LinkEntry.Roomy e) ∧
    grantSession.flatMap arrivals = ([grantPacket, grantPacket].flatMap submitBytes).map some ∧
    ∀ a, ¬ (Run.final (linkStep fixtureProfile imageClient (imageAdministrator grantCheck))
      fixtureBoot grantSession).Due a :=
  typing_quiet fixtureProfile_built counted_imageClient (counted_imageAdministrator grantCheck)
    ⟨awake_boot _, _, follows_boot fixtureProfile_built _⟩ _

end Tcs
