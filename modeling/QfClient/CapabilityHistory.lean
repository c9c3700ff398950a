import Mathlib.Data.Nat.Bitwise
import QfClient.MessageEffects

/-!
# Capabilities over whole runs

Both sides announce general capabilities in `CLIP_CAPS` packets, and the server may do so
at any time. In every run the flags in use are those of the last announcement on the wire,
whoever made it, and the client announces what it wants of what the server announced last.
-/

namespace QfClient

open LittleEndian Machine WinPR

/-- The general capability sets at the start of `bytes`, up to the first other or
broken one. -/
def generalSets : ℕ → Bytes → List UInt32
  | 0, _ => []
  | cCapabilitiesSets + 1, bytes =>
      if 12 ≤ bytes.length ∧ uint16At bytes 0 = cbCapsTypeGeneral ∧ 4 ≤ uint16At bytes 2 ∧
          (uint16At bytes 2 - 4).toNat ≤ bytes.length - 4 then
        uint32At bytes 8 :: generalSets cCapabilitiesSets (bytes.drop 12)
      else []

def announcements (bytes : Bytes) : List UInt32 :=
  match readHeader bytes with
  | none => []
  | some (header, body) =>
      if header.msgType = cbClipCaps ∧ 4 ≤ body.length then
        generalSets (uint16At body 0).toNat (body.drop 4)
      else []

inductive Side where
  | client
  | server
  deriving DecidableEq, Repr

def ClientInput.announced : ClientInput → List (Side × UInt32)
  | .message bytes _ => (announcements bytes).map (.server, ·)
  | _ => []

def eventAnnouncements (e : ClientInput × ClientOutput) : List (Side × UInt32) :=
  e.1.announced ++ (e.2.packets.flatMap announcements).map (.client, ·)

def wireAnnouncements (t : ClientTrace) : List (Side × UInt32) := t.flatMap eventAnnouncements

def lastAnnounced (w : List (Side × UInt32)) : UInt32 := (w.getLast?.map Prod.snd).getD 0

def lastOfServer (w : List (Side × UInt32)) : Option UInt32 :=
  ((w.filter (·.1 = .server)).getLast?).map Prod.snd

section Flags

variable {flags other : UInt32} {caps : CliprdrCapabilities}

theorem and_bit {i : ℕ} {bit : UInt32} (hbit : bit.toNat = 2 ^ i) :
    flags &&& bit = if flags &&& bit != 0 then bit else 0 := by
  by_cases hzero : flags &&& bit = 0
  · rw [hzero]
    rfl
  · rw [if_pos (by simpa using hzero)]
    apply UInt32.toNat_inj.mp
    have hne : (flags &&& bit).toNat ≠ 0 := fun h => hzero (UInt32.toNat_inj.mp h)
    rw [UInt32.toNat_and, hbit, Nat.and_two_pow] at hne ⊢
    cases htest : flags.toNat.testBit i with
    | false => simp [htest] at hne
    | true => simp

theorem and_or_distrib (flags bit bit' : UInt32) :
    flags &&& (bit ||| bit') = flags &&& bit ||| flags &&& bit' :=
  UInt32.toBitVec_inj.mp BitVec.and_or_distrib_left

def CliprdrCapabilities.Uses (caps : CliprdrCapabilities) (flags : UInt32) : Prop :=
  caps.setFlags flags = caps

open CliprdrCapabilities in
theorem maskFlags_announcedFlags (caps : CliprdrCapabilities) :
    caps.maskFlags announcedFlags =
      (if caps.useLongFormatNames then cbUseLongFormatNames else 0) |||
        (if caps.streamFileClipEnabled then cbStreamFileClipEnabled else 0) |||
          (if caps.fileClipNoFilePaths then cbFileClipNoFilePaths else 0) := by
  have hall : ∀ long stream noPaths lock huge : Bool,
      keepFlag huge cbHugeFileSupportEnabled (keepFlag lock cbCanLockClipData
        (keepFlag noPaths cbFileClipNoFilePaths (keepFlag stream cbStreamFileClipEnabled
          (keepFlag long cbUseLongFormatNames announcedFlags)))) =
      (if long then cbUseLongFormatNames else 0) |||
        (if stream then cbStreamFileClipEnabled else 0) |||
          (if noPaths then cbFileClipNoFilePaths else 0) := by
    decide
  exact hall _ _ _ _ _

/-- The client announces what it wants of the flags in use. -/
theorem CliprdrCapabilities.Uses.maskFlags (h : caps.Uses flags) :
    caps.maskFlags announcedFlags = announcedFlags &&& flags := by
  have hlong : flags &&& cbUseLongFormatNames =
      if caps.useLongFormatNames then cbUseLongFormatNames else 0 := by
    rw [← h]
    exact and_bit (i := 1) rfl
  have hstream : flags &&& cbStreamFileClipEnabled =
      if caps.streamFileClipEnabled then cbStreamFileClipEnabled else 0 := by
    rw [← h]
    exact and_bit (i := 2) rfl
  have hnoPaths : flags &&& cbFileClipNoFilePaths =
      if caps.fileClipNoFilePaths then cbFileClipNoFilePaths else 0 := by
    rw [← h]
    exact and_bit (i := 3) rfl
  rw [maskFlags_announcedFlags, ← hlong, ← hstream, ← hnoPaths, UInt32.and_comm announcedFlags,
    announcedFlags, and_or_distrib, and_or_distrib]

end Flags

variable {setup : ClipboardSetup} {content : LocalContent} {state : ClipboardState}
  {bytes : Bytes} {packets : List Bytes} {types : List UInt16} {msgType : UInt16}
  {handled : Handled} {caps : CliprdrCapabilities} {w u : List (Side × UInt32)}
  {flags : UInt32} {s s' : Client} {i : ClientInput} {o : ClientOutput} {t : ClientTrace}

theorem processCapabilitySets_caps (count : ℕ) (caps : CliprdrCapabilities) (bytes : Bytes) :
    (processCapabilitySets count caps bytes).2 =
      (generalSets count bytes).foldl CliprdrCapabilities.processGeneralCapability caps := by
  induction count generalizing caps bytes with
  | zero => rfl
  | succ count ih =>
      rw [processCapabilitySets, generalSets]
      by_cases hset : 12 ≤ bytes.length ∧ uint16At bytes 0 = cbCapsTypeGeneral ∧
          4 ≤ uint16At bytes 2 ∧ (uint16At bytes 2 - 4).toNat ≤ bytes.length - 4
      · obtain ⟨hlength, htype, hfour, hrest⟩ := hset
        have hshort : ¬ bytes.length < 4 := by omega
        have hlong : ¬ (uint16At bytes 2 < 4 ∨
            (bytes.drop 4).length < (uint16At bytes 2 - 4).toNat) := by
          rw [List.length_drop, not_or]
          exact ⟨UInt16.not_lt.mpr hfour, by omega⟩
        have hgeneral : ¬ (bytes.drop 4).length < 8 := by
          rw [List.length_drop]
          omega
        simp only [if_neg hshort, if_neg hlong, if_pos htype, if_neg hgeneral]
        rw [if_pos ⟨hlength, htype, hfour, hrest⟩, List.foldl_cons, ih, List.drop_drop,
          uint32At_drop]
      · rw [if_neg hset, List.foldl_nil]
        simp only [List.length_drop]
        split_ifs with hshort hlong htype hgeneral
        · rfl
        · rfl
        · rfl
        · rw [not_or] at hlong
          refine absurd ⟨?_, htype, UInt16.not_lt.mp hlong.1, ?_⟩ hset <;> omega
        · rfl

theorem announcements_of_isPacket (h : IsPacket msgType bytes) (hne : msgType ≠ cbClipCaps) :
    announcements bytes = [] := by
  obtain ⟨header, body, hread, htype, -⟩ := h.readHeader
  rw [announcements, hread]
  exact if_neg fun hcaps => hne (htype.symm.trans hcaps.1)

theorem SendsAmong.announcements (h : SendsAmong types packets) (hne : cbClipCaps ∉ types) :
    packets.flatMap announcements = [] := by
  apply List.flatMap_eq_nil_iff.mpr
  intro bytes hbytes
  obtain ⟨msgType, hmsgType, hpacket⟩ := h.exists_isPacket hbytes
  exact announcements_of_isPacket hpacket fun heq => hne (heq ▸ hmsgType)

/-- The packet of the client announces one set. -/
theorem announcements_clipCaps (version flags : UInt32) :
    announcements (packet cbClipCaps 0 (clipCapsBody version flags)) = [flags] := by
  have hcount : uint16At (clipCapsBody version flags) 0 = 1 := by
    simp only [clipCapsBody, List.append_assoc]
    exact uint16At_zero 1 _
  have hdrop : (clipCapsBody version flags).drop 4 =
      leUInt16 cbCapsTypeGeneral ++ (leUInt16 12 ++ (leUInt32 version ++ leUInt32 flags)) := by
    have hfour : (leUInt16 1 ++ leUInt16 0).length = 4 := rfl
    simp only [clipCapsBody, List.append_assoc]
    rw [← List.append_assoc (leUInt16 1)]
    exact List.drop_left' hfour
  have htype : uint16At ((clipCapsBody version flags).drop 4) 0 = cbCapsTypeGeneral := by
    rw [hdrop]
    exact uint16At_zero _ _
  have hsize : uint16At ((clipCapsBody version flags).drop 4) 2 = 12 := by
    rw [hdrop, uint16At_append _ (length_leUInt16 _)]
    exact uint16At_zero _ _
  have hflags : uint32At ((clipCapsBody version flags).drop 4) 8 = flags := by
    have height : (leUInt16 cbCapsTypeGeneral ++ leUInt16 12 ++ leUInt32 version).length = 8 := by
      simp only [List.length_append, length_leUInt16, length_leUInt32]
    rw [hdrop, ← List.append_assoc, ← List.append_assoc, uint32At_append _ height]
    have hend := uint32At_zero flags []
    rwa [List.append_nil] at hend
  have hlength : (clipCapsBody version flags).length = 16 := by
    simp only [clipCapsBody, List.length_append, length_leUInt16, length_leUInt32]
  have hrest : ((clipCapsBody version flags).drop 4).length = 12 := by
    rw [List.length_drop, hlength]
  rw [announcements, readHeader_packet _ _ _ (by omega)]
  simp only [true_and]
  rw [if_pos (by omega), hcount]
  change generalSets 1 _ = _
  rw [generalSets, hsize, if_pos ⟨hrest.ge, htype, by decide, by rw [hrest]; decide⟩, hflags]
  rfl

theorem ofCode_eq_clipCaps {code : UInt16} (h : MessageType.ofCode code = some .clipCaps) :
    code = cbClipCaps := by
  rw [MessageType.ofCode] at h
  split_ifs at h <;> first | assumption | simp at h

theorem caps_receive (effect : ResponseEffect) : (state.receive effect).caps = state.caps := by
  cases effect with
  | ignored => rfl
  | fileList files => cases files <;> rfl
  | queued update => rfl

/-- Any message but the one that the monitor is ready only hands on what it announces. -/
theorem receiveMessage_caps (h : receiveMessage setup content state bytes = some handled)
    (hready : messageType bytes ≠ some .monitorReady) :
    handled.state.caps =
      (announcements bytes).foldl CliprdrCapabilities.processGeneralCapability state.caps := by
  by_cases hcaps : messageType bytes = some .clipCaps
  · rw [messageType] at hcaps
    obtain ⟨⟨header, body⟩, hread, hcode⟩ := Option.bind_eq_some_iff.mp hcaps
    have htype : header.msgType = cbClipCaps := ofCode_eq_clipCaps hcode
    rw [receiveMessage, hread] at h
    simp only [processMessage, hcode, Option.some.injEq] at h
    simp only [announcements, hread, htype, true_and]
    rw [← h, cliprdrProcessClipCaps]
    by_cases hlength : body.length < 4
    · rw [if_pos hlength, if_neg (by omega)]
      rfl
    · rw [if_neg hlength, if_pos (by omega)]
      exact processCapabilitySets_caps _ _ _
  · have hnone : announcements bytes = [] := by
      rw [announcements]
      split
      · rfl
      · rename_i header body hread
        refine if_neg fun htype => hcaps ?_
        rw [messageType, hread, Option.bind_some, htype.1]
        rfl
    rw [hnone, List.foldl_nil]
    have heffect := receiveMessage_effect h
    generalize handled.state = next at heffect ⊢
    cases heffect with
    | unchanged _ => rfl
    | clipCaps _ htype _ => exact absurd htype hcaps
    | monitorReady htype _ => exact absurd htype hready
    | formatList _ _ => rfl
    | formatDataRequest _ _ => rfl
    | formatDataResponse _ _ => exact caps_receive _
    | fileContentsResponse _ => rfl

theorem lastAnnounced_concat (w : List (Side × UInt32)) (side : Side) (flags : UInt32) :
    lastAnnounced (w ++ [(side, flags)]) = flags := by
  rw [lastAnnounced, List.getLast?_concat]
  rfl

theorem lastOfServer_server (w : List (Side × UInt32)) (flags : UInt32) :
    lastOfServer (w ++ [(.server, flags)]) = some flags := by
  rw [lastOfServer, List.filter_append]
  simp

theorem lastOfServer_client (w : List (Side × UInt32)) (flags : UInt32) :
    lastOfServer (w ++ [(.client, flags)]) = lastOfServer w := by
  rw [lastOfServer, List.filter_append]
  simp [lastOfServer]

/-- What the client announces after `w`. -/
def wanted (w : List (Side × UInt32)) : UInt32 :=
  announcedFlags &&& (lastOfServer w).getD cbFileClipNoFilePaths

structure CapabilityHistory (w : List (Side × UInt32)) (caps : CliprdrCapabilities) : Prop where
  uses : caps.Uses (lastAnnounced w)
  received : caps.capabilitiesReceived = (lastOfServer w).isSome
  silent : lastOfServer w = none → caps.hasHugeFileSupport = false
  heard : ∀ flags, lastOfServer w = some flags →
    announcedFlags &&& lastAnnounced w = announcedFlags &&& flags
  answers : ∀ u flags, u ++ [(.client, flags)] <+: w → flags = wanted u

theorem CapabilityHistory.initial : CapabilityHistory [] ClipboardState.initial.caps where
  uses := rfl
  received := rfl
  silent _ := rfl
  heard _ h := nomatch h
  answers u flags h := by simp at h

theorem CapabilityHistory.server (h : CapabilityHistory w caps) (flags : UInt32) :
    CapabilityHistory (w ++ [(.server, flags)]) (caps.processGeneralCapability flags) where
  uses := by
    rw [lastAnnounced_concat]
    rfl
  received := by
    rw [lastOfServer_server]
    rfl
  silent hnone := by
    rw [lastOfServer_server] at hnone
    cases hnone
  heard flags' hsome := by
    rw [lastOfServer_server] at hsome
    rw [lastAnnounced_concat, Option.some.inj hsome]
  answers u flags' hprefix := by
    rcases List.prefix_concat_iff.mp hprefix with heq | hprefix
    · have hlast := (List.append_inj' heq rfl).2
      simp at hlast
    · exact h.answers u flags' hprefix

theorem CapabilityHistory.servers (h : CapabilityHistory w caps) (sets : List UInt32) :
    CapabilityHistory (w ++ sets.map (.server, ·))
      (sets.foldl CliprdrCapabilities.processGeneralCapability caps) := by
  induction sets generalizing w caps with
  | nil => rwa [List.map_nil, List.append_nil]
  | cons flags sets ih =>
      rw [List.map_cons, List.append_cons]
      exact ih (h.server flags)

/-- Before its answer the client takes the defaults if the server announced nothing. -/
theorem CapabilityHistory.maskFlags (h : CapabilityHistory w caps) :
    caps.processMonitorReady.maskFlags announcedFlags = wanted w := by
  rw [wanted, CliprdrCapabilities.processMonitorReady]
  cases hserver : lastOfServer w with
  | none =>
      have hreceived := h.received
      have hhuge := h.silent hserver
      rw [hserver, Option.isSome_none] at hreceived
      rw [if_neg (by simp [hreceived])]
      have huses : CliprdrCapabilities.Uses { caps with
          useLongFormatNames := false
          streamFileClipEnabled := false
          fileClipNoFilePaths := true
          canLockClipData := false } cbFileClipNoFilePaths := by
        rw [CliprdrCapabilities.Uses, CliprdrCapabilities.setFlags]
        simp only [hhuge]
        rfl
      exact huses.maskFlags
  | some flags =>
      have hreceived := h.received
      rw [hserver, Option.isSome_some] at hreceived
      rw [if_pos hreceived, h.uses.maskFlags]
      exact h.heard flags hserver

theorem CapabilityHistory.client (h : CapabilityHistory w caps) :
    CapabilityHistory (w ++ [(.client, wanted w)])
      { caps.processMonitorReady.setFlags (wanted w) with initialFormatListSent := true } where
  uses := by
    rw [lastAnnounced_concat]
    rfl
  received := by
    rw [lastOfServer_client, ← h.received]
    simp only [CliprdrCapabilities.processMonitorReady, CliprdrCapabilities.setFlags]
    split_ifs <;> rfl
  silent hnone := by
    rw [lastOfServer_client] at hnone
    rw [wanted, hnone]
    rfl
  heard flags hsome := by
    rw [lastOfServer_client] at hsome
    rw [lastAnnounced_concat, wanted, hsome, ← UInt32.and_assoc, UInt32.and_self]
    rfl
  answers u flags hprefix := by
    rcases List.prefix_concat_iff.mp hprefix with heq | hprefix
    · obtain ⟨rfl, hlast⟩ := List.append_inj' heq rfl
      simp only [List.cons.injEq, Prod.mk.injEq, true_and, and_true] at hlast
      exact hlast
    · exact h.answers u flags hprefix

theorem CapabilityHistory.withInitialFormatListSent (h : CapabilityHistory w caps) (sent : Bool) :
    CapabilityHistory w { caps with initialFormatListSent := sent } where
  uses := by
    have huses : caps.setFlags (lastAnnounced w) = caps := h.uses
    change { caps.setFlags (lastAnnounced w) with initialFormatListSent := sent } =
      { caps with initialFormatListSent := sent }
    rw [huses]
  received := h.received
  silent := h.silent
  heard := h.heard
  answers := h.answers

theorem dataChanged_caps {fromRemote : Bool} {disk : FileNode} {mimeData : MimeData}
    (h : state.dataChanged setup fromRemote disk mimeData = some handled) :
    ∃ sent, handled.state.caps = { state.caps with initialFormatListSent := sent } := by
  simp only [ClipboardState.dataChanged] at h
  split at h
  · obtain rfl := Option.some.inj h
    exact ⟨_, rfl⟩
  · obtain ⟨outcome, -, rfl⟩ := Option.map_eq_some_iff.mp h
    rw [cliprdrClientFormatList]
    split_ifs
    · exact ⟨_, rfl⟩
    · exact ⟨_, rfl⟩

theorem receiveMessage_monitorReady (hworks : setup.context.Works)
    (h : receiveMessage setup content state bytes = some handled)
    (hready : messageType bytes = some .monitorReady) :
    announcements bytes = [] ∧
      handled.packets = [packet cbClipCaps 0 (clipCapsBody cbCapsVersion2
        (state.caps.processMonitorReady.maskFlags announcedFlags)), packet cbFormatList 0 []] ∧
      handled.state.caps = { state.caps.processMonitorReady.setFlags
        (state.caps.processMonitorReady.maskFlags announcedFlags) with
          initialFormatListSent := true } := by
  rw [messageType] at hready
  obtain ⟨⟨header, body⟩, hread, hcode⟩ := Option.bind_eq_some_iff.mp hready
  have hne : header.msgType ≠ cbClipCaps := by
    intro heq
    simp only [heq] at hcode
    exact absurd hcode (by decide)
  have hcallback := qfCliprdrMonitorReadyCallback_eq hworks state.caps.processMonitorReady
  rw [receiveMessage, hread] at h
  simp only [processMessage, hcode, cliprdrProcessMonitorReady, hcallback, Option.map_some,
    Option.some.injEq] at h
  rw [← h]
  refine ⟨?_, rfl, rfl⟩
  simp only [announcements, hread]
  exact if_neg fun hcaps => hne hcaps.1

theorem capabilityHistory_step (hworks : setup.context.Works)
    (h : CapabilityHistory w s.state.caps) (hs : clientStep setup s i = some (s', o)) :
    CapabilityHistory (w ++ eventAnnouncements (i, o)) s'.state.caps := by
  have hpackets := clientStep_packets hs
  cases clientStep_cases hs with
  | @message bytes content r _ hreceive =>
      simp only [eventAnnouncements, ClientInput.announced]
      by_cases hready : messageType bytes = some .monitorReady
      · obtain ⟨hnone, hsent, hcaps⟩ := receiveMessage_monitorReady hworks hreceive hready
        have hempty : announcements (packet cbFormatList 0 []) = [] :=
          announcements_of_isPacket ⟨0, [], rfl, by decide⟩ (by decide)
        rw [hnone, hsent, hcaps, h.maskFlags]
        simp only [List.flatMap_cons, List.flatMap_nil, announcements_clipCaps, hempty]
        exact h.client
      · rw [receiveMessage_caps hreceive hready, hpackets.announcements, List.map_nil,
          List.append_nil]
        · exact h.servers _
        · simp only [ClientInput.allowed]
          generalize messageType bytes = type at hready
          cases type with
          | none => exact List.not_mem_nil
          | some type =>
              cases type with
              | monitorReady => exact absurd rfl hready
              | _ => decide
  | dataChanged hchanged =>
      obtain ⟨sent, hcaps⟩ := dataChanged_caps hchanged
      have hnone := hpackets.announcements (show cbClipCaps ∉ [cbFormatList] by decide)
      simp only [eventAnnouncements, ClientInput.announced, hnone, hcaps, List.map_nil,
        List.append_nil]
      exact h.withInitialFormatListSent sent
  | send _ _ _ =>
      have hnone := hpackets.announcements (show cbClipCaps ∉ [cbFileContentsRequest] by decide)
      simp only [eventAnnouncements, ClientInput.announced, hnone, List.map_nil, List.append_nil]
      exact h
  | worker _ =>
      simp only [eventAnnouncements, ClientInput.announced, List.flatMap_nil, List.map_nil,
        List.append_nil]
      exact h

theorem capabilityHistory (hworks : setup.context.Works)
    (h : Execution (clientStep setup) .initial t s) :
    CapabilityHistory (wireAnnouncements t) s.state.caps := by
  induction h with
  | nil => exact .initial
  | @snoc t s₁ s₂ i o _ hs ih =>
      rw [wireAnnouncements, List.flatMap_append, List.flatMap_singleton]
      exact capabilityHistory_step hworks ih hs

/-- The flags in use are those of the last announcement on the wire, whichever side made
it; and every time the client announces exactly the flags of its own that the server
announced last, or that files have no paths if the server announced nothing. -/
theorem capabilities_on_the_wire (setup : ClipboardSetup) (hworks : setup.context.Works)
    (s : Client) (t : ClientTrace) (h : Execution (clientStep setup) .initial t s) :
    s.state.caps.Uses (lastAnnounced (wireAnnouncements t)) ∧
      ∀ u flags, u ++ [(.client, flags)] <+: wireAnnouncements t →
        flags = announcedFlags &&& (lastOfServer u).getD cbFileClipNoFilePaths :=
  ⟨(capabilityHistory hworks h).uses, (capabilityHistory hworks h).answers⟩

/-- The server takes the paths of files back after the client answered. -/
def changingServer : List ClientInput :=
  [.message (packet cbClipCaps 0 (clipCapsBody cbCapsVersion2 0x3E)) ⟨none, fun _ => none⟩,
    .message (packet cbMonitorReady 0 []) ⟨none, fun _ => none⟩,
    .message (packet cbClipCaps 0 (clipCapsBody cbCapsVersion2 0x22)) ⟨none, fun _ => none⟩,
    .message (packet cbMonitorReady 0 []) ⟨none, fun _ => none⟩]

theorem capabilities_on_the_wire_changing :
    ∃ s t, Execution (clientStep (.session 0xFFFFFFFF)) .initial t s ∧
      wireAnnouncements t =
        [(.server, 0x3E), (.client, 0x0E), (.server, 0x22), (.client, 0x02)] ∧
      s.state.caps.Uses (lastAnnounced (wireAnnouncements t)) := by
  have hrun : ∃ s t, run (clientStep (.session 0xFFFFFFFF)) .initial changingServer =
      some (s, t) ∧ wireAnnouncements t =
        [(.server, 0x3E), (.client, 0x0E), (.server, 0x22), (.client, 0x02)] := ⟨_, _, rfl, rfl⟩
  obtain ⟨s, t, hrun, hwire⟩ := hrun
  have h := Execution.of_run hrun
  exact ⟨s, t, h, hwire, (capabilities_on_the_wire _ ⟨fun _ => rfl, fun _ => rfl⟩ _ _ h).1⟩

def FileContentsRequest.EndsLow (request : FileContentsRequest) : Prop :=
  request.cbRequested.toNat + request.nPositionLow.toNat ≤ 4294967295 ∧ request.nPositionHigh = 0

theorem passesLocalChecks_of_sent {context : CliprdrPlugin} {request : FileContentsRequest}
    {rc : UInt32} (h : cliprdrClientFileContentsRequest context request = some (rc, packets))
    (hne : packets ≠ []) : PassesLocalChecks context request := by
  rw [cliprdrClientFileContentsRequest] at h
  split_ifs at h with hmask hlow hhigh
  · exact absurd (Prod.mk.inj (Option.some.inj h)).2.symm hne
  · exact absurd (Prod.mk.inj (Option.some.inj h)).2.symm hne
  · exact absurd (Prod.mk.inj (Option.some.inj h)).2.symm hne
  · by_cases hhuge : context.hasHugeFileSupport = true
    · exact Or.inl hhuge
    · simp only [hhuge, Bool.not_false, Bool.true_and, decide_eq_true_eq, bne_iff_ne, ne_eq,
        not_not, UInt64.not_lt] at hlow hhigh
      rw [UInt64.le_iff_toNat_le, toNat_cbRequested_add_nPositionLow] at hlow
      exact Or.inr ⟨hlow, hhigh⟩

/-- A request that does not end in the first four gigabytes goes out only when the last
announcement on the wire is one of the server, with huge files: the client's own answer
to the server always rules them out. -/
theorem huge_requests_need_server (setup : ClipboardSetup) (hworks : setup.context.Works)
    (s : Client) (t u : ClientTrace) (request : FileContentsRequest) (o : ClientOutput)
    (h : Execution (clientStep setup) .initial (t ++ (.send request, o) :: u) s)
    (hsent : o.packets ≠ []) (hhigh : ¬ request.EndsLow) :
    ∃ w flags, wireAnnouncements t = w ++ [(.server, flags)] ∧
      flags &&& cbHugeFileSupportEnabled ≠ 0 := by
  obtain ⟨s₁, s₂, h₁, hs, -⟩ := h.at_event
  have hhistory := capabilityHistory hworks h₁
  have hhuge : s₁.state.caps.hasHugeFileSupport = true := by
    cases clientStep_cases hs with
    | send _ hrequest _ => exact (passesLocalChecks_of_sent hrequest hsent).resolve_right hhigh
  have hbit : lastAnnounced (wireAnnouncements t) &&& cbHugeFileSupportEnabled ≠ 0 := by
    rw [← hhistory.uses] at hhuge
    simpa [CliprdrCapabilities.setFlags] using hhuge
  generalize wireAnnouncements t = w at hhistory hbit
  rcases List.eq_nil_or_concat w with rfl | ⟨w, ⟨side, flags⟩, rfl⟩
  · exact absurd (show lastAnnounced [] &&& cbHugeFileSupportEnabled = 0 from rfl) hbit
  · rw [List.concat_eq_append] at hhistory hbit ⊢
    rw [lastAnnounced_concat] at hbit
    cases side with
    | server => exact ⟨w, flags, rfl, hbit⟩
    | client =>
        have hflags := hhistory.answers w flags List.prefix_rfl
        have hnone : announcedFlags &&& cbHugeFileSupportEnabled = 0 := by decide
        rw [hflags, wanted, UInt32.and_comm announcedFlags, UInt32.and_assoc, hnone,
          UInt32.and_zero] at hbit
        exact absurd rfl hbit

/-- The server announces huge files after the client answered it. -/
def hugeSession : List ClientInput :=
  [.message (packet cbMonitorReady 0 []) ⟨none, fun _ => none⟩,
    .message (packet cbClipCaps 0 (clipCapsBody cbCapsVersion2 cbHugeFileSupportEnabled))
      ⟨none, fun _ => none⟩,
    .worker (.arm .range)]

theorem huge_requests_need_server_late :
    ∃ (w : List (Side × UInt32)) (flags : UInt32),
      w ++ [(.server, flags)] = [(.client, 0x08), (.server, cbHugeFileSupportEnabled)] ∧
      flags &&& cbHugeFileSupportEnabled ≠ 0 := by
  have hrun : ∃ s₁ t₁ s₂ o, run (clientStep (.session 0xFFFFFFFF)) .initial hugeSession =
        some (s₁, t₁) ∧
      clientStep (.session 0xFFFFFFFF) s₁ (.send ⟨1, 0, 2, 0, 1, 8, none⟩) = some (s₂, o) ∧
      wireAnnouncements t₁ = [(.client, 0x08), (.server, cbHugeFileSupportEnabled)] ∧
      o.packets ≠ [] := ⟨_, _, _, _, rfl, rfl, rfl, List.cons_ne_nil _ _⟩
  obtain ⟨s₁, t₁, s₂, o, hrun, hsend, hwire, hne⟩ := hrun
  obtain ⟨w, flags, hw, hflags⟩ := huge_requests_need_server _ ⟨fun _ => rfl, fun _ => rfl⟩ s₂ t₁ []
    ⟨1, 0, 2, 0, 1, 8, none⟩ o (.snoc (Execution.of_run hrun) hsend) hne
    (fun hlow => absurd hlow.2 (by decide))
  exact ⟨w, flags, hw.symm.trans hwire, hflags⟩

end QfClient
