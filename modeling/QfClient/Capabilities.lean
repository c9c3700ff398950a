import QfClient.FormatList

/-!
# Clipboard capabilities

The server names its general capabilities, and the answer of the client to the
monitor ready message settles which of them both sides use. What was settled is
what `cliprdrClientFileContentsRequest` checks a request against.
-/

namespace QfClient

open LittleEndian WinPR

def cbUseLongFormatNames : UInt32 := 0x02
def cbStreamFileClipEnabled : UInt32 := 0x04
def cbFileClipNoFilePaths : UInt32 := 0x08
def cbCanLockClipData : UInt32 := 0x10
def cbHugeFileSupportEnabled : UInt32 := 0x20

def cbFormatList : UInt16 := 2
def cbClipCaps : UInt16 := 7
def cbCapsTypeGeneral : UInt16 := 1
def cbCapsVersion2 : UInt32 := 2

/-- The negotiated part of `cliprdrPlugin`. -/
structure CliprdrCapabilities where
  useLongFormatNames : Bool
  streamFileClipEnabled : Bool
  fileClipNoFilePaths : Bool
  canLockClipData : Bool
  hasHugeFileSupport : Bool
  capabilitiesReceived : Bool
  initialFormatListSent : Bool
  deriving DecidableEq, Repr

namespace CliprdrCapabilities

def setFlags (caps : CliprdrCapabilities) (flags : UInt32) : CliprdrCapabilities :=
  { caps with
    useLongFormatNames := flags &&& cbUseLongFormatNames != 0
    streamFileClipEnabled := flags &&& cbStreamFileClipEnabled != 0
    fileClipNoFilePaths := flags &&& cbFileClipNoFilePaths != 0
    canLockClipData := flags &&& cbCanLockClipData != 0
    hasHugeFileSupport := flags &&& cbHugeFileSupportEnabled != 0 }

def processGeneralCapability (caps : CliprdrCapabilities) (generalFlags : UInt32) :
    CliprdrCapabilities :=
  { caps.setFlags generalFlags with capabilitiesReceived := true }

def processMonitorReady (caps : CliprdrCapabilities) : CliprdrCapabilities :=
  if caps.capabilitiesReceived then caps
  else { caps with
    useLongFormatNames := false
    streamFileClipEnabled := false
    fileClipNoFilePaths := true
    canLockClipData := false }

def keepFlag (supported : Bool) (bit flags : UInt32) : UInt32 :=
  if supported then flags else flags &&& ~~~bit

def maskFlags (caps : CliprdrCapabilities) (flags : UInt32) : UInt32 :=
  keepFlag caps.hasHugeFileSupport cbHugeFileSupportEnabled
    (keepFlag caps.canLockClipData cbCanLockClipData
      (keepFlag caps.fileClipNoFilePaths cbFileClipNoFilePaths
        (keepFlag caps.streamFileClipEnabled cbStreamFileClipEnabled
          (keepFlag caps.useLongFormatNames cbUseLongFormatNames flags))))

end CliprdrCapabilities

def clipCapsBody (version generalFlags : UInt32) : Bytes :=
  leUInt16 1 ++ leUInt16 0 ++ leUInt16 cbCapsTypeGeneral ++ leUInt16 12 ++ leUInt32 version ++
    leUInt32 generalFlags

def cliprdrClientCapabilities (context : CliprdrPlugin) (caps : CliprdrCapabilities)
    (version generalFlags : UInt32) : CliprdrCapabilities × Outcome :=
  match cliprdrPacketNew context cbClipCaps 0 16 with
  | none => (caps, none)
  | some none => (caps, some (errorInternalError, []))
  | some (some s) =>
      let flags := caps.maskFlags generalFlags
      let agreed := { caps.setFlags flags with initialFormatListSent := false }
      match s.write? (clipCapsBody version flags) with
      | none => (agreed, none)
      | some s => (agreed, cliprdrPacketSend context s)

def cliprdrClientEmptyFormatList (context : CliprdrPlugin) (caps : CliprdrCapabilities) :
    CliprdrCapabilities × Outcome :=
  if caps.initialFormatListSent then (caps, some (channelRcOk, []))
  else
    let caps := { caps with initialFormatListSent := true }
    match cliprdrPacketNew context cbFormatList 0 0 with
    | none => (caps, none)
    | some none => (caps, some (errorInternalError, []))
    | some (some s) => (caps, cliprdrPacketSend context s)

def announcedFlags : UInt32 :=
  cbUseLongFormatNames ||| cbStreamFileClipEnabled ||| cbFileClipNoFilePaths

/-- The callback after it stored its context. -/
def qfCliprdrMonitorReadyCallback (context : CliprdrPlugin) (caps : CliprdrCapabilities) :
    CliprdrCapabilities × Outcome :=
  match cliprdrClientCapabilities context caps cbCapsVersion2 announcedFlags with
  | (caps, none) => (caps, none)
  | (caps, some (rc, packets)) =>
      if rc ≠ channelRcOk then (caps, some (rc, packets))
      else
        match cliprdrClientEmptyFormatList context caps with
        | (caps, none) => (caps, none)
        | (caps, some (rc, packets')) => (caps, some (rc, packets ++ packets'))

def negotiate (context : CliprdrPlugin) (caps : CliprdrCapabilities) (serverFlags : UInt32) :
    CliprdrCapabilities × Outcome :=
  qfCliprdrMonitorReadyCallback context
    (caps.processGeneralCapability serverFlags).processMonitorReady

def CliprdrPlugin.agreed (context : CliprdrPlugin) (caps : CliprdrCapabilities) : CliprdrPlugin :=
  { context with hasHugeFileSupport := caps.hasHugeFileSupport }

namespace CliprdrCapabilities

variable {supported : Bool} {bit other flags : UInt32} {caps : CliprdrCapabilities}

theorem keepFlag_and_self :
    keepFlag supported bit flags &&& bit = if supported then flags &&& bit else 0 := by
  cases supported with
  | true => rfl
  | false =>
      change flags &&& ~~~bit &&& bit = 0
      rw [UInt32.and_assoc, UInt32.and_comm (~~~bit), UInt32.and_not_self, UInt32.and_zero]

theorem keepFlag_and_other (h : ~~~bit &&& other = other) :
    keepFlag supported bit flags &&& other = flags &&& other := by
  cases supported with
  | true => rfl
  | false =>
      change flags &&& ~~~bit &&& other = flags &&& other
      rw [UInt32.and_assoc, h]

/-- A capability is agreed on exactly when the server supports it and the client
announces it. -/
theorem setFlags_maskFlags (caps : CliprdrCapabilities) (flags : UInt32) :
    caps.setFlags (caps.maskFlags flags) =
      { caps with
        useLongFormatNames := caps.useLongFormatNames && flags &&& cbUseLongFormatNames != 0
        streamFileClipEnabled :=
          caps.streamFileClipEnabled && flags &&& cbStreamFileClipEnabled != 0
        fileClipNoFilePaths := caps.fileClipNoFilePaths && flags &&& cbFileClipNoFilePaths != 0
        canLockClipData := caps.canLockClipData && flags &&& cbCanLockClipData != 0
        hasHugeFileSupport :=
          caps.hasHugeFileSupport && flags &&& cbHugeFileSupportEnabled != 0 } := by
  have hif : ∀ (b : Bool) (v : UInt32), ((if b then v else 0) != 0) = (b && v != 0) := by
    intro b v
    cases b <;> rfl
  simp only [setFlags, maskFlags, CliprdrCapabilities.mk.injEq, and_true]
  refine ⟨?_, ?_, ?_, ?_, ?_⟩
  · rw [keepFlag_and_other (by decide), keepFlag_and_other (by decide),
      keepFlag_and_other (by decide), keepFlag_and_other (by decide), keepFlag_and_self, hif]
  · rw [keepFlag_and_other (by decide), keepFlag_and_other (by decide),
      keepFlag_and_other (by decide), keepFlag_and_self, hif, keepFlag_and_other (by decide)]
  · rw [keepFlag_and_other (by decide), keepFlag_and_other (by decide), keepFlag_and_self, hif,
      keepFlag_and_other (by decide), keepFlag_and_other (by decide)]
  · rw [keepFlag_and_other (by decide), keepFlag_and_self, hif, keepFlag_and_other (by decide),
      keepFlag_and_other (by decide), keepFlag_and_other (by decide)]
  · rw [keepFlag_and_self, hif, keepFlag_and_other (by decide), keepFlag_and_other (by decide),
      keepFlag_and_other (by decide), keepFlag_and_other (by decide)]

end CliprdrCapabilities

variable {context : CliprdrPlugin} {caps : CliprdrCapabilities} {request : FileContentsRequest}

theorem cliprdrClientCapabilities_eq (h : context.Works) (caps : CliprdrCapabilities)
    (version generalFlags : UInt32) :
    cliprdrClientCapabilities context caps version generalFlags =
      ({ caps.setFlags (caps.maskFlags generalFlags) with initialFormatListSent := false },
        some (channelRcOk,
          [packet cbClipCaps 0 (clipCapsBody version (caps.maskFlags generalFlags))])) := by
  have hbody : (clipCapsBody version (caps.maskFlags generalFlags)).length = 16 := by
    simp only [clipCapsBody, List.length_append, length_leUInt16, length_leUInt32]
  obtain ⟨s, s', hs, hwrite, hsend⟩ := cliprdrPacketNew_write_send h cbClipCaps 0
    (show 16 < 4294967295 by decide) hbody.le (by omega)
  simp only [cliprdrClientCapabilities, hs, hwrite]
  rw [hsend]

theorem cliprdrClientEmptyFormatList_eq (h : context.Works)
    (hsent : caps.initialFormatListSent = false) :
    cliprdrClientEmptyFormatList context caps =
      ({ caps with initialFormatListSent := true },
        some (channelRcOk, [packet cbFormatList 0 []])) := by
  obtain ⟨s, hs, hwritten, hpos, hcap, hlength⟩ :=
    cliprdrPacketNew_eq cbFormatList 0 (h.streamNew _) (show 0 < 4294967295 by decide)
  simp only [cliprdrClientEmptyFormatList, hsent, Bool.false_eq_true, if_false, hs]
  have hempty : s.written = leUInt16 cbFormatList ++ leUInt16 0 ++ leUInt32 0 ++ [] := by
    rw [hwritten, List.append_nil]
  rw [cliprdrPacketSend_eq h hempty]
  · omega
  · exact Nat.zero_le _

/-- The two messages of the monitor ready callback. -/
theorem qfCliprdrMonitorReadyCallback_eq (h : context.Works) (caps : CliprdrCapabilities) :
    qfCliprdrMonitorReadyCallback context caps =
      ({ caps.setFlags (caps.maskFlags announcedFlags) with initialFormatListSent := true },
        some (channelRcOk,
          [packet cbClipCaps 0 (clipCapsBody cbCapsVersion2 (caps.maskFlags announcedFlags)),
            packet cbFormatList 0 []])) := by
  rw [qfCliprdrMonitorReadyCallback, cliprdrClientCapabilities_eq h]
  simp only [ne_eq, not_true, if_false]
  rw [cliprdrClientEmptyFormatList_eq h rfl]
  rfl

/-- Huge file support is never agreed on, whatever the server supports: the
client does not announce it. -/
theorem negotiate_hasHugeFileSupport (h : context.Works) (caps : CliprdrCapabilities)
    (serverFlags : UInt32) :
    (negotiate context caps serverFlags).1.hasHugeFileSupport = false := by
  have hbit : (announcedFlags &&& cbHugeFileSupportEnabled != 0) = false := by decide
  rw [negotiate, qfCliprdrMonitorReadyCallback_eq h, CliprdrCapabilities.setFlags_maskFlags]
  simp only [hbit, Bool.and_false]

def fileContentsRequestBody (request : FileContentsRequest) : Bytes :=
  leUInt32 request.streamId ++ leUInt32 request.listIndex ++ leUInt32 request.dwFlags ++
    leUInt32 request.nPositionLow ++ leUInt32 request.nPositionHigh ++
    leUInt32 request.cbRequested ++ (request.clipDataId.map leUInt32).getD []

def cliprdrPacketFileContentsRequestNew (context : CliprdrPlugin)
    (request : FileContentsRequest) : Option (Option WStream) :=
  match cliprdrPacketNew context cbFileContentsRequest 0 28 with
  | none => none
  | some none => some none
  | some (some s) =>
      match s.write? (fileContentsRequestBody request) with
      | none => none
      | some s => some (some s)

def cliprdrClientFileContentsRequest (context : CliprdrPlugin) (request : FileContentsRequest) :
    Outcome :=
  if context.featureMask &&& cliprdrFlagRemoteToLocalFiles = 0 then some (channelRcOk, [])
  else if !context.hasHugeFileSupport &&
      4294967295 < request.cbRequested.toUInt64 + request.nPositionLow.toUInt64 then
    some (errorInvalidParameter, [])
  else if !context.hasHugeFileSupport && request.nPositionHigh != 0 then
    some (errorInvalidParameter, [])
  else
    match cliprdrPacketFileContentsRequestNew context request with
    | none => none
    | some none => some (errorInternalError, [])
    | some (some s) => cliprdrPacketSend context s

/-- Without huge file support a request must end within the first four gigabytes. -/
def PassesLocalChecks (context : CliprdrPlugin) (request : FileContentsRequest) : Prop :=
  context.hasHugeFileSupport = true ∨
    request.cbRequested.toNat + request.nPositionLow.toNat ≤ 4294967295 ∧
      request.nPositionHigh = 0

instance : Decidable (PassesLocalChecks context request) := inferInstanceAs (Decidable (_ ∨ _))

theorem toNat_cbRequested_add_nPositionLow (request : FileContentsRequest) :
    (request.cbRequested.toUInt64 + request.nPositionLow.toUInt64).toNat =
      request.cbRequested.toNat + request.nPositionLow.toNat := by
  have h₁ := request.cbRequested.toNat_lt
  have h₂ := request.nPositionLow.toNat_lt
  rw [UInt64.toNat_add, UInt32.toNat_toUInt64, UInt32.toNat_toUInt64, Nat.mod_eq_of_lt (by omega)]

theorem length_fileContentsRequestBody_le (request : FileContentsRequest) :
    (fileContentsRequestBody request).length ≤ 28 := by
  cases hid : request.clipDataId with
  | none => simp [fileContentsRequestBody, hid]
  | some id => simp [fileContentsRequestBody, hid]

/-- A request goes out with the return code for success, or not at all. -/
theorem cliprdrClientFileContentsRequest_cases {rc : UInt32} {packets : List Bytes}
    (h : cliprdrClientFileContentsRequest context request = some (rc, packets))
    (hmask : context.featureMask &&& cliprdrFlagRemoteToLocalFiles ≠ 0) :
    rc ≠ channelRcOk ∧ packets = [] ∨
      rc = channelRcOk ∧
        packets = [packet cbFileContentsRequest 0 (fileContentsRequestBody request)] := by
  have hrefused : errorInvalidParameter ≠ channelRcOk := by decide
  have hfailed : errorInternalError ≠ channelRcOk := by decide
  have hbody := length_fileContentsRequestBody_le request
  rw [cliprdrClientFileContentsRequest, if_neg hmask] at h
  split_ifs at h
  · obtain ⟨rfl, rfl⟩ := Prod.mk.inj (Option.some.inj h)
    exact .inl ⟨hrefused, rfl⟩
  · obtain ⟨rfl, rfl⟩ := Prod.mk.inj (Option.some.inj h)
    exact .inl ⟨hrefused, rfl⟩
  · by_cases hnew : context.streamNew (28 + 8) = true
    · obtain ⟨s, s', hs, hwrite, hsend⟩ := cliprdrPacketNew_writeEx cbFileContentsRequest 0 hnew
        (by decide) hbody (by omega)
      simp only [cliprdrPacketFileContentsRequestNew, hs, hwrite, hsend, CliprdrPlugin.writeEx,
        Option.some.injEq, Prod.mk.injEq] at h
      obtain ⟨rfl, rfl⟩ := h
      split_ifs with hok
      · exact .inr ⟨hok, rfl⟩
      · exact .inl ⟨hok, rfl⟩
    · have hnone : cliprdrPacketNew context cbFileContentsRequest 0 28 = some none := by
        rw [cliprdrPacketNew, if_pos (by decide), if_neg hnew]
      simp only [cliprdrPacketFileContentsRequestNew, hnone] at h
      obtain ⟨rfl, rfl⟩ := Prod.mk.inj (Option.some.inj h)
      exact .inl ⟨hfailed, rfl⟩

/-- A request that passes the checks is sent, any other is refused before that. -/
theorem cliprdrClientFileContentsRequest_eq (h : context.Works)
    (hmask : context.featureMask &&& cliprdrFlagRemoteToLocalFiles ≠ 0)
    (request : FileContentsRequest) :
    cliprdrClientFileContentsRequest context request =
      if PassesLocalChecks context request then
        some (channelRcOk, [packet cbFileContentsRequest 0 (fileContentsRequestBody request)])
      else some (errorInvalidParameter, []) := by
  have hsum : 4294967295 < request.cbRequested.toUInt64 + request.nPositionLow.toUInt64 ↔
      4294967295 < request.cbRequested.toNat + request.nPositionLow.toNat := by
    rw [UInt64.lt_iff_toNat_lt, toNat_cbRequested_add_nPositionLow]
    rfl
  have hsend : (match cliprdrPacketFileContentsRequestNew context request with
      | none => none
      | some none => some (errorInternalError, [])
      | some (some s) => cliprdrPacketSend context s : Outcome) =
        some (channelRcOk, [packet cbFileContentsRequest 0 (fileContentsRequestBody request)]) := by
    have hbody := length_fileContentsRequestBody_le request
    obtain ⟨s, s', hs, hwrite, hsend⟩ := cliprdrPacketNew_write_send h cbFileContentsRequest 0
      (show 28 < 4294967295 by decide) hbody (by omega)
    simp only [cliprdrPacketFileContentsRequestNew, hs, hwrite]
    exact hsend
  rw [cliprdrClientFileContentsRequest, if_neg hmask, hsend]
  by_cases hpass : PassesLocalChecks context request
  · rw [if_pos hpass]
    rcases hpass with hhuge | ⟨hlow, hhigh⟩
    · simp [hhuge]
    · have hle : ¬ 4294967295 < request.cbRequested.toUInt64 + request.nPositionLow.toUInt64 := by
        rw [hsum]
        omega
      simp [hle, hhigh]
  · rw [if_neg hpass]
    have hhuge : context.hasHugeFileSupport = false := by
      rw [← Bool.not_eq_true]
      exact fun hhuge => hpass (Or.inl hhuge)
    by_cases hlow : 4294967295 < request.cbRequested.toUInt64 + request.nPositionLow.toUInt64
    · simp [hhuge, hlow]
    · have hhigh : request.nPositionHigh ≠ 0 := by
        intro hhigh
        rw [hsum] at hlow
        exact hpass (Or.inr ⟨by omega, hhigh⟩)
      simp [hhuge, hlow, hhigh]

end QfClient
