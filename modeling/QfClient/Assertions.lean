import Mathlib.Algebra.Order.BigOperators.Group.List
import Mathlib.Algebra.Order.Group.Nat
import QfClient.FeatureMask
import QfClient.FormatDataAnswers
import QfClient.MessageEffects
import QfClient.RangeServing

/-!
# When an assertion stops the program

A packet is begun with room for a body, the body is written and the packet is sent, and
each of these asserts that the lengths fit. Whatever the transport and the allocators do,
the client is stopped only by a message that asks for more data than a packet holds.
-/

namespace QfClient

open LittleEndian Machine WinPR

/-- A packet begun for `dataLen` bytes cannot take `length` bytes, or not be sent with them. -/
def PacketOverflows (context : CliprdrPlugin) (dataLen length : ℕ) : Prop :=
  4294967295 ≤ dataLen ∨
    context.streamNew (dataLen + 8) = true ∧ (dataLen < length ∨ 4294967279 < length)

/-- The stream with `length` more bytes, or none if there is no room for them. -/
def Appends (s : WStream) (length : ℕ) : Option WStream → Prop
  | none => s.capacity < s.position + length
  | some s' => s'.position = s.position + length ∧ s'.capacity = s.capacity

variable {context : CliprdrPlugin} {s : WStream} {msgType msgFlags : UInt16}
  {dataLen length : ℕ} {error : UInt32} {result : Option WStream}

theorem appends_write? (s : WStream) (bytes : Bytes) : Appends s bytes.length (s.write? bytes) := by
  rw [WStream.write?]
  split_ifs with hroom
  · exact ⟨WStream.position_write hroom, WStream.capacity_write hroom⟩
  · exact not_le.mp hroom

theorem Appends.bind {more : ℕ} {write : WStream → Option WStream} (h : Appends s length result)
    (hwrite : ∀ s, Appends s more (write s)) : Appends s (length + more) (result.bind write) := by
  cases result with
  | none =>
      change s.capacity < _ at h
      change s.capacity < _
      omega
  | some s' =>
      obtain ⟨hposition, hcapacity⟩ := h
      have hnext := hwrite s'
      rw [Option.bind_some]
      cases hs : write s' with
      | none =>
          rw [hs] at hnext
          change s'.capacity < _ at hnext
          change s.capacity < _
          omega
      | some s'' =>
          rw [hs] at hnext
          exact ⟨by rw [hnext.1, hposition, Nat.add_assoc], hnext.2.trans hcapacity⟩

/-- A stream that holds a header has room for the length in it. -/
theorem cliprdrPacketSend_eq_none_iff :
    cliprdrPacketSend context s = none ↔ ¬ (8 ≤ s.position ∧ s.position ≤ 4294967287) := by
  rw [cliprdrPacketSend]
  split_ifs with hrange
  · refine iff_of_false ?_ (not_not_intro hrange)
    cases hback : s.setPosition 4 with
    | none => simp
    | some s₁ =>
        have hroom : s₁.position + (leUInt32 (UInt32.ofNat (s.position - 8))).length ≤
            s₁.capacity := by
          rw [WStream.setPosition] at hback
          split_ifs at hback
          obtain rfl := Option.some.inj hback
          have hle : s.position ≤ s.buffer.length := s.position_le
          change 4 + (leUInt32 _).length ≤ s.buffer.length
          rw [length_leUInt32]
          omega
        simp only [WStream.write?_eq_some hroom]
        split <;> simp
  · exact iff_of_true rfl hrange

theorem cliprdrPacketNew_cases (context : CliprdrPlugin) (msgType msgFlags : UInt16)
    (dataLen : ℕ) :
    (4294967295 ≤ dataLen ∧ cliprdrPacketNew context msgType msgFlags dataLen = none) ∨
    (dataLen < 4294967295 ∧ context.streamNew (dataLen + 8) = false ∧
      cliprdrPacketNew context msgType msgFlags dataLen = some none) ∨
    (dataLen < 4294967295 ∧ context.streamNew (dataLen + 8) = true ∧
      ∃ s, cliprdrPacketNew context msgType msgFlags dataLen = some (some s) ∧
        s.position = 8 ∧ s.capacity = dataLen + 8) := by
  by_cases hlen : dataLen < 4294967295
  · right
    cases hnew : context.streamNew (dataLen + 8) with
    | false =>
        left
        refine ⟨hlen, rfl, ?_⟩
        rw [cliprdrPacketNew, if_pos hlen, hnew, if_neg Bool.false_ne_true]
    | true =>
        right
        obtain ⟨s, hs, -, hposition, hcapacity, -⟩ :=
          cliprdrPacketNew_eq msgType msgFlags hnew hlen
        exact ⟨hlen, rfl, s, hs, hposition, hcapacity⟩
  · exact Or.inl ⟨not_lt.mp hlen, if_neg hlen⟩

/-- A new packet, what is written to it, and its sending. -/
theorem buildPacket_eq_none_iff {write : WStream → Outcome}
    (hwrite : ∀ s, s.position = 8 → s.capacity = dataLen + 8 →
      (write s = none ↔ dataLen < length ∨ 4294967279 < length)) :
    (match cliprdrPacketNew context msgType msgFlags dataLen with
      | none => none
      | some none => some (error, [])
      | some (some s) => write s) = none ↔ PacketOverflows context dataLen length := by
  rw [PacketOverflows]
  obtain ⟨hlen, hnew⟩ | ⟨hlen, hstream, hnew⟩ | ⟨hlen, hstream, s, hnew, hposition, hcapacity⟩ :=
    cliprdrPacketNew_cases context msgType msgFlags dataLen
  · rw [hnew]
    exact iff_of_true rfl (Or.inl hlen)
  · rw [hnew, hstream]
    exact iff_of_false (by simp) (by simp only [Bool.false_eq_true, false_and, or_false]; omega)
  · rw [hnew, hstream]
    simpa only [not_le.mpr hlen, false_or, true_and] using hwrite s hposition hcapacity

theorem Appends.send_eq_none_iff (h : Appends s length result) (hposition : s.position = 8)
    (hcapacity : s.capacity = dataLen + 8) :
    (match result with
      | none => none
      | some s => cliprdrPacketSend context s) = none ↔
      dataLen < length ∨ 4294967279 < length := by
  cases result with
  | none =>
      change s.capacity < _ at h
      exact iff_of_true rfl (by omega)
  | some s' =>
      have hle : s'.position ≤ s'.capacity := s'.position_le
      obtain ⟨hposition', hcapacity'⟩ := h
      simp only [cliprdrPacketSend_eq_none_iff]
      omega

/-- The same when the packet is built by a function of its own. -/
theorem sendBuilt_eq_none_iff {build : WStream → Option WStream}
    (hbuild : ∀ s, Appends s length (build s)) :
    (match (match cliprdrPacketNew context msgType msgFlags dataLen with
        | none => none
        | some none => some none
        | some (some s) =>
            match build s with
            | none => none
            | some s => some (some s)) with
      | none => none
      | some none => some (error, [])
      | some (some s) => cliprdrPacketSend context s) = none ↔
        PacketOverflows context dataLen length := by
  have hwhole : (match cliprdrPacketNew context msgType msgFlags dataLen with
      | none => none
      | some none => some (error, [])
      | some (some s) =>
          match build s with
          | none => none
          | some s => cliprdrPacketSend context s) = none ↔
        PacketOverflows context dataLen length :=
    buildPacket_eq_none_iff fun s => (hbuild s).send_eq_none_iff
  rw [← hwhole]
  cases cliprdrPacketNew context msgType msgFlags dataLen with
  | none => rfl
  | some result =>
      cases result with
      | none => rfl
      | some s => cases hs : build s <;> simp only [hs]

theorem not_packetOverflows (hlen : length ≤ dataLen) (hshort : dataLen ≤ 4294967279) :
    ¬ PacketOverflows context dataLen length := by
  rw [PacketOverflows]
  omega

theorem cliprdrSendErrorResponse_ne_none (msgType : UInt16) :
    cliprdrSendErrorResponse context msgType ≠ none := by
  rw [cliprdrSendErrorResponse]
  intro hstops
  have hoverflows : PacketOverflows context 0 0 := by
    refine (buildPacket_eq_none_iff fun s hposition hcapacity => ?_).mp hstops
    rw [cliprdrPacketSend_eq_none_iff]
    omega
  exact not_packetOverflows le_rfl (by decide) hoverflows

theorem cliprdrClientFormatDataRequest_ne_none (formatId : UInt32) :
    cliprdrClientFormatDataRequest context formatId ≠ none := by
  rw [cliprdrClientFormatDataRequest]
  split_ifs
  · simp
  · intro hstops
    have hoverflows := (buildPacket_eq_none_iff fun s =>
      (appends_write? s (leUInt32 formatId)).send_eq_none_iff).mp hstops
    exact not_packetOverflows (length_leUInt32 formatId).le (by decide) hoverflows

theorem cliprdrClientFileContentsRequest_ne_none (request : FileContentsRequest) :
    cliprdrClientFileContentsRequest context request ≠ none := by
  have hlen : (fileContentsRequestBody request).length ≤ 28 := by
    simp only [fileContentsRequestBody, List.length_append, length_leUInt32]
    cases request.clipDataId <;> simp
  rw [cliprdrClientFileContentsRequest]
  split_ifs
  · simp
  · simp
  · simp
  · intro hstops
    have hoverflows := (sendBuilt_eq_none_iff fun s => appends_write? s _).mp hstops
    exact not_packetOverflows hlen (by decide) hoverflows

theorem cliprdrClientFormatDataResponse_eq_none_iff
    (hmask : context.featureMask &&& localToRemote ≠ 0) (response : FormatDataResponse) :
    cliprdrClientFormatDataResponse context response = none ↔
      PacketOverflows context response.requestedFormatData.length
        response.requestedFormatData.length := by
  rw [cliprdrClientFormatDataResponse, if_neg hmask]
  exact buildPacket_eq_none_iff fun s => (appends_write? s _).send_eq_none_iff

theorem sendFileContentsResponse_eq_none_iff
    (hmask : context.featureMask &&& cliprdrFlagLocalToRemoteFiles ≠ 0) (streamId : UInt32)
    {data : Bytes} (hlen : data.length < 2 ^ 32) :
    sendFileContentsResponse context streamId data = none ↔
      PacketOverflows context ((4 + data.length) % 2 ^ 32) (4 + data.length) := by
  have hsize : (4 + UInt32.ofNat data.length).toNat = (4 + data.length) % 2 ^ 32 := by
    rw [UInt32.toNat_add, UInt32.toNat_ofNat_of_lt' hlen]
    rfl
  rw [sendFileContentsResponse, cliprdrClientFileContentsResponse, if_neg hmask,
    cliprdrPacketFileContentsResponseNew, ← hsize]
  refine sendBuilt_eq_none_iff fun s => ?_
  have hwrite := (appends_write? s (leUInt32 streamId)).bind fun s => appends_write? s data
  rw [length_leUInt32] at hwrite
  rw [cliprdrWriteFileContentsResponse, payload_eq _ _ hlen]
  exact hwrite

def formatSize (format : CliprdrFormat) : ℕ :=
  4 + max 32 (((cString format.formatName).length + 1) * 2)

/-- No assertion failed, and a stream that is left grew by at most `length` bytes. -/
def GrowsWithin (s : WStream) (length : ℕ) : Option (Option WStream) → Prop
  | none => False
  | some none => True
  | some (some s') => s.position ≤ s'.position ∧ s'.position ≤ s.position + length

variable {writer : NameWriter} {formats : List CliprdrFormat}

theorem Appends.growsWithin (h : Appends s length result)
    (hroom : s.position + length ≤ s.capacity) : GrowsWithin s length (result.map some) := by
  cases result with
  | none =>
      change s.capacity < _ at h
      omega
  | some s' =>
      obtain ⟨hposition, -⟩ := h
      change s.position ≤ s'.position ∧ s'.position ≤ s.position + length
      omega

theorem GrowsWithin.mono {result : Option (Option WStream)} {length' : ℕ}
    (h : GrowsWithin s length result) (hle : length ≤ length') : GrowsWithin s length' result := by
  cases result with
  | none => exact h
  | some written =>
      cases written with
      | none => trivial
      | some s' => exact ⟨h.1, h.2.trans (Nat.add_le_add_left hle _)⟩

theorem GrowsWithin.cases {result : Option (Option WStream)} (h : GrowsWithin s length result) :
    result = some none ∨ ∃ s', result = some (some s') ∧ s.position ≤ s'.position ∧
      s'.position ≤ s.position + length := by
  cases result with
  | none => exact h.elim
  | some written =>
      cases written with
      | none => exact Or.inl rfl
      | some s' => exact Or.inr ⟨s', rfl, h⟩

theorem growsWithin_streamWriteUtf16String (wcharLength : ℕ) (src : Bytes) :
    GrowsWithin s (2 * wcharLength) (streamWriteUtf16String writer s wcharLength src) := by
  rw [streamWriteUtf16String]
  split_ifs with hroom
  · trivial
  cases writer.convertUtf8N src with
  | none => trivial
  | some units =>
      simp only
      split_ifs with hlong
      · trivial
      have hlen : ((units ++ List.replicate (wcharLength - units.length) 0).flatMap
          leUInt16).length = 2 * wcharLength := by
        rw [length_flatMap_of_length length_leUInt16, List.length_append, List.length_replicate]
        omega
      have hwrite := appends_write? s ((units ++ List.replicate (wcharLength - units.length)
        0).flatMap leUInt16)
      rw [hlen] at hwrite
      have hle : s.position ≤ s.capacity := s.position_le
      exact hwrite.growsWithin (by omega)

theorem formatNameCharSize_unicode (useLongFormatNames : Bool) :
    formatNameCharSize useLongFormatNames false = 2 := by
  cases useLongFormatNames <;> rfl

theorem growsWithin_writeName (useLongFormatNames : Bool) (name : Bytes)
    (hroom : s.position + max 32 ((name.length + 1) * 2) ≤ s.capacity) :
    GrowsWithin s (max 32 ((name.length + 1) * 2))
      (writeName writer useLongFormatNames false s name) := by
  -- without a name there are NULs only
  have hblank (count : ℕ) (hcount : count ≤ max 32 ((name.length + 1) * 2)) :
      GrowsWithin s (max 32 ((name.length + 1) * 2))
        ((s.write? (List.replicate count 0)).map some) := by
    have hwrite := appends_write? s (List.replicate count 0)
    rw [List.length_replicate] at hwrite
    exact (hwrite.growsWithin (by omega)).mono hcount
  cases useLongFormatNames with
  | true =>
      simp only [writeName, formatNameCharSize_unicode, Bool.false_eq_true, if_true, if_false]
      split_ifs
      · exact (growsWithin_streamWriteUtf16String _ _).mono (by omega)
      · exact hblank _ (le_max_right _ _)
  | false =>
      simp only [writeName, formatNameCharSize_unicode, Bool.false_eq_true, if_false]
      split_ifs
      · exact (growsWithin_streamWriteUtf16String _ _).mono (le_max_left _ _)
      · exact hblank _ (le_max_left _ _)

theorem growsWithin_writeFormat (useLongFormatNames : Bool) (format : CliprdrFormat) :
    GrowsWithin s (formatSize format) (writeFormat writer useLongFormatNames false s format) := by
  simp only [writeFormat]
  generalize hname : cString format.formatName = name
  generalize hsize : 4 + max 32 ((name.length + 1) *
    formatNameCharSize useLongFormatNames false) = size
  rw [formatNameCharSize_unicode] at hsize
  have hformat : formatSize format = size := by rw [← hsize, ← hname, formatSize]
  rw [hformat]
  cases hgrown : s.ensureRemainingCapacity writer.growth (writer.realloc size) size with
  | none => trivial
  | some grown =>
      obtain ⟨s₁, hroom⟩ := grown
      have hposition : s₁.position = s.position :=
        (WStream.ensureRemainingCapacity_eq_some writer.growth hgrown).1
      have hfits : s₁.position + (leUInt32 format.formatId).length ≤ s₁.capacity := by
        rw [length_leUInt32]
        omega
      have hid : (s₁.write _ hfits).position = s.position + 4 := by
        rw [WStream.position_write, hposition, length_leUInt32]
      have hwritten : GrowsWithin (s₁.write _ hfits) (max 32 ((name.length + 1) * 2))
          (writeName writer useLongFormatNames false (s₁.write _ hfits) name) := by
        apply growsWithin_writeName
        rw [hid, WStream.capacity_write]
        omega
      simp only [WStream.write?_eq_some hfits]
      obtain hs | ⟨s₂, hs, hge, hle⟩ := hwritten.cases
      · rw [hs]
        trivial
      · rw [hs]
        change s.position ≤ s₂.position ∧ s₂.position ≤ s.position + _
        omega

theorem growsWithin_writeFormats (useLongFormatNames : Bool) (formats : List CliprdrFormat) :
    GrowsWithin s (formats.map formatSize).sum
      (writeFormats writer useLongFormatNames false s formats) := by
  induction formats generalizing s with
  | nil => exact ⟨le_rfl, le_rfl⟩
  | cons format formats ih =>
      rw [writeFormats, List.map_cons, List.sum_cons]
      have hfirst : GrowsWithin s (formatSize format)
          (writeFormat writer useLongFormatNames false s format) :=
        growsWithin_writeFormat useLongFormatNames format
      obtain hs | ⟨s₁, hs, hge₁, hle₁⟩ := hfirst.cases
      · rw [hs]
        trivial
      obtain hs' | ⟨s₂, hs', hge₂, hle₂⟩ := (ih (s := s₁)).cases
      · simp only [hs, hs']
        trivial
      · simp only [hs, hs']
        exact ⟨hge₁.trans hge₂, by omega⟩

/-- A list is sent unless it does not fit a packet. -/
theorem sendFormatList_ne_none (useLongFormatNames : Bool)
    (hshort : (formats.map formatSize).sum ≤ 4294967279) :
    sendFormatList context writer useLongFormatNames formats ≠ none := by
  rw [sendFormatList, cliprdrPacketFormatListNew]
  obtain ⟨hlen, -⟩ | ⟨-, -, hnew⟩ | ⟨-, -, s, hnew, hposition, -⟩ :=
    cliprdrPacketNew_cases context cbFormatList 0 (UInt32.ofNat formats.length * 36).toNat
  · rw [UInt32.toNat_mul] at hlen
    have h36 : (36 : UInt32).toNat = 36 := rfl
    rw [h36] at hlen
    omega
  · simp only [hnew]
    simp
  · have hwrite : GrowsWithin s (formats.map formatSize).sum
      (writeFormats writer useLongFormatNames false s formats) := growsWithin_writeFormats _ _
    obtain hs | ⟨s', hs, hge, hle⟩ := hwrite.cases
    · simp only [hnew, hs]
      simp
    · simp only [hnew, hs]
      rw [ne_eq, cliprdrPacketSend_eq_none_iff]
      omega

/-- The clipboard holds more in the format that is asked for than its packet takes. -/
def AsksTooMuchData (setup : ClipboardSetup) (content : LocalContent) (state : ClipboardState)
    (body : Bytes) : Prop :=
  4 ≤ body.length ∧ setup.context.featureMask &&& localToRemote ≠ 0 ∧
    ∃ mimeData bytes, content.mimeData = some mimeData ∧
      clipboardData setup.serialize setup.remoteFlags state.files mimeData (uint32At body 0) =
        some bytes ∧
      PacketOverflows setup.context (bytes.length % 2 ^ 32) (bytes.length % 2 ^ 32)

def AsksTooMuchOfFile (setup : ClipboardSetup) (content : LocalContent) (state : ClipboardState)
    (body : Bytes) : Prop :=
  ∃ request data, cliprdrReadFileContentsRequest body = .ok request ∧
    setup.context.featureMask &&& cliprdrFlagLocalToRemoteFiles ≠ 0 ∧
    Serves state.files content.disk request data ∧
    PacketOverflows setup.context ((4 + data.length) % 2 ^ 32) (4 + data.length)

def AsksTooMuch (setup : ClipboardSetup) (content : LocalContent) (state : ClipboardState)
    (bytes : Bytes) : Prop :=
  ∃ header body, readHeader bytes = some (header, body) ∧
    (MessageType.ofCode header.msgType = some .formatDataRequest ∧
        AsksTooMuchData setup content state body ∨
      MessageType.ofCode header.msgType = some .fileContentsRequest ∧
        AsksTooMuchOfFile setup content state body)

section Messages

variable {setup : ClipboardSetup} {content : LocalContent} {state : ClipboardState} {body : Bytes}

theorem cliprdrClientCapabilities_ne_none (caps : CliprdrCapabilities)
    (version generalFlags : UInt32) :
    (cliprdrClientCapabilities context caps version generalFlags).2 ≠ none := by
  have hlen (flags : UInt32) : (clipCapsBody version flags).length = 16 := by
    simp only [clipCapsBody, List.length_append, length_leUInt16, length_leUInt32]
  rw [cliprdrClientCapabilities]
  obtain ⟨hlong, -⟩ | ⟨-, -, hnew⟩ | ⟨-, -, s, hnew, hposition, hcapacity⟩ :=
    cliprdrPacketNew_cases context cbClipCaps 0 16
  · omega
  · simp [hnew]
  · have hwrite := appends_write? s (clipCapsBody version (caps.maskFlags generalFlags))
    rw [hlen] at hwrite
    simp only [hnew]
    cases hs : s.write? (clipCapsBody version (caps.maskFlags generalFlags)) with
    | none =>
        rw [hs] at hwrite
        change s.capacity < _ at hwrite
        omega
    | some s' =>
        rw [hs] at hwrite
        obtain ⟨hposition', -⟩ := hwrite
        rw [ne_eq, cliprdrPacketSend_eq_none_iff]
        omega

theorem cliprdrClientEmptyFormatList_ne_none (caps : CliprdrCapabilities) :
    (cliprdrClientEmptyFormatList context caps).2 ≠ none := by
  rw [cliprdrClientEmptyFormatList]
  split_ifs
  · simp
  · obtain ⟨hlong, -⟩ | ⟨-, -, hnew⟩ | ⟨-, -, s, hnew, hposition, -⟩ :=
      cliprdrPacketNew_cases context cbFormatList 0 0
    · omega
    · simp [hnew]
    · simp only [hnew]
      rw [ne_eq, cliprdrPacketSend_eq_none_iff]
      omega

theorem qfCliprdrMonitorReadyCallback_ne_none (caps : CliprdrCapabilities) :
    (qfCliprdrMonitorReadyCallback context caps).2 ≠ none := by
  have hcaps : (cliprdrClientCapabilities context caps cbCapsVersion2 announcedFlags).2 ≠ none :=
    cliprdrClientCapabilities_ne_none caps cbCapsVersion2 announcedFlags
  rw [qfCliprdrMonitorReadyCallback]
  generalize cliprdrClientCapabilities context caps cbCapsVersion2 announcedFlags = r at hcaps ⊢
  obtain ⟨agreed, outcome⟩ := r
  cases outcome with
  | none => exact absurd rfl hcaps
  | some sent =>
      obtain ⟨rc, packets⟩ := sent
      have hlist : (cliprdrClientEmptyFormatList context agreed).2 ≠ none :=
        cliprdrClientEmptyFormatList_ne_none agreed
      simp only
      split_ifs
      · simp
      · generalize cliprdrClientEmptyFormatList context agreed = r at hlist ⊢
        obtain ⟨listed, outcome⟩ := r
        cases outcome with
        | none => exact absurd rfl hlist
        | some sent => simp

theorem cliprdrProcessFormatList_ne_none (client : RemoteFormats) (formats : List CliprdrFormat) :
    cliprdrProcessFormatList context client formats ≠ none := by
  simp only [cliprdrProcessFormatList, qfCliprdrServerFormatListCallBack]
  split_ifs
  · simp
  · split
    · simp
    · simp only [requestRemoteFormat, ne_eq, Option.map_eq_none_iff]
      exact cliprdrClientFormatDataRequest_ne_none _

theorem formatDataRequestCallBack_eq_none_iff (hmask : context.featureMask &&& localToRemote ≠ 0)
    (serialize : SerializeFileList) (remoteFlags : Option UInt32) (files : List ClipboardInfoFile)
    (mimeData : Option MimeData) (formatId : UInt32) :
    qfCliprdrServerFormatDataRequestCallBack context serialize remoteFlags files mimeData formatId =
        none ↔
      ∃ content bytes, mimeData = some content ∧
        clipboardData serialize remoteFlags files content formatId = some bytes ∧
        PacketOverflows context (bytes.length % 2 ^ 32) (bytes.length % 2 ^ 32) := by
  cases mimeData with
  | none => simp [qfCliprdrServerFormatDataRequestCallBack]
  | some content =>
      cases hdata : clipboardData serialize remoteFlags files content formatId with
      | some bytes =>
          obtain ⟨answer, hanswer⟩ := dataRequest_of_some context hdata
          have hlen : (bytes.take (bytes.length % 2 ^ 32)).length = bytes.length % 2 ^ 32 := by
            rw [List.length_take]
            exact Nat.min_eq_left (Nat.mod_le _ _)
          rw [hanswer, Option.map_eq_none_iff, cliprdrClientFormatDataResponse_eq_none_iff hmask,
            hlen]
          constructor
          · exact fun hoverflows => ⟨content, bytes, rfl, hdata, hoverflows⟩
          · rintro ⟨content', bytes', hcontent, hbytes, hoverflows⟩
            obtain rfl := Option.some.inj hcontent
            obtain rfl := Option.some.inj (hdata.symm.trans hbytes)
            exact hoverflows
      | none =>
          refine iff_of_false ?_ ?_
          · simp only [qfCliprdrServerFormatDataRequestCallBack, localFormatData_eq, hdata,
              Option.elim_none]
            split_ifs
            · simp [FormatDataAnswer.response]
            · simp only [FormatDataAnswer.response, Option.map_eq_none_iff,
                cliprdrClientFormatDataResponse_eq_none_iff hmask]
              exact not_packetOverflows le_rfl (by decide)
          · rintro ⟨content', bytes, hcontent, hbytes, -⟩
            obtain rfl := Option.some.inj hcontent
            rw [hdata] at hbytes
            cases hbytes

theorem cliprdrProcessFormatDataRequest_eq_none_iff :
    cliprdrProcessFormatDataRequest setup content state body = none ↔
      AsksTooMuchData setup content state body := by
  rw [cliprdrProcessFormatDataRequest, AsksTooMuchData]
  split_ifs with hshort hmask
  · exact iff_of_false (by simp) (by omega)
  · refine iff_of_false ?_ (fun h => h.2.1 hmask)
    rw [Option.map_eq_none_iff]
    exact cliprdrSendErrorResponse_ne_none _
  · rw [Option.map_eq_none_iff, formatDataRequestCallBack_eq_none_iff hmask]
    exact ⟨fun h => ⟨not_lt.mp hshort, hmask, h⟩, fun h => h.2.2⟩

theorem cliprdrProcessFileContentsRequest_eq_none_iff :
    cliprdrProcessFileContentsRequestMessage setup content state body = none ↔
      AsksTooMuchOfFile setup content state body := by
  rw [cliprdrProcessFileContentsRequestMessage, Option.map_eq_none_iff,
    cliprdrProcessFileContentsRequest, AsksTooMuchOfFile]
  cases hread : cliprdrReadFileContentsRequest body with
  | error error => simp
  | ok request =>
      by_cases hmask : setup.context.featureMask &&& cliprdrFlagLocalToRemoteFiles = 0
      · simp only [if_pos hmask]
        refine iff_of_false (cliprdrSendErrorResponse_ne_none _) ?_
        rintro ⟨request', data, -, hbit, -⟩
        exact hbit hmask
      simp only [if_neg hmask]
      by_cases hserves : ∃ data, Serves state.files content.disk request data
      · obtain ⟨data, hdata⟩ := hserves
        rw [serverFileContentsRequest_of_serves hdata,
          sendFileContentsResponse_eq_none_iff hmask _ hdata.length_lt]
        constructor
        · exact fun hoverflows => ⟨request, data, rfl, hmask, hdata, hoverflows⟩
        · rintro ⟨request', data', hrequest, -, hdata', hoverflows⟩
          obtain rfl := Except.ok.inj hrequest
          rwa [hdata.unique hdata']
      · have hnot := not_exists.mp hserves
        rw [serverFileContentsRequest_of_not_serves hnot]
        refine iff_of_false (by simp [responseFailed]) ?_
        rintro ⟨request', data, hrequest, -, hdata, -⟩
        obtain rfl := Except.ok.inj hrequest
        exact hnot data hdata

/-- A message of the server stops the program exactly if it asks for too much. -/
theorem receiveMessage_eq_none_iff (bytes : Bytes) :
    receiveMessage setup content state bytes = none ↔ AsksTooMuch setup content state bytes := by
  rw [receiveMessage, AsksTooMuch]
  cases hread : readHeader bytes with
  | none => simp
  | some message =>
      obtain ⟨header, body⟩ := message
      have hsame : (∃ header' body', some (header, body) = some (header', body') ∧
          (MessageType.ofCode header'.msgType = some .formatDataRequest ∧
              AsksTooMuchData setup content state body' ∨
            MessageType.ofCode header'.msgType = some .fileContentsRequest ∧
              AsksTooMuchOfFile setup content state body')) ↔
          (MessageType.ofCode header.msgType = some .formatDataRequest ∧
              AsksTooMuchData setup content state body ∨
            MessageType.ofCode header.msgType = some .fileContentsRequest ∧
              AsksTooMuchOfFile setup content state body) := by
        constructor
        · rintro ⟨header', body', heq, h⟩
          obtain ⟨rfl, rfl⟩ := Prod.mk.inj (Option.some.inj heq)
          exact h
        · exact fun h => ⟨header, body, rfl, h⟩
      rw [hsame]
      simp only [processMessage]
      cases MessageType.ofCode header.msgType with
      | none => simp
      | some type =>
          cases type with
          | monitorReady =>
              simp [cliprdrProcessMonitorReady, qfCliprdrMonitorReadyCallback_ne_none]
          | formatList =>
              simp only [cliprdrProcessFormatListMessage]
              split
              · simp
              · simp [cliprdrProcessFormatList_ne_none]
          | formatDataRequest => simp [cliprdrProcessFormatDataRequest_eq_none_iff]
          | fileContentsRequest => simp [cliprdrProcessFileContentsRequest_eq_none_iff]
          | _ => simp

end Messages

section Turns

variable {setup : ClipboardSetup}

theorem sum_filter_le (formats : List CliprdrFormat) (mask checkMask : UInt32) :
    ((cliprdrFilterFormatList formats mask checkMask).map formatSize).sum ≤
      (formats.map formatSize).sum := by
  have hsub := filter_sublist formats mask checkMask
  exact (hsub.map formatSize).sum_le_sum fun _ _ => Nat.zero_le _

/-- The lists of the client are short. -/
theorem sum_formatSize_dataChanged {capture : List QUrl → List ClipboardInfoFile}
    {ready fromRemote : Bool} {files : List ClipboardInfoFile} {mimeData : MimeData}
    {formats : List CliprdrFormat}
    (h : (dataChangedCallback capture ready fromRemote files mimeData).2 = some formats) :
    (formats.map formatSize).sum ≤ 4294967279 := by
  simp only [dataChangedCallback] at h
  split_ifs at h
  · obtain rfl := Option.some.inj h
    decide
  · obtain rfl := Option.some.inj h
    decide
  · obtain rfl := Option.some.inj h
    decide

theorem dataChanged_ne_none (state : ClipboardState) (fromRemote : Bool) (disk : FileNode)
    (mimeData : MimeData) : state.dataChanged setup fromRemote disk mimeData ≠ none := by
  simp only [ClipboardState.dataChanged]
  cases hchanged : (dataChangedCallback (captureUrls disk) state.ready fromRemote state.files
      mimeData).2 with
  | none => simp
  | some formats =>
      have hshort := sum_formatSize_dataChanged hchanged
      simp only [ne_eq, Option.map_eq_none_iff, cliprdrClientFormatList]
      split_ifs
      · simp
      · exact sendFormatList_ne_none _ ((sum_filter_le _ _ _).trans hshort)

def Client.canTake (s : Client) : ClientInput → Prop
  | .message _ _ => s.running = true
  | .dataChanged _ _ _ => True
  | .send request => s.state.slot.pc = .armed request.streamId
  | .worker turn => (slotStep s.state.slot turn.input).isSome

/-- From any state, with any transport and any allocators: a turn that can be taken is taken,
unless the server asks for more data than a packet holds. -/
theorem client_stops_iff (setup : ClipboardSetup) (s : Client) (i : ClientInput) :
    clientStep setup s i = none ↔ ¬ s.canTake i ∨
      ∃ bytes content, i = .message bytes content ∧ AsksTooMuch setup content s.state bytes := by
  cases i with
  | message bytes content =>
      simp only [clientStep, Client.canTake, ClientInput.message.injEq]
      by_cases hrunning : s.running = true
      · rw [if_pos hrunning, Option.map_eq_none_iff, receiveMessage_eq_none_iff]
        simp [hrunning]
      · rw [if_neg hrunning]
        exact iff_of_true rfl (Or.inl hrunning)
  | dataChanged fromRemote disk mimeData =>
      simp [clientStep, Client.canTake, dataChanged_ne_none]
  | send request =>
      simp only [clientStep, Client.canTake]
      by_cases hpc : s.state.slot.pc = .armed request.streamId
      · rw [if_pos hpc]
        refine iff_of_false ?_ (by simp [hpc])
        cases hsent : cliprdrClientFileContentsRequest (setup.context.agreed s.state.caps)
            request with
        | none => exact absurd hsent (cliprdrClientFileContentsRequest_ne_none request)
        | some outcome =>
            simp only [slotStep, hpc]
            split_ifs <;> simp
      · rw [if_neg hpc]
        exact iff_of_true rfl (Or.inl hpc)
  | worker turn =>
      simp [clientStep, Client.canTake]

end Turns

end QfClient
