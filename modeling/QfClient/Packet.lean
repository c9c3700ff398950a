import QfClient.Basic
import QfClient.LittleEndian
import QfClient.Stream

/-!
# Clipboard packets

A packet is an eight byte header, with the message type, the flags and the
length of what follows, and a body. Building one writes a zero length first and
`cliprdrPacketSend` goes back to fill it in. The outer `none` of a result is a
failed `WINPR_ASSERT`, which stops the program; the inner one is a stream that
could not be allocated.
-/

namespace QfClient

open LittleEndian WinPR

/-- What `cliprdrPlugin` holds for these functions: the clipboard feature mask of
the settings, the negotiated capability, the transport and the allocator. -/
structure CliprdrPlugin where
  featureMask : UInt32
  hasHugeFileSupport : Bool
  virtualChannelWriteEx : Bytes → UInt32
  streamNew : ℕ → Bool

/-- The return code of a call and the packets the transport accepted in it. -/
abbrev Outcome := Option (UInt32 × List Bytes)

/-- `CLIPRDR_FILE_CONTENTS_RESPONSE`; `requestedData` may be a null pointer. -/
structure FileContentsResponse where
  msgFlags : UInt16
  streamId : UInt32
  cbRequested : UInt32
  requestedData : Option Bytes
  deriving DecidableEq, Repr

def FileContentsResponse.payload (response : FileContentsResponse) : Bytes :=
  (response.requestedData.getD []).take response.cbRequested.toNat

def cliprdrPacketNew (plugin : CliprdrPlugin) (msgType msgFlags : UInt16) (dataLen : ℕ) :
    Option (Option WStream) :=
  if dataLen < 4294967295 then
    if plugin.streamNew (dataLen + 8) then
      match WStream.new (dataLen + 8) with
      | none => some none
      | some s =>
          match (s.write? (leUInt16 msgType)).bind
              (fun s => (s.write? (leUInt16 msgFlags)).bind (WStream.write? · (leUInt32 0))) with
          | none => none
          | some s => some (some s)
    else some none
  else none

/-- `pVirtualChannelWriteEx` with the bytes in front of the position. -/
def CliprdrPlugin.writeEx (plugin : CliprdrPlugin) (packet : Bytes) : UInt32 × List Bytes :=
  let status := plugin.virtualChannelWriteEx packet
  (status, if status = channelRcOk then [packet] else [])

def cliprdrPacketSend (plugin : CliprdrPlugin) (s : WStream) : Outcome :=
  let pos := s.position
  if 8 ≤ pos ∧ pos ≤ 4294967295 - 8 then
    match s.setPosition 4 with
    | none => some (errorInvalidData, [])
    | some s =>
        match s.write? (leUInt32 (UInt32.ofNat (pos - 8))) with
        | none => none
        | some s =>
            match s.setPosition pos with
            | none => some (errorInvalidData, [])
            | some s => some (plugin.writeEx s.written)
  else none

def cliprdrSendErrorResponse (plugin : CliprdrPlugin) (type : UInt16) : Outcome :=
  match cliprdrPacketNew plugin type cbResponseFail 0 with
  | none => none
  | some none => some (errorOutOfMemory, [])
  | some (some s) => cliprdrPacketSend plugin s

def cliprdrWriteFileContentsResponse (s : WStream) (response : FileContentsResponse) :
    Option WStream :=
  (s.write? (leUInt32 response.streamId)).bind (WStream.write? · response.payload)

/-- `4 + response->cbRequested` is computed in 32 bits. -/
def cliprdrPacketFileContentsResponseNew (plugin : CliprdrPlugin)
    (response : FileContentsResponse) : Option (Option WStream) :=
  match cliprdrPacketNew plugin cbFileContentsResponse response.msgFlags
      (4 + response.cbRequested).toNat with
  | none => none
  | some none => some none
  | some (some s) =>
      match cliprdrWriteFileContentsResponse s response with
      | none => none
      | some s => some (some s)

def cliprdrClientFileContentsResponse (plugin : CliprdrPlugin)
    (response : FileContentsResponse) : Outcome :=
  if plugin.featureMask &&& cliprdrFlagLocalToRemoteFiles = 0 then
    cliprdrSendErrorResponse plugin cbFileContentsResponse
  else
    match cliprdrPacketFileContentsResponseNew plugin response with
    | none => none
    | some none => some (errorInternalError, [])
    | some (some s) => cliprdrPacketSend plugin s

def uint16At (bytes : Bytes) (offset : ℕ) : UInt16 :=
  UInt16.ofNat (leNat ((bytes.drop offset).take 2))

def uint32At (bytes : Bytes) (offset : ℕ) : UInt32 :=
  UInt32.ofNat (leNat ((bytes.drop offset).take 4))

structure ClipboardHeader where
  msgType : UInt16
  msgFlags : UInt16
  dataLen : UInt32
  deriving DecidableEq, Repr

def readHeader (bytes : Bytes) : Option (ClipboardHeader × Bytes) :=
  if bytes.length < 8 then none
  else
    let header : ClipboardHeader := ⟨uint16At bytes 0, uint16At bytes 2, uint32At bytes 4⟩
    if (bytes.drop 8).length < header.dataLen.toNat then none else some (header, bytes.drop 8)

def cliprdrValidateFileContentsRequest (request : FileContentsRequest) : Bool :=
  if request.dwFlags &&& fileContentsSize ≠ 0 then
    if request.cbRequested ≠ 8 then false
    else !(request.nPositionHigh ≠ 0 || request.nPositionLow ≠ 0)
  else true

/-- The reader of a File Contents Request; `bytes` is what remains of its stream. -/
def cliprdrReadFileContentsRequest (bytes : Bytes) : Except UInt32 FileContentsRequest :=
  if bytes.length < 24 then .error errorInvalidData
  else
    let request : FileContentsRequest :=
      { streamId := uint32At bytes 0
        listIndex := uint32At bytes 4
        dwFlags := uint32At bytes 8
        nPositionLow := uint32At bytes 12
        nPositionHigh := uint32At bytes 16
        cbRequested := uint32At bytes 20
        clipDataId := if 28 ≤ bytes.length then some (uint32At bytes 24) else none }
    if cliprdrValidateFileContentsRequest request then .ok request else .error errorBadArguments

/-- The reader of a File Contents Response; `bytes` is what remains of its stream. -/
def cliprdrReadFileContentsResponse (header : ClipboardHeader) (bytes : Bytes) :
    Except UInt32 FileContentsResponse :=
  if bytes.length < 4 then .error errorInvalidData
  else if header.dataLen < 4 then .error errorInvalidData
  else .ok
    { msgFlags := header.msgFlags
      streamId := uint32At bytes 0
      cbRequested := header.dataLen - 4
      requestedData := some (bytes.drop 4) }

def packet (msgType msgFlags : UInt16) (body : Bytes) : Bytes :=
  leUInt16 msgType ++ leUInt16 msgFlags ++ leUInt32 (UInt32.ofNat body.length) ++ body

def fileContentsResponsePacket (msgFlags : UInt16) (streamId : UInt32) (data : Bytes) : Bytes :=
  packet cbFileContentsResponse msgFlags (leUInt32 streamId ++ data)

/-- Streams can be allocated and the transport accepts every write. -/
structure CliprdrPlugin.Works (plugin : CliprdrPlugin) : Prop where
  streamNew : ∀ size, plugin.streamNew size = true
  accepts : ∀ packet, plugin.virtualChannelWriteEx packet = channelRcOk

/-- Besides, files may be copied to the server. -/
structure CliprdrPlugin.Ready (plugin : CliprdrPlugin) : Prop extends plugin.Works where
  localToRemoteFiles : plugin.featureMask &&& cliprdrFlagLocalToRemoteFiles ≠ 0

variable {plugin : CliprdrPlugin}

def CliprdrPlugin.permissive : CliprdrPlugin where
  featureMask := 0xFFFFFFFF
  hasHugeFileSupport := true
  virtualChannelWriteEx _ := channelRcOk
  streamNew _ := true

theorem CliprdrPlugin.permissive_works : CliprdrPlugin.permissive.Works where
  streamNew _ := rfl
  accepts _ := rfl

theorem CliprdrPlugin.permissive_ready : CliprdrPlugin.permissive.Ready where
  toWorks := CliprdrPlugin.permissive_works
  localToRemoteFiles := by decide

theorem CliprdrPlugin.Works.writeEx (h : plugin.Works) (packet : Bytes) :
    plugin.writeEx packet = (channelRcOk, [packet]) := by
  simp only [CliprdrPlugin.writeEx, h.accepts, if_true]

theorem cliprdrPacketNew_eq (msgType msgFlags : UInt16) {dataLen : ℕ}
    (hnew : plugin.streamNew (dataLen + 8) = true) (hlen : dataLen < 4294967295) :
    ∃ s, cliprdrPacketNew plugin msgType msgFlags dataLen = some (some s) ∧
      s.written = leUInt16 msgType ++ leUInt16 msgFlags ++ leUInt32 0 ∧ s.position = 8 ∧
      s.capacity = dataLen + 8 ∧ s.length = dataLen + 8 := by
  obtain ⟨s, hs⟩ := WStream.new_isSome (Nat.succ_pos (dataLen + 7))
  obtain ⟨hpos, hcap, hwritten, hlength⟩ := WStream.new_eq_some hs
  have h₁ : s.position + (leUInt16 msgType).length ≤ s.capacity := by
    rw [length_leUInt16]
    omega
  have h₂ : (s.write _ h₁).position + (leUInt16 msgFlags).length ≤ (s.write _ h₁).capacity := by
    simp only [WStream.position_write, WStream.capacity_write, length_leUInt16]
    omega
  have h₃ : ((s.write _ h₁).write _ h₂).position + (leUInt32 0).length ≤
      ((s.write _ h₁).write _ h₂).capacity := by
    simp only [WStream.position_write, WStream.capacity_write, length_leUInt16, length_leUInt32]
    omega
  refine ⟨((s.write _ h₁).write _ h₂).write _ h₃, ?_, ?_, ?_, ?_, ?_⟩
  · simp only [cliprdrPacketNew, if_pos hlen, hnew, if_true, hs,
      WStream.write?_eq_some h₁, WStream.write?_eq_some h₂, WStream.write?_eq_some h₃,
      Option.bind_some]
  · simp only [WStream.written_write, hwritten, List.nil_append]
  · simp only [WStream.position_write, hpos, length_leUInt16, length_leUInt32]
  · simpa only [WStream.capacity_write] using hcap
  · simpa only [WStream.length_write] using hlength

/-- The length in the header is filled in, and the transport gets the packet. -/
theorem cliprdrPacketSend_writeEx {s : WStream} {msgType msgFlags : UInt16} {body : Bytes}
    (hw : s.written = leUInt16 msgType ++ leUInt16 msgFlags ++ leUInt32 0 ++ body)
    (hl : s.position ≤ s.length) (hmax : body.length ≤ 4294967279) :
    cliprdrPacketSend plugin s = some (plugin.writeEx (packet msgType msgFlags body)) := by
  have hpos : s.position = 8 + body.length := by
    rw [← WStream.length_written, hw]
    simp only [List.length_append, length_leUInt16, length_leUInt32]
  have hsub : s.position - 8 = body.length := by omega
  obtain ⟨s₁, s₂, s₃, h₁, h₂, h₃, hwritten⟩ := WStream.overwrite
    (leUInt32 (UInt32.ofNat (s.position - 8))) hw (by simp) hl
  rw [List.length_append, length_leUInt16, length_leUInt16] at h₁
  rw [cliprdrPacketSend, if_pos (by omega)]
  simp only [h₁, h₂, h₃, hwritten]
  rw [hsub, packet]

theorem cliprdrPacketSend_eq (h : plugin.Works) {s : WStream} {msgType msgFlags : UInt16}
    {body : Bytes} (hw : s.written = leUInt16 msgType ++ leUInt16 msgFlags ++ leUInt32 0 ++ body)
    (hl : s.position ≤ s.length) (hmax : body.length ≤ 4294967279) :
    cliprdrPacketSend plugin s = some (channelRcOk, [packet msgType msgFlags body]) := by
  rw [cliprdrPacketSend_writeEx hw hl hmax, h.writeEx]

/-- A new packet has room for a body of its length, and the transport gets it. -/
theorem cliprdrPacketNew_writeEx (msgType msgFlags : UInt16) {dataLen : ℕ}
    (hnew : plugin.streamNew (dataLen + 8) = true) (hlen : dataLen < 4294967295) {body : Bytes}
    (hbody : body.length ≤ dataLen) (hmax : body.length ≤ 4294967279) :
    ∃ s s', cliprdrPacketNew plugin msgType msgFlags dataLen = some (some s) ∧
      s.write? body = some s' ∧
      cliprdrPacketSend plugin s' = some (plugin.writeEx (packet msgType msgFlags body)) := by
  obtain ⟨s, hs, hwritten, hpos, hcap, hlength⟩ := cliprdrPacketNew_eq msgType msgFlags hnew hlen
  have hroom : s.position + body.length ≤ s.capacity := by omega
  refine ⟨s, s.write body hroom, hs, WStream.write?_eq_some hroom, ?_⟩
  apply cliprdrPacketSend_writeEx
  · rw [WStream.written_write, hwritten]
  · rw [WStream.position_write, WStream.length_write]
    omega
  · exact hmax

theorem cliprdrPacketNew_write_send (h : plugin.Works) (msgType msgFlags : UInt16) {dataLen : ℕ}
    (hlen : dataLen < 4294967295) {body : Bytes} (hbody : body.length ≤ dataLen)
    (hmax : body.length ≤ 4294967279) :
    ∃ s s', cliprdrPacketNew plugin msgType msgFlags dataLen = some (some s) ∧
      s.write? body = some s' ∧
      cliprdrPacketSend plugin s' = some (channelRcOk, [packet msgType msgFlags body]) := by
  rw [← h.writeEx]
  exact cliprdrPacketNew_writeEx msgType msgFlags (h.streamNew _) hlen hbody hmax

/-- A stream longer than `UINT32_MAX - 8` is not sent. -/
theorem cliprdrPacketSend_too_long {s : WStream} (h : 4294967287 < s.position) :
    cliprdrPacketSend plugin s = none := if_neg (by omega)

theorem cliprdrWriteFileContentsResponse_eq {s : WStream} (response : FileContentsResponse)
    (h : s.position + 4 + response.payload.length ≤ s.capacity) :
    ∃ s', cliprdrWriteFileContentsResponse s response = some s' ∧
      s'.written = s.written ++ (leUInt32 response.streamId ++ response.payload) ∧
      s'.position = s.position + 4 + response.payload.length ∧ s'.length = s.length := by
  have h₁ : s.position + (leUInt32 response.streamId).length ≤ s.capacity := by
    rw [length_leUInt32]
    omega
  have h₂ : (s.write _ h₁).position + response.payload.length ≤ (s.write _ h₁).capacity := by
    simpa only [WStream.position_write, WStream.capacity_write, length_leUInt32] using h
  refine ⟨(s.write _ h₁).write _ h₂, ?_, ?_, ?_, ?_⟩
  · simp only [cliprdrWriteFileContentsResponse, WStream.write?_eq_some h₁,
      WStream.write?_eq_some h₂, Option.bind_some]
  · simp only [WStream.written_write, List.append_assoc]
  · simp only [WStream.position_write, length_leUInt32]
  · simp only [WStream.length_write]

theorem cliprdrWriteFileContentsResponse_no_room {s : WStream} {response : FileContentsResponse}
    (h : s.capacity < s.position + 4) : cliprdrWriteFileContentsResponse s response = none := by
  rw [cliprdrWriteFileContentsResponse, WStream.write?_eq_none (by rwa [length_leUInt32]),
    Option.bind_none]

/-- The only limit on a File Contents Response is the size of its packet. -/
theorem cliprdrClientFileContentsResponse_eq (h : plugin.Ready) (msgFlags : UInt16)
    (streamId : UInt32) {data : Bytes} (hdata : data.length < 2 ^ 32) :
    cliprdrClientFileContentsResponse plugin
        ⟨msgFlags, streamId, UInt32.ofNat data.length, some data⟩ =
      if data.length ≤ 4294967275 then
        some (channelRcOk, [fileContentsResponsePacket msgFlags streamId data])
      else none := by
  set response : FileContentsResponse :=
    ⟨msgFlags, streamId, UInt32.ofNat data.length, some data⟩ with hresponse
  have hpayload : response.payload = data := by
    simp [hresponse, FileContentsResponse.payload, UInt32.toNat_ofNat_of_lt' hdata]
  have hsum : (4 + response.cbRequested).toNat = (4 + data.length) % 2 ^ 32 := by
    simp [hresponse, UInt32.toNat_add, UInt32.toNat_ofNat_of_lt' hdata]
  rw [cliprdrClientFileContentsResponse, if_neg h.localToRemoteFiles,
    cliprdrPacketFileContentsResponseNew, hsum]
  -- The packet is built whenever its length fits 32 bits, and its sender has the last word.
  by_cases hnew : (4 + data.length) % 2 ^ 32 < 4294967295
  · obtain ⟨s, hs, hwritten, hpos, hcap, hlength⟩ :=
      cliprdrPacketNew_eq cbFileContentsResponse response.msgFlags (h.streamNew _) hnew
    by_cases hwrap : 4 + data.length < 2 ^ 32
    · rw [Nat.mod_eq_of_lt hwrap] at hcap hlength
      obtain ⟨s', hs', hwritten', hpos', hlength'⟩ :=
        cliprdrWriteFileContentsResponse_eq (s := s) response
          (by rw [hpayload]; omega)
      rw [hpayload] at hwritten' hpos'
      simp only [hs, hs']
      split_ifs with hmax
      · refine cliprdrPacketSend_eq h.toWorks ?_ (by omega) ?_
        · rw [hwritten', hwritten, hresponse]
        · simp only [List.length_append, length_leUInt32]
          omega
      · exact cliprdrPacketSend_too_long (by omega)
    · have hnone : cliprdrWriteFileContentsResponse s response = none :=
        cliprdrWriteFileContentsResponse_no_room (by omega)
      simp only [hs, hnone]
      rw [if_neg (by omega)]
  · have hnone : cliprdrPacketNew plugin cbFileContentsResponse response.msgFlags
        ((4 + data.length) % 2 ^ 32) = none := if_neg hnew
    simp only [hnone]
    rw [if_neg (by omega)]

theorem uint16At_zero (v : UInt16) (rest : Bytes) : uint16At (leUInt16 v ++ rest) 0 = v := by
  rw [uint16At, List.drop_zero, List.take_left' (length_leUInt16 v), ofNat_leNat_leUInt16]

theorem uint32At_zero (v : UInt32) (rest : Bytes) : uint32At (leUInt32 v ++ rest) 0 = v := by
  rw [uint32At, List.drop_zero, List.take_left' (length_leUInt32 v), ofNat_leNat_leUInt32]

theorem uint16At_append {front : Bytes} (rest : Bytes) {offset : ℕ} (h : front.length = offset) :
    uint16At (front ++ rest) offset = uint16At rest 0 := by
  rw [uint16At, List.drop_left' h, uint16At, List.drop_zero]

theorem uint32At_append {front : Bytes} (rest : Bytes) {offset : ℕ} (h : front.length = offset) :
    uint32At (front ++ rest) offset = uint32At rest 0 := by
  rw [uint32At, List.drop_left' h, uint32At, List.drop_zero]

theorem uint16At_drop (bytes : Bytes) (start offset : ℕ) :
    uint16At (bytes.drop start) offset = uint16At bytes (start + offset) := by
  rw [uint16At, List.drop_drop, uint16At]

theorem uint32At_drop (bytes : Bytes) (start offset : ℕ) :
    uint32At (bytes.drop start) offset = uint32At bytes (start + offset) := by
  rw [uint32At, List.drop_drop, uint32At]

theorem leUInt16_uint16At {bytes : Bytes} {offset : ℕ} (h : offset + 2 ≤ bytes.length) :
    leUInt16 (uint16At bytes offset) = (bytes.drop offset).take 2 := by
  have hfits : 2 ≤ (bytes.drop offset).length := by
    rw [List.length_drop]
    omega
  obtain ⟨hlt, hread⟩ := leBytes_leNat_take hfits
  rw [leUInt16, uint16At, UInt16.toNat_ofNat_of_lt' hlt, hread]

theorem leUInt32_uint32At {bytes : Bytes} {offset : ℕ} (h : offset + 4 ≤ bytes.length) :
    leUInt32 (uint32At bytes offset) = (bytes.drop offset).take 4 := by
  have hfits : 4 ≤ (bytes.drop offset).length := by
    rw [List.length_drop]
    omega
  obtain ⟨hlt, hread⟩ := leBytes_leNat_take hfits
  rw [leUInt32, uint32At, UInt32.toNat_ofNat_of_lt' hlt, hread]

/-- The header of a packet reads back. -/
theorem readHeader_packet (msgType msgFlags : UInt16) (body : Bytes) (h : body.length < 2 ^ 32) :
    readHeader (packet msgType msgFlags body) =
      some (⟨msgType, msgFlags, UInt32.ofNat body.length⟩, body) := by
  have hpacket : packet msgType msgFlags body =
      leUInt16 msgType ++ (leUInt16 msgFlags ++ (leUInt32 (UInt32.ofNat body.length) ++ body)) := by
    simp only [packet, List.append_assoc]
  have hlen : (packet msgType msgFlags body).length = 8 + body.length := by
    simp only [packet, List.length_append, length_leUInt16, length_leUInt32]
  have hbody : (packet msgType msgFlags body).drop 8 = body :=
    List.drop_left' (by simp only [List.length_append, length_leUInt16, length_leUInt32])
  have hflags : uint16At (packet msgType msgFlags body) 2 = msgFlags := by
    rw [hpacket, uint16At_append _ (length_leUInt16 _), uint16At_zero]
  have hdata : uint32At (packet msgType msgFlags body) 4 = UInt32.ofNat body.length := by
    rw [hpacket, ← List.append_assoc, uint32At_append _ (by simp), uint32At_zero]
  have htype : uint16At (packet msgType msgFlags body) 0 = msgType := by
    rw [hpacket, uint16At_zero]
  rw [readHeader, if_neg (by omega)]
  simp only [htype, hflags, hdata, hbody, UInt32.toNat_ofNat_of_lt' h, lt_irrefl, if_false]

def receiveFileContentsResponse (bytes : Bytes) : Option FileContentsResponse :=
  match readHeader bytes with
  | none => none
  | some (header, body) =>
      if header.msgType = cbFileContentsResponse then
        (cliprdrReadFileContentsResponse header body).toOption
      else none

/-- A response packet brings its stream id, its flags and its data across. -/
theorem receive_fileContentsResponsePacket (msgFlags : UInt16) (streamId : UInt32) {data : Bytes}
    (h : data.length ≤ 4294967275) :
    ∃ response, receiveFileContentsResponse (fileContentsResponsePacket msgFlags streamId data) =
        some response ∧ response.msgFlags = msgFlags ∧ response.streamId = streamId ∧
      response.payload = data := by
  have hlen : (leUInt32 streamId ++ data).length = 4 + data.length := by
    rw [List.length_append, length_leUInt32]
  have hheader := readHeader_packet cbFileContentsResponse msgFlags
    (leUInt32 streamId ++ data) (by omega)
  have hlt : 4 + data.length < 2 ^ 32 := by omega
  have hdata : (UInt32.ofNat (4 + data.length)).toNat = 4 + data.length :=
    UInt32.toNat_ofNat_of_lt' hlt
  have hmin : ¬ UInt32.ofNat (4 + data.length) < 4 := by
    rw [UInt32.lt_iff_toNat_lt, hdata]
    simp
  have hsub : (UInt32.ofNat (4 + data.length) - 4).toNat = data.length := by
    rw [UInt32.toNat_sub_of_le _ _ (by rw [UInt32.le_iff_toNat_le, hdata]; simp), hdata]
    simp
  refine ⟨⟨msgFlags, streamId, UInt32.ofNat (4 + data.length) - 4, some data⟩, ?_, rfl, rfl, ?_⟩
  · rw [receiveFileContentsResponse, fileContentsResponsePacket, hheader]
    simp only [if_true, cliprdrReadFileContentsResponse, hlen, hmin, if_false, uint32At_zero,
      List.drop_left' (length_leUInt32 streamId)]
    rw [if_neg (by omega)]
    rfl
  · simp only [FileContentsResponse.payload, Option.getD_some, hsub, List.take_length]

end QfClient
