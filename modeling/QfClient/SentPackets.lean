import QfClient.ClipboardMessages

/-!
# What is sent for a message

Whatever the transport and the allocator do, a packet that goes out has the length of
its body in its header, and each function sends packets of its own types only. A
message of the server brings at most the packets of `replyTypes`, in that order.
-/

namespace QfClient

open LittleEndian WinPR

def IsPacket (msgType : UInt16) (bytes : Bytes) : Prop :=
  ∃ msgFlags body, bytes = packet msgType msgFlags body ∧ body.length ≤ 4294967279

def SendsAmong (types : List UInt16) (packets : List Bytes) : Prop :=
  ∃ sent, sent.Sublist types ∧ List.Forall₂ IsPacket sent packets

def Begun (msgType : UInt16) (s : WStream) : Prop :=
  ∃ msgFlags body, s.written = leUInt16 msgType ++ leUInt16 msgFlags ++ leUInt32 0 ++ body

variable {context : CliprdrPlugin} {msgType : UInt16} {types : List UInt16} {s s' : WStream}
  {bytes : Bytes} {rc : UInt32} {packets : List Bytes}

theorem sendsAmong_nil (types : List UInt16) : SendsAmong types [] :=
  ⟨[], List.nil_sublist types, .nil⟩

theorem sendsAmong_singleton (h : IsPacket msgType bytes) : SendsAmong [msgType] [bytes] :=
  ⟨[msgType], List.Sublist.refl _, .cons h .nil⟩

theorem SendsAmong.append {types' : List UInt16} {packets' : List Bytes}
    (h : SendsAmong types packets) (h' : SendsAmong types' packets') :
    SendsAmong (types ++ types') (packets ++ packets') := by
  obtain ⟨sent, hsent, hpackets⟩ := h
  obtain ⟨sent', hsent', hpackets'⟩ := h'
  exact ⟨sent ++ sent', hsent.append hsent', List.rel_append hpackets hpackets'⟩

theorem IsPacket.readHeader (h : IsPacket msgType bytes) :
    ∃ header body, readHeader bytes = some (header, body) ∧ header.msgType = msgType ∧
      header.dataLen.toNat = body.length := by
  obtain ⟨msgFlags, body, rfl, hlen⟩ := h
  refine ⟨_, body, readHeader_packet msgType msgFlags body (by omega), rfl, ?_⟩
  exact UInt32.toNat_ofNat_of_lt' (by change _ < 4294967296; omega)

theorem IsPacket.type (h : IsPacket msgType bytes) : uint16At bytes 0 = msgType := by
  obtain ⟨msgFlags, body, rfl, -⟩ := h
  simp only [packet, List.append_assoc]
  exact uint16At_zero msgType _

theorem map_type_of_isPacket (h : List.Forall₂ IsPacket types packets) :
    packets.map (uint16At · 0) = types := by
  induction h with
  | nil => rfl
  | cons hhead _ ih => rw [List.map_cons, hhead.type, ih]

theorem exists_isPacket_of_mem (h : List.Forall₂ IsPacket types packets) (hmem : bytes ∈ packets) :
    ∃ msgType ∈ types, IsPacket msgType bytes := by
  induction h with
  | nil => exact absurd hmem List.not_mem_nil
  | @cons msgType first _ _ hhead _ ih =>
      rcases List.mem_cons.mp hmem with rfl | hmem
      · exact ⟨msgType, List.mem_cons_self, hhead⟩
      · obtain ⟨other, hother, hpacket⟩ := ih hmem
        exact ⟨other, List.mem_cons_of_mem _ hother, hpacket⟩

theorem SendsAmong.exists_isPacket (h : SendsAmong types packets) (hmem : bytes ∈ packets) :
    ∃ msgType ∈ types, IsPacket msgType bytes := by
  obtain ⟨sent, hsent, hpackets⟩ := h
  obtain ⟨msgType, hmsgType, hpacket⟩ := exists_isPacket_of_mem hpackets hmem
  exact ⟨msgType, hsent.subset hmsgType, hpacket⟩

theorem SendsAmong.type_mem (h : SendsAmong types packets) (hmem : bytes ∈ packets) :
    uint16At bytes 0 ∈ types := by
  obtain ⟨msgType, hmsgType, hpacket⟩ := h.exists_isPacket hmem
  rw [hpacket.type]
  exact hmsgType

theorem written_of_write? (h : s.write? bytes = some s') : s'.written = s.written ++ bytes := by
  rw [WStream.write?] at h
  split_ifs at h with hfits
  obtain rfl := Option.some.inj h
  exact WStream.written_write hfits

theorem Begun.write (hs : Begun msgType s) (h : s.write? bytes = some s') : Begun msgType s' := by
  obtain ⟨msgFlags, body, hwritten⟩ := hs
  exact ⟨msgFlags, body ++ bytes, by rw [written_of_write? h, hwritten, List.append_assoc]⟩

theorem begun_packetNew {msgFlags : UInt16} {dataLen : ℕ}
    (h : cliprdrPacketNew context msgType msgFlags dataLen = some (some s)) : Begun msgType s := by
  rw [cliprdrPacketNew] at h
  split_ifs at h with hlen hnew
  · cases hstream : WStream.new (dataLen + 8) with
    | none => simp [hstream] at h
    | some fresh =>
        have hempty := (WStream.new_eq_some hstream).2.2.1
        simp only [hstream] at h
        cases hheader : (fresh.write? (leUInt16 msgType)).bind (fun s =>
            (s.write? (leUInt16 msgFlags)).bind (WStream.write? · (leUInt32 0))) with
        | none => simp [hheader] at h
        | some headed =>
            simp only [hheader, Option.some.injEq] at h
            obtain rfl := h
            obtain ⟨s₁, hs₁, hrest⟩ := Option.bind_eq_some_iff.mp hheader
            obtain ⟨s₂, hs₂, hs₃⟩ := Option.bind_eq_some_iff.mp hrest
            refine ⟨msgFlags, [], ?_⟩
            rw [written_of_write? hs₃, written_of_write? hs₂, written_of_write? hs₁, hempty,
              List.nil_append, List.append_nil]
  all_goals simp at h

theorem sendsAmong_writeEx (h : IsPacket msgType bytes) :
    SendsAmong [msgType] (context.writeEx bytes).2 := by
  rw [CliprdrPlugin.writeEx]
  split_ifs
  · exact sendsAmong_singleton h
  · exact sendsAmong_nil _

/-- A stream that is too short for its position is not sent at all. -/
theorem cliprdrPacketSend_unsealed (hlen : s.length < s.position)
    (h : cliprdrPacketSend context s = some (rc, packets)) : packets = [] := by
  rw [cliprdrPacketSend] at h
  split_ifs at h with hpos
  cases hfirst : s.setPosition 4 with
  | none =>
      simp only [hfirst, Option.some.injEq, Prod.mk.injEq] at h
      exact h.2.symm
  | some s₁ =>
      simp only [hfirst] at h
      cases hwrite : s₁.write? (leUInt32 (UInt32.ofNat (s.position - 8))) with
      | none => simp [hwrite] at h
      | some s₂ =>
          have hlength : s₂.length = s.length := by
            rw [WStream.write?] at hwrite
            split_ifs at hwrite with hfits
            rw [← Option.some.inj hwrite, WStream.length_write]
            rw [WStream.setPosition] at hfirst
            split_ifs at hfirst
            rw [← Option.some.inj hfirst]
          have hlast : s₂.setPosition s.position = none := dif_neg (fun hle => by omega)
          simp only [hwrite, hlast, Option.some.injEq, Prod.mk.injEq] at h
          exact h.2.symm

theorem sendsAmong_packetSend (hs : Begun msgType s)
    (h : cliprdrPacketSend context s = some (rc, packets)) : SendsAmong [msgType] packets := by
  by_cases hlen : s.length < s.position
  · rw [cliprdrPacketSend_unsealed hlen h]
    exact sendsAmong_nil _
  · obtain ⟨msgFlags, body, hwritten⟩ := hs
    have hpos : s.position = 8 + body.length := by
      rw [← WStream.length_written, hwritten]
      simp only [List.length_append, length_leUInt16, length_leUInt32]
    obtain ⟨s₁, s₂, s₃, h₁, h₂, h₃, hfinal⟩ := WStream.overwrite
      (leUInt32 (UInt32.ofNat (s.position - 8))) hwritten (by simp) (not_lt.mp hlen)
    rw [List.length_append, length_leUInt16, length_leUInt16] at h₁
    rw [cliprdrPacketSend] at h
    split_ifs at h with hrange
    simp only [h₁, h₂, h₃, Option.some.injEq] at h
    have hsub : s.position - 8 = body.length := by omega
    have hpacket : IsPacket msgType s₃.written := by
      refine ⟨msgFlags, body, ?_, by omega⟩
      rw [hfinal, hsub, packet]
    have hpackets : (context.writeEx s₃.written).2 = packets := by rw [h]
    rw [← hpackets]
    exact sendsAmong_writeEx hpacket

section Functions

variable {outcome : Outcome} {caps caps' : CliprdrCapabilities} {writer : NameWriter}
  {formats : List CliprdrFormat}

def OutcomeAmong (types : List UInt16) (outcome : Outcome) : Prop :=
  ∀ rc packets, outcome = some (rc, packets) → SendsAmong types packets

theorem outcomeAmong_none (types : List UInt16) : OutcomeAmong types none :=
  fun _ _ h => nomatch h

theorem outcomeAmong_silent (types : List UInt16) (rc : UInt32) :
    OutcomeAmong types (some (rc, [])) := by
  rintro _ _ ⟨rfl, rfl⟩
  exact sendsAmong_nil types

theorem outcomeAmong_packetSend (hs : Begun msgType s) :
    OutcomeAmong [msgType] (cliprdrPacketSend context s) :=
  fun _ _ h => sendsAmong_packetSend hs h

/-- A new packet, what is written to it, and its sending. -/
theorem outcomeAmong_build {msgFlags : UInt16} {dataLen : ℕ} {error : UInt32}
    {write : WStream → Outcome} (hwrite : ∀ s, Begun msgType s → OutcomeAmong [msgType] (write s)) :
    OutcomeAmong [msgType] (match cliprdrPacketNew context msgType msgFlags dataLen with
      | none => none
      | some none => some (error, [])
      | some (some s) => write s) := by
  cases hnew : cliprdrPacketNew context msgType msgFlags dataLen with
  | none => exact outcomeAmong_none _
  | some result =>
      cases result with
      | none => exact outcomeAmong_silent _ _
      | some s => exact hwrite s (begun_packetNew hnew)

theorem outcomeAmong_writeBody (hs : Begun msgType s) (body : Bytes) :
    OutcomeAmong [msgType] (match s.write? body with
      | none => none
      | some s => cliprdrPacketSend context s) := by
  cases hbody : s.write? body with
  | none => exact outcomeAmong_none _
  | some s' => exact outcomeAmong_packetSend (hs.write hbody)

theorem outcomeAmong_sendErrorResponse (msgType : UInt16) :
    OutcomeAmong [msgType] (cliprdrSendErrorResponse context msgType) :=
  outcomeAmong_build fun _ hs => outcomeAmong_packetSend hs

theorem outcomeAmong_clientFormatDataRequest (requestedFormatId : UInt32) :
    OutcomeAmong [cbFormatDataRequest]
      (cliprdrClientFormatDataRequest context requestedFormatId) := by
  rw [cliprdrClientFormatDataRequest]
  split_ifs
  · exact outcomeAmong_silent _ _
  · exact outcomeAmong_build fun _ hs => outcomeAmong_writeBody hs _

theorem outcomeAmong_clientFormatDataResponse (response : FormatDataResponse) :
    OutcomeAmong [cbFormatDataResponse]
      (cliprdrClientFormatDataResponse context response) := by
  rw [cliprdrClientFormatDataResponse]
  split_ifs
  · exact outcomeAmong_none _
  · exact outcomeAmong_build fun _ hs => outcomeAmong_writeBody hs _

theorem outcomeAmong_clientFileContentsRequest (request : FileContentsRequest) :
    OutcomeAmong [cbFileContentsRequest] (cliprdrClientFileContentsRequest context request) := by
  have hbuild : OutcomeAmong [cbFileContentsRequest]
      (match cliprdrPacketFileContentsRequestNew context request with
        | none => none
        | some none => some (errorInternalError, [])
        | some (some s) => cliprdrPacketSend context s) := by
    rw [cliprdrPacketFileContentsRequestNew]
    cases hnew : cliprdrPacketNew context cbFileContentsRequest 0 28 with
    | none => exact outcomeAmong_none _
    | some result =>
        cases result with
        | none => exact outcomeAmong_silent _ _
        | some s =>
            simp only
            cases hbody : s.write? (fileContentsRequestBody request) with
            | none => exact outcomeAmong_none _
            | some s' => exact outcomeAmong_packetSend ((begun_packetNew hnew).write hbody)
  rw [cliprdrClientFileContentsRequest]
  split_ifs
  · exact outcomeAmong_silent _ _
  · exact outcomeAmong_silent _ _
  · exact outcomeAmong_silent _ _
  · exact hbuild

theorem outcomeAmong_clientFileContentsResponse (response : FileContentsResponse) :
    OutcomeAmong [cbFileContentsResponse]
      (cliprdrClientFileContentsResponse context response) := by
  rw [cliprdrClientFileContentsResponse]
  split_ifs
  · exact outcomeAmong_sendErrorResponse _
  · rw [cliprdrPacketFileContentsResponseNew]
    cases hnew : cliprdrPacketNew context cbFileContentsResponse response.msgFlags
        (4 + response.cbRequested).toNat with
    | none => exact outcomeAmong_none _
    | some result =>
        cases result with
        | none => exact outcomeAmong_silent _ _
        | some s =>
            simp only [cliprdrWriteFileContentsResponse]
            cases hid : s.write? (leUInt32 response.streamId) with
            | none => exact outcomeAmong_none _
            | some s₁ =>
                rw [Option.bind_some]
                cases hdata : s₁.write? response.payload with
                | none => exact outcomeAmong_none _
                | some s₂ =>
                    exact outcomeAmong_packetSend
                      (((begun_packetNew hnew).write hid).write hdata)

theorem Begun.streamWriteUtf16String {wcharLength : ℕ} {src : Bytes} (hs : Begun msgType s)
    (h : streamWriteUtf16String writer s wcharLength src = some (some s')) : Begun msgType s' := by
  rw [QfClient.streamWriteUtf16String] at h
  split_ifs at h with hroom
  · simp at h
  · cases hunits : writer.convertUtf8N src with
    | none => simp [hunits] at h
    | some units =>
        simp only [hunits] at h
        split_ifs at h with hlong
        · simp at h
        · obtain ⟨written, hwrite, hsome⟩ := Option.map_eq_some_iff.mp h
          rw [← Option.some.inj hsome]
          exact hs.write hwrite

theorem Begun.writeName {useLongFormatNames useAsciiNames : Bool} {name : Bytes}
    (hs : Begun msgType s)
    (h : writeName writer useLongFormatNames useAsciiNames s name = some (some s')) :
    Begun msgType s' := by
  simp only [QfClient.writeName] at h
  generalize (if useLongFormatNames = true then name.length + 1
    else if useAsciiNames = true then 32 else 16) = maxLength at h
  generalize (if useLongFormatNames = true then name.length
    else min (maxLength - 1) name.length) = length at h
  split_ifs at h with hpos hascii
  · obtain ⟨written, hwrite, hsome⟩ := Option.map_eq_some_iff.mp h
    obtain ⟨named, hnamed, hzero⟩ := Option.bind_eq_some_iff.mp hwrite
    rw [← Option.some.inj hsome]
    exact (hs.write hnamed).write hzero
  · exact hs.streamWriteUtf16String h
  · obtain ⟨written, hwrite, hsome⟩ := Option.map_eq_some_iff.mp h
    rw [← Option.some.inj hsome]
    exact hs.write hwrite

theorem Begun.writeFormat {useLongFormatNames useAsciiNames : Bool} {format : CliprdrFormat}
    (hs : Begun msgType s)
    (h : writeFormat writer useLongFormatNames useAsciiNames s format = some (some s')) :
    Begun msgType s' := by
  simp only [QfClient.writeFormat] at h
  split at h
  · simp at h
  · rename_i grown hgrown
    have hwritten := (WStream.ensureRemainingCapacity_eq_some writer.growth hgrown).2.1
    have hbegun : Begun msgType grown.1 := by
      rw [Begun, hwritten]
      exact hs
    split at h
    · simp at h
    · rename_i named hid
      exact (hbegun.write hid).writeName h

theorem Begun.writeFormats {useLongFormatNames useAsciiNames : Bool} (hs : Begun msgType s)
    (h : writeFormats writer useLongFormatNames useAsciiNames s formats = some (some s')) :
    Begun msgType s' := by
  induction formats generalizing s with
  | nil =>
      obtain rfl : s = s' := by simpa [QfClient.writeFormats] using h
      exact hs
  | cons format formats ih =>
      rw [QfClient.writeFormats] at h
      split at h
      · simp at h
      · simp at h
      · rename_i next hnext
        exact ih (hs.writeFormat hnext) h

theorem outcomeAmong_sendFormatList (useLongFormatNames : Bool) (formats : List CliprdrFormat) :
    OutcomeAmong [cbFormatList] (sendFormatList context writer useLongFormatNames formats) := by
  rw [sendFormatList, cliprdrPacketFormatListNew]
  cases hnew : cliprdrPacketNew context cbFormatList 0
      (UInt32.ofNat formats.length * 36).toNat with
  | none => exact outcomeAmong_none _
  | some result =>
      cases result with
      | none => exact outcomeAmong_silent _ _
      | some s =>
          simp only
          cases hwrite : writeFormats writer useLongFormatNames false s formats with
          | none => exact outcomeAmong_none _
          | some result =>
              cases result with
              | none => exact outcomeAmong_silent _ _
              | some s' =>
                  exact outcomeAmong_packetSend ((begun_packetNew hnew).writeFormats hwrite)

theorem outcomeAmong_clientFormatList (caps : CliprdrCapabilities) (formats : List CliprdrFormat) :
    OutcomeAmong [cbFormatList] (cliprdrClientFormatList context writer caps formats).2 := by
  simp only [cliprdrClientFormatList]
  split_ifs
  · exact outcomeAmong_silent _ _
  · exact outcomeAmong_sendFormatList _ _

theorem outcomeAmong_clientEmptyFormatList (caps : CliprdrCapabilities) :
    OutcomeAmong [cbFormatList] (cliprdrClientEmptyFormatList context caps).2 := by
  rw [cliprdrClientEmptyFormatList]
  split_ifs
  · exact outcomeAmong_silent _ _
  · simp only
    cases hnew : cliprdrPacketNew context cbFormatList 0 0 with
    | none => exact outcomeAmong_none _
    | some result =>
        cases result with
        | none => exact outcomeAmong_silent _ _
        | some s => exact outcomeAmong_packetSend (begun_packetNew hnew)

theorem outcomeAmong_clientCapabilities (caps : CliprdrCapabilities)
    (version generalFlags : UInt32) :
    OutcomeAmong [cbClipCaps]
      (cliprdrClientCapabilities context caps version generalFlags).2 := by
  rw [cliprdrClientCapabilities]
  cases hnew : cliprdrPacketNew context cbClipCaps 0 16 with
  | none => exact outcomeAmong_none _
  | some result =>
      cases result with
      | none => exact outcomeAmong_silent _ _
      | some s =>
          simp only
          cases hbody : s.write? (clipCapsBody version (caps.maskFlags generalFlags)) with
          | none => exact outcomeAmong_none _
          | some s' => exact outcomeAmong_packetSend ((begun_packetNew hnew).write hbody)

theorem outcomeAmong_monitorReadyCallback (caps : CliprdrCapabilities) :
    OutcomeAmong [cbClipCaps, cbFormatList] (qfCliprdrMonitorReadyCallback context caps).2 := by
  have hcaps : OutcomeAmong [cbClipCaps]
      (cliprdrClientCapabilities context caps cbCapsVersion2 announcedFlags).2 :=
    outcomeAmong_clientCapabilities caps cbCapsVersion2 announcedFlags
  rw [qfCliprdrMonitorReadyCallback]
  generalize cliprdrClientCapabilities context caps cbCapsVersion2 announcedFlags = r at hcaps ⊢
  obtain ⟨agreed, outcome⟩ := r
  cases outcome with
  | none => exact outcomeAmong_none _
  | some outcome =>
      obtain ⟨rc, packets⟩ := outcome
      have hfirst := hcaps rc packets rfl
      simp only
      split_ifs
      · rintro _ _ ⟨rfl, rfl⟩
        simpa using hfirst.append (sendsAmong_nil [cbFormatList])
      · have hlist : OutcomeAmong [cbFormatList] (cliprdrClientEmptyFormatList context agreed).2 :=
          outcomeAmong_clientEmptyFormatList agreed
        generalize cliprdrClientEmptyFormatList context agreed = r at hlist ⊢
        obtain ⟨sent, outcome⟩ := r
        cases outcome with
        | none => exact outcomeAmong_none _
        | some outcome =>
            obtain ⟨rc', packets'⟩ := outcome
            rintro _ _ ⟨rfl, rfl⟩
            exact hfirst.append (hlist rc' packets' rfl)

end Functions

def replyTypes : Option MessageType → List UInt16
  | some .monitorReady => [cbClipCaps, cbFormatList]
  | some .formatList => [cbFormatDataRequest]
  | some .formatDataRequest => [cbFormatDataResponse]
  | some .fileContentsRequest => [cbFileContentsResponse]
  | _ => []

def messageType (bytes : Bytes) : Option MessageType :=
  (readHeader bytes).bind fun message => MessageType.ofCode message.1.msgType

section Messages

variable {setup : ClipboardSetup} {content : LocalContent} {state : ClipboardState}
  {header : ClipboardHeader} {body : Bytes} {handled : Handled}

theorem outcomeAmong_serverFileContentsRequest (context : Option CliprdrPlugin)
    (files : Option (List ClipboardInfoFile)) (disk : Disk) (request : FileContentsRequest) :
    OutcomeAmong [cbFileContentsResponse]
      (serverFileContentsRequest context files disk request) := by
  have hsend : ∀ (context : CliprdrPlugin) (data : Bytes), OutcomeAmong [cbFileContentsResponse]
      (sendFileContentsResponse context request.streamId data) :=
    fun _ _ => outcomeAmong_clientFileContentsResponse _
  have hfailed : OutcomeAmong [cbFileContentsResponse] responseFailed := outcomeAmong_silent _ _
  cases context with
  | none => exact outcomeAmong_silent _ _
  | some context =>
      cases files with
      | none => exact outcomeAmong_silent _ _
      | some files =>
          rw [serverFileContentsRequest]
          split
          · exact hfailed
          · split_ifs
            · exact hsend _ _
            · rw [sendFileRange]
              split_ifs
              · exact hfailed
              · exact hfailed
              · split
                · exact hfailed
                · split_ifs
                  · split
                    · exact hfailed
                    · split_ifs
                      · exact hfailed
                      · exact hsend _ _
                  · exact hfailed
            · exact hfailed

theorem sendsAmong_formatDataRequestCallBack {files : List ClipboardInfoFile}
    {mimeData : Option MimeData} {requestedFormatId : UInt32} {answer : FormatDataAnswer}
    (h : qfCliprdrServerFormatDataRequestCallBack context setup.serialize setup.remoteFlags files
      mimeData requestedFormatId = some (answer, packets)) :
    SendsAmong [cbFormatDataResponse] packets := by
  simp only [qfCliprdrServerFormatDataRequestCallBack] at h
  split at h
  · obtain ⟨-, rfl⟩ := Prod.mk.inj (Option.some.inj h)
    exact sendsAmong_nil _
  · split at h
    · exact absurd h (by simp)
    · split at h
      · obtain ⟨-, rfl⟩ := Prod.mk.inj (Option.some.inj h)
        exact sendsAmong_nil _
      · rename_i response hresponse
        obtain ⟨r, hsent, hr⟩ := Option.map_eq_some_iff.mp h
        obtain ⟨-, rfl⟩ := Prod.mk.inj hr
        exact outcomeAmong_clientFormatDataResponse response r.1 r.2 hsent

theorem sendsAmong_processFormatList {remote remote' : RemoteFormats}
    {formats : List CliprdrFormat} {selection : Selection}
    (h : cliprdrProcessFormatList context remote formats = some (remote', selection)) :
    SendsAmong [cbFormatDataRequest] selection.packets := by
  simp only [cliprdrProcessFormatList, qfCliprdrServerFormatListCallBack] at h
  split_ifs at h
  · obtain ⟨-, rfl⟩ := Prod.mk.inj (Option.some.inj h)
    exact sendsAmong_nil _
  · split at h
    · obtain ⟨-, rfl⟩ := Prod.mk.inj (Option.some.inj h)
      exact sendsAmong_nil _
    · rename_i request hselect
      obtain ⟨r, hrequest, hr⟩ := Option.map_eq_some_iff.mp h
      obtain ⟨-, rfl⟩ := Prod.mk.inj hr
      obtain ⟨outcome, hsent, houtcome⟩ := Option.map_eq_some_iff.mp hrequest
      rw [← houtcome]
      exact outcomeAmong_clientFormatDataRequest request.formatId outcome.1 outcome.2 hsent

/-- The packets of each function are of the types that answer its message. -/
theorem processMessage_packets (h : processMessage setup content state header body = some handled) :
    SendsAmong (replyTypes (MessageType.ofCode header.msgType)) handled.packets := by
  rw [processMessage] at h
  cases htype : MessageType.ofCode header.msgType with
  | none =>
      rw [htype] at h
      obtain rfl := Option.some.inj h
      exact sendsAmong_nil _
  | some type =>
      rw [htype] at h
      cases type with
      | monitorReady =>
          obtain ⟨outcome, hsent, rfl⟩ := Option.map_eq_some_iff.mp h
          exact outcomeAmong_monitorReadyCallback _ outcome.1 outcome.2 hsent
      | formatList =>
          simp only [cliprdrProcessFormatListMessage] at h
          split at h
          · obtain rfl := Option.some.inj h
            exact sendsAmong_nil _
          · obtain ⟨r, hprocess, rfl⟩ := Option.map_eq_some_iff.mp h
            exact sendsAmong_processFormatList hprocess
      | formatDataRequest =>
          simp only [cliprdrProcessFormatDataRequest] at h
          split_ifs at h
          · obtain rfl := Option.some.inj h
            exact sendsAmong_nil _
          · obtain ⟨outcome, hsent, rfl⟩ := Option.map_eq_some_iff.mp h
            exact outcomeAmong_sendErrorResponse _ outcome.1 outcome.2 hsent
          · obtain ⟨r, hcallback, rfl⟩ := Option.map_eq_some_iff.mp h
            exact sendsAmong_formatDataRequestCallBack hcallback
      | fileContentsRequest =>
          obtain ⟨outcome, hsent, rfl⟩ := Option.map_eq_some_iff.mp h
          rw [cliprdrProcessFileContentsRequest] at hsent
          split at hsent
          · obtain ⟨rfl, -⟩ := Option.some.inj hsent
            exact sendsAmong_nil _
          · split_ifs at hsent
            · exact outcomeAmong_sendErrorResponse _ outcome.1 outcome.2 hsent
            · exact outcomeAmong_serverFileContentsRequest _ _ _ _ outcome.1 outcome.2 hsent
      | clipCaps =>
          obtain rfl := Option.some.inj h
          simp only [cliprdrProcessClipCaps]
          split_ifs <;> exact sendsAmong_nil _
      | formatListResponse =>
          obtain rfl := Option.some.inj h
          exact sendsAmong_nil _
      | formatDataResponse =>
          obtain rfl := Option.some.inj h
          simp only [cliprdrProcessFormatDataResponseMessage]
          split_ifs <;> exact sendsAmong_nil _
      | fileContentsResponse =>
          obtain rfl := Option.some.inj h
          simp only [cliprdrProcessFileContentsResponse]
          split <;> exact sendsAmong_nil _
      | lockClipData =>
          obtain rfl := Option.some.inj h
          simp only [cliprdrProcessClipData]
          split_ifs <;> exact sendsAmong_nil _
      | unlockClipData =>
          obtain rfl := Option.some.inj h
          simp only [cliprdrProcessClipData]
          split_ifs <;> exact sendsAmong_nil _

theorem receiveMessage_packets {bytes : Bytes}
    (h : receiveMessage setup content state bytes = some handled) :
    SendsAmong (replyTypes (messageType bytes)) handled.packets := by
  rw [receiveMessage] at h
  rw [messageType]
  cases hheader : readHeader bytes with
  | none =>
      rw [hheader] at h
      obtain rfl := Option.some.inj h
      exact sendsAmong_nil _
  | some message =>
      rw [hheader] at h
      exact processMessage_packets h

end Messages

end QfClient
