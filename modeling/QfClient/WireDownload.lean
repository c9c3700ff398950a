import QfClient.CapabilityHistory
import QfClient.ChannelReassembly
import QfClient.DownloadServe
import QfClient.WireHistory

/-!
# A download over the wire

The download loop of `DownloadServe` calls its peer as a function. Here the two parties
are clients that exchange packets: each packet is cut into chunks, collected by
`channelClientPostMessage` and handled as a message. A download over the wire does what
the loop does with the function, as long as its requests pass the checks of the sender.
-/

namespace QfClient

open LittleEndian Machine Tiling WinPR

theorem uint32At_skip (v : UInt32) (rest : Bytes) (offset : ℕ) :
    uint32At (leUInt32 v ++ rest) (4 + offset) = uint32At rest offset := by
  have hdrop : (leUInt32 v ++ rest).drop 4 = rest := List.drop_left' (length_leUInt32 v)
  rw [← uint32At_drop, hdrop]

/-- A request is read as it was written, if it is one that its reader accepts. -/
theorem cliprdrReadFileContentsRequest_body (request : FileContentsRequest) :
    cliprdrReadFileContentsRequest (fileContentsRequestBody request) =
      if cliprdrValidateFileContentsRequest request then .ok request
      else .error errorBadArguments := by
  obtain ⟨streamId, listIndex, dwFlags, nPositionLow, nPositionHigh, cbRequested, clipDataId⟩ :=
    request
  have hbody : fileContentsRequestBody ⟨streamId, listIndex, dwFlags, nPositionLow, nPositionHigh,
      cbRequested, clipDataId⟩ = leUInt32 streamId ++ (leUInt32 listIndex ++ (leUInt32 dwFlags ++
        (leUInt32 nPositionLow ++ (leUInt32 nPositionHigh ++ (leUInt32 cbRequested ++
          (clipDataId.map leUInt32).getD []))))) := by
    simp only [fileContentsRequestBody, List.append_assoc]
  rw [hbody]
  generalize htail : (clipDataId.map leUInt32).getD [] = tail
  have hlength : (leUInt32 streamId ++ (leUInt32 listIndex ++ (leUInt32 dwFlags ++
      (leUInt32 nPositionLow ++ (leUInt32 nPositionHigh ++ (leUInt32 cbRequested ++
        tail)))))).length = 24 + tail.length := by
    simp only [List.length_append, length_leUInt32]
    omega
  have hclip : (if 28 ≤ 24 + tail.length then some (uint32At tail 0) else none) = clipDataId := by
    cases clipDataId with
    | none =>
        rw [← htail]
        rfl
    | some id =>
        have hid : tail = leUInt32 id ++ [] := by rw [← htail, List.append_nil]; rfl
        rw [hid, uint32At_zero, List.append_nil, length_leUInt32, if_pos (by omega)]
  have hskip {v : UInt32} {rest : Bytes} {value : UInt32} (offset : ℕ)
      (h : uint32At rest offset = value) : uint32At (leUInt32 v ++ rest) (4 + offset) = value :=
    (uint32At_skip v rest offset).trans h
  have hzero {v : UInt32} {rest : Bytes} : uint32At (leUInt32 v ++ rest) 0 = v :=
    uint32At_zero v rest
  rw [cliprdrReadFileContentsRequest, hlength, if_neg (by omega), hzero, hskip 0 hzero,
    hskip 4 (hskip 0 hzero), hskip 8 (hskip 4 (hskip 0 hzero)),
    hskip 12 (hskip 8 (hskip 4 (hskip 0 hzero))),
    hskip 16 (hskip 12 (hskip 8 (hskip 4 (hskip 0 hzero)))),
    hskip 20 (hskip 16 (hskip 12 (hskip 8 (hskip 4 (hskip 0 rfl))))), hclip]

/-- How packets are cut into chunks on their way, and the reallocation policy of the side
that collects them. -/
structure Wire where
  cut : Bytes → List Chunk
  growth : Growth
  fragments : ∀ bytes, bytes ≠ [] → bytes.length < 2 ^ 32 → IsFragmentation bytes (cut bytes)

def Wire.carry (wire : Wire) (packets : List Bytes) : List Bytes :=
  (handedOver (postAll wire.growth (⟨false, fun u _ => (0, u)⟩ : ChannelConfig Unit) ⟨[], none, ()⟩
    (calls (packets.flatMap wire.cut))).2).map WStream.unread

theorem map_unread_of_isSealed {packets : List Bytes} {streams : List WStream}
    (h : List.Forall₂ IsSealed packets streams) : streams.map WStream.unread = packets := by
  induction h with
  | nil => rfl
  | cons hs _ ih => rw [List.map_cons, hs.2.2, ih]

theorem Wire.carry_eq (wire : Wire) {packets : List Bytes}
    (h : ∀ bytes ∈ packets, bytes ≠ [] ∧ bytes.length < 2 ^ 32) : wire.carry packets = packets := by
  have hcut : List.Forall₂ IsFragmentation packets (packets.map wire.cut) := by
    rw [List.forall₂_map_right_iff]
    exact List.forall₂_same.mpr fun bytes hbytes =>
      wire.fragments bytes (h bytes hbytes).1 (h bytes hbytes).2
  obtain ⟨-, hsealed, -⟩ := post_fragmentations (g := wire.growth)
    (p := (⟨[], none, ()⟩ : MsgProcInternals Unit)) ⟨false, fun u _ => (0, u)⟩ hcut
    (fun bytes hbytes => (h bytes hbytes).1) rfl
  rw [Wire.carry, List.flatMap_def]
  exact map_unread_of_isSealed hsealed

theorem IsPacket.ne_nil {msgType : UInt16} {bytes : Bytes} (h : IsPacket msgType bytes) :
    bytes ≠ [] ∧ bytes.length < 2 ^ 32 := by
  obtain ⟨msgFlags, body, rfl, hlen⟩ := h
  have hlength : (packet msgType msgFlags body).length = 8 + body.length := by
    simp only [packet, List.length_append, length_leUInt16, length_leUInt32]
  exact ⟨List.ne_nil_of_length_pos (by omega), by omega⟩

theorem Wire.carry_packet (wire : Wire) {msgType : UInt16} {bytes : Bytes}
    (h : IsPacket msgType bytes) : wire.carry [bytes] = [bytes] :=
  wire.carry_eq (List.forall_mem_singleton.mpr h.ne_nil)

/-- A client handles messages one after the other; the packets that it sends meanwhile. -/
def receiveAll (setup : ClipboardSetup) (content : LocalContent) :
    Client → List Bytes → Option (Client × List Bytes)
  | s, [] => some (s, [])
  | s, bytes :: messages =>
      match clientStep setup s (.message bytes content) with
      | none => none
      | some (s, o) =>
          (receiveAll setup content s messages).map fun r => (r.1, o.packets ++ r.2)

/-- The two parties, the content that the peer serves, and the wire between them. -/
structure Link where
  client : ClipboardSetup
  peer : ClipboardSetup
  content : LocalContent
  wire : Wire

/-- The worker of the client arms the slot and sends a request, the peer answers, the answer
is handled and the worker waits: the two parties after that, the request and the result. -/
def wireExchange (link : Link) (client peer : Client) (job : RemoteFileJob)
    (state : DownloadState) : Option (Client × Client × FileContentsRequest × Option Bytes) :=
  match clientStep link.client client (.worker (.arm state.kind)) with
  | some (client, ⟨_, _, some (.armed streamId)⟩) =>
      match state.request job streamId with
      | none => none
      | some request =>
          match clientStep link.client client (.send request) with
          | none => none
          | some (client, sent) =>
              match receiveAll link.peer link.content peer (link.wire.carry sent.packets) with
              | none => none
              | some (peer, answers) =>
                  match receiveAll link.client link.content client (link.wire.carry answers) with
                  | none => none
                  | some (client, _) =>
                      match clientStep link.client client (.worker .wait) with
                      | some (client, ⟨_, _, some (.waited _ result)⟩) =>
                          some (client, peer, request, result)
                      | _ => none
  | _ => none

/-- What the parties need: transports that work, and the files bit for this direction. -/
structure Link.Usable (link : Link) : Prop where
  client : link.client.context.Works
  toClient : link.client.context.featureMask &&& cliprdrFlagRemoteToLocalFiles ≠ 0
  toServer : link.peer.context.featureMask &&& cliprdrFlagLocalToRemoteFiles ≠ 0

variable {setup : ClipboardSetup} {content : LocalContent} {s : Client} {link : Link}
  {client peer : Client} {job : RemoteFileJob} {state : DownloadState}
  {request : FileContentsRequest} {bytes : Bytes} {response : FileContentsResponse}

/-- A request packet is handled as the function of the serving side says. -/
theorem receiveMessage_request (setup : ClipboardSetup) (content : LocalContent)
    (state : ClipboardState)
    (hmask : setup.context.featureMask &&& cliprdrFlagLocalToRemoteFiles ≠ 0)
    (hvalid : cliprdrValidateFileContentsRequest request = true) :
    receiveMessage setup content state
        (packet cbFileContentsRequest 0 (fileContentsRequestBody request)) =
      (peerOf setup.context state.files content.disk request).map
        fun r => ⟨r.1, r.2, state⟩ := by
  have hbody : (fileContentsRequestBody request).length < 2 ^ 32 :=
    (length_fileContentsRequestBody_le request).trans_lt (by decide)
  rw [receiveMessage, readHeader_packet _ _ _ hbody]
  change cliprdrProcessFileContentsRequestMessage setup content state _ = _
  rw [cliprdrProcessFileContentsRequestMessage, cliprdrProcessFileContentsRequest,
    cliprdrReadFileContentsRequest_body, if_pos hvalid]
  simp only [if_neg hmask]
  rfl

/-- A response packet is stored in the slot. -/
theorem receiveMessage_response (setup : ClipboardSetup) (content : LocalContent)
    (state : ClipboardState) (h : receiveFileContentsResponse bytes = some response) :
    receiveMessage setup content state bytes = some ⟨channelRcOk, [], { state with
      slot := { state.slot with
        pending := (serverFileContentsResponse true (some response) state.slot.pending).2 } }⟩ := by
  have hok : (serverFileContentsResponse true (some response) state.slot.pending).1 =
      channelRcOk := by
    simp only [serverFileContentsResponse]
    split_ifs <;> rfl
  rw [receiveFileContentsResponse] at h
  cases hread : readHeader bytes with
  | none =>
      rw [hread] at h
      cases h
  | some message =>
      obtain ⟨header, body⟩ := message
      simp only [hread] at h
      split_ifs at h with htype
      cases hresponse : cliprdrReadFileContentsResponse header body with
      | error error =>
          rw [hresponse] at h
          cases h
      | ok response' =>
          rw [hresponse] at h
          obtain rfl := Option.some.inj h
          simp only [receiveMessage, hread, processMessage, htype]
          change some (cliprdrProcessFileContentsResponse state header body) = _
          simp only [cliprdrProcessFileContentsResponse, hresponse, hok, Handled.silent]

theorem receiveAll_single {o : ClientOutput} {s' : Client}
    (h : clientStep setup s (.message bytes content) = some (s', o)) :
    receiveAll setup content s [bytes] = some (s', o.packets) := by
  simp only [receiveAll, h, Option.map_some, List.append_nil]

theorem clientStep_request (hrunning : s.running = true)
    (hmask : setup.context.featureMask &&& cliprdrFlagLocalToRemoteFiles ≠ 0)
    (hvalid : cliprdrValidateFileContentsRequest request = true) {answer : Bytes}
    (hpeer : peerOf setup.context s.state.files content.disk request =
      some (channelRcOk, [answer])) :
    receiveAll setup content s
      [packet cbFileContentsRequest 0 (fileContentsRequestBody request)] = some (s, [answer]) := by
  have hreceive := receiveMessage_request setup content s.state hmask hvalid
  rw [hpeer, Option.map_some] at hreceive
  obtain ⟨state, running⟩ := s
  obtain rfl : running = true := hrunning
  have hstep : clientStep setup ⟨state, true⟩ (.message
      (packet cbFileContentsRequest 0 (fileContentsRequestBody request)) content) =
      some (⟨state, true⟩, ⟨channelRcOk, [answer], slotAnswer state.slot.pending
        (packet cbFileContentsRequest 0 (fileContentsRequestBody request))⟩) := by
    simp only [clientStep, if_true, hreceive, Option.map_some, decide_true]
  exact receiveAll_single hstep

theorem clientStep_response (hrunning : s.running = true)
    (h : receiveFileContentsResponse bytes = some response) {slot : RemoteSlot} {o : SlotOutput}
    (hslot : slotStep s.state.slot (.response response) = some (slot, o)) :
    receiveAll setup content s [bytes] = some (s.withSlot slot, []) := by
  have hreceive := receiveMessage_response setup content s.state h
  obtain ⟨state, running⟩ := s
  obtain rfl : running = true := hrunning
  obtain ⟨rfl, -⟩ := Prod.mk.inj (Option.some.inj hslot)
  have hstep : clientStep setup ⟨state, true⟩ (.message bytes content) =
      some (Client.withSlot ⟨state, true⟩ { state.slot with
          pending := (serverFileContentsResponse true (some response) state.slot.pending).2 },
        ⟨channelRcOk, [], slotAnswer state.slot.pending bytes⟩) := by
    simp only [clientStep, if_true, hreceive, Option.map_some, decide_true]
    rfl
  exact receiveAll_single hstep

theorem streamId_of_request {streamId : UInt32} (h : state.request job streamId = some request) :
    request.streamId = streamId ∧ cliprdrValidateFileContentsRequest request = true := by
  cases state with
  | querySize =>
      obtain rfl := Option.some.inj h
      exact ⟨rfl, (if_pos (requestRemoteSize_asks streamId job.listIndex)).trans rfl⟩
  | fetch fileSize offset =>
      obtain rfl := Option.some.inj h
      exact ⟨rfl, if_neg (requestRemoteRange_asks streamId job.listIndex offset _).1⟩
  | returned path => cases h

/-- What the parts of an exchange do. -/
theorem exchange_parts {answers : FileContentsRequest → Outcome} {slot slot' : RemoteSlot}
    {result : Option Bytes}
    (h : exchange answers slot job state = some (slot', request, result)) :
    ∃ answer response s₁ s₂ s₃ o₂ o₃ streamId, answers request = some (channelRcOk, [answer]) ∧
      receiveFileContentsResponse answer = some response ∧
      slotStep slot (.arm state.kind) = some (s₁, .armed request.streamId) ∧
      s₁.pc = .armed request.streamId ∧
      state.request job request.streamId = some request ∧
      slotStep s₁ (.send channelRcOk) = some (s₂, o₂) ∧
      slotStep s₂ (.response response) = some (s₃, o₃) ∧
      slotStep s₃ .wait = some (slot', .waited streamId result) := by
  rw [exchange] at h
  cases hrequest : state.request job (nextRemoteStreamId slot.nextStreamId).1 with
  | none => simp [hrequest] at h
  | some request' =>
      simp only [hrequest] at h
      split at h
      · rename_i rc answer hanswer
        split_ifs at h with hrc
        subst hrc
        cases hresponse : receiveFileContentsResponse answer with
        | none => simp [hresponse] at h
        | some response =>
            simp only [hresponse] at h
            split at h
            · rename_i slot'' e₁ e₂ e₃ i streamId result' hrun
              simp only [Option.some.injEq, Prod.mk.injEq] at h
              obtain ⟨rfl, rfl, rfl⟩ := h
              obtain ⟨s₁, o₁, u₁, harm, hrun₁, ht₁⟩ := run_cons_eq_some hrun
              obtain ⟨s₂, o₂, u₂, hsend, hrun₂, rfl⟩ := run_cons_eq_some hrun₁
              obtain ⟨s₃, o₃, u₃, hstore, hrun₃, rfl⟩ := run_cons_eq_some hrun₂
              obtain ⟨s₄, o₄, u₄, hwait, hrun₄, rfl⟩ := run_cons_eq_some hrun₃
              simp only [List.cons.injEq, Prod.mk.injEq] at ht₁
              obtain ⟨-, -, -, ⟨-, rfl⟩, -⟩ := ht₁
              obtain ⟨rfl, -⟩ := Prod.mk.inj (Option.some.inj hrun₄)
              obtain ⟨hid, -⟩ := streamId_of_request hrequest
              cases slotStep_cases harm with
              | arm _ _ =>
                  rw [← hid] at harm hrequest hsend
                  exact ⟨answer, response, _, s₂, s₃, o₂, o₃, streamId, hanswer, hresponse, harm,
                    rfl, hrequest, hsend, hstore, hwait⟩
            · cases h
      · cases h

/-- An exchange with the function of the peer is one over the wire. -/
theorem wireExchange_eq (hlink : link.Usable) (hclient : client.running = true)
    (hpeer : peer.running = true) {slot : RemoteSlot} {result : Option Bytes}
    (hpass : PassesLocalChecks (link.client.context.agreed client.state.caps) request)
    (h : exchange (peerOf link.peer.context peer.state.files link.content.disk) client.state.slot
      job state = some (slot, request, result)) :
    wireExchange link client peer job state =
      some (client.withSlot slot, peer, request, result) := by
  obtain ⟨answer, response, s₁, s₂, s₃, o₂, o₃, streamId, hanswer, hresponse, harm, hpc, hrequest,
    hsend, hstore, hwait⟩ := exchange_parts h
  have hvalid := (streamId_of_request hrequest).2
  have hasked : IsPacket cbFileContentsRequest
      (packet cbFileContentsRequest 0 (fileContentsRequestBody request)) :=
    ⟨0, _, rfl, (length_fileContentsRequestBody_le request).trans (by decide)⟩
  have hanswered : IsPacket cbFileContentsResponse answer := by
    obtain ⟨msgType, hmsgType, hpacket⟩ := (outcomeAmong_serverFileContentsRequest _ _ _ _ _ _
      hanswer).exists_isPacket List.mem_cons_self
    rwa [List.mem_singleton.mp hmsgType] at hpacket
  have hrequested : clientStep link.client (client.withSlot s₁) (.send request) =
      some (client.withSlot s₂, ⟨channelRcOk,
        [packet cbFileContentsRequest 0 (fileContentsRequestBody request)], some o₂⟩) := by
    have hworks : (link.client.context.agreed client.state.caps).Works :=
      ⟨hlink.client.streamNew, hlink.client.accepts⟩
    have hout := cliprdrClientFileContentsRequest_eq hworks hlink.toClient request
    rw [if_pos hpass] at hout
    have hcaps : (client.withSlot s₁).state.caps = client.state.caps := rfl
    have hslot : (client.withSlot s₁).state.slot = s₁ := rfl
    rw [clientStep, hslot, hcaps, if_pos hpc, hout]
    simp only [hsend, Option.map_some]
    rfl
  have harmed : clientStep link.client client (.worker (.arm state.kind)) =
      some (client.withSlot s₁, ⟨channelRcOk, [], some (.armed request.streamId)⟩) := by
    rw [clientStep]
    simp only [WorkerTurn.input, harm, Option.map_some]
  have hwaited : clientStep link.client (client.withSlot s₃) (.worker .wait) =
      some (client.withSlot slot, ⟨channelRcOk, [], some (.waited streamId result)⟩) := by
    have hslot : (client.withSlot s₃).state.slot = s₃ := rfl
    rw [clientStep, hslot]
    simp only [WorkerTurn.input, hwait, Option.map_some]
    rfl
  have hserved : receiveAll link.peer link.content peer
      [packet cbFileContentsRequest 0 (fileContentsRequestBody request)] = some (peer, [answer]) :=
    clientStep_request hpeer hlink.toServer hvalid hanswer
  have hstored : receiveAll link.client link.content (client.withSlot s₂) [answer] =
      some (client.withSlot s₃, []) :=
    clientStep_response (s := client.withSlot s₂) hclient hresponse hstore
  rw [wireExchange]
  simp only [harmed, hrequest, hrequested, link.wire.carry_packet hasked, hserved,
    link.wire.carry_packet hanswered, hstored, hwaited]

structure WireRun where
  client : Client
  peer : Client
  state : DownloadState
  files : LocalFiles
  requests : List FileContentsRequest

/-- `download_remote_file` over the wire, for at most `fuel` exchanges. -/
def wireDownload (link : Link) (job : RemoteFileJob) : ℕ → WireRun → Option WireRun
  | fuel, r =>
      match r.state with
      | .returned _ => some r
      | state =>
          match fuel with
          | 0 => none
          | fuel + 1 =>
              match wireExchange link r.client r.peer job state with
              | none => none
              | some (client, peer, request, result) =>
                  let next := state.resume .succeeds job r.files result
                  wireDownload link job fuel
                    ⟨client, peer, next.1, next.2, r.requests ++ [request]⟩

theorem requests_grow {answers : FileContentsRequest → Outcome} {r r' : DownloadRun} {fuel : ℕ}
    (h : downloadRemoteFile answers job fuel r = some r') : r.requests <+: r'.requests := by
  induction fuel generalizing r with
  | zero =>
      unfold downloadRemoteFile at h
      split at h
      · obtain rfl := Option.some.inj h
        exact List.prefix_rfl
      · cases h
  | succ fuel ih =>
      unfold downloadRemoteFile at h
      split at h
      · obtain rfl := Option.some.inj h
        exact List.prefix_rfl
      · simp only at h
        split at h
        · cases h
        · exact (List.prefix_append _ _).trans (ih h)

theorem stopped_of_slotStep {slot slot' : RemoteSlot} {i : SlotInput} {o : SlotOutput}
    (hi : i ≠ .stop) (h : slotStep slot i = some (slot', o)) : slot'.stopped = slot.stopped := by
  cases slotStep_cases h with
  | stop => exact absurd rfl hi
  | arm | sendFailed | sent | reset | wait | accepted | ignored => rfl

/-- After an exchange the slot can take the next request. -/
theorem open_of_exchange {answers : FileContentsRequest → Outcome} {slot slot' : RemoteSlot}
    {result : Option Bytes} (hopen : slot.Open)
    (h : exchange answers slot job state = some (slot', request, result)) : slot'.Open := by
  obtain ⟨answer, response, s₁, s₂, s₃, o₂, o₃, streamId, -, -, harm, -, -, hsend, hstore, hwait⟩ :=
    exchange_parts h
  have hstopped : slot'.stopped = slot.stopped := by
    rw [stopped_of_slotStep (by simp) hwait, stopped_of_slotStep (by simp) hstore,
      stopped_of_slotStep (by simp) hsend, stopped_of_slotStep (by simp) harm]
  refine ⟨?_, hstopped.trans hopen.stopped⟩
  cases slotStep_cases hwait
  rfl

theorem open_of_download {answers : FileContentsRequest → Outcome} {r r' : DownloadRun} {fuel : ℕ}
    (hopen : r.slot.Open) (h : downloadRemoteFile answers job fuel r = some r') : r'.slot.Open := by
  induction fuel generalizing r with
  | zero =>
      unfold downloadRemoteFile at h
      split at h
      · obtain rfl := Option.some.inj h
        exact hopen
      · cases h
  | succ fuel ih =>
      unfold downloadRemoteFile at h
      split at h
      · obtain rfl := Option.some.inj h
        exact hopen
      · simp only at h
        split at h
        · cases h
        · rename_i hexchange
          exact ih (open_of_exchange hopen hexchange) h

theorem wireDownload_returned {r : WireRun} {path : Option QString} (h : r.state = .returned path)
    (fuel : ℕ) : wireDownload link job fuel r = some r := by
  unfold wireDownload
  simp only [h]

theorem wireDownload_exchange {r : WireRun} {result : Option Bytes}
    (h : ∀ path, r.state ≠ .returned path)
    (he : wireExchange link r.client r.peer job r.state = some (client, peer, request, result))
    (fuel : ℕ) :
    wireDownload link job (fuel + 1) r = wireDownload link job fuel ⟨client, peer,
      (r.state.resume .succeeds job r.files result).1,
      (r.state.resume .succeeds job r.files result).2, r.requests ++ [request]⟩ := by
  conv_lhs => unfold wireDownload
  split
  · rename_i path hpath
    exact absurd hpath (h path)
  · simp only [he]

/-- A download from the function of the peer is one over the wire, if all its requests pass
the checks of the sender. -/
theorem wireDownload_of_download (hlink : link.Usable) (hclient : client.running = true)
    (hpeer : peer.running = true) {r r' : DownloadRun} {fuel : ℕ}
    (hslot : client.state.slot = r.slot)
    (h : downloadRemoteFile (peerOf link.peer.context peer.state.files link.content.disk) job fuel
      r = some r')
    (hpass : ∀ request ∈ r'.requests,
      PassesLocalChecks (link.client.context.agreed client.state.caps) request) :
    wireDownload link job fuel ⟨client, peer, r.state, r.files, r.requests⟩ =
      some ⟨client.withSlot r'.slot, peer, r'.state, r'.files, r'.requests⟩ := by
  induction fuel generalizing r client with
  | zero =>
      unfold downloadRemoteFile at h
      split at h
      · rename_i path hpath
        obtain rfl := Option.some.inj h
        rw [wireDownload_returned hpath, ← hslot]
        rfl
      · cases h
  | succ fuel ih =>
      unfold downloadRemoteFile at h
      split at h
      · rename_i path hpath
        obtain rfl := Option.some.inj h
        rw [wireDownload_returned hpath, ← hslot]
        rfl
      · rename_i hstate
        simp only at h
        split at h
        · cases h
        · rename_i slot request result hexchange
          have hmem : request ∈ r'.requests := (requests_grow h).subset (by simp)
          rw [← hslot] at hexchange
          have hwire := wireExchange_eq hlink hclient hpeer (hpass request hmem) hexchange
          have hrunning : (client.withSlot slot).running = true := hclient
          rw [wireDownload_exchange hstate hwire]
          exact ih hrunning rfl h hpass

theorem passes_of_endsLow {context : CliprdrPlugin} (h : request.EndsLow) :
    PassesLocalChecks context request := Or.inr h

theorem endsLow_of_offset (h : request.offset.toNat + request.cbRequested.toNat < 2 ^ 32) :
    request.EndsLow := by
  have hoffset : request.offset.toNat =
      request.nPositionHigh.toNat * 2 ^ 32 + request.nPositionLow.toNat := toNat_join32 _ _
  have hhigh : request.nPositionHigh.toNat = 0 := by omega
  exact ⟨by omega, UInt32.toNat_inj.mp hhigh⟩

/-- A whole file, after which the slot can take the next request. -/
theorem wireDownload_file (hlink : link.Usable) (hclient : client.running = true)
    (hpeer : peer.running = true) (hslot : client.state.slot.Open) {content : Bytes}
    (h : ServesContent link.peer.context peer.state.files link.content.disk job.listIndex content)
    (hsize : content.length < 2 ^ 32) (files : LocalFiles) :
    ∃ slot requests fuel, slot.Open ∧ ∀ n, fuel ≤ n →
      wireDownload link job n ⟨client, peer, .querySize, files, []⟩ =
        some ⟨client.withSlot slot, peer, .returned (some job.localPath),
          Function.update files job.localPath (some content), requests⟩ := by
  set streamId := (nextRemoteStreamId client.state.slot.nextStreamId).1 with hstreamId
  have hexchange : exchange (peerOf link.peer.context peer.state.files link.content.disk)
      client.state.slot job .querySize = some (client.state.slot.exchanged,
        requestRemoteSize streamId job.listIndex,
        some (leUInt64 (UInt64.ofNat content.length))) :=
    exchange_eq hslot rfl rfl (h.size streamId) (by simp)
  obtain ⟨slot, ranges, fuel, hrun, htiles, -⟩ := chunkLoop_downloads h content.length 0
    client.state.slot.exchanged (files.truncate job.localPath)
    [requestRemoteSize streamId job.listIndex] (by simp) hslot.exchanged
    (by simp [LocalFiles.truncate])
  have hdownload (n : ℕ) (hn : fuel ≤ n) : downloadRemoteFile
      (peerOf link.peer.context peer.state.files link.content.disk) job (n + 1)
      ⟨client.state.slot, .querySize, files, []⟩ = some ⟨slot, .returned (some job.localPath),
        Function.update files job.localPath (some content),
        requestRemoteSize streamId job.listIndex :: ranges⟩ := by
    rw [downloadRemoteFile_exchange (fun path he => absurd he (by simp)) hexchange]
    simp only [DownloadState.resume, sizeAnswered_size, List.nil_append]
    rw [hrun n hn, LocalFiles.truncate, Function.update_idem, List.singleton_append]
  refine ⟨slot, requestRemoteSize streamId job.listIndex :: ranges, fuel + 1,
    open_of_download hslot (hdownload fuel (Nat.le_refl _)), fun n hn => ?_⟩
  obtain ⟨n, rfl⟩ : ∃ m, n = m + 1 := ⟨n - 1, by omega⟩
  refine wireDownload_of_download hlink hclient hpeer rfl (hdownload n (by omega)) ?_
  intro request hmem
  apply passes_of_endsLow
  rcases List.mem_cons.mp hmem with rfl | hmem
  · exact ⟨by simp [requestRemoteSize], rfl⟩
  · apply endsLow_of_offset
    have hstop := htiles.stop_le (List.mem_map_of_mem hmem)
    exact lt_of_le_of_lt hstop hsize

/-- Over the wire, a file of less than four gigabytes that the peer has captured arrives as
it is, in whatever chunks the packets are cut. -/
theorem download_over_the_wire (link : Link) (hlink : link.Usable) (client peer : Client)
    (hclient : client.running = true) (hpeer : peer.running = true)
    (hslot : client.state.slot.Open) (job : RemoteFileJob) (content : Bytes)
    (h : ServesContent link.peer.context peer.state.files link.content.disk job.listIndex content)
    (hsize : content.length < 2 ^ 32) (files : LocalFiles) :
    ∃ slot requests fuel, ∀ n, fuel ≤ n →
      wireDownload link job n ⟨client, peer, .querySize, files, []⟩ =
        some ⟨client.withSlot slot, peer, .returned (some job.localPath),
          Function.update files job.localPath (some content), requests⟩ := by
  obtain ⟨slot, requests, fuel, -, hrun⟩ :=
    wireDownload_file hlink hclient hpeer hslot h hsize files
  exact ⟨slot, requests, fuel, hrun⟩

def Wire.whole : Wire where
  cut bytes := [⟨bytes, UInt32.ofNat bytes.length, channelFlagFirst ||| channelFlagLast⟩]
  growth := .exact
  fragments bytes _ hlength := by
    have hfirst : (channelFlagFirst ||| channelFlagLast) &&& channelFlagFirst != 0 := by decide
    have hlast : (channelFlagFirst ||| channelFlagLast) &&& channelFlagLast != 0 := by decide
    have hcontrol : ((channelFlagFirst ||| channelFlagLast) &&& channelFlagSuspend != 0 ||
        (channelFlagFirst ||| channelFlagLast) &&& channelFlagResume != 0) = false := by decide
    exact
      { data := List.append_nil bytes
        total := List.forall_mem_singleton.mpr (UInt32.toNat_ofNat_of_lt' hlength)
        isData := List.forall_mem_singleton.mpr hcontrol
        first := ⟨_, [], rfl, hfirst, by simp⟩
        last := ⟨[], _, rfl, hlast, by simp⟩ }

/-- Every packet in two chunks, the first one of `n` bytes. -/
def Wire.split (n : ℕ) : Wire where
  cut bytes :=
    [⟨bytes.take n, UInt32.ofNat bytes.length, channelFlagFirst⟩,
      ⟨bytes.drop n, UInt32.ofNat bytes.length, channelFlagLast⟩]
  growth := .exact
  fragments bytes _ hlength := by
    have hfirst : (channelFlagFirst &&& channelFlagFirst != 0) = true := by decide
    have hnotFirst : (channelFlagLast &&& channelFlagFirst != 0) = false := by decide
    have hlast : (channelFlagLast &&& channelFlagLast != 0) = true := by decide
    have hnotLast : (channelFlagFirst &&& channelFlagLast != 0) = false := by decide
    have hfirstData : (channelFlagFirst &&& channelFlagSuspend != 0 ||
        channelFlagFirst &&& channelFlagResume != 0) = false := by decide
    have hlastData : (channelFlagLast &&& channelFlagSuspend != 0 ||
        channelFlagLast &&& channelFlagResume != 0) = false := by decide
    constructor
    · rw [List.flatMap_cons, List.flatMap_singleton, List.take_append_drop]
    · simp only [List.forall_mem_cons, UInt32.toNat_ofNat_of_lt' hlength, true_and]
      exact List.forall_mem_nil _
    · simp only [List.forall_mem_cons]
      exact ⟨hfirstData, hlastData, List.forall_mem_nil _⟩
    · exact ⟨_, [_], rfl, hfirst, List.forall_mem_singleton.mpr hnotFirst⟩
    · exact ⟨[_], _, rfl, hlast, List.forall_mem_singleton.mpr hnotLast⟩

/-- Every packet is cut inside its header. -/
theorem download_over_the_wire_three_bytes :
    ∃ slot requests fuel, wireDownload
        ⟨.session 0xFFFFFFFF, .session 0xFFFFFFFF, ⟨none, fun _ => some (.ofBytes [1, 2, 3])⟩,
          .split 5⟩
        ⟨0, [], [], 0⟩ fuel
        ⟨.initial, ⟨{ ClipboardState.initial with files := [⟨[], [], 3, false⟩] }, true⟩,
          .querySize, fun _ => none, []⟩ =
      some ⟨Client.initial.withSlot slot, ⟨{ ClipboardState.initial with
          files := [⟨[], [], 3, false⟩] }, true⟩, .returned (some []),
        Function.update (fun _ => none) [] (some [1, 2, 3]), requests⟩ := by
  have hserves : ServesContent (ClipboardSetup.session 0xFFFFFFFF).context [⟨[], [], 3, false⟩]
      (fun _ => some (.ofBytes [1, 2, 3])) 0 [1, 2, 3] :=
    ⟨⟨⟨fun _ => rfl, fun _ => rfl⟩, by decide⟩, ⟨_, rfl, rfl, rfl, rfl⟩, by decide⟩
  obtain ⟨slot, requests, fuel, hrun⟩ := download_over_the_wire
    ⟨.session 0xFFFFFFFF, .session 0xFFFFFFFF, ⟨none, fun _ => some (.ofBytes [1, 2, 3])⟩, .split 5⟩
    ⟨⟨fun _ => rfl, fun _ => rfl⟩, by decide, by decide⟩ .initial
    ⟨{ ClipboardState.initial with files := [⟨[], [], 3, false⟩] }, true⟩ rfl rfl ⟨rfl, rfl⟩
    ⟨0, [], [], 0⟩ [1, 2, 3] hserves (by decide) (fun _ => none)
  exact ⟨slot, requests, fuel, hrun fuel (Nat.le_refl _)⟩

end QfClient
