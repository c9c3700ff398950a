import QfClient.EnqueuedJobs
import QfClient.FeatureMask
import QfClient.TextRoundTrip
import QfClient.WireDownload

/-!
# Copying on one side and pasting on the other

Something is copied at the peer: it announces the formats, the client asks for the one it
prefers and the peer answers with the data. Here the three packets go over the wire from
client to client, and what the client ends up with is what was copied.
-/

namespace QfClient

open LittleEndian Machine Qt Unicode WinPR

/-- The peer's clipboard changes, the client is told, asks, and is answered. -/
def pasteExchange (link : Link) (client peer : Client) (disk : FileNode) (mimeData : MimeData) :
    Option (Client × Client) :=
  match clientStep link.peer peer (.dataChanged false disk mimeData) with
  | none => none
  | some (peer, changed) =>
      match receiveAll link.client link.content client (link.wire.carry changed.packets) with
      | none => none
      | some (client, requests) =>
          match receiveAll link.peer link.content peer (link.wire.carry requests) with
          | none => none
          | some (peer, answers) =>
              (receiveAll link.client link.content client (link.wire.carry answers)).map
                fun r => (r.1, peer)

/-- Two clients that can talk to each other, with the same form of format names. -/
structure Paired (link : Link) (client peer : Client) : Prop where
  clientWorks : link.client.context.Works
  peerWorks : link.peer.context.Works
  clientRunning : client.running = true
  peerRunning : peer.running = true
  peerReady : peer.state.ready = true
  names : peer.state.caps.useLongFormatNames = client.state.caps.useLongFormatNames
  reader : link.client.reader.Strict
  writer : link.peer.writer.Faithful

variable {link : Link} {client peer : Client} {context : CliprdrPlugin}
  {formats : List CliprdrFormat} {setup : ClipboardSetup} {content : LocalContent}
  {state : ClipboardState}

theorem cliprdrClientFormatDataRequest_of_works (h : context.Works)
    (hmask : context.featureMask &&& remoteToLocal ≠ 0) (formatId : UInt32) :
    cliprdrClientFormatDataRequest context formatId =
      some (channelRcOk, [packet cbFormatDataRequest 0 (leUInt32 formatId)]) := by
  obtain ⟨s, s', hs, hwrite, hsend⟩ := cliprdrPacketNew_write_send h cbFormatDataRequest 0
    (show 4 < 4294967295 by decide) (length_leUInt32 formatId).le (by simp)
  rw [cliprdrClientFormatDataRequest, if_neg hmask, hs]
  simp only [hwrite]
  exact hsend

/-- Formats that are not about files pass with the bit for data. -/
theorem filter_data {mask checkMask data files : UInt32} {i j : ℕ}
    (hcheck : checkMask = data ||| files)
    (hdata : checkMask &&& (cliprdrFlagLocalToRemote ||| cliprdrFlagRemoteToLocal) = data)
    (hfiles : checkMask &&& (cliprdrFlagLocalToRemoteFiles ||| cliprdrFlagRemoteToLocalFiles) =
      files) (hi : data.toNat = 2 ^ i) (hj : files.toNat = 2 ^ j) (hbit : mask &&& data ≠ 0)
    (hnames : ∀ format ∈ formats, namesFiles format = false) :
    cliprdrFilterFormatList formats mask checkMask = formats := by
  have hset : mask &&& data = data := by rw [and_bit hi, if_pos (by simpa using hbit)]
  have hkeep : formats.filter (fun format => !namesFiles format) = formats := by
    rw [List.filter_eq_self]
    intro format hformat
    rw [hnames format hformat]
    rfl
  rw [cliprdrFilterFormatList, hdata, hfiles]
  by_cases hzero : mask &&& files = 0
  · simp only [hzero, hbit, hkeep, ne_eq, not_true, not_false_iff, if_true, if_false]
    split_ifs <;> rfl
  · have hall : mask &&& checkMask = checkMask := by
      rw [hcheck, and_or_distrib, hset, and_bit hj, if_pos (by simpa using hzero)]
    rw [if_pos hall]

/-- Formats about files pass with the bit for files. -/
theorem filter_files {mask checkMask files : UInt32}
    (hfiles : checkMask &&& (cliprdrFlagLocalToRemoteFiles ||| cliprdrFlagRemoteToLocalFiles) =
      files) (hbit : mask &&& files ≠ 0) (hnames : ∀ format ∈ formats, namesFiles format = true) :
    cliprdrFilterFormatList formats mask checkMask = formats := by
  rw [cliprdrFilterFormatList, hfiles]
  simp only [hbit, List.filter_eq_self.mpr hnames, ne_eq, not_false_iff, if_true]
  split_ifs <;> rfl

theorem remoteToLocal_of_filter (hne : formats ≠ [])
    (h : cliprdrFilterFormatList formats context.featureMask remoteToLocal = formats) :
    context.featureMask &&& remoteToLocal ≠ 0 := by
  intro hzero
  rw [filter_eq_nil _ hzero] at h
  exact hne h.symm

theorem localToRemote_of_filter (hne : formats ≠ [])
    (h : cliprdrFilterFormatList formats context.featureMask localToRemote = formats) :
    context.featureMask &&& localToRemote ≠ 0 := by
  intro hzero
  rw [filter_local_eq_nil hzero] at h
  exact hne h.symm

theorem cutsBetweenCharacters_of_arrivesNamed {useLongFormatNames : Bool}
    (h : ArrivesNamed useLongFormatNames formats) :
    CutsBetweenCharacters useLongFormatNames formats := by
  rintro rfl
  exact cutsBetweenCharacters_of_length (fun format hformat => (h format hformat).2.2 rfl) rfl

/-- The list of formats goes out. -/
theorem dataChanged_sends (h : Paired link client peer) {disk : FileNode} {mimeData : MimeData}
    {files : List ClipboardInfoFile}
    (hchanged : dataChangedCallback (captureUrls disk) true false peer.state.files mimeData =
      (files, some formats)) (hne : formats ≠ [])
    (hfilter : cliprdrFilterFormatList formats link.peer.context.featureMask localToRemote =
      formats) (hnul : NamesNulFree formats)
    (hcut : CutsBetweenCharacters client.state.caps.useLongFormatNames formats)
    (hmax : (formats.flatMap (wireFormat client.state.caps.useLongFormatNames)).length ≤
      4294967279) :
    clientStep link.peer peer (.dataChanged false disk mimeData) =
      some (⟨{ peer.state with
          files := files
          caps := { peer.state.caps with initialFormatListSent := true } }, true⟩,
        ⟨channelRcOk, [packet cbFormatList 0
          (formats.flatMap (wireFormat client.state.caps.useLongFormatNames))], none⟩) := by
  have hsend := sendFormatList_eq h.peerWorks h.writer client.state.caps.useLongFormatNames hnul
    hcut hmax
  simp only [clientStep, ClipboardState.dataChanged, h.peerReady, hchanged,
    cliprdrClientFormatList, hfilter, if_neg (fun hnil => hne hnil.1 : ¬ (formats = [] ∧ _)),
    h.names, hsend, Option.map_some, h.peerRunning]

theorem receiveAll_message {s : Client} {bytes : Bytes} {packets : List Bytes}
    {next : ClipboardState} (hrunning : s.running = true)
    (h : receiveMessage setup content s.state bytes = some ⟨channelRcOk, packets, next⟩) :
    receiveAll setup content s [bytes] = some (⟨next, true⟩, packets) := by
  have hstep : clientStep setup s (.message bytes content) = some (⟨next, true⟩,
      ⟨channelRcOk, packets, slotAnswer s.state.slot.pending bytes⟩) := by
    simp only [clientStep, hrunning, if_true, h, Option.map_some, decide_true]
  exact receiveAll_single hstep

/-- A list of formats leads to a request. -/
theorem receiveMessage_formatList (hworks : setup.context.Works) (hr : setup.reader.Strict)
    (hne : formats ≠ []) (hnul : NamesNulFree formats)
    (hnamed : ArrivesNamed state.caps.useLongFormatNames formats)
    (hmax : (formats.flatMap (wireFormat state.caps.useLongFormatNames)).length ≤ 4294967279)
    (hfilter : cliprdrFilterFormatList formats setup.context.featureMask remoteToLocal = formats)
    {request : FormatRequest}
    (hselect : selectFormat (storeFormats formats) formats = some request) :
    receiveMessage setup content state (packet cbFormatList 0
        (formats.flatMap (wireFormat state.caps.useLongFormatNames))) =
      some ⟨channelRcOk, [packet cbFormatDataRequest 0 (leUInt32 request.formatId)],
        { state with remote := ⟨request.formatId, request.formatName, storeFormats formats⟩ }⟩ := by
  have hread := receiveFormatList_eq hr hnul hnamed hmax
  rw [receiveFormatList_packet _ _ hmax] at hread
  rw [receiveMessage, readHeader_packet _ _ _ (by omega)]
  change cliprdrProcessFormatListMessage setup state _ _ = _
  rw [cliprdrProcessFormatListMessage, hread]
  simp only [cliprdrProcessFormatList, hfilter, if_neg hne, qfCliprdrServerFormatListCallBack,
    hselect, requestRemoteFormat,
    cliprdrClientFormatDataRequest_of_works hworks (remoteToLocal_of_filter hne hfilter),
    Option.map_some]

/-- A request is answered with the data. -/
theorem receiveMessage_formatDataRequest (hworks : setup.context.Works)
    (hmask : setup.context.featureMask &&& localToRemote ≠ 0) {mimeData : MimeData}
    (hcontent : content.mimeData = some mimeData) {formatId : UInt32} {answer : FormatDataAnswer}
    {response : FormatDataResponse}
    (hanswer : localFormatData setup.serialize setup.remoteFlags state.files mimeData formatId =
      some answer) (hresponse : answer.response = some response)
    (hlen : response.requestedFormatData.length ≤ 4294967279) :
    receiveMessage setup content state (packet cbFormatDataRequest 0 (leUInt32 formatId)) =
      some ⟨channelRcOk,
        [packet cbFormatDataResponse response.msgFlags response.requestedFormatData],
        { state with lastRequestedFormatId := formatId }⟩ := by
  have hid : uint32At (leUInt32 formatId) 0 = formatId := by
    rw [← List.append_nil (leUInt32 formatId), uint32At_zero]
  rw [receiveMessage, readHeader_packet _ _ _ (by simp)]
  change cliprdrProcessFormatDataRequest setup content state _ = _
  simp only [cliprdrProcessFormatDataRequest, length_leUInt32, lt_irrefl, if_false, if_neg hmask,
    hid, hcontent, qfCliprdrServerFormatDataRequestCallBack, hanswer, hresponse,
    cliprdrClientFormatDataResponse_eq hworks hmask hlen, Option.map_some]

/-- The data reaches the callback. -/
theorem receiveMessage_formatDataResponse
    (hmask : setup.context.featureMask &&& remoteToLocal ≠ 0) {response : FormatDataResponse}
    (hlen : response.requestedFormatData.length ≤ 4294967279) :
    receiveMessage setup content state
        (packet cbFormatDataResponse response.msgFlags response.requestedFormatData) =
      some ⟨channelRcOk, [], state.receive
        (qfCliprdrServerFormatDataResponseCallBack setup.parse state.remote response)⟩ := by
  have hdata : (UInt32.ofNat response.requestedFormatData.length).toNat =
      response.requestedFormatData.length :=
    UInt32.toNat_ofNat_of_lt' (by change _ < 4294967296; omega)
  rw [receiveMessage, readHeader_packet _ _ _ (by omega)]
  change some (cliprdrProcessFormatDataResponseMessage setup state _ _) = _
  simp only [cliprdrProcessFormatDataResponseMessage, hdata, lt_irrefl, if_false, List.take_length,
    cliprdrProcessFormatDataResponse, if_neg hmask, Handled.silent]

/-- The peer announces its new clipboard, and the client reads these formats and answers with
these packets. -/
def Announces (link : Link) (client peer : Client) (disk : FileNode) (mimeData : MimeData)
    (formats : List CliprdrFormat) (answers : List Bytes) : Prop :=
  ∃ peer' client' announced, clientStep link.peer peer (.dataChanged false disk mimeData) =
      some (peer', ⟨channelRcOk, [announced], none⟩) ∧
    receiveFormatList link.client.reader client.state.caps.useLongFormatNames announced =
      .ok formats ∧
    receiveAll link.client link.content client (link.wire.carry [announced]) =
      some (client', answers)

theorem carry_formatList (link : Link) {useLongFormatNames : Bool}
    (hmax : (formats.flatMap (wireFormat useLongFormatNames)).length ≤ 4294967279) :
    link.wire.carry [packet cbFormatList 0 (formats.flatMap (wireFormat useLongFormatNames))] =
      [packet cbFormatList 0 (formats.flatMap (wireFormat useLongFormatNames))] :=
  link.wire.carry_packet ⟨0, _, rfl, hmax⟩

/-- Formats that both masks let through and that arrive as they are, and the request they
lead to. -/
structure Arrives (link : Link) (client : Client) (formats : List CliprdrFormat)
    (request : FormatRequest) : Prop where
  ne_nil : formats ≠ []
  leaves : cliprdrFilterFormatList formats link.peer.context.featureMask localToRemote = formats
  enters : cliprdrFilterFormatList formats link.client.context.featureMask remoteToLocal = formats
  nulFree : NamesNulFree formats
  named : ArrivesNamed client.state.caps.useLongFormatNames formats
  short : (formats.flatMap (wireFormat client.state.caps.useLongFormatNames)).length ≤ 4294967279
  select : selectFormat (storeFormats formats) formats = some request

theorem Arrives.sent {request : FormatRequest} (ha : Arrives link client formats request)
    (h : Paired link client peer) {disk : FileNode} {mimeData : MimeData}
    {files : List ClipboardInfoFile}
    (hchanged : dataChangedCallback (captureUrls disk) true false peer.state.files mimeData =
      (files, some formats)) :
    clientStep link.peer peer (.dataChanged false disk mimeData) =
      some (⟨{ peer.state with
          files := files
          caps := { peer.state.caps with initialFormatListSent := true } }, true⟩,
        ⟨channelRcOk, [packet cbFormatList 0
          (formats.flatMap (wireFormat client.state.caps.useLongFormatNames))], none⟩) :=
  dataChanged_sends h hchanged ha.ne_nil ha.leaves ha.nulFree
    (cutsBetweenCharacters_of_arrivesNamed ha.named) ha.short

theorem Arrives.received {request : FormatRequest} (ha : Arrives link client formats request)
    (h : Paired link client peer) :
    receiveAll link.client link.content client
        [packet cbFormatList 0
          (formats.flatMap (wireFormat client.state.caps.useLongFormatNames))] =
      some (⟨{ client.state with
          remote := ⟨request.formatId, request.formatName, storeFormats formats⟩ }, true⟩,
        [packet cbFormatDataRequest 0 (leUInt32 request.formatId)]) :=
  receiveAll_message h.clientRunning
    (receiveMessage_formatList h.clientWorks h.reader ha.ne_nil ha.nulFree ha.named ha.short
      ha.enters ha.select)

/-- Formats that arrive as they are lead to a request. -/
theorem announces_request {request : FormatRequest} (ha : Arrives link client formats request)
    (h : Paired link client peer) {disk : FileNode} {mimeData : MimeData}
    {files : List ClipboardInfoFile}
    (hchanged : dataChangedCallback (captureUrls disk) true false peer.state.files mimeData =
      (files, some formats)) :
    Announces link client peer disk mimeData formats
      [packet cbFormatDataRequest 0 (leUInt32 request.formatId)] := by
  have hlist := ha.received h
  rw [← carry_formatList link ha.short] at hlist
  exact ⟨_, _, _, ha.sent h hchanged,
    receiveFormatList_eq h.reader ha.nulFree ha.named ha.short, hlist⟩

/-- The three packets of an exchange, and what is left at the client. -/
theorem pasteExchange_eq {request : FormatRequest} (ha : Arrives link client formats request)
    (h : Paired link client peer) {disk : FileNode} {mimeData : MimeData}
    {files : List ClipboardInfoFile} {answer : FormatDataAnswer} {response : FormatDataResponse}
    (hchanged : dataChangedCallback (captureUrls disk) true false peer.state.files mimeData =
      (files, some formats))
    (hcontent : link.content.mimeData = some mimeData)
    (hanswer : localFormatData link.peer.serialize link.peer.remoteFlags files mimeData
      request.formatId = some answer) (hresponse : answer.response = some response)
    (hlen : response.requestedFormatData.length ≤ 4294967279) :
    pasteExchange link client peer disk mimeData = some (
      ⟨ClipboardState.receive { client.state with
          remote := ⟨request.formatId, request.formatName, storeFormats formats⟩ }
        (qfCliprdrServerFormatDataResponseCallBack link.client.parse
          ⟨request.formatId, request.formatName, storeFormats formats⟩ response), true⟩,
      ⟨{ peer.state with
        files := files
        caps := { peer.state.caps with initialFormatListSent := true }
        lastRequestedFormatId := request.formatId }, true⟩) := by
  have hcarry (msgType msgFlags : UInt16) (body : Bytes) (hbody : body.length ≤ 4294967279) :
      link.wire.carry [packet msgType msgFlags body] = [packet msgType msgFlags body] :=
    link.wire.carry_packet ⟨msgFlags, body, rfl, by omega⟩
  have hlisted := ha.sent h hchanged
  have hlist := ha.received h
  have hrequest : receiveAll link.peer link.content ⟨{ peer.state with
        files := files
        caps := { peer.state.caps with initialFormatListSent := true } }, true⟩
      [packet cbFormatDataRequest 0 (leUInt32 request.formatId)] = some (⟨_, true⟩, _) :=
    receiveAll_message rfl (receiveMessage_formatDataRequest h.peerWorks
      (localToRemote_of_filter ha.ne_nil ha.leaves) hcontent hanswer hresponse hlen)
  have hreply : receiveAll link.client link.content ⟨{ client.state with
        remote := ⟨request.formatId, request.formatName, storeFormats formats⟩ }, true⟩
      [packet cbFormatDataResponse response.msgFlags response.requestedFormatData] =
      some (⟨_, true⟩, []) :=
    receiveAll_message rfl
      (receiveMessage_formatDataResponse (remoteToLocal_of_filter ha.ne_nil ha.enters) hlen)
  simp only [pasteExchange, hlisted, hcarry _ _ _ ha.short, hlist,
    hcarry cbFormatDataRequest 0 (leUInt32 request.formatId) (by simp), hrequest,
    hcarry _ _ _ hlen, hreply, Option.map_some]

structure Link.CarriesData (link : Link) : Prop where
  client : link.client.context.featureMask &&& cliprdrFlagRemoteToLocal ≠ 0
  peer : link.peer.context.featureMask &&& cliprdrFlagLocalToRemote ≠ 0

theorem Link.CarriesData.filter_client (h : link.CarriesData)
    (hnames : ∀ format ∈ formats, namesFiles format = false) :
    cliprdrFilterFormatList formats link.client.context.featureMask remoteToLocal = formats :=
  filter_data (i := 4) (j := 5) rfl rfl rfl rfl rfl h.client hnames

theorem Link.CarriesData.filter_peer (h : link.CarriesData)
    (hnames : ∀ format ∈ formats, namesFiles format = false) :
    cliprdrFilterFormatList formats link.peer.context.featureMask localToRemote = formats :=
  filter_data (i := 0) (j := 1) rfl rfl rfl rfl rfl h.peer hnames

theorem response_data {bytes : Bytes} (hlen : bytes.length ≤ 4294967279) :
    (FormatDataAnswer.data bytes).response = some ⟨cbResponseOk, bytes⟩ := by
  rw [FormatDataAnswer.response, Nat.mod_eq_of_lt (by omega), List.take_length]

/-- A clipboard content that is announced in these formats, asked for with this request and
answered with these bytes, which are not a list of files. -/
structure Offers (mimeData : MimeData) (formats : List CliprdrFormat) (request : FormatRequest)
    (bytes : Bytes) : Prop where
  changed : ∀ capture files, dataChangedCallback capture true false files mimeData =
    (files, some formats)
  ne_nil : formats ≠ []
  plain : ∀ format ∈ formats, namesFiles format = false
  nulFree : NamesNulFree formats
  named : ∀ useLongFormatNames, ArrivesNamed useLongFormatNames formats
  short : ∀ useLongFormatNames, (formats.flatMap (wireFormat useLongFormatNames)).length ≤
    4294967279
  select : selectFormat (storeFormats formats) formats = some request
  answer : ∀ serialize remoteFlags files,
    localFormatData serialize remoteFlags files mimeData request.formatId = some (.data bytes)
  fits : bytes.length ≤ 4294967279
  noFiles : request.formatName ≠ clipboardFormatFileName

theorem offers_image {mimeData : MimeData} (hurls : mimeData.hasUrls = false)
    (htext : mimeData.hasText = false) (himage : mimeData.hasImage = true)
    (hnull : mimeData.imageData.isNull = false) {png : Bytes}
    (hpng : mimeData.imageData.png = some png) (hlen : png.length ≤ 4294967279) :
    Offers mimeData [⟨clipboardFormatPng, some "PNG"⟩, ⟨cfDib, none⟩]
      ⟨clipboardFormatPng, "PNG"⟩ png where
  changed _ _ := by simp [dataChangedCallback, hurls, htext, himage]
  ne_nil := List.cons_ne_nil _ _
  plain := by decide
  nulFree := by decide
  named _ := by
    intro format hformat
    rcases List.mem_cons.mp hformat with rfl | hformat
    · exact ⟨by decide, by decide, fun _ => by decide⟩
    · rw [List.mem_singleton.mp hformat]
      exact ⟨by simp, by decide, fun _ => by decide⟩
  short useLongFormatNames := by cases useLongFormatNames <;> decide
  select := by decide
  answer _ _ _ := by
    have hencoded : imageAnswer mimeData.imageData mimeData.imageData.png = .data png := by
      simp only [imageAnswer, hnull, hpng, Bool.false_eq_true, if_false]
    rw [localFormatData, if_neg (fun hboth => absurd hboth.2 (by decide)),
      if_neg (fun hboth => absurd hboth.2 (by decide)), if_pos ⟨himage, rfl⟩, hencoded]
  fits := hlen
  noFiles := by decide

/-- What is offered is handed to the view. -/
theorem Offers.receive {mimeData : MimeData} {request : FormatRequest} {bytes : Bytes}
    (h : Offers mimeData formats request bytes) (state : ClipboardState)
    (parse : Bytes → Except UInt32 (List FileDescriptor)) (stored : UInt32 → Option String) :
    state.receive (qfCliprdrServerFormatDataResponseCallBack parse
        ⟨request.formatId, request.formatName, stored⟩ ⟨cbResponseOk, bytes⟩) =
      { state with queued := state.queued ++ [⟨bytes, request.formatId, request.formatName⟩] } := by
  rw [qfCliprdrServerFormatDataResponseCallBack, if_neg (not_not_intro rfl), if_neg h.noFiles]
  rfl

theorem Offers.receiveMessage_response {mimeData : MimeData} {request : FormatRequest}
    {bytes : Bytes} (h : Offers mimeData formats request bytes)
    (hmask : setup.context.featureMask &&& remoteToLocal ≠ 0) {stored : UInt32 → Option String}
    (hremote : state.remote = ⟨request.formatId, request.formatName, stored⟩) :
    receiveMessage setup content state (packet cbFormatDataResponse cbResponseOk bytes) =
      some ⟨channelRcOk, [], { state with
        queued := state.queued ++ [⟨bytes, request.formatId, request.formatName⟩] }⟩ := by
  have hfits : (FormatDataResponse.mk cbResponseOk bytes).requestedFormatData.length ≤
    4294967279 := h.fits
  have hreceive := @receiveMessage_formatDataResponse setup content state hmask
    ⟨cbResponseOk, bytes⟩ hfits
  rw [hremote, h.receive] at hreceive
  exact hreceive

theorem Offers.arrives {mimeData : MimeData} {request : FormatRequest} {bytes : Bytes}
    (h : Offers mimeData formats request bytes) (hdata : link.CarriesData) (client : Client) :
    Arrives link client formats request where
  ne_nil := h.ne_nil
  leaves := hdata.filter_peer h.plain
  enters := hdata.filter_client h.plain
  nulFree := h.nulFree
  named := h.named _
  short := h.short _
  select := h.select

theorem pasteExchange_offered (h : Paired link client peer) (hdata : link.CarriesData)
    (disk : FileNode) {mimeData : MimeData} {request : FormatRequest} {bytes : Bytes}
    (hoffers : Offers mimeData formats request bytes)
    (hcontent : link.content.mimeData = some mimeData) :
    ∃ client' peer', pasteExchange link client peer disk mimeData = some (client', peer') ∧
      client'.state.queued =
        client.state.queued ++ [⟨bytes, request.formatId, request.formatName⟩] := by
  have hrun := pasteExchange_eq (hoffers.arrives hdata client) h
    (hoffers.changed (captureUrls disk) peer.state.files) hcontent (hoffers.answer _ _ _)
    (response_data hoffers.fits) hoffers.fits
  rw [hoffers.receive] at hrun
  exact ⟨_, _, hrun, rfl⟩

def readyClient (useLongFormatNames : Bool) : Client where
  state := { ClipboardState.initial with
    caps := { ClipboardState.initial.caps with useLongFormatNames := useLongFormatNames }
    ready := true }
  running := true

/-- A link over which everything is allowed, and every packet is cut inside its header. -/
def openLink (mimeData : MimeData) (disk : Disk) : Link where
  client := .session 0xFFFFFFFF
  peer := .session 0xFFFFFFFF
  content := ⟨some mimeData, disk⟩
  wire := .split 5

theorem paired_openLink (mimeData : MimeData) (disk : Disk) (useLongFormatNames : Bool) :
    Paired (openLink mimeData disk) (readyClient useLongFormatNames)
      (readyClient useLongFormatNames) where
  clientWorks := ⟨fun _ => rfl, fun _ => rfl⟩
  peerWorks := ⟨fun _ => rfl, fun _ => rfl⟩
  clientRunning := rfl
  peerRunning := rfl
  peerReady := rfl
  names := rfl
  reader := NameReader.decoding_strict
  writer := NameWriter.encoding_faithful

/-- An image that is copied at the peer is handed to the view of the client as the PNG file
that the peer makes of it, for the decoder of PNG files. -/
theorem copied_image_pasted (link : Link) (client peer : Client) (h : Paired link client peer)
    (hdata : link.CarriesData) (disk : FileNode) (mimeData : MimeData)
    (hurls : mimeData.hasUrls = false) (htext : mimeData.hasText = false)
    (himage : mimeData.hasImage = true) (hnull : mimeData.imageData.isNull = false) (png : Bytes)
    (hpng : mimeData.imageData.png = some png) (hlen : png.length ≤ 4294967279)
    (hcontent : link.content.mimeData = some mimeData) :
    ∃ client' peer' update, pasteExchange link client peer disk mimeData = some (client', peer') ∧
      client'.state.queued = client.state.queued ++ [update] ∧ update.data = png ∧
      updateClipboardDataFromRemote update = some .png := by
  obtain ⟨client', peer', hrun, hqueued⟩ :=
    pasteExchange_offered h hdata disk (offers_image hurls htext himage hnull hpng hlen) hcontent
  exact ⟨client', peer', _, hrun, hqueued, rfl, rfl⟩

theorem copied_image_pasted_four_bytes :
    ∃ client' peer' update,
      pasteExchange (openLink ⟨false, [], true, ⟨false, none, some [137, 80, 78, 71]⟩, false, []⟩
          fun _ => none) (readyClient true) (readyClient true) .special
        ⟨false, [], true, ⟨false, none, some [137, 80, 78, 71]⟩, false, []⟩ =
          some (client', peer') ∧
      client'.state.queued = [update] ∧ update.data = [137, 80, 78, 71] ∧
      updateClipboardDataFromRemote update = some .png :=
  copied_image_pasted _ _ _ (paired_openLink _ _ true) ⟨by decide, by decide⟩ .special
    ⟨false, [], true, ⟨false, none, some [137, 80, 78, 71]⟩, false, []⟩ rfl rfl rfl rfl
    [137, 80, 78, 71] rfl (by decide) rfl

structure Link.CarriesFiles (link : Link) : Prop where
  client : link.client.context.featureMask &&& cliprdrFlagRemoteToLocalFiles ≠ 0
  peer : link.peer.context.featureMask &&& cliprdrFlagLocalToRemoteFiles ≠ 0

/-- The serialiser of the peer and the parser of the client fit, and the list of descriptors
of the files can be sent. -/
structure Link.Serialises (link : Link) (files : List ClipboardInfoFile) : Prop where
  parsesBack : ParsesBack link.peer.serialize link.client.parse
  sent : ∀ fds, files.mapM describeFile = some fds →
    ∃ bytes, link.peer.serialize (fileListFlags link.peer.remoteFlags) fds = (0, some bytes) ∧
      bytes.length ≤ 4294967279

theorem dataChanged_files {disk : FileNode} {mimeData : MimeData} {files : List ClipboardInfoFile}
    (before : List ClipboardInfoFile) (hurls : mimeData.hasUrls = true)
    (hfiles : captureUrls disk mimeData.urls = files) (hne : files ≠ []) :
    dataChangedCallback (captureUrls disk) true false before mimeData =
      (files, some [⟨clipboardFormatFile, some clipboardFormatFileName⟩]) := by
  simp [dataChangedCallback, hurls, hfiles, hne]

theorem length_fileFormat_le (useLongFormatNames : Bool) :
    ([⟨clipboardFormatFile, some clipboardFormatFileName⟩].flatMap
      (wireFormat useLongFormatNames)).length ≤ 4294967279 := by
  cases useLongFormatNames <;> decide

theorem Link.CarriesFiles.arrives (h : link.CarriesFiles)
    (hlong : client.state.caps.useLongFormatNames = true) :
    Arrives link client [⟨clipboardFormatFile, some clipboardFormatFileName⟩]
      ⟨clipboardFormatFile, clipboardFormatFileName⟩ where
  ne_nil := List.cons_ne_nil _ _
  leaves := filter_files rfl h.peer (by decide)
  enters := filter_files rfl h.client (by decide)
  nulFree := by decide
  named := by
    rw [hlong]
    exact List.forall_mem_singleton.mpr ⟨by decide, by decide, by decide⟩
  short := length_fileFormat_le _
  select := by decide

/-- Copied files are listed at the client, if the names of formats are long. -/
theorem pasteExchange_files (h : Paired link client peer) (hlink : link.CarriesFiles)
    {disk : FileNode} {mimeData : MimeData} {files : List ClipboardInfoFile}
    (hurls : mimeData.hasUrls = true) (hfiles : captureUrls disk mimeData.urls = files)
    (hne : files ≠ []) (hnames : ∀ file ∈ files, IsWireName file.displayName)
    (hserialise : link.Serialises files) (hcontent : link.content.mimeData = some mimeData)
    (hlong : client.state.caps.useLongFormatNames = true) :
    ∃ client' peer', pasteExchange link client peer disk mimeData = some (client', peer') ∧
      client'.running = true ∧ peer'.running = true ∧
      client'.state.fileLists = client.state.fileLists ++ [files.map receivedFile] ∧
      client'.state.slot = client.state.slot ∧ peer'.state.files = files := by
  have hchanged := dataChanged_files peer.state.files hurls hfiles hne
  obtain ⟨fds, hfds, hreceived⟩ := mapM_describeFile hnames
  obtain ⟨bytes, hbytes, hlen⟩ := hserialise.sent fds hfds
  have hanswer : localFormatData link.peer.serialize link.peer.remoteFlags files mimeData
      clipboardFormatFile = some (.fileList files bytes) := by
    have hlist : fileListAnswer link.peer.serialize link.peer.remoteFlags files =
        some (.fileList files bytes) := by
      unfold fileListAnswer
      rw [if_neg hne, hfds]
      simp only [hbytes]
      exact if_neg (not_or.mpr
        ⟨not_not_intro rfl, hserialise.parsesBack.ne_nil _ _ _ hbytes⟩)
    rw [localFormatData, if_neg (fun hboth => absurd hboth.2 (by decide)),
      if_neg (fun hboth => absurd hboth.2 (by decide)),
      if_neg (fun hboth => absurd hboth.2 (by decide)), if_pos ⟨hurls, rfl⟩, hlist]
  have hresponse : (FormatDataAnswer.fileList files bytes).response =
      some ⟨cbResponseOk, bytes⟩ := by
    rw [FormatDataAnswer.response, Nat.mod_eq_of_lt (by omega), List.take_length]
  have hrun := pasteExchange_eq (hlink.arrives hlong) h hchanged hcontent hanswer hresponse hlen
  have hlisted : qfCliprdrServerFormatDataResponseCallBack link.client.parse
      ⟨clipboardFormatFile, clipboardFormatFileName,
        storeFormats [⟨clipboardFormatFile, some clipboardFormatFileName⟩]⟩
      ⟨cbResponseOk, bytes⟩ = .fileList (.ok (files.map receivedFile)) := by
    rw [qfCliprdrServerFormatDataResponseCallBack, if_neg (not_not_intro rfl), if_pos rfl,
      hserialise.parsesBack.parse_serialize _ _ _ hbytes, ← hreceived]
    rfl
  rw [hlisted] at hrun
  exact ⟨_, _, hrun, rfl, rfl, rfl, rfl, rfl⟩

/-- A list whose only format has another name leads to no request. -/
theorem processFormatList_ignored (context : CliprdrPlugin) (remote : RemoteFormats)
    {format : CliprdrFormat} (h : selectFormat (storeFormats [format]) [format] = none) :
    ∃ remote', cliprdrProcessFormatList context remote [format] = some (remote', ⟨none, []⟩) := by
  have hsub := filter_sublist [format] context.featureMask remoteToLocal
  rw [cliprdrProcessFormatList]
  rcases List.sublist_singleton.mp hsub with hnil | hself
  · exact ⟨remote, if_pos hnil⟩
  · simp only [hself, List.cons_ne_nil, if_false, qfCliprdrServerFormatListCallBack, h]
    exact ⟨_, rfl⟩

/-- With short names the name of a file list is cut, and nothing is asked for. -/
theorem pasteExchange_files_short (h : Paired link client peer) (hlink : link.CarriesFiles)
    {disk : FileNode} {mimeData : MimeData} {files : List ClipboardInfoFile}
    (hurls : mimeData.hasUrls = true) (hfiles : captureUrls disk mimeData.urls = files)
    (hne : files ≠ []) (hshort : client.state.caps.useLongFormatNames = false) :
    Announces link client peer disk mimeData [⟨clipboardFormatFile, some "FileGroupDescri"⟩] [] ∧
      ∃ client' peer', pasteExchange link client peer disk mimeData = some (client', peer') ∧
        client'.state.fileLists = client.state.fileLists := by
  have hchanged := dataChanged_files peer.state.files hurls hfiles hne
  have hcut : CutsBetweenCharacters client.state.caps.useLongFormatNames
      [⟨clipboardFormatFile, some clipboardFormatFileName⟩] := fun _ => by decide
  have hmax := length_fileFormat_le client.state.caps.useLongFormatNames
  have hlisted := dataChanged_sends h hchanged (List.cons_ne_nil _ _)
    (filter_files rfl hlink.peer (by decide)) (by decide) hcut hmax
  have hread : receiveFormatList link.client.reader client.state.caps.useLongFormatNames
      (packet cbFormatList 0 ([⟨clipboardFormatFile, some clipboardFormatFileName⟩].flatMap
        (wireFormat client.state.caps.useLongFormatNames))) =
      .ok [⟨clipboardFormatFile, some "FileGroupDescri"⟩] := by
    rw [hshort, receiveFormatList_short h.reader (by decide) (by decide)]
    rfl
  have hcarry := carry_formatList link hmax
  have hselect : selectFormat (storeFormats [⟨clipboardFormatFile, some "FileGroupDescri"⟩])
      [⟨clipboardFormatFile, some "FileGroupDescri"⟩] = none := by decide
  obtain ⟨remote, hignored⟩ :=
    processFormatList_ignored link.client.context client.state.remote hselect
  have hlist : receiveAll link.client link.content client
      [packet cbFormatList 0 ([⟨clipboardFormatFile, some clipboardFormatFileName⟩].flatMap
        (wireFormat client.state.caps.useLongFormatNames))] =
      some (⟨{ client.state with remote := remote }, true⟩, []) := by
    have hprocess := hread
    rw [receiveFormatList_packet _ _ hmax] at hprocess
    apply receiveAll_message h.clientRunning
    rw [receiveMessage, readHeader_packet _ _ _ (by omega)]
    change cliprdrProcessFormatListMessage link.client client.state _ _ = _
    simp only [cliprdrProcessFormatListMessage, hprocess, hignored, Option.map_some]
  have hnothing : link.wire.carry [] = [] := link.wire.carry_eq (List.forall_mem_nil _)
  refine ⟨⟨_, _, _, hlisted, hread, by rw [hcarry, hlist]⟩, ?_⟩
  simp only [pasteExchange, hlisted, hcarry, hlist, hnothing, receiveAll, Option.map_some]
  exact ⟨_, _, rfl, rfl⟩

/-- Files that are copied at the peer are listed at the client, with their sizes, kinds and
names as far as descriptors hold them, if and only if the two use long names of formats: with
short names the client reads a name that is cut, and does not ask for the files. -/
theorem copied_files_pasted_iff (link : Link) (client peer : Client) (h : Paired link client peer)
    (hlink : link.CarriesFiles) (disk : FileNode) (mimeData : MimeData)
    (hurls : mimeData.hasUrls = true) (hne : captureUrls disk mimeData.urls ≠ [])
    (hnames : ∀ file ∈ captureUrls disk mimeData.urls, IsWireName file.displayName)
    (hserialise : link.Serialises (captureUrls disk mimeData.urls))
    (hcontent : link.content.mimeData = some mimeData) :
    ∃ client' peer', pasteExchange link client peer disk mimeData = some (client', peer') ∧
      (client'.state.fileLists = client.state.fileLists ++
        [(captureUrls disk mimeData.urls).map receivedFile] ↔
          client.state.caps.useLongFormatNames = true) ∧
      (client.state.caps.useLongFormatNames = true →
        Announces link client peer disk mimeData
          [⟨clipboardFormatFile, some clipboardFormatFileName⟩]
          [packet cbFormatDataRequest 0 (leUInt32 clipboardFormatFile)]) ∧
      (client.state.caps.useLongFormatNames = false →
        Announces link client peer disk mimeData
          [⟨clipboardFormatFile, some "FileGroupDescri"⟩] [] ∧
        client'.state.fileLists = client.state.fileLists) := by
  cases hlong : client.state.caps.useLongFormatNames with
  | true =>
      obtain ⟨client', peer', hrun, -, -, hlists, -⟩ :=
        pasteExchange_files h hlink hurls rfl hne hnames hserialise hcontent hlong
      have hasks := announces_request (hlink.arrives hlong) h
        (dataChanged_files peer.state.files hurls rfl hne)
      exact ⟨client', peer', hrun, iff_of_true hlists rfl, fun _ => hasks, by simp⟩
  | false =>
      obtain ⟨hignores, client', peer', hrun, hlists⟩ :=
        pasteExchange_files_short h hlink hurls rfl hne hlong
      refine ⟨client', peer', hrun, iff_of_false ?_ Bool.false_ne_true, by simp,
        fun _ => ⟨hignores, hlists⟩⟩
      rw [hlists]
      exact fun heq => absurd (congrArg List.length heq) (by simp)

theorem isPlain_letter (c : Char) (hc : c ∈ ['a', 'b', 'd']) : IsPlain (ofAscii c.toString) := by
  simp only [List.mem_cons, List.not_mem_nil, or_false] at hc
  rcases hc with rfl | rfl | rfl <;> exact ⟨by decide, by decide, by decide, by decide⟩

def diskOfDirectory : FileNode :=
  .directory 4096 [(⟨ofAscii "d", isPlain_letter 'd' (by decide)⟩, .directory 4096
    [(⟨ofAscii "a", isPlain_letter 'a' (by decide)⟩, .file 3),
      (⟨ofAscii "b", isPlain_letter 'b' (by decide)⟩, .file 5)])]

def directoryFiles : List ClipboardInfoFile :=
  [copiedDirectory, ⟨ofAscii "d\\a", ofAscii "/d/a", 3, false⟩,
    ⟨ofAscii "d\\b", ofAscii "/d/b", 5, false⟩]

theorem captureUrls_directory :
    captureUrls diskOfDirectory (copied copiedDirectory).urls = directoryFiles := by decide

theorem isWireName_directory : ∀ file ∈ directoryFiles, IsWireName file.displayName := by
  intro file hfile
  simp only [directoryFiles, List.mem_cons, List.not_mem_nil, or_false] at hfile
  rcases hfile with rfl | rfl | rfl <;> exact ⟨⟨by decide, by decide⟩, by decide⟩

theorem serialises_openLink (mimeData : MimeData) (disk : Disk) {files : List ClipboardInfoFile}
    (hnames : ∀ file ∈ files, IsWireName file.displayName)
    (hlength : 4 + 592 * files.length ≤ 4294967279) :
    (openLink mimeData disk).Serialises files where
  parsesBack := parsesBack_serializeFileListEx
  sent fds hfds := by
    obtain ⟨described, hdescribed, hreceived⟩ := mapM_describeFile hnames
    obtain rfl : described = fds := Option.some.inj (hdescribed.symm.trans hfds)
    have hcount := congrArg List.length hreceived
    rw [List.length_map, List.length_map] at hcount
    refine ⟨leUInt32 (UInt32.ofNat described.length) ++ described.flatMap packFileDescriptor,
      ?_, ?_⟩
    · have hserialize : (openLink mimeData disk).peer.serialize = serializeFileListEx := rfl
      have hflags : fileListFlags (openLink mimeData disk).peer.remoteFlags = 4 := rfl
      rw [hserialize, hflags, serializeFileListEx, if_pos (by omega), packFileList,
        if_neg (by decide)]
      rfl
    · rw [List.length_append, length_leUInt32, length_flatMap_of_length length_packFileDescriptor,
        hcount]
      omega

/-- A directory with two files is listed with long names, and not asked for with short ones. -/
theorem copied_files_pasted_directory :
    (∃ client' peer', pasteExchange (openLink (copied copiedDirectory) fun _ => none)
        (readyClient true) (readyClient true) diskOfDirectory (copied copiedDirectory) =
          some (client', peer') ∧
      client'.state.fileLists = [[⟨ofAscii "d", ofAscii "d", 0, true⟩,
        ⟨ofAscii "d\\a", ofAscii "d\\a", 3, false⟩, ⟨ofAscii "d\\b", ofAscii "d\\b", 5, false⟩]]) ∧
    Announces (openLink (copied copiedDirectory) fun _ => none) (readyClient false)
      (readyClient false) diskOfDirectory (copied copiedDirectory)
      [⟨clipboardFormatFile, some "FileGroupDescri"⟩] [] := by
  have hpasted := fun useLongFormatNames => copied_files_pasted_iff _ _ _
    (paired_openLink (copied copiedDirectory) (fun _ => none) useLongFormatNames)
    ⟨by decide, by decide⟩ diskOfDirectory (copied copiedDirectory) rfl
    (by rw [captureUrls_directory]; simp [directoryFiles])
    (by rw [captureUrls_directory]; exact isWireName_directory)
    (by rw [captureUrls_directory]; exact serialises_openLink _ _ isWireName_directory (by decide))
    rfl
  constructor
  · obtain ⟨client', peer', hrun, hlists, -⟩ := hpasted true
    refine ⟨client', peer', hrun, ?_⟩
    rw [hlists.mpr rfl, captureUrls_directory]
    rfl
  · obtain ⟨client', peer', -, -, -, hshort⟩ := hpasted false
    exact (hshort rfl).1

def wireDownloads (link : Link) (fuel : ℕ) : List RemoteFileJob → Client → Client → LocalFiles →
    Option (Client × Client × LocalFiles)
  | [], client, peer, files => some (client, peer, files)
  | job :: jobs, client, peer, files =>
      match wireDownload link job fuel ⟨client, peer, .querySize, files, []⟩ with
      | none => none
      | some r => wireDownloads link fuel jobs r.client r.peer r.files

def downloaded (contents : UInt32 → Bytes) (jobs : List RemoteFileJob) (files : LocalFiles) :
    LocalFiles :=
  jobs.foldl (fun files job => Function.update files job.localPath (some (contents job.listIndex)))
    files

theorem wireDownloads_eq (hlink : link.Usable) (hclient : client.running = true)
    (hpeer : peer.running = true) (hslot : client.state.slot.Open) {contents : UInt32 → Bytes}
    {jobs : List RemoteFileJob}
    (h : ∀ job ∈ jobs, ServesContent link.peer.context peer.state.files link.content.disk
      job.listIndex (contents job.listIndex))
    (hsize : ∀ job ∈ jobs, (contents job.listIndex).length < 2 ^ 32) (files : LocalFiles) :
    ∃ slot fuel, ∀ n, fuel ≤ n → wireDownloads link n jobs client peer files =
      some (client.withSlot slot, peer, downloaded contents jobs files) := by
  induction jobs generalizing client files with
  | nil => exact ⟨client.state.slot, 0, fun n hn => rfl⟩
  | cons job jobs ih =>
      obtain ⟨slot, requests, fuel, hopen, hrun⟩ := wireDownload_file hlink hclient hpeer hslot
        (h job List.mem_cons_self) (hsize job List.mem_cons_self) files
      have hrunning : (client.withSlot slot).running = true := hclient
      obtain ⟨slot', fuel', hrest⟩ := ih hrunning hopen
        (fun job hjob => h job (List.mem_cons_of_mem _ hjob))
        (fun job hjob => hsize job (List.mem_cons_of_mem _ hjob))
        (Function.update files job.localPath (some (contents job.listIndex)))
      refine ⟨slot', max fuel fuel', fun n hn => ?_⟩
      have hfirst := hrun n ((le_max_left _ _).trans hn)
      simp only [wireDownloads, hfirst]
      exact hrest n ((le_max_right _ _).trans hn)

/-- The peer has every captured file, with fewer than four gigabytes in each. -/
def Link.ServesFiles (link : Link) (captured : List ClipboardInfoFile)
    (contents : UInt32 → Bytes) : Prop :=
  ∀ i file, captured[i]? = some file → file.isDirectory = false →
    ServesContent link.peer.context captured link.content.disk (UInt32.ofNat i)
      (contents (UInt32.ofNat i)) ∧ (contents (UInt32.ofNat i)).length < 2 ^ 32

/-- The jobs of a list ask for files of it. -/
theorem listIndex_of_enqueued {io : EnqueueIo} {number : ℕ} {rootPath : QString}
    {captured : List ClipboardInfoFile} {job : RemoteFileJob}
    (h : job ∈ (enqueueEntries io number 0 (captured.map receivedFile) [] ⟨0, rootPath, []⟩).1) :
    ∃ i file, captured[i]? = some file ∧ file.isDirectory = false ∧
      job.listIndex = UInt32.ofNat i := by
  rw [(enqueueEntries_eq io number 0 (captured.map receivedFile) [] ⟨0, rootPath, []⟩).1,
    List.nil_append] at h
  obtain ⟨⟨received, i⟩, hentry, hjob⟩ := List.mem_filterMap.mp h
  obtain ⟨file, hfile, rfl⟩ : ∃ file, captured[i]? = some file ∧ receivedFile file = received := by
    have hreceived := List.mem_zipIdx_iff_getElem?.mp hentry
    rwa [List.getElem?_map, Option.map_eq_some_iff] at hreceived
  simp only [jobOf] at hjob
  split_ifs at hjob with hskip
  obtain rfl := Option.some.inj hjob
  have hdirectory : file.isDirectory = false := by
    cases hkind : file.isDirectory with
    | true => exact absurd (Or.inr (Or.inl hkind)) hskip
    | false => rfl
  exact ⟨i, file, hfile, hdirectory, rfl⟩

/-- A file that no job is for stays as it was. -/
theorem downloaded_of_ne {contents : UInt32 → Bytes} {jobs : List RemoteFileJob} {path : QString}
    (h : ∀ job ∈ jobs, job.localPath ≠ path) (files : LocalFiles) :
    downloaded contents jobs files path = files path := by
  induction jobs generalizing files with
  | nil => rfl
  | cons job jobs ih =>
      obtain ⟨hjob, hjobs⟩ := List.forall_mem_cons.mp h
      exact (ih hjobs _).trans (Function.update_of_ne hjob.symm _ _)

/-- The last job of a path decides what is there. -/
theorem downloaded_last {contents : UInt32 → Bytes} {before after : List RemoteFileJob}
    {job : RemoteFileJob} (h : ∀ later ∈ after, later.localPath ≠ job.localPath)
    (files : LocalFiles) :
    downloaded contents (before ++ job :: after) files job.localPath =
      some (contents job.listIndex) := by
  have hafter : downloaded contents after (Function.update (downloaded contents before files)
      job.localPath (some (contents job.listIndex))) job.localPath =
      some (contents job.listIndex) := by
    rw [downloaded_of_ne h, Function.update_self]
  rw [downloaded, List.foldl_append, List.foldl_cons]
  exact hafter

/-- From the copy at the peer to the files on the local disk: with long names of formats the
client is handed the list that the peer captured, and the jobs that it makes of this list
leave each of their paths with the content that the file of its last job has at the peer. -/
theorem copied_files_downloaded (link : Link) (client peer : Client) (h : Paired link client peer)
    (hlink : link.CarriesFiles) (disk : FileNode) (mimeData : MimeData)
    (hurls : mimeData.hasUrls = true) (hne : captureUrls disk mimeData.urls ≠ [])
    (hnames : ∀ file ∈ captureUrls disk mimeData.urls, IsWireName file.displayName)
    (hserialise : link.Serialises (captureUrls disk mimeData.urls))
    (hcontent : link.content.mimeData = some mimeData)
    (hlong : client.state.caps.useLongFormatNames = true) (hslot : client.state.slot.Open)
    (contents : UInt32 → Bytes)
    (hserves : link.ServesFiles (captureUrls disk mimeData.urls) contents)
    (io : EnqueueIo) (number : ℕ) (rootPath : QString) (files : LocalFiles) :
    ∃ client' peer' jobs client'' files' fuel,
      pasteExchange link client peer disk mimeData = some (client', peer') ∧
      client'.state.fileLists = client.state.fileLists ++
        [(captureUrls disk mimeData.urls).map receivedFile] ∧
      jobs = (enqueueEntries io number 0 ((captureUrls disk mimeData.urls).map receivedFile) []
        ⟨0, rootPath, []⟩).1 ∧
      (∀ n, fuel ≤ n → wireDownloads link n jobs client' peer' files =
        some (client'', peer', files')) ∧
      (∀ before job after, jobs = before ++ job :: after →
        (∀ later ∈ after, later.localPath ≠ job.localPath) →
          files' job.localPath = some (contents job.listIndex)) ∧
      ∀ path, (∀ job ∈ jobs, job.localPath ≠ path) → files' path = files path := by
  obtain ⟨client', peer', hrun, hclient, hpeer, hlists, hsame, hcaptured⟩ :=
    pasteExchange_files h hlink hurls rfl hne hnames hserialise hcontent hlong
  set captured := captureUrls disk mimeData.urls
  set jobs := (enqueueEntries io number 0 (captured.map receivedFile) [] ⟨0, rootPath, []⟩).1
  have hasked (job : RemoteFileJob) (hjob : job ∈ jobs) :
      ServesContent link.peer.context peer'.state.files link.content.disk job.listIndex
        (contents job.listIndex) ∧ (contents job.listIndex).length < 2 ^ 32 := by
    obtain ⟨i, file, hfile, hdirectory, hindex⟩ := listIndex_of_enqueued hjob
    rw [hcaptured, hindex]
    exact hserves i file hfile hdirectory
  rw [← hsame] at hslot
  obtain ⟨slot, fuel, hdownloads⟩ := wireDownloads_eq ⟨h.clientWorks, hlink.client, hlink.peer⟩
    hclient hpeer hslot (fun job hjob => (hasked job hjob).1) (fun job hjob => (hasked job hjob).2)
    files
  refine ⟨client', peer', jobs, client'.withSlot slot, downloaded contents jobs files, fuel, hrun,
    hlists, rfl, hdownloads, ?_, fun path hpath => downloaded_of_ne hpath files⟩
  intro before job after hjobs hlater
  rw [hjobs]
  exact downloaded_last hlater files

def directoryContents (i : UInt32) : Bytes := if i = 1 then [1, 2, 3] else [1, 2, 3, 4, 5]

def directoryDisk : Disk := fun path =>
  if path = ofAscii "/d/a" then some (.ofBytes (directoryContents 1))
  else if path = ofAscii "/d/b" then some (.ofBytes (directoryContents 2))
  else none

theorem servesFiles_directory :
    (openLink (copied copiedDirectory) directoryDisk).ServesFiles directoryFiles
      directoryContents := by
  intro i file hfile hdirectory
  match i with
  | 0 =>
      obtain rfl := Option.some.inj hfile
      cases hdirectory
  | 1 =>
      exact ⟨⟨⟨⟨fun _ => rfl, fun _ => rfl⟩, by decide⟩, ⟨_, rfl, rfl, rfl, rfl⟩, by decide⟩,
        by decide⟩
  | 2 =>
      exact ⟨⟨⟨⟨fun _ => rfl, fun _ => rfl⟩, by decide⟩, ⟨_, rfl, rfl, rfl, rfl⟩, by decide⟩,
        by decide⟩
  | n + 3 => simp [directoryFiles] at hfile

/-- Both files of a directory arrive below the root. -/
theorem copied_files_downloaded_directory :
    ∃ client' peer' jobs client'' files' fuel,
      pasteExchange (openLink (copied copiedDirectory) directoryDisk) (readyClient true)
        (readyClient true) diskOfDirectory (copied copiedDirectory) = some (client', peer') ∧
      (∀ n, fuel ≤ n → wireDownloads (openLink (copied copiedDirectory) directoryDisk) n jobs
        client' peer' (fun _ => none) = some (client'', peer', files')) ∧
      files' (ofAscii "/t/d/a") = some [1, 2, 3] ∧
      files' (ofAscii "/t/d/b") = some [1, 2, 3, 4, 5] := by
  obtain ⟨client', peer', jobs, client'', files', fuel, hrun, -, hjobs, hdownloads, hlast, -⟩ :=
    copied_files_downloaded _ _ _ (paired_openLink (copied copiedDirectory) directoryDisk true)
      ⟨by decide, by decide⟩ diskOfDirectory (copied copiedDirectory) rfl
      (by rw [captureUrls_directory]; simp [directoryFiles])
      (by rw [captureUrls_directory]; exact isWireName_directory)
      (by
        rw [captureUrls_directory]
        exact serialises_openLink _ _ isWireName_directory (by decide))
      rfl rfl ⟨rfl, rfl⟩ directoryContents
      (by rw [captureUrls_directory]; exact servesFiles_directory) ⟨true, []⟩ 0 (ofAscii "/t")
      (fun _ => none)
  rw [captureUrls_directory] at hjobs
  have htwo : (enqueueEntries ⟨true, []⟩ 0 0 (directoryFiles.map receivedFile) []
      ⟨0, ofAscii "/t", []⟩).1 =
      [⟨1, ofAscii "d\\a", ofAscii "/t/d/a", 0⟩, ⟨2, ofAscii "d\\b", ofAscii "/t/d/b", 0⟩] := by
    decide
  rw [htwo] at hjobs
  exact ⟨client', peer', jobs, client'', files', fuel, hrun, hdownloads,
    hlast [] _ [_] hjobs (by decide), hlast [_] _ [] hjobs (by simp)⟩

end QfClient
