import QfClient.FileListWire
import QfClient.Lockstep
import QfClient.SentPackets

/-!
# The clipboard client

Three threads of the client take turns: the channel thread handles the messages of the
server until one fails, the view reacts to changes of the local clipboard, and the file
worker sends requests and waits for the slot. `clientStep` lets the turns come in any
order. A failed assertion stops the program, so it is no step.
-/

namespace QfClient

open LittleEndian Machine WinPR

inductive WorkerTurn where
  | arm (kind : RemoteRequestKind)
  | reset
  | wait
  | stop

def WorkerTurn.input : WorkerTurn → SlotInput
  | .arm kind => .arm kind
  | .reset => .reset
  | .wait => .wait
  | .stop => .stop

/-- `running` says that the channel thread has not returned. -/
structure Client where
  state : ClipboardState
  running : Bool

def Client.initial : Client := ⟨.initial, true⟩

/-- A message comes with the local clipboard and the disk as they are then; a change of
the local clipboard with `m_clipboardDataFromRemote`, the disk and the new content. -/
inductive ClientInput where
  | message (bytes : Bytes) (content : LocalContent)
  | dataChanged (fromRemote : Bool) (disk : FileNode) (mimeData : MimeData)
  | send (request : FileContentsRequest)
  | worker (turn : WorkerTurn)

structure ClientOutput where
  rc : UInt32
  packets : List Bytes
  slot : Option SlotOutput

abbrev ClientTrace := Trace ClientInput ClientOutput

/-- `dataChangedCallback` and the call of `ClientFormatList` in it. -/
def ClipboardState.dataChanged (setup : ClipboardSetup) (state : ClipboardState)
    (fromRemote : Bool) (disk : FileNode) (mimeData : MimeData) : Option Handled :=
  let changed := dataChangedCallback (captureUrls disk) state.ready fromRemote state.files mimeData
  match changed.2 with
  | none => some ⟨channelRcOk, [], { state with files := changed.1 }⟩
  | some formats =>
      let sent := cliprdrClientFormatList setup.context setup.writer state.caps formats
      sent.2.map fun outcome =>
        ⟨outcome.1, outcome.2, { state with files := changed.1, caps := sent.1 }⟩

def slotAnswer (pending : RemotePendingResponse) (bytes : Bytes) : Option SlotOutput :=
  (receiveFileContentsResponse bytes).map fun response => .responded (pending.expects response)

def Client.withSlot (s : Client) (slot : RemoteSlot) : Client :=
  { s with state := { s.state with slot := slot } }

def clientStep (setup : ClipboardSetup) : Step Client ClientInput ClientOutput
  | s, .message bytes content =>
      if s.running then
        (receiveMessage setup content s.state bytes).map fun r =>
          (⟨r.state, r.rc = channelRcOk⟩,
            ⟨r.rc, r.packets, slotAnswer s.state.slot.pending bytes⟩)
      else none
  | s, .dataChanged fromRemote disk mimeData =>
      (s.state.dataChanged setup fromRemote disk mimeData).map fun r =>
        ({ s with state := r.state }, ⟨r.rc, r.packets, none⟩)
  | s, .send request =>
      if s.state.slot.pc = .armed request.streamId then
        match cliprdrClientFileContentsRequest (setup.context.agreed s.state.caps) request with
        | none => none
        | some outcome =>
            (slotStep s.state.slot (.send outcome.1)).map fun r =>
              (s.withSlot r.1, ⟨outcome.1, outcome.2, some r.2⟩)
      else none
  | s, .worker turn =>
      (slotStep s.state.slot turn.input).map fun r =>
        (s.withSlot r.1, ⟨channelRcOk, [], some r.2⟩)

variable {setup : ClipboardSetup} {s s' : Client} {i : ClientInput} {o : ClientOutput}
  {t : ClientTrace}

inductive ClientStep (setup : ClipboardSetup) (s : Client) :
    ClientInput → ClientOutput → Client → Prop
  | message {bytes : Bytes} {content : LocalContent} {r : Handled} : s.running = true →
      receiveMessage setup content s.state bytes = some r →
      ClientStep setup s (.message bytes content)
        ⟨r.rc, r.packets, slotAnswer s.state.slot.pending bytes⟩ ⟨r.state, r.rc = channelRcOk⟩
  | dataChanged {fromRemote : Bool} {disk : FileNode} {mimeData : MimeData} {r : Handled} :
      s.state.dataChanged setup fromRemote disk mimeData = some r →
      ClientStep setup s (.dataChanged fromRemote disk mimeData) ⟨r.rc, r.packets, none⟩
        { s with state := r.state }
  | send {request : FileContentsRequest} {rc : UInt32} {packets : List Bytes} {slot : RemoteSlot}
      {out : SlotOutput} : s.state.slot.pc = .armed request.streamId →
      cliprdrClientFileContentsRequest (setup.context.agreed s.state.caps) request =
        some (rc, packets) →
      slotStep s.state.slot (.send rc) = some (slot, out) →
      ClientStep setup s (.send request) ⟨rc, packets, some out⟩ (s.withSlot slot)
  | worker {turn : WorkerTurn} {slot : RemoteSlot} {out : SlotOutput} :
      slotStep s.state.slot turn.input = some (slot, out) →
      ClientStep setup s (.worker turn) ⟨channelRcOk, [], some out⟩ (s.withSlot slot)

theorem clientStep_cases (h : clientStep setup s i = some (s', o)) :
    ClientStep setup s i o s' := by
  cases i with
  | message bytes content =>
      simp only [clientStep] at h
      split_ifs at h with hrunning
      obtain ⟨r, hreceive, hr⟩ := Option.map_eq_some_iff.mp h
      obtain ⟨rfl, rfl⟩ := Prod.mk.inj hr
      exact .message hrunning hreceive
  | dataChanged fromRemote disk mimeData =>
      obtain ⟨r, hchanged, hr⟩ := Option.map_eq_some_iff.mp h
      obtain ⟨rfl, rfl⟩ := Prod.mk.inj hr
      exact .dataChanged hchanged
  | send request =>
      simp only [clientStep] at h
      split_ifs at h with hpc
      cases hsent : cliprdrClientFileContentsRequest (setup.context.agreed s.state.caps)
          request with
      | none => simp [hsent] at h
      | some outcome =>
          simp only [hsent] at h
          obtain ⟨r, hslot, hr⟩ := Option.map_eq_some_iff.mp h
          obtain ⟨rfl, rfl⟩ := Prod.mk.inj hr
          exact .send hpc hsent hslot
  | worker turn =>
      obtain ⟨r, hslot, hr⟩ := Option.map_eq_some_iff.mp h
      obtain ⟨rfl, rfl⟩ := Prod.mk.inj hr
      exact .worker hslot

def sentPackets (t : ClientTrace) : List Bytes := t.flatMap fun e => e.2.packets

def ClientInput.allowed : ClientInput → List UInt16
  | .message bytes _ => replyTypes (messageType bytes)
  | .dataChanged _ _ _ => [cbFormatList]
  | .send _ => [cbFileContentsRequest]
  | .worker _ => []

def allowedTypes (t : ClientTrace) : List UInt16 := t.flatMap fun e => e.1.allowed

theorem sendsAmong_dataChanged {state : ClipboardState} {fromRemote : Bool} {disk : FileNode}
    {mimeData : MimeData} {r : Handled}
    (h : state.dataChanged setup fromRemote disk mimeData = some r) :
    SendsAmong [cbFormatList] r.packets := by
  simp only [ClipboardState.dataChanged] at h
  split at h
  · obtain rfl := Option.some.inj h
    exact sendsAmong_nil _
  · obtain ⟨outcome, hsent, rfl⟩ := Option.map_eq_some_iff.mp h
    exact outcomeAmong_clientFormatList _ _ outcome.1 outcome.2 hsent

theorem clientStep_packets (h : clientStep setup s i = some (s', o)) :
    SendsAmong i.allowed o.packets := by
  cases clientStep_cases h with
  | message _ hreceive => exact receiveMessage_packets hreceive
  | dataChanged hchanged => exact sendsAmong_dataChanged hchanged
  | send _ hsent _ => exact outcomeAmong_clientFileContentsRequest _ _ _ hsent
  | worker _ => exact sendsAmong_nil _

theorem sentPackets_among (h : Execution (clientStep setup) s t s') :
    SendsAmong (allowedTypes t) (sentPackets t) := by
  induction h with
  | nil => exact sendsAmong_nil _
  | @snoc t s₁ s₂ i o _ hs ih =>
      rw [allowedTypes, sentPackets, List.flatMap_append, List.flatMap_append,
        List.flatMap_singleton, List.flatMap_singleton]
      exact ih.append (clientStep_packets hs)

def clientTypes : List UInt16 :=
  [cbFormatList, cbFormatDataRequest, cbFormatDataResponse, cbClipCaps, cbFileContentsRequest,
    cbFileContentsResponse]

theorem replyTypes_subset (type : Option MessageType) : replyTypes type ⊆ clientTypes := by
  cases type with
  | none => exact List.nil_subset _
  | some type => cases type <;> decide

theorem allowed_subset (i : ClientInput) : i.allowed ⊆ clientTypes := by
  cases i with
  | message bytes content => exact replyTypes_subset _
  | dataChanged fromRemote disk mimeData => exact List.cons_subset.mpr ⟨by decide, by simp⟩
  | send request => exact List.cons_subset.mpr ⟨by decide, by simp⟩
  | worker turn => exact List.nil_subset _

/-- Every packet of a run is well formed, and of no type more go out than the turns so far
allow: no answer comes without its request. Locks, temporary directories and the response
to a format list never go out. -/
theorem sent_packets_allowed (setup : ClipboardSetup) (s s' : Client) (t : ClientTrace)
    (h : Execution (clientStep setup) s t s') :
    (∀ bytes ∈ sentPackets t, ∃ header body, readHeader bytes = some (header, body) ∧
      header.dataLen.toNat = body.length ∧ header.msgType ∈ clientTypes) ∧
    ∀ msgType, ((sentPackets t).map (uint16At · 0)).count msgType ≤
      (allowedTypes t).count msgType := by
  obtain ⟨types, htypes, hpackets⟩ := sentPackets_among h
  constructor
  · intro bytes hbytes
    obtain ⟨msgType, hmsgType, hpacket⟩ := exists_isPacket_of_mem hpackets hbytes
    obtain ⟨header, body, hread, htype, hlen⟩ := hpacket.readHeader
    refine ⟨header, body, hread, hlen, ?_⟩
    obtain ⟨e, -, hallowed⟩ := List.mem_flatMap.mp (htypes.subset hmsgType)
    rw [htype]
    exact allowed_subset e.1 hallowed
  · intro msgType
    rw [map_type_of_isPacket hpackets]
    exact htypes.count_le msgType

/-- A session with a mask, over a transport that works. -/
def ClipboardSetup.session (featureMask : UInt32) : ClipboardSetup where
  context := { CliprdrPlugin.permissive with featureMask := featureMask }
  reader := .decoding
  writer := .encoding
  serialize := serializeFileListEx
  parse := parseFileList
  remoteFlags := some 0
  serverLockClipboardData _ := channelRcOk
  serverUnlockClipboardData _ := channelRcOk

/-- The text is copied and asked for, and then a file of the server is asked for. -/
def textSession (text : QString) : List ClientInput :=
  [.message (packet cbMonitorReady 0 []) ⟨none, fun _ => none⟩,
    .dataChanged false .special (copiedText text),
    .message (packet cbFormatDataRequest 0 (leUInt32 cfUnicodeText))
      ⟨some (copiedText text), fun _ => none⟩,
    .worker (.arm .size), .send ⟨1, 0, 1, 0, 0, 8, none⟩,
    .message (fileContentsResponsePacket cbResponseOk 1 [3, 0, 0, 0, 0, 0, 0, 0])
      ⟨none, fun _ => none⟩,
    .worker .wait]

theorem text_session_allowed :
    ∃ s t, Execution (clientStep (.session 0xFFFFFFFF)) .initial t s ∧
      (sentPackets t).length = 5 ∧
      ∀ msgType, ((sentPackets t).map (uint16At · 0)).count msgType ≤
        (allowedTypes t).count msgType := by
  have hrun : ∃ s t, run (clientStep (.session 0xFFFFFFFF)) .initial (textSession [0x61]) =
      some (s, t) ∧ (sentPackets t).length = 5 := ⟨_, _, rfl, rfl⟩
  obtain ⟨s, t, hrun, hlength⟩ := hrun
  have h := Execution.of_run hrun
  exact ⟨s, t, h, hlength, (sent_packets_allowed _ _ _ _ h).2⟩

end QfClient
