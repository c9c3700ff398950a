import QfClient.CapturedFiles
import QfClient.FormatListWriter
import QfClient.MessageLoop
import QfClient.Slot

/-!
# The clipboard messages

`cliprdr_order_recv` hands each message to the function of its type. The functions
share the plugin, the client and the slot of the file worker, which together are the
`ClipboardState`; what Qt finds in the local clipboard and on the disk at that moment
is the `LocalContent`. A result has the return code and the packets that were sent.
-/

namespace QfClient

open LittleEndian WinPR

def cbMonitorReady : UInt16 := 1
def cbFormatListResponse : UInt16 := 3
def cbLockClipData : UInt16 := 10
def cbUnlockClipData : UInt16 := 11

inductive MessageType where
  | monitorReady
  | formatList
  | formatListResponse
  | formatDataRequest
  | formatDataResponse
  | clipCaps
  | fileContentsRequest
  | fileContentsResponse
  | lockClipData
  | unlockClipData
  deriving DecidableEq, Repr

namespace MessageType

/-- The cases of the switch; `none` is its default. -/
def ofCode (code : UInt16) : Option MessageType :=
  if code = cbMonitorReady then some .monitorReady
  else if code = cbFormatList then some .formatList
  else if code = cbFormatListResponse then some .formatListResponse
  else if code = cbFormatDataRequest then some .formatDataRequest
  else if code = cbFormatDataResponse then some .formatDataResponse
  else if code = cbClipCaps then some .clipCaps
  else if code = cbFileContentsRequest then some .fileContentsRequest
  else if code = cbFileContentsResponse then some .fileContentsResponse
  else if code = cbLockClipData then some .lockClipData
  else if code = cbUnlockClipData then some .unlockClipData
  else none

end MessageType

/-- What does not change in a session: the plugin with its settings and its transport,
the converters of names, the two functions for file lists, the flags of the file context,
and the callbacks of the file context for locks, of which only the return code matters. -/
structure ClipboardSetup where
  context : CliprdrPlugin
  reader : NameReader
  writer : NameWriter
  serialize : SerializeFileList
  parse : Bytes → Except UInt32 (List FileDescriptor)
  remoteFlags : Option UInt32
  serverLockClipboardData : UInt32 → UInt32
  serverUnlockClipboardData : UInt32 → UInt32

/-- `queued` are the calls of `updateClipboardDataFromRemote` queued so far, `fileLists` the
lists handed to `enqueue_remote_file_list` so far, `files` is `clipboard_info_files_`, and
`ready` says that `cliprdr_client_context_` is set. -/
structure ClipboardState where
  caps : CliprdrCapabilities
  remote : RemoteFormats
  lastRequestedFormatId : UInt32
  queued : List RemoteUpdate
  fileLists : List (List ClipboardInfoFile)
  slot : RemoteSlot
  files : List ClipboardInfoFile
  ready : Bool

def ClipboardState.initial : ClipboardState where
  caps := ⟨false, false, false, false, false, false, false⟩
  remote := .initial
  lastRequestedFormatId := 0
  queued := []
  fileLists := []
  slot := .initial
  files := []
  ready := false

structure LocalContent where
  mimeData : Option MimeData
  disk : Disk

structure Handled where
  rc : UInt32
  packets : List Bytes
  state : ClipboardState

def Handled.silent (rc : UInt32) (state : ClipboardState) : Handled := ⟨rc, [], state⟩

variable (setup : ClipboardSetup) (content : LocalContent) (state : ClipboardState)

/-- The loop over the capability sets; `bytes` is what remains of the stream. -/
def processCapabilitySets : ℕ → CliprdrCapabilities → Bytes → UInt32 × CliprdrCapabilities
  | 0, caps, _ => (channelRcOk, caps)
  | cCapabilitiesSets + 1, caps, bytes =>
      if bytes.length < 4 then (errorInvalidData, caps)
      else
        let capabilitySetType := uint16At bytes 0
        let lengthCapability := uint16At bytes 2
        let bytes := bytes.drop 4
        if lengthCapability < 4 ∨ bytes.length < (lengthCapability - 4).toNat then
          (errorInvalidData, caps)
        else if capabilitySetType = cbCapsTypeGeneral then
          if bytes.length < 8 then (errorInvalidData, caps)
          else
            processCapabilitySets cCapabilitiesSets
              (caps.processGeneralCapability (uint32At bytes 4)) (bytes.drop 8)
        else (channelRcBadProc, caps)

def cliprdrProcessClipCaps (body : Bytes) : Handled :=
  if body.length < 4 then .silent errorInvalidData state
  else
    let r := processCapabilitySets (uint16At body 0).toNat state.caps (body.drop 4)
    .silent r.1 { state with caps := r.2 }

def cliprdrProcessMonitorReady : Option Handled :=
  let r := qfCliprdrMonitorReadyCallback setup.context state.caps.processMonitorReady
  r.2.map fun outcome => ⟨outcome.1, outcome.2, { state with caps := r.1, ready := true }⟩

def cliprdrProcessFormatListMessage (header : ClipboardHeader) (body : Bytes) : Option Handled :=
  match cliprdrReadFormatList setup.reader header state.caps.useLongFormatNames body with
  | .error error => some (.silent error state)
  | .ok formats =>
      (cliprdrProcessFormatList setup.context state.remote formats).map fun r =>
        ⟨channelRcOk, r.2.packets, { state with remote := r.1 }⟩

def cliprdrProcessFormatDataRequest (body : Bytes) : Option Handled :=
  if body.length < 4 then some (.silent errorInvalidData state)
  else if setup.context.featureMask &&& localToRemote = 0 then
    (cliprdrSendErrorResponse setup.context cbFormatDataResponse).map fun r =>
      ⟨r.1, r.2, state⟩
  else
    let requestedFormatId := uint32At body 0
    (qfCliprdrServerFormatDataRequestCallBack setup.context setup.serialize setup.remoteFlags
      state.files content.mimeData requestedFormatId).map fun r =>
        ⟨channelRcOk, r.2, { state with lastRequestedFormatId := requestedFormatId }⟩

def ClipboardState.receive : ResponseEffect → ClipboardState
  | .ignored => state
  | .fileList (.error _) => state
  | .fileList (.ok files) => { state with fileLists := state.fileLists ++ [files] }
  | .queued update => { state with queued := state.queued ++ [update] }

def cliprdrProcessFormatDataResponseMessage (header : ClipboardHeader) (body : Bytes) : Handled :=
  if body.length < header.dataLen.toNat then .silent errorInvalidData state
  else
    .silent channelRcOk
      (state.receive (cliprdrProcessFormatDataResponse setup.context setup.parse state.remote
        ⟨header.msgFlags, body.take header.dataLen.toNat⟩))

def cliprdrProcessFileContentsRequestMessage (body : Bytes) : Option Handled :=
  (cliprdrProcessFileContentsRequest setup.context
    (serverFileContentsRequest (some setup.context) (some state.files) content.disk) body).map
      fun r => ⟨r.1, r.2, state⟩

def cliprdrProcessFileContentsResponse (header : ClipboardHeader) (body : Bytes) : Handled :=
  match cliprdrReadFileContentsResponse header body with
  | .error error => .silent error state
  | .ok response =>
      let r := serverFileContentsResponse true (some response) state.slot.pending
      .silent r.1 { state with slot := { state.slot with pending := r.2 } }

/-- `cliprdr_process_lock_clipdata` and `cliprdr_process_unlock_clipdata`. -/
def cliprdrProcessClipData (callback : UInt32 → UInt32) (body : Bytes) : Handled :=
  if body.length < 4 then .silent errorInvalidData state
  else .silent (callback (uint32At body 0)) state

def processMessage (header : ClipboardHeader) (body : Bytes) : Option Handled :=
  match MessageType.ofCode header.msgType with
  | some .clipCaps => some (cliprdrProcessClipCaps state body)
  | some .monitorReady => cliprdrProcessMonitorReady setup state
  | some .formatList => cliprdrProcessFormatListMessage setup state header body
  | some .formatListResponse => some (.silent channelRcOk state)
  | some .formatDataRequest => cliprdrProcessFormatDataRequest setup content state body
  | some .formatDataResponse =>
      some (cliprdrProcessFormatDataResponseMessage setup state header body)
  | some .fileContentsRequest => cliprdrProcessFileContentsRequestMessage setup content state body
  | some .fileContentsResponse => some (cliprdrProcessFileContentsResponse state header body)
  | some .lockClipData => some (cliprdrProcessClipData state setup.serverLockClipboardData body)
  | some .unlockClipData =>
      some (cliprdrProcessClipData state setup.serverUnlockClipboardData body)
  | none => some (.silent channelRcBadProc state)

/-- `cliprdr_order_recv` on a message of the server. -/
def receiveMessage (bytes : Bytes) : Option Handled :=
  match readHeader bytes with
  | none => some (.silent errorInvalidData state)
  | some (header, body) => processMessage setup content state header body

/-- The functions of the other message types, as the message loop takes them. -/
def processOther : ProcessOther ClipboardState := fun session header body =>
  (processMessage setup content session.others header body).map fun r =>
    (r.rc, { session with sent := session.sent ++ r.packets, others := r.state })

/-- In the message loop every message is handled as here. -/
theorem cliprdrOrderRecv_eq_receiveMessage (session : Session ClipboardState) (s : WStream) :
    cliprdrOrderRecv setup.context (processOther setup content)
        (fun _ => (session.others.files, content.disk)) session s =
      (receiveMessage setup content session.others s.unread).map fun r =>
        (r.rc, ⟨session.handled + 1, session.sent ++ r.packets, r.state⟩) := by
  rw [cliprdrOrderRecv, receiveMessage]
  cases hheader : readHeader s.unread with
  | none => rfl
  | some message =>
      obtain ⟨header, body⟩ := message
      simp only
      by_cases htype : header.msgType = cbFileContentsRequest
      · have hcode : MessageType.ofCode header.msgType = some .fileContentsRequest := by
          rw [htype]
          rfl
        rw [if_pos htype, processMessage, hcode]
        simp only [cliprdrProcessFileContentsRequestMessage, Option.map_map]
        rfl
      · rw [if_neg htype, processOther, Option.map_map]
        rfl

end QfClient
