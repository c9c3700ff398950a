import QfClient.FileDescriptor
import QfClient.Machine
import QfClient.Packet

/-!
# Formats of the remote clipboard

A Format List of the server passes the feature mask, and one of its formats is
requested. `client_t` keeps the id and the name of that request, and the Format
Data Response that comes later is decoded by them: a file list at once, anything
else in a call that is queued at the view. `formatStep` lets the lists, the
responses and the queued calls come in any order. Which request a response
answers is known to the server alone; the session records it next to what the
client sees.
-/

namespace QfClient

open LittleEndian Machine WinPR

def cbFormatDataRequest : UInt16 := 4

def cfDib : UInt32 := 8
def cfUnicodeText : UInt32 := 13
def cfDibV5 : UInt32 := 17

def clipboardFormatFileName : String := "FileGroupDescriptorW"

def cliprdrFlagLocalToRemote : UInt32 := 0x01
def cliprdrFlagRemoteToLocal : UInt32 := 0x10
def cliprdrFlagRemoteToLocalFiles : UInt32 := 0x20

/-- `CLIPRDR_FORMAT`; `formatName` may be a null pointer. -/
structure CliprdrFormat where
  formatId : UInt32
  formatName : Option String
  deriving DecidableEq, Repr

/-- A Format Data Request, with the name that the client keeps to itself. -/
structure FormatRequest where
  formatId : UInt32
  formatName : String
  deriving DecidableEq, Repr

structure FormatDataResponse where
  msgFlags : UInt16
  requestedFormatData : Bytes
  deriving DecidableEq, Repr

/-- What `client_t` knows about the clipboard of the server. -/
structure RemoteFormats where
  requestedRemoteFormatId : UInt32
  requestedRemoteFormatName : String
  clipboardFormatFromRemote : UInt32 → Option String

def RemoteFormats.initial : RemoteFormats where
  requestedRemoteFormatId := 0
  requestedRemoteFormatName := ""
  clipboardFormatFromRemote _ := none

def RemoteFormats.requested (client : RemoteFormats) : FormatRequest :=
  ⟨client.requestedRemoteFormatId, client.requestedRemoteFormatName⟩

def namesFiles (format : CliprdrFormat) : Bool :=
  format.formatName = some clipboardFormatFileName || format.formatName = some "FileContents"

def cliprdrFilterFormatList (list : List CliprdrFormat) (mask checkMask : UInt32) :
    List CliprdrFormat :=
  let maskData := checkMask &&& (cliprdrFlagLocalToRemote ||| cliprdrFlagRemoteToLocal)
  let maskFiles := checkMask &&& (cliprdrFlagLocalToRemoteFiles ||| cliprdrFlagRemoteToLocalFiles)
  if mask &&& checkMask = checkMask then list
  else if mask &&& maskFiles ≠ 0 then list.filter namesFiles
  else if mask &&& maskData ≠ 0 then list.filter (fun format => !namesFiles format)
  else []

def remoteToLocal : UInt32 := cliprdrFlagRemoteToLocal ||| cliprdrFlagRemoteToLocalFiles

def cliprdrClientFormatDataRequest (context : CliprdrPlugin) (requestedFormatId : UInt32) :
    Outcome :=
  if context.featureMask &&& remoteToLocal = 0 then some (channelRcOk, [])
  else
    match cliprdrPacketNew context cbFormatDataRequest 0 4 with
    | none => none
    | some none => some (errorInternalError, [])
    | some (some s) =>
        match s.write? (leUInt32 requestedFormatId) with
        | none => none
        | some s => cliprdrPacketSend context s

/-- The map after the loop over the formats: the last name of an id counts. -/
def storeFormats (formats : List CliprdrFormat) : UInt32 → Option String :=
  formats.foldl (fun stored format formatId =>
    if formatId = format.formatId then some (format.formatName.getD "") else stored formatId)
    (fun _ => none)

def selectNamed : List CliprdrFormat → Option FormatRequest
  | [] => none
  | format :: formats =>
      if format.formatName = some "PNG" then some ⟨format.formatId, "PNG"⟩
      else if format.formatName = some clipboardFormatFileName then
        some ⟨format.formatId, clipboardFormatFileName⟩
      else selectNamed formats

def selectFormat (stored : UInt32 → Option String) (formats : List CliprdrFormat) :
    Option FormatRequest :=
  if (stored cfUnicodeText).isSome then some ⟨cfUnicodeText, ""⟩
  else
    match selectNamed formats with
    | some request => some request
    | none =>
        if (stored cfDibV5).isSome then some ⟨cfDibV5, ""⟩
        else if (stored cfDib).isSome then some ⟨cfDib, ""⟩
        else none

/-- The local `requestRemoteFormat`; the return code of the call is dropped. -/
def requestRemoteFormat (context : CliprdrPlugin) (client : RemoteFormats)
    (request : FormatRequest) : Option (RemoteFormats × List Bytes) :=
  (cliprdrClientFormatDataRequest context request.formatId).map (fun r =>
    ({ client with
        requestedRemoteFormatId := request.formatId
        requestedRemoteFormatName := request.formatName }, r.2))

/-- What a Format List leads to: the format that is requested, if any, and the
packets sent for it. -/
structure Selection where
  request : Option FormatRequest
  packets : List Bytes
  deriving DecidableEq, Repr

def qfCliprdrServerFormatListCallBack (context : CliprdrPlugin) (client : RemoteFormats)
    (formats : List CliprdrFormat) : Option (RemoteFormats × Selection) :=
  let client := { client with clipboardFormatFromRemote := storeFormats formats }
  match selectFormat client.clipboardFormatFromRemote formats with
  | none => some (client, ⟨none, []⟩)
  | some request =>
      (requestRemoteFormat context client request).map (fun r => (r.1, ⟨some request, r.2⟩))

def cliprdrProcessFormatList (context : CliprdrPlugin) (client : RemoteFormats)
    (formats : List CliprdrFormat) : Option (RemoteFormats × Selection) :=
  let filtered := cliprdrFilterFormatList formats context.featureMask remoteToLocal
  if filtered = [] then some (client, ⟨none, []⟩)
  else qfCliprdrServerFormatListCallBack context client filtered

inductive RemoteDecoder where
  | fileList
  | png
  | dib
  | unicodeText
  deriving DecidableEq, Repr

structure RemoteUpdate where
  data : Bytes
  formatId : UInt32
  formatName : String
  deriving DecidableEq, Repr

def updateClipboardDataFromRemote (update : RemoteUpdate) : Option RemoteDecoder :=
  if update.formatName = "PNG" then some .png
  else if update.formatId = cfDib ∨ update.formatId = cfDibV5 then some .dib
  else if update.formatId = cfUnicodeText then some .unicodeText
  else none

/-- What the callback does with a response: it hands a file list on, unless the
parser fails, or queues a call at the view. -/
inductive ResponseEffect where
  | ignored
  | fileList (files : Except UInt32 (List ClipboardInfoFile))
  | queued (update : RemoteUpdate)

def qfCliprdrServerFormatDataResponseCallBack
    (parse : Bytes → Except UInt32 (List FileDescriptor)) (client : RemoteFormats)
    (response : FormatDataResponse) : ResponseEffect :=
  if response.msgFlags ≠ cbResponseOk then .ignored
  else if client.requestedRemoteFormatName = clipboardFormatFileName then
    .fileList ((parse response.requestedFormatData).map (List.map remoteFile))
  else
    .queued ⟨response.requestedFormatData, client.requestedRemoteFormatId,
      client.requestedRemoteFormatName⟩

def cliprdrProcessFormatDataResponse (context : CliprdrPlugin)
    (parse : Bytes → Except UInt32 (List FileDescriptor)) (client : RemoteFormats)
    (response : FormatDataResponse) : ResponseEffect :=
  if context.featureMask &&& remoteToLocal = 0 then .ignored
  else qfCliprdrServerFormatDataResponseCallBack parse client response

/-- The client with the requests that have reached the server, the number of them
it has answered, and the calls queued at the view; a queued call carries the number
of the request that its response answered. -/
structure FormatSession where
  client : RemoteFormats
  received : List FormatRequest
  answered : ℕ
  queued : List (Option ℕ × RemoteUpdate)

def FormatSession.initial : FormatSession where
  client := .initial
  received := []
  answered := 0
  queued := []

/-- `unsolicited` is a response to no request, such as a second one to a request
that has been answered. The transport returns `rc` for the packet of a request. -/
inductive FormatInput where
  | formatList (formats : List CliprdrFormat) (rc : UInt32)
  | answer (response : FormatDataResponse)
  | unsolicited (response : FormatDataResponse)
  | view
  deriving DecidableEq, Repr

/-- A payload handed to a decoder; `source` is the number of the request that its
response answered. -/
structure DecodedPayload where
  source : Option ℕ
  decoder : RemoteDecoder
  data : Bytes
  deriving DecidableEq, Repr

inductive FormatOutput where
  | listed (selection : Selection)
  | handled (decoded : Option DecodedPayload)
  deriving DecidableEq, Repr

abbrev FormatEvent := FormatInput × FormatOutput

def FormatSession.list (session : FormatSession) (client : RemoteFormats)
    (selection : Selection) : FormatSession :=
  { session with
    client := client
    received := session.received ++
      (if selection.packets = [] then [] else selection.request.toList) }

def FormatSession.handle (session : FormatSession) (source : Option ℕ)
    (response : FormatDataResponse) : ResponseEffect → FormatSession × FormatOutput
  | .ignored => (session, .handled none)
  | .fileList _ => (session, .handled (some ⟨source, .fileList, response.requestedFormatData⟩))
  | .queued update =>
      ({ session with queued := session.queued ++ [(source, update)] }, .handled none)

def viewPayload (call : Option ℕ × RemoteUpdate) : Option DecodedPayload :=
  (updateClipboardDataFromRemote call.2).map (⟨call.1, ·, call.2.data⟩)

def formatStep (context : CliprdrPlugin) (parse : Bytes → Except UInt32 (List FileDescriptor)) :
    Step FormatSession FormatInput FormatOutput
  | session, .formatList formats rc =>
      (cliprdrProcessFormatList { context with virtualChannelWriteEx := fun _ => rc }
        session.client formats).map (fun r => (session.list r.1 r.2, .listed r.2))
  | session, .answer response =>
      if session.answered < session.received.length then
        some ({ session with answered := session.answered + 1 }.handle (some session.answered)
          response (cliprdrProcessFormatDataResponse context parse session.client response))
      else none
  | session, .unsolicited response =>
      some (session.handle none response
        (cliprdrProcessFormatDataResponse context parse session.client response))
  | session, .view =>
      match session.queued with
      | [] => none
      | call :: queued => some ({ session with queued := queued }, .handled (viewPayload call))

end QfClient
