import QfClient.Packet

/-!
# Serving captured files

The server asks for the size or for a byte range of an entry of the captured
file list. `serverFileContentsRequest` is the callback that answers. The
relation `Serves` says which data a request is owed, from the list, the disk
and the request alone.
-/

namespace QfClient

open LittleEndian

/-- A file opened for reading. `seek` says whether the position can be set, and
`read` gives what a read from there returns, `none` for the error. -/
structure OpenFile where
  size : UInt64
  seek : UInt64 → Bool
  read : UInt64 → UInt64 → Option Bytes
  read_length_le : ∀ offset maxSize data, read offset maxSize = some data →
    data.length ≤ maxSize.toNat

/-- What `QFile::open` finds at a path. -/
abbrev Disk := QString → Option OpenFile

def FileContentsRequest.offset (request : FileContentsRequest) : UInt64 :=
  join32 request.nPositionHigh request.nPositionLow

/-- The early exits return a message flag as their error code and send nothing. -/
def responseFailed : Outcome := some (cbResponseFail.toUInt32, [])

def sendFileContentsResponse (context : CliprdrPlugin) (streamId : UInt32) (data : Bytes) :
    Outcome :=
  cliprdrClientFileContentsResponse context
    ⟨cbResponseOk, streamId, UInt32.ofNat data.length, some data⟩

def sendFileSize (context : CliprdrPlugin) (streamId : UInt32) (fileInfo : ClipboardInfoFile) :
    Outcome :=
  let fileSize := if fileInfo.isDirectory then 0 else fileInfo.total
  sendFileContentsResponse context streamId (leUInt64 fileSize)

def bytesToRead (file : OpenFile) (request : FileContentsRequest) : UInt64 :=
  let remaining := file.size - request.offset
  if remaining ≤ request.cbRequested.toUInt64 then remaining else request.cbRequested.toUInt64

def sendFileRange (context : CliprdrPlugin) (disk : Disk) (request : FileContentsRequest)
    (fileInfo : ClipboardInfoFile) : Outcome :=
  if fileInfo.isDirectory then responseFailed
  else if fileInfo.total ≤ request.offset then responseFailed
  else
    match disk fileInfo.localPath with
    | none => responseFailed
    | some file =>
        if file.seek request.offset then
          match file.read request.offset (bytesToRead file request) with
          | none => responseFailed
          | some data =>
              if data.length ≠ (bytesToRead file request).toNat then responseFailed
              else sendFileContentsResponse context request.streamId data
        else responseFailed

/-- `client` is the captured file list, `clipboard_info_files_`. -/
def serverFileContentsRequest (context : Option CliprdrPlugin)
    (client : Option (List ClipboardInfoFile)) (disk : Disk) (request : FileContentsRequest) :
    Outcome :=
  match context, client with
  | some context, some files =>
      match files[request.listIndex.toNat]? with
      | none => responseFailed
      | some fileInfo =>
          if request.asksSize then sendFileSize context request.streamId fileInfo
          else if request.asksRange then sendFileRange context disk request fileInfo
          else responseFailed
  | _, _ => some (errorInvalidParameter, [])

/-- The request can be served, and `data` is what it asks for. -/
inductive Serves (files : List ClipboardInfoFile) (disk : Disk) (request : FileContentsRequest) :
    Bytes → Prop
  | size {fileInfo : ClipboardInfoFile} :
      files[request.listIndex.toNat]? = some fileInfo → request.asksSize →
      Serves files disk request
        (leUInt64 (if fileInfo.isDirectory then 0 else fileInfo.total))
  | range {fileInfo : ClipboardInfoFile} {file : OpenFile} {data : Bytes} :
      files[request.listIndex.toNat]? = some fileInfo → ¬ request.asksSize → request.asksRange →
      fileInfo.isDirectory = false → request.offset < fileInfo.total →
      disk fileInfo.localPath = some file → file.seek request.offset = true →
      file.read request.offset (bytesToRead file request) = some data →
      data.length = (bytesToRead file request).toNat →
      Serves files disk request data

variable {files : List ClipboardInfoFile} {disk : Disk} {request : FileContentsRequest}
  {context : CliprdrPlugin} {data : Bytes}

theorem bytesToRead_le (file : OpenFile) (request : FileContentsRequest) :
    (bytesToRead file request).toNat ≤ request.cbRequested.toNat := by
  simp only [bytesToRead]
  split_ifs with h
  · simpa using UInt64.le_iff_toNat_le.mp h
  · simp

theorem Serves.length_lt (h : Serves files disk request data) : data.length < 2 ^ 32 := by
  cases h with
  | size => simp
  | range _ _ _ _ _ _ _ _ hlen =>
      rw [hlen]
      exact lt_of_le_of_lt (bytesToRead_le _ _) request.cbRequested.toNat_lt

theorem serverFileContentsRequest_of_serves (h : Serves files disk request data) :
    serverFileContentsRequest (some context) (some files) disk request =
      sendFileContentsResponse context request.streamId data := by
  cases h with
  | size hfile hsize => simp only [serverFileContentsRequest, hfile, if_pos hsize, sendFileSize]
  | range hfile hsize hrange hdir hoff hdisk hseek hread hlen =>
      simp only [serverFileContentsRequest, hfile, if_neg hsize, if_pos hrange, sendFileRange, hdir,
        Bool.false_eq_true, if_false, if_neg (UInt64.not_le.mpr hoff), hdisk, hseek, if_true, hread,
        if_neg (not_not_intro hlen)]

/-- Every other request takes one of the early exits. -/
theorem serverFileContentsRequest_of_not_serves (h : ∀ data, ¬ Serves files disk request data) :
    serverFileContentsRequest (some context) (some files) disk request = responseFailed := by
  simp only [serverFileContentsRequest]
  split
  · rfl
  · rename_i fileInfo hfile
    split_ifs with hsize hrange
    · exact absurd (.size hfile hsize) (h _)
    · simp only [sendFileRange]
      split_ifs with hdir hoff
      · rfl
      · rfl
      · split
        · rfl
        · rename_i file hdisk
          split_ifs with hseek
          · split
            · rfl
            · rename_i data hread
              split_ifs with hlen
              · rfl
              · exact absurd (.range hfile hsize hrange (by simpa using hdir)
                  (UInt64.not_le.mp hoff) hdisk hseek hread (not_not.mp hlen)) (h data)
          · rfl
    · rfl

theorem Serves.unique {data' : Bytes} (h : Serves files disk request data)
    (h' : Serves files disk request data') : data = data' := by
  cases h with
  | size hfile hsize =>
      cases h' with
      | size hfile' _ =>
          rw [hfile] at hfile'
          rw [Option.some.inj hfile']
      | range _ hsize' => exact absurd hsize hsize'
  | range hfile hsize _ _ _ hdisk _ hread =>
      cases h' with
      | size _ hsize' => exact absurd hsize' hsize
      | range hfile' _ _ _ _ hdisk' _ hread' =>
          obtain rfl := Option.some.inj (hfile.symm.trans hfile')
          obtain rfl := Option.some.inj (hdisk.symm.trans hdisk')
          exact Option.some.inj (hread.symm.trans hread')

/-- A request is answered as it should be: with its data when it can be served,
otherwise with a failure, in exactly one response that carries its stream id. -/
def Answered (files : List ClipboardInfoFile) (disk : Disk) (request : FileContentsRequest)
    (outcome : Outcome) : Prop :=
  (∀ data, Serves files disk request data → outcome = some (channelRcOk,
    [fileContentsResponsePacket cbResponseOk request.streamId data])) ∧
  ((∀ data, ¬ Serves files disk request data) → ∃ data, outcome = some (channelRcOk,
    [fileContentsResponsePacket cbResponseFail request.streamId data]))

def Servable (files : List ClipboardInfoFile) (disk : Disk) (request : FileContentsRequest) :
    Prop :=
  ∃ data, Serves files disk request data ∧ data.length ≤ 4294967275

theorem serverFileContentsRequest_of_servable (hc : context.Ready)
    (h : Serves files disk request data) :
    serverFileContentsRequest (some context) (some files) disk request =
      if data.length ≤ 4294967275 then
        some (channelRcOk, [fileContentsResponsePacket cbResponseOk request.streamId data])
      else none := by
  rw [serverFileContentsRequest_of_serves h]
  exact cliprdrClientFileContentsResponse_eq hc cbResponseOk request.streamId h.length_lt

theorem answered_iff_servable (hc : context.Ready) :
    Answered files disk request
        (serverFileContentsRequest (some context) (some files) disk request) ↔
      Servable files disk request := by
  constructor
  · rintro ⟨hok, hfail⟩
    by_cases hserves : ∃ data, Serves files disk request data
    · obtain ⟨data, hdata⟩ := hserves
      refine ⟨data, hdata, ?_⟩
      have hanswer := hok data hdata
      rw [serverFileContentsRequest_of_servable hc hdata] at hanswer
      split_ifs at hanswer with hlen
      exact hlen
    · have hnot := not_exists.mp hserves
      obtain ⟨data, hanswer⟩ := hfail hnot
      rw [serverFileContentsRequest_of_not_serves hnot] at hanswer
      exact absurd hanswer (by simp [responseFailed])
  · rintro ⟨data, hdata, hlen⟩
    refine ⟨fun data' hdata' => ?_, fun hnot => absurd hdata (hnot data)⟩
    obtain rfl := hdata.unique hdata'
    rw [serverFileContentsRequest_of_servable hc hdata, if_pos hlen]

end QfClient
