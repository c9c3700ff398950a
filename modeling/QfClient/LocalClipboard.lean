import QfClient.FormatList

/-!
# The local clipboard

`dataChangedCallback` advertises a new content of the local clipboard, and
`qfCliprdrServerFormatDataRequestCallBack` hands it out in the format that the
server asks for. What Qt finds in the clipboard is a `MimeData`; images come with
the encodings that `QImage::save` makes of them. Files are handed out as the list
captured in `clipboard_info_files_`.
-/

namespace QfClient

open LittleEndian WinPR

def cbFormatDataResponse : UInt16 := 5

def clipboardFormatPng : UInt32 := 0xC001
def clipboardFormatFile : UInt32 := 0xD001

def cbStreamFileclipEnabled : UInt32 := 0x4

/-- A URL; `toLocalFile` is the path of a local one. -/
structure QUrl where
  toLocalFile : Option QString
  deriving DecidableEq, Repr

structure QImage where
  isNull : Bool
  bmp : Option Bytes
  png : Option Bytes
  deriving DecidableEq, Repr

structure MimeData where
  hasText : Bool
  text : QString
  hasImage : Bool
  imageData : QImage
  hasUrls : Bool
  urls : List QUrl
  deriving DecidableEq, Repr

/-- `capture` is the loop over the URLs: the list it makes of them from an empty
one, on the disk as it is. `ready` says that both contexts are there, and `fromRemote`
is `m_clipboardDataFromRemote`. The result is the captured list and the formats passed
to `ClientFormatList`, if it is called. -/
def dataChangedCallback (capture : List QUrl → List ClipboardInfoFile) (ready fromRemote : Bool)
    (files : List ClipboardInfoFile) (mimeData : MimeData) :
    List ClipboardInfoFile × Option (List CliprdrFormat) :=
  if ready = false then (files, none)
  else if fromRemote then (files, none)
  else if mimeData.hasUrls then
    let files := capture mimeData.urls
    if files = [] then (files, none)
    else (files, some [⟨clipboardFormatFile, some clipboardFormatFileName⟩])
  else if mimeData.hasText then (files, some [⟨cfUnicodeText, none⟩])
  else if mimeData.hasImage then
    (files, some [⟨clipboardFormatPng, some "PNG"⟩, ⟨cfDib, none⟩])
  else (files, none)

/-- What the server is answered; nothing at all in the silent case. -/
inductive FormatDataAnswer where
  | silent
  | failed
  | data (bytes : Bytes)
  | fileList (files : List ClipboardInfoFile) (bytes : Bytes)
  deriving DecidableEq, Repr

def FormatDataAnswer.response : FormatDataAnswer → Option FormatDataResponse
  | .silent => none
  | .failed => some ⟨cbResponseFail, []⟩
  | .data bytes => some ⟨cbResponseOk, bytes.take (bytes.length % 2 ^ 32)⟩
  | .fileList _ bytes => some ⟨cbResponseOk, bytes.take (bytes.length % 2 ^ 32)⟩

/-- The code units up to the first NUL, and the NUL. -/
def textBytes (text : QString) : Bytes := (text.takeWhile (· ≠ 0) ++ [0]).flatMap leUInt16

def imageAnswer (image : QImage) (encoded : Option Bytes) : FormatDataAnswer :=
  if image.isNull then .silent
  else
    match encoded with
    | none => .silent
    | some bytes => .data bytes

def fileListFlags (remoteFlags : Option UInt32) : UInt32 :=
  match remoteFlags with
  | none => cbStreamFileclipEnabled
  | some flags => if flags &&& cbStreamFileclipEnabled ≠ 0 then flags else cbStreamFileclipEnabled

/-- `cliprdr_serialize_file_list_ex`: an error code and the data, unless null. -/
abbrev SerializeFileList := UInt32 → List FileDescriptor → UInt32 × Option Bytes

def fileListAnswer (serialize : SerializeFileList) (remoteFlags : Option UInt32)
    (files : List ClipboardInfoFile) : Option FormatDataAnswer :=
  if files = [] then some .failed
  else
    match files.mapM describeFile with
    | none => none
    | some fds =>
        match serialize (fileListFlags remoteFlags) fds with
        | (error, some bytes) =>
            if error ≠ 0 ∨ bytes = [] then some .failed else some (.fileList files bytes)
        | (_, none) => some .failed

def localFormatData (serialize : SerializeFileList) (remoteFlags : Option UInt32)
    (files : List ClipboardInfoFile) (mimeData : MimeData) (requestedFormatId : UInt32) :
    Option FormatDataAnswer :=
  if mimeData.hasText ∧ requestedFormatId = cfUnicodeText then
    some (.data (textBytes mimeData.text))
  else if mimeData.hasImage ∧ requestedFormatId = cfDib then
    some (imageAnswer mimeData.imageData (mimeData.imageData.bmp.map (List.drop 14)))
  else if mimeData.hasImage ∧ requestedFormatId = clipboardFormatPng then
    some (imageAnswer mimeData.imageData mimeData.imageData.png)
  else if mimeData.hasUrls ∧ requestedFormatId = clipboardFormatFile then
    fileListAnswer serialize remoteFlags files
  else some .failed

def localToRemote : UInt32 := cliprdrFlagLocalToRemote ||| cliprdrFlagLocalToRemoteFiles

def cliprdrClientFormatDataResponse (context : CliprdrPlugin) (response : FormatDataResponse) :
    Outcome :=
  if context.featureMask &&& localToRemote = 0 then none
  else
    match cliprdrPacketNew context cbFormatDataResponse response.msgFlags
        response.requestedFormatData.length with
    | none => none
    | some none => some (errorInternalError, [])
    | some (some s) =>
        match s.write? response.requestedFormatData with
        | none => none
        | some s => cliprdrPacketSend context s

/-- The return code of `ClientFormatDataResponse` is dropped. -/
def qfCliprdrServerFormatDataRequestCallBack (context : CliprdrPlugin)
    (serialize : SerializeFileList) (remoteFlags : Option UInt32) (files : List ClipboardInfoFile)
    (mimeData : Option MimeData) (requestedFormatId : UInt32) :
    Option (FormatDataAnswer × List Bytes) :=
  match mimeData with
  | none => some (.silent, [])
  | some mimeData =>
      match localFormatData serialize remoteFlags files mimeData requestedFormatId with
      | none => none
      | some answer =>
          match answer.response with
          | none => some (answer, [])
          | some response =>
              (cliprdrClientFormatDataResponse context response).map (fun r => (answer, r.2))

variable {context : CliprdrPlugin} {serialize : SerializeFileList} {remoteFlags : Option UInt32}
  {files : List ClipboardInfoFile}

/-- Describing the files never writes outside a name. -/
theorem mapM_describeFile_isSome (files : List ClipboardInfoFile) :
    (files.mapM describeFile).isSome := by
  induction files with
  | nil => rfl
  | cons file files ih =>
      obtain ⟨descriptor, hdescriptor⟩ := Option.isSome_iff_exists.mp (describeFile_isSome file)
      obtain ⟨fds, hfds⟩ := Option.isSome_iff_exists.mp ih
      simp [List.mapM_cons, hdescriptor, hfds]

theorem imageAnswer_ne_fileList (image : QImage) (encoded : Option Bytes)
    (list : List ClipboardInfoFile) (bytes : Bytes) :
    imageAnswer image encoded ≠ .fileList list bytes := by
  simp only [imageAnswer]
  split_ifs
  · simp
  · cases encoded <;> simp

/-- A file list that is handed out is the captured one. -/
theorem fileListAnswer_files {list : List ClipboardInfoFile} {bytes : Bytes}
    (h : fileListAnswer serialize remoteFlags files = some (.fileList list bytes)) :
    list = files := by
  rw [fileListAnswer] at h
  by_cases hnil : files = []
  · rw [if_pos hnil] at h
    exact absurd h (by simp)
  · rw [if_neg hnil] at h
    split at h
    · exact absurd h (by simp)
    · split at h
      · rename_i error bytes' hserialize
        by_cases herror : error ≠ 0 ∨ bytes' = []
        · rw [if_pos herror] at h
          exact absurd h (by simp)
        · rw [if_neg herror] at h
          exact (FormatDataAnswer.fileList.inj (Option.some.inj h)).1.symm
      · exact absurd h (by simp)

theorem dataRequest_files {mimeData : Option MimeData} {requestedFormatId : UInt32}
    {list : List ClipboardInfoFile} {bytes : Bytes} {packets : List Bytes}
    (h : qfCliprdrServerFormatDataRequestCallBack context serialize remoteFlags files mimeData
      requestedFormatId = some (.fileList list bytes, packets)) : list = files := by
  simp only [qfCliprdrServerFormatDataRequestCallBack] at h
  split at h
  · exact absurd h (by simp)
  · rename_i mimeData
    split at h
    · exact absurd h (by simp)
    · rename_i answer hdata
      have hanswer : answer = .fileList list bytes := by
        split at h
        · exact (Prod.mk.inj (Option.some.inj h)).1
        · obtain ⟨r, -, hr⟩ := Option.map_eq_some_iff.mp h
          exact (Prod.mk.inj hr).1
      rw [hanswer, localFormatData] at hdata
      split_ifs at hdata
      · exact absurd hdata (by simp)
      · exact absurd (Option.some.inj hdata) (imageAnswer_ne_fileList _ _ _ _)
      · exact absurd (Option.some.inj hdata) (imageAnswer_ne_fileList _ _ _ _)
      · exact fileListAnswer_files hdata
      · exact absurd hdata (by simp)

theorem localToRemote_of_ready (h : context.Ready) : context.featureMask &&& localToRemote ≠ 0 := by
  intro hzero
  apply h.localToRemoteFiles
  have hflag : cliprdrFlagLocalToRemoteFiles = localToRemote &&& cliprdrFlagLocalToRemoteFiles := by
    decide
  rw [hflag, ← UInt32.and_assoc, hzero, UInt32.zero_and]

/-- A response goes out as one packet, unless it is too long for its header. -/
theorem cliprdrClientFormatDataResponse_eq (h : context.Works)
    (hmask : context.featureMask &&& localToRemote ≠ 0) {response : FormatDataResponse}
    (hlen : response.requestedFormatData.length ≤ 4294967279) :
    cliprdrClientFormatDataResponse context response = some (channelRcOk,
      [packet cbFormatDataResponse response.msgFlags response.requestedFormatData]) := by
  obtain ⟨s, s', hs, hwrite, hsend⟩ := cliprdrPacketNew_write_send h cbFormatDataResponse
    response.msgFlags (by omega : response.requestedFormatData.length < 4294967295)
    (Nat.le_refl _) hlen
  rw [cliprdrClientFormatDataResponse, if_neg hmask]
  simp only [hs, hwrite]
  exact hsend

theorem dataRequest_fileList (h : context.Ready) {mimeData : MimeData} {bytes : Bytes}
    (hurls : mimeData.hasUrls = true)
    (hanswer : fileListAnswer serialize remoteFlags files = some (.fileList files bytes))
    (hlen : bytes.length ≤ 4294967279) :
    qfCliprdrServerFormatDataRequestCallBack context serialize remoteFlags files (some mimeData)
        clipboardFormatFile =
      some (.fileList files bytes, [packet cbFormatDataResponse cbResponseOk bytes]) := by
  have hdata : localFormatData serialize remoteFlags files mimeData clipboardFormatFile =
      some (.fileList files bytes) := by
    rw [localFormatData, if_neg (fun htext => absurd htext.2 (by decide)),
      if_neg (fun hdib => absurd hdib.2 (by decide)),
      if_neg (fun hpng => absurd hpng.2 (by decide)), if_pos ⟨hurls, rfl⟩, hanswer]
  have htake : bytes.take (bytes.length % 2 ^ 32) = bytes := by
    rw [Nat.mod_eq_of_lt (by omega), List.take_length]
  simp only [qfCliprdrServerFormatDataRequestCallBack, hdata, FormatDataAnswer.response, htake]
  rw [cliprdrClientFormatDataResponse_eq h.toWorks (localToRemote_of_ready h) hlen,
    Option.map_some]

end QfClient
