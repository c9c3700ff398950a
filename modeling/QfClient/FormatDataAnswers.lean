import QfClient.LocalServing

/-!
# Answering every paste

The server waits for the answer to each of its format data requests. What the local
clipboard holds in a format is `clipboardData`; the branches of
`qfCliprdrServerFormatDataRequestCallBack` either send it, or send a failure, or,
where they return early, send nothing.
-/

namespace QfClient

open LittleEndian WinPR

/-- The longest data that fits a packet with its header. -/
def maxResponseData : ℕ := 4294967279

def QImage.encoded (image : QImage) (formatId : UInt32) : Option Bytes :=
  if image.isNull then none
  else if formatId = cfDib then image.bmp.map (List.drop 14)
  else if formatId = clipboardFormatPng then image.png
  else none

def serializedFiles (serialize : SerializeFileList) (remoteFlags : Option UInt32)
    (files : List ClipboardInfoFile) : Option Bytes :=
  if files = [] then none
  else
    match (files.mapM describeFile).map (serialize (fileListFlags remoteFlags)) with
    | some (error, some bytes) => if error ≠ 0 ∨ bytes = [] then none else some bytes
    | _ => none

def clipboardData (serialize : SerializeFileList) (remoteFlags : Option UInt32)
    (files : List ClipboardInfoFile) (mimeData : MimeData) (formatId : UInt32) : Option Bytes :=
  if formatId = cfUnicodeText then
    if mimeData.hasText then some (textBytes mimeData.text) else none
  else if formatId = clipboardFormatFile then
    if mimeData.hasUrls then serializedFiles serialize remoteFlags files else none
  else if mimeData.hasImage then mimeData.imageData.encoded formatId
  else none

def MimeData.ImageAsked (mimeData : MimeData) (formatId : UInt32) : Prop :=
  mimeData.hasImage = true ∧ (formatId = cfDib ∨ formatId = clipboardFormatPng)

instance (mimeData : MimeData) (formatId : UInt32) : Decidable (mimeData.ImageAsked formatId) :=
  inferInstanceAs (Decidable (_ ∧ _))

variable {context : CliprdrPlugin} {serialize : SerializeFileList} {remoteFlags : Option UInt32}
  {files : List ClipboardInfoFile} {mimeData : MimeData} {formatId : UInt32} {bytes : Bytes}

theorem fileListAnswer_eq (serialize : SerializeFileList) (remoteFlags : Option UInt32)
    (files : List ClipboardInfoFile) :
    fileListAnswer serialize remoteFlags files =
      some ((serializedFiles serialize remoteFlags files).elim .failed (.fileList files)) := by
  obtain ⟨fds, hfds⟩ := Option.isSome_iff_exists.mp (mapM_describeFile_isSome files)
  unfold fileListAnswer serializedFiles
  by_cases hnil : files = []
  · rw [if_pos hnil, if_pos hnil]
    rfl
  · rw [if_neg hnil, if_neg hnil]
    simp only [hfds, Option.map_some]
    rcases serialize (fileListFlags remoteFlags) fds with ⟨error, _ | bytes⟩
    · rfl
    · by_cases herror : error ≠ 0 ∨ bytes = []
      · simp only [if_pos herror, Option.elim_none]
      · simp only [if_neg herror, Option.elim_some]

theorem imageAnswer_eq (image : QImage) (encoded : Option Bytes) :
    imageAnswer image encoded = (if image.isNull then none else encoded).elim .silent .data := by
  unfold imageAnswer
  cases image.isNull with
  | true => rfl
  | false => cases encoded <;> rfl

/-- One case for each branch: the data is sent when there is some, an image that
cannot be encoded is passed over, everything else is refused. -/
theorem localFormatData_eq (serialize : SerializeFileList) (remoteFlags : Option UInt32)
    (files : List ClipboardInfoFile) (mimeData : MimeData) (formatId : UInt32) :
    localFormatData serialize remoteFlags files mimeData formatId =
      some ((clipboardData serialize remoteFlags files mimeData formatId).elim
        (if mimeData.ImageAsked formatId then .silent else .failed)
        (if formatId = clipboardFormatFile then .fileList files else .data)) := by
  unfold localFormatData clipboardData MimeData.ImageAsked
  by_cases htext : formatId = cfUnicodeText
  · subst htext
    have hne : cfUnicodeText ≠ clipboardFormatFile ∧ cfUnicodeText ≠ cfDib ∧
      cfUnicodeText ≠ clipboardFormatPng := by decide
    cases mimeData.hasText <;> simp [hne]
  by_cases hfile : formatId = clipboardFormatFile
  · subst hfile
    have hne : clipboardFormatFile ≠ cfDib ∧ clipboardFormatFile ≠ clipboardFormatPng := by decide
    cases mimeData.hasUrls <;> simp [htext, hne, fileListAnswer_eq]
  by_cases hdib : formatId = cfDib
  · subst hdib
    by_cases himage : mimeData.hasImage = true <;>
      simp [himage, htext, hfile, imageAnswer_eq, QImage.encoded]
  by_cases hpng : formatId = clipboardFormatPng
  · subst hpng
    by_cases himage : mimeData.hasImage = true <;>
      simp [himage, htext, hfile, hdib, imageAnswer_eq, QImage.encoded]
  simp [htext, hfile, hdib, hpng, QImage.encoded]

/-- Data is sent as the `UINT32` length has it. -/
theorem dataRequest_of_some (context : CliprdrPlugin)
    (hdata : clipboardData serialize remoteFlags files mimeData formatId = some bytes) :
    ∃ answer, qfCliprdrServerFormatDataRequestCallBack context serialize remoteFlags files
        (some mimeData) formatId =
      (cliprdrClientFormatDataResponse context
        ⟨cbResponseOk, bytes.take (bytes.length % 2 ^ 32)⟩).map (fun r => (answer, r.2)) := by
  simp only [qfCliprdrServerFormatDataRequestCallBack, localFormatData_eq, hdata, Option.elim_some]
  split_ifs
  · exact ⟨_, rfl⟩
  · exact ⟨_, rfl⟩

end QfClient
