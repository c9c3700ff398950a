import QfClient.CapturedFiles
import QfClient.FormatDataAnswers

/-!
# What the client has advertised

A change of the local clipboard advertises the formats of the new content, and later
the server asks for the data in one of them. The two go separate ways through the
content: `dataChangedCallback` may return without a new format list, and the old one
then stands for a content that is no longer there.
-/

namespace QfClient

open LittleEndian Machine Qt FirstWins

/-- A format list that was sent, with the content and the captured files at that time. -/
structure Advertisement where
  formats : List CliprdrFormat
  content : MimeData
  files : List ClipboardInfoFile

/-- `mimeData` is the content of the clipboard and `advertised` what was advertised last;
an empty format list advertises nothing. -/
structure LocalClipboard where
  ready : Bool
  mimeData : Option MimeData
  files : List ClipboardInfoFile
  advertised : Option Advertisement

def LocalClipboard.initial (mimeData : Option MimeData) : LocalClipboard :=
  ⟨false, mimeData, [], none⟩

def LocalClipboard.dataChanged (s : LocalClipboard) (disk : FileNode) (mimeData : MimeData) :
    LocalClipboard :=
  let r := dataChangedCallback (captureUrls disk) s.ready false s.files mimeData
  { s with
    mimeData := some mimeData
    files := r.1
    advertised :=
      match r.2 with
      | none => s.advertised
      | some formats => some ⟨formats, mimeData, r.1⟩ }

/-- The encoders take every image that is not null, and the files can be serialised. -/
def EncodingSucceeds (serialize : SerializeFileList) (remoteFlags : Option UInt32)
    (files : List ClipboardInfoFile) (content : MimeData) (formatId : UInt32) : Prop :=
  (formatId = cfDib ∨ formatId = clipboardFormatPng → content.imageData.isNull = false →
    content.imageData.encoded formatId ≠ none) ∧
  (formatId = clipboardFormatFile → files ≠ [] →
    serializedFiles serialize remoteFlags files ≠ none)

/-- Each format of the last list is answered with the data of the advertised content. -/
def LocalClipboard.Servable (context : CliprdrPlugin) (serialize : SerializeFileList)
    (s : LocalClipboard) : Prop :=
  ∀ advertised, s.advertised = some advertised → ∀ format ∈ advertised.formats, ∀ remoteFlags,
    EncodingSucceeds serialize remoteFlags advertised.files advertised.content format.formatId →
    ∃ bytes answer,
      clipboardData serialize remoteFlags advertised.files advertised.content format.formatId =
        some bytes ∧
      qfCliprdrServerFormatDataRequestCallBack context serialize remoteFlags s.files s.mimeData
          format.formatId =
        some (answer, [packet cbFormatDataResponse cbResponseOk bytes])

/-- The new content has the data of the one that was advertised; files never stay. -/
def MimeData.Keeps (mimeData content : MimeData) : Prop :=
  content.hasUrls = false ∧
    if content.hasText then
      mimeData.hasText = true ∧ textBytes mimeData.text = textBytes content.text
    else mimeData.hasImage = true ∧ mimeData.imageData = content.imageData

variable {context : CliprdrPlugin} {serialize : SerializeFileList} {s s' : LocalClipboard}
  {disk : FileNode} {mimeData content : MimeData} {files : List ClipboardInfoFile}
  {advertised : Advertisement} {t : ClipboardTrace}

def announcedFormats (content : MimeData) : List CliprdrFormat :=
  if content.hasUrls then [⟨clipboardFormatFile, some clipboardFormatFileName⟩]
  else if content.hasText then [⟨cfUnicodeText, none⟩]
  else [⟨clipboardFormatPng, some "PNG"⟩, ⟨cfDib, none⟩]

structure Advertisement.Sound (serialize : SerializeFileList) (advertised : Advertisement) :
    Prop where
  formats : advertised.formats = announcedFormats advertised.content
  image : advertised.content.hasUrls = false → advertised.content.hasText = false →
    advertised.content.hasImage = true
  provided : ∀ format ∈ advertised.formats, ∀ remoteFlags,
    EncodingSucceeds serialize remoteFlags advertised.files advertised.content format.formatId →
    clipboardData serialize remoteFlags advertised.files advertised.content format.formatId ≠ none
  fits : ∀ format ∈ advertised.formats, ∀ remoteFlags bytes,
    clipboardData serialize remoteFlags advertised.files advertised.content format.formatId =
      some bytes → bytes.length ≤ maxResponseData

def LocalClipboard.Holds (serialize : SerializeFileList) (s : LocalClipboard)
    (advertised : Advertisement) : Prop :=
  ∃ mimeData, s.mimeData = some mimeData ∧ ∀ format ∈ advertised.formats, ∀ remoteFlags,
    clipboardData serialize remoteFlags s.files mimeData format.formatId =
      clipboardData serialize remoteFlags advertised.files advertised.content format.formatId

theorem captureUrls_eq_nil_iff {urls : List QUrl} :
    captureUrls disk urls = [] ↔ acceptedFiles disk urls = [] := by
  constructor
  · intro hnil
    by_contra hne
    obtain ⟨root, hroot⟩ := List.exists_mem_of_ne_nil _ hne
    obtain ⟨first, -, entry, hentry, -⟩ :=
      (captured_captureUrls disk urls).complete root hroot root .refl
    rw [hnil] at hentry
    exact absurd hentry List.not_mem_nil
  · intro hnil
    rw [captureUrls_eq, hnil]
    rfl

def greeting : MimeData where
  hasText := true
  text := ofAscii "hi"
  hasImage := false
  imageData := ⟨true, none, none⟩
  hasUrls := false
  urls := []

end QfClient
