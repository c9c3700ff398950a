import QfClient.FileServe
import QfClient.LocalClipboard

/-!
# Serving while the clipboard changes

The server asks for the descriptors of the captured files and then for their sizes
and ranges, naming a file by its position. In `servingStep` the local clipboard may
change between any two requests. A capture replaces the list that the positions are
looked up in, so what a request is served from depends on the captures since the
descriptors were sent.
-/

namespace QfClient

open LittleEndian Machine

/-- `captured` is what the loop over the URLs makes of a new content; the disk is that
of the moment of a request. -/
inductive ServingInput where
  | dataChanged (ready fromRemote : Bool) (mimeData : MimeData)
      (captured : List ClipboardInfoFile)
  | formatDataRequest (remoteFlags : Option UInt32) (mimeData : Option MimeData)
      (requestedFormatId : UInt32)
  | fileContentsRequest (disk : Disk) (request : FileContentsRequest)

inductive ServingOutput where
  | advertised (formats : Option (List CliprdrFormat))
  | answered (answer : FormatDataAnswer) (packets : List Bytes)
  | served (result : UInt32 × List Bytes)
  deriving DecidableEq, Repr

abbrev ServingEvent := ServingInput × ServingOutput

/-- The state is `clipboard_info_files_`. -/
def servingStep (context : CliprdrPlugin) (serialize : SerializeFileList) :
    Step (List ClipboardInfoFile) ServingInput ServingOutput
  | files, .dataChanged ready fromRemote mimeData captured =>
      let r := dataChangedCallback (fun _ => captured) ready fromRemote files mimeData
      some (r.1, .advertised r.2)
  | files, .formatDataRequest remoteFlags mimeData requestedFormatId =>
      (qfCliprdrServerFormatDataRequestCallBack context serialize remoteFlags files mimeData
        requestedFormatId).map (fun r => (files, .answered r.1 r.2))
  | files, .fileContentsRequest disk request =>
      (serverFileContentsRequest (some context) (some files) disk request).map
        (fun r => (files, .served r))

/-- The list that a change captures; changes without URLs, and those that come from
the remote clipboard, capture none. -/
def captures : ServingInput → Option (List ClipboardInfoFile)
  | .dataChanged ready fromRemote mimeData captured =>
      if ready = true ∧ fromRemote = false ∧ mimeData.hasUrls = true then some captured else none
  | _ => none

def capturedLists (t : List ServingEvent) : List (List ClipboardInfoFile) :=
  t.filterMap (fun ev => captures ev.1)

def serveFile (context : CliprdrPlugin) (disk : Disk) (request : FileContentsRequest)
    (fileInfo : ClipboardInfoFile) : Outcome :=
  if request.asksSize then sendFileSize context request.streamId fileInfo
  else if request.asksRange then sendFileRange context disk request fileInfo
  else responseFailed

/-- The result is what the entry gives, or the failure when there is no entry. -/
def ServedFrom (context : CliprdrPlugin) (disk : Disk) (request : FileContentsRequest)
    (entry : Option ClipboardInfoFile) (result : UInt32 × List Bytes) : Prop :=
  entry.elim responseFailed (serveFile context disk request) = some result

instance (context : CliprdrPlugin) (disk : Disk) (request : FileContentsRequest)
    (entry : Option ClipboardInfoFile) (result : UInt32 × List Bytes) :
    Decidable (ServedFrom context disk request entry result) :=
  inferInstanceAs (Decidable (_ = _))

variable {context : CliprdrPlugin} {serialize : SerializeFileList} {disk : Disk}
  {request : FileContentsRequest} {files files' : List ClipboardInfoFile}
  {t u v w : List ServingEvent}

theorem serverFileContentsRequest_eq :
    serverFileContentsRequest (some context) (some files) disk request =
      (files[request.listIndex.toNat]?).elim responseFailed (serveFile context disk request) := by
  cases h : files[request.listIndex.toNat]? with
  | none => simp only [serverFileContentsRequest, h, Option.elim_none]
  | some fileInfo => simp only [serverFileContentsRequest, h, Option.elim_some, serveFile]

theorem dataChangedCallback_files (ready fromRemote : Bool) (mimeData : MimeData)
    (captured : List ClipboardInfoFile) :
    (dataChangedCallback (fun _ => captured) ready fromRemote files mimeData).1 =
      (captures (.dataChanged ready fromRemote mimeData captured)).getD files := by
  simp only [dataChangedCallback, captures]
  cases ready with
  | false => simp
  | true =>
      cases fromRemote with
      | true => simp
      | false =>
          cases hurls : mimeData.hasUrls with
          | true =>
              simp only [reduceCtorEq, if_false, if_true, and_self, Option.getD_some]
              split_ifs <;> rfl
          | false =>
              simp only [reduceCtorEq, if_false, and_false, Option.getD_none]
              split_ifs <;> rfl

theorem servingStep_files {i : ServingInput} {o : ServingOutput}
    (hs : servingStep context serialize files i = some (files', o)) :
    files' = (captures i).getD files := by
  cases i with
  | dataChanged ready fromRemote mimeData captured =>
      rw [← dataChangedCallback_files]
      exact (Prod.mk.inj (Option.some.inj hs)).1.symm
  | formatDataRequest remoteFlags mimeData requestedFormatId =>
      obtain ⟨r, -, hr⟩ := Option.map_eq_some_iff.mp hs
      exact (Prod.mk.inj hr).1.symm
  | fileContentsRequest disk request =>
      obtain ⟨r, -, hr⟩ := Option.map_eq_some_iff.mp hs
      exact (Prod.mk.inj hr).1.symm

/-- After a run the list is the one captured last, or still the one from before. -/
theorem files_eq_getLastD (h : Execution (servingStep context serialize) files t files') :
    files' = (capturedLists t).getLastD files := by
  induction h with
  | nil => rfl
  | @snoc t _ _ i o _ hs ih =>
      rw [servingStep_files hs, ih, capturedLists, capturedLists, filterMap_snoc]
      cases captures i with
      | none => rw [Option.getD_none, Option.toList_none, List.append_nil]
      | some captured => rw [Option.getD_some, Option.toList_some, List.getLastD_concat]

/-- Once descriptors have been sent, a size or range request is served from the list
captured last since then, at the position it names; as long as nothing was captured
that is the list whose descriptors were sent. -/
theorem contents_served_from_latest_list
    (h : Execution (servingStep context serialize) [] t files) {remoteFlags : Option UInt32}
    {mimeData : Option MimeData} {requestedFormatId : UInt32} {sent : List ClipboardInfoFile}
    {bytes : Bytes} {packets : List Bytes} {result : UInt32 × List Bytes}
    (ht : t = u ++ (.formatDataRequest remoteFlags mimeData requestedFormatId,
        .answered (.fileList sent bytes) packets) :: v ++
      (.fileContentsRequest disk request, .served result) :: w) :
    ServedFrom context disk request
      ((capturedLists v).getLastD sent)[request.listIndex.toNat]? result := by
  subst ht
  obtain ⟨files₂, files₃, hprefix, hserve, -⟩ := h.at_event
  obtain ⟨files₀, files₁, -, hsend, hbetween⟩ := hprefix.at_event
  have hsent : sent = files₁ := by
    obtain ⟨r, hr, hpair⟩ := Option.map_eq_some_iff.mp hsend
    obtain ⟨rfl, hanswer⟩ := Prod.mk.inj hpair
    obtain ⟨hfst, -⟩ := ServingOutput.answered.inj hanswer
    obtain ⟨answer, sentPackets⟩ := r
    obtain rfl := hfst
    exact dataRequest_files hr
  have hfiles : files₂ = (capturedLists v).getLastD sent := by
    rw [hsent]
    exact files_eq_getLastD hbetween
  obtain ⟨r, hr, hpair⟩ := Option.map_eq_some_iff.mp hserve
  obtain ⟨-, hresult⟩ := Prod.mk.inj hpair
  obtain rfl := ServingOutput.served.inj hresult
  rw [ServedFrom, ← hfiles, ← serverFileContentsRequest_eq]
  exact hr

def packFileDescriptor (descriptor : FileDescriptor) : Bytes :=
  leUInt32 descriptor.dwFlags ++ List.replicate 32 0 ++ leUInt32 descriptor.dwFileAttributes ++
    List.replicate 24 0 ++ leUInt32 descriptor.nFileSizeHigh ++ leUInt32 descriptor.nFileSizeLow ++
    descriptor.cFileName.toList.flatMap leUInt16

def packFileList : SerializeFileList := fun flags fds =>
  if flags &&& cbStreamFileclipEnabled = 0 then (errorBadArguments, none)
  else (channelRcOk, some (leUInt32 (UInt32.ofNat fds.length) ++ fds.flatMap packFileDescriptor))

theorem length_packFileDescriptor (descriptor : FileDescriptor) :
    (packFileDescriptor descriptor).length = 592 := by
  simp [packFileDescriptor, length_flatMap_of_length length_leUInt16]

/-- The list of one file is handed out to a server that asks for it. -/
theorem packFileList_single (file : ClipboardInfoFile) : ∃ bytes,
    fileListAnswer packFileList none [file] = some (.fileList [file] bytes) ∧
      bytes.length = 596 := by
  obtain ⟨descriptor, hdescriptor⟩ := Option.isSome_iff_exists.mp (describeFile_isSome file)
  have hpack : packFileList cbStreamFileclipEnabled [descriptor] =
      (channelRcOk, some (leUInt32 1 ++ packFileDescriptor descriptor)) := by
    rw [packFileList, if_neg (by decide)]
    simp
  have hlen : (leUInt32 1 ++ packFileDescriptor descriptor).length = 596 := by
    rw [List.length_append, length_leUInt32, length_packFileDescriptor]
  refine ⟨_, ?_, hlen⟩
  have hne : leUInt32 1 ++ packFileDescriptor descriptor ≠ [] :=
    List.ne_nil_of_length_pos (by omega)
  rw [fileListAnswer, if_neg (by simp)]
  simp [hdescriptor, fileListFlags, hpack, hne, channelRcOk]

def olderFile : ClipboardInfoFile := ⟨Qt.ofAscii "a", Qt.ofAscii "/a", 3, false⟩

def newerFile : ClipboardInfoFile := ⟨Qt.ofAscii "b", Qt.ofAscii "/b", 5, false⟩

def copied (file : ClipboardInfoFile) : MimeData where
  hasText := true
  text := file.localPath
  hasImage := false
  imageData := ⟨true, none, none⟩
  hasUrls := true
  urls := [⟨some file.localPath⟩]

def askFirstSize : ServingInput :=
  .fileContentsRequest (fun _ => none) ⟨5, 0, fileContentsSize, 0, 0, 8, none⟩

def olderFileSent (bytes : Bytes) (packets : List Bytes) : List ServingEvent :=
  [(.dataChanged true false (copied olderFile) [olderFile],
      .advertised (some [⟨clipboardFormatFile, some clipboardFormatFileName⟩])),
    (.formatDataRequest none (some (copied olderFile)) clipboardFormatFile,
      .answered (.fileList [olderFile] bytes) packets)]

theorem olderFileSent_execution : ∃ bytes packets,
    Execution (servingStep .permissive packFileList) [] (olderFileSent bytes packets)
      [olderFile] := by
  obtain ⟨bytes, hanswer, hlen⟩ := packFileList_single olderFile
  have hurls : (copied olderFile).hasUrls = true := rfl
  have hsend := dataRequest_fileList CliprdrPlugin.permissive_ready hurls hanswer (by omega)
  have hcaptured : servingStep .permissive packFileList []
      (.dataChanged true false (copied olderFile) [olderFile]) = some ([olderFile],
        .advertised (some [⟨clipboardFormatFile, some clipboardFormatFileName⟩])) := rfl
  have hanswered : servingStep .permissive packFileList [olderFile]
      (.formatDataRequest none (some (copied olderFile)) clipboardFormatFile) =
        some ([olderFile], .answered (.fileList [olderFile] bytes)
          [packet cbFormatDataResponse cbResponseOk bytes]) := by
    simp only [servingStep, hsend, Option.map_some]
  exact ⟨bytes, _, (Execution.single hcaptured).snoc hanswered⟩

def newerFileCopied : ServingEvent :=
  (.dataChanged true false (copied newerFile) [newerFile],
    .advertised (some [⟨clipboardFormatFile, some clipboardFormatFileName⟩]))

/-- The size is asked for before the newer file is copied, and again after that. -/
theorem contents_served_from_latest_list_two_files :
    ∃ bytes packets result result', Execution (servingStep .permissive packFileList) []
        (olderFileSent bytes packets ++ [(askFirstSize, .served result)] ++ [newerFileCopied] ++
          [(askFirstSize, .served result')]) [newerFile] ∧
      ServedFrom .permissive (fun _ => none) ⟨5, 0, fileContentsSize, 0, 0, 8, none⟩
        (some olderFile) result ∧
      ServedFrom .permissive (fun _ => none) ⟨5, 0, fileContentsSize, 0, 0, 8, none⟩
        (some newerFile) result' := by
  obtain ⟨bytes, packets, hsent⟩ := olderFileSent_execution
  have hserved : servingStep .permissive packFileList [olderFile] askFirstSize =
      some ([olderFile], .served (channelRcOk,
        [fileContentsResponsePacket cbResponseOk 5 (leUInt64 3)])) := rfl
  have hcopied : servingStep .permissive packFileList [olderFile] newerFileCopied.1 =
      some ([newerFile], newerFileCopied.2) := rfl
  have hagain : servingStep .permissive packFileList [newerFile] askFirstSize =
      some ([newerFile], .served (channelRcOk,
        [fileContentsResponsePacket cbResponseOk 5 (leUInt64 5)])) := rfl
  have hfirst := hsent.snoc hserved
  have hrun := (hfirst.snoc hcopied).snoc hagain
  exact ⟨bytes, packets, _, _, hrun,
    contents_served_from_latest_list (u := [_]) (v := []) (w := []) hfirst rfl,
    contents_served_from_latest_list (u := [_]) (v := [_, _]) (w := []) hrun rfl⟩

/-- The clipboard changes after the descriptors were sent, and the size that the server
gets is that of the newer file. -/
theorem size_of_newer_file_served :
    ∃ bytes packets, Execution (servingStep .permissive packFileList) []
        (olderFileSent bytes packets ++ [newerFileCopied] ++
          [(askFirstSize,
              .served (channelRcOk, [fileContentsResponsePacket cbResponseOk 5 (leUInt64 5)]))])
        [newerFile] ∧
      ¬ ServedFrom .permissive (fun _ => none) ⟨5, 0, fileContentsSize, 0, 0, 8, none⟩
        (some olderFile)
        (channelRcOk, [fileContentsResponsePacket cbResponseOk 5 (leUInt64 5)]) := by
  obtain ⟨bytes, packets, hsent⟩ := olderFileSent_execution
  exact ⟨bytes, packets, (hsent.snoc rfl).snoc rfl, by decide⟩

end QfClient
