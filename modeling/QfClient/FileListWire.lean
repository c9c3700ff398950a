import QfClient.LocalServing
import QfClient.TextRoundTrip

/-!
# File lists on the wire

The captured list is handed out as an array of descriptors, and such an array is read
back into a list of remote files. Every entry comes back with its size, its kind and as
much of its name as a descriptor holds.
-/

namespace QfClient

open LittleEndian Qt

/-- A name that `QString::fromUtf16` reads to its end and without a byte order mark. -/
structure IsWireName (name : QString) : Prop extends Unmarked name where
  nul_notMem : 0 ∉ name

/-- What `cliprdr_parse_file_list` makes of the data of `cliprdr_serialize_file_list_ex`.
The data is not empty, and its size is a `UINT32`. -/
structure ParsesBack (serialize : SerializeFileList)
    (parse : Bytes → Except UInt32 (List FileDescriptor)) : Prop where
  parse_serialize : ∀ flags fds bytes, serialize flags fds = (0, some bytes) →
    parse bytes = .ok fds
  ne_nil : ∀ flags fds bytes, serialize flags fds = (0, some bytes) → bytes ≠ []
  length_lt : ∀ flags fds bytes, serialize flags fds = (0, some bytes) → bytes.length < 2 ^ 32

/-- What the other side knows of a captured file. -/
def receivedFile (file : ClipboardInfoFile) : ClipboardInfoFile where
  displayName := file.displayName.take 259
  localPath := file.displayName.take 259
  total := if file.isDirectory then 0 else file.total
  isDirectory := file.isDirectory

variable {name rest : QString} {file : ClipboardInfoFile} {files : List ClipboardInfoFile}
  {serialize : SerializeFileList} {parse : Bytes → Except UInt32 (List FileDescriptor)}

theorem takeWhile_terminated (h : 0 ∉ name) (rest : QString) :
    (name ++ 0 :: rest).takeWhile (· ≠ 0) = name := by
  have hname : ∀ unit ∈ name, decide (unit ≠ 0) = true := by
    intro unit hunit
    have hne : unit ≠ 0 := fun he => h (he ▸ hunit)
    simpa using hne
  rw [List.takeWhile_append_of_pos hname, List.takeWhile_cons_of_neg (by simp), List.append_nil]

theorem IsWireName.take (h : IsWireName name) (n : ℕ) : IsWireName (name.take n) := by
  cases name with
  | nil =>
      rw [List.take_nil]
      exact h
  | cons unit name =>
      cases n with
      | zero => exact ⟨⟨by simp, by simp⟩, List.not_mem_nil⟩
      | succ n =>
          exact ⟨⟨h.noMark, h.noSwappedMark⟩, fun hmem => h.nul_notMem (List.mem_of_mem_take hmem)⟩

theorem fromUtf16_terminated (h : IsWireName name) (rest : QString) :
    fromUtf16 (name ++ 0 :: rest) = name := by
  rw [fromUtf16, takeWhile_terminated h.nul_notMem, h.toUnmarked.fromUtf16Sized]

/-- The size and the kind of a file can be read off its descriptor. -/
theorem describeFile_fields {descriptor : FileDescriptor}
    (h : describeFile file = some descriptor) :
    join32 descriptor.nFileSizeHigh descriptor.nFileSizeLow =
        (if file.isDirectory then 0 else file.total) ∧
      decide (descriptor.dwFileAttributes &&& fileAttributeDirectory ≠ 0) = file.isDirectory := by
  have hattribute : ∀ isDirectory : Bool,
      decide ((if isDirectory then fileAttributeDirectory else fileAttributeNormal) &&&
        fileAttributeDirectory ≠ 0) = isDirectory := by decide
  obtain ⟨stored, -, rfl⟩ := Option.map_eq_some_iff.mp h
  exact ⟨join32_high32_low32 _, hattribute _⟩

/-- One entry there and back. -/
theorem remoteFile_describeFile (hname : IsWireName file.displayName) :
    ∃ descriptor, describeFile file = some descriptor ∧
      remoteFile descriptor = receivedFile file := by
  obtain ⟨descriptor, hdescriptor⟩ := Option.isSome_iff_exists.mp (describeFile_isSome file)
  refine ⟨descriptor, hdescriptor, ?_⟩
  obtain ⟨rest, hbuffer⟩ := toList_qfCopyFileDescriptorName hdescriptor
  have hdisplay : fromUtf16 descriptor.cFileName.toList = file.displayName.take 259 := by
    rw [hbuffer, fromUtf16_terminated (hname.take 259)]
  obtain ⟨htotal, hattributes⟩ := describeFile_fields hdescriptor
  simp only [remoteFile, receivedFile, hdisplay, htotal]
  rw [hattributes]

theorem mapM_describeFile (hnames : ∀ file ∈ files, IsWireName file.displayName) :
    ∃ fds, files.mapM describeFile = some fds ∧ fds.map remoteFile = files.map receivedFile := by
  induction files with
  | nil => exact ⟨[], rfl, rfl⟩
  | cons file files ih =>
      obtain ⟨descriptor, hdescriptor, hreceived⟩ :=
        remoteFile_describeFile (hnames file List.mem_cons_self)
      obtain ⟨fds, hfds, hrest⟩ := ih fun file hfile => hnames file (List.mem_cons_of_mem _ hfile)
      refine ⟨descriptor :: fds, ?_, ?_⟩
      · rw [List.mapM_cons, hdescriptor, hfds]
        rfl
      · rw [List.map_cons, List.map_cons, hreceived, hrest]

/-- A list whose data would not fit a `UINT32` is refused. -/
def serializeFileListEx : SerializeFileList := fun flags fds =>
  if 4 + 592 * fds.length < 2 ^ 32 then packFileList flags fds else (errorInternalError, none)

def unitsVector (units : List UInt16) : Vector UInt16 260 :=
  if h : units.length = 260 then ⟨units.toArray, h⟩ else Vector.replicate 260 0

def unpackFileDescriptor (bytes : Bytes) : FileDescriptor where
  dwFlags := uint32At bytes 0
  dwFileAttributes := uint32At bytes 36
  nFileSizeHigh := uint32At bytes 64
  nFileSizeLow := uint32At bytes 68
  cFileName := unitsVector (char16Units (bytes.drop 72))

def readDescriptors : ℕ → Bytes → List FileDescriptor
  | 0, _ => []
  | n + 1, bytes => unpackFileDescriptor (bytes.take 592) :: readDescriptors n (bytes.drop 592)

def parseFileList (bytes : Bytes) : Except UInt32 (List FileDescriptor) :=
  if bytes.length < 4 then .error errorInvalidData
  else
    let count := (uint32At bytes 0).toNat
    if bytes.length ≠ 4 + 592 * count then .error errorInvalidData
    else .ok (readDescriptors count (bytes.drop 4))

theorem unitsVector_toList (name : Vector UInt16 260) : unitsVector name.toList = name := by
  rw [unitsVector, dif_pos Vector.length_toList]
  rfl

theorem unpack_packFileDescriptor (descriptor : FileDescriptor) :
    unpackFileDescriptor (packFileDescriptor descriptor) = descriptor := by
  obtain ⟨flags, attributes, high, low, name⟩ := descriptor
  have hflags : uint32At (packFileDescriptor ⟨flags, attributes, high, low, name⟩) 0 = flags := by
    simp only [packFileDescriptor, List.append_assoc, uint32At_zero]
  have hattributes :
      uint32At (packFileDescriptor ⟨flags, attributes, high, low, name⟩) 36 = attributes := by
    simp only [packFileDescriptor]
    rw [List.append_assoc, List.append_assoc, List.append_assoc, List.append_assoc,
      uint32At_append _ (by simp), uint32At_zero]
  have hhigh : uint32At (packFileDescriptor ⟨flags, attributes, high, low, name⟩) 64 = high := by
    simp only [packFileDescriptor]
    rw [List.append_assoc, List.append_assoc, uint32At_append _ (by simp), uint32At_zero]
  have hlow : uint32At (packFileDescriptor ⟨flags, attributes, high, low, name⟩) 68 = low := by
    simp only [packFileDescriptor]
    rw [List.append_assoc, uint32At_append _ (by simp), uint32At_zero]
  have hname : (packFileDescriptor ⟨flags, attributes, high, low, name⟩).drop 72 =
      name.toList.flatMap leUInt16 := by
    simp only [packFileDescriptor]
    exact List.drop_left' (by simp)
  rw [unpackFileDescriptor, hflags, hattributes, hhigh, hlow, hname, char16Units_flatMap,
    unitsVector_toList]

theorem readDescriptors_flatMap (fds : List FileDescriptor) :
    readDescriptors fds.length (fds.flatMap packFileDescriptor) = fds := by
  induction fds with
  | nil => rfl
  | cons descriptor fds ih =>
      have hlength := length_packFileDescriptor descriptor
      rw [List.flatMap_cons, List.length_cons, readDescriptors, List.take_left' hlength,
        List.drop_left' hlength, ih, unpack_packFileDescriptor]

theorem parsesBack_serializeFileListEx : ParsesBack serializeFileListEx parseFileList := by
  have hbytes : ∀ flags fds bytes, serializeFileListEx flags fds = (0, some bytes) →
      4 + 592 * fds.length < 2 ^ 32 ∧
        bytes = leUInt32 (UInt32.ofNat fds.length) ++ fds.flatMap packFileDescriptor := by
    intro flags fds bytes h
    unfold serializeFileListEx packFileList at h
    split_ifs at h with hlength hflags
    · exact absurd (Prod.mk.inj h).2 (by simp)
    · exact ⟨hlength, (Option.some.inj (Prod.mk.inj h).2).symm⟩
    · exact absurd (Prod.mk.inj h).2 (by simp)
  have hsize : ∀ fds : List FileDescriptor,
      (leUInt32 (UInt32.ofNat fds.length) ++ fds.flatMap packFileDescriptor).length =
        4 + 592 * fds.length := by
    intro fds
    rw [List.length_append, length_leUInt32, length_flatMap_of_length length_packFileDescriptor]
  constructor
  · intro flags fds bytes h
    obtain ⟨hlength, rfl⟩ := hbytes flags fds bytes h
    have hcount : (UInt32.ofNat fds.length).toNat = fds.length :=
      UInt32.toNat_ofNat_of_lt' (lt_of_le_of_lt (by omega) hlength)
    rw [parseFileList, hsize, if_neg (by omega), uint32At_zero, hcount]
    simp only [ne_eq, not_true_eq_false, if_false, List.drop_left' (length_leUInt32 _),
      readDescriptors_flatMap]
  · intro flags fds bytes h
    obtain ⟨-, rfl⟩ := hbytes flags fds bytes h
    apply List.ne_nil_of_length_pos
    rw [hsize]
    omega
  · intro flags fds bytes h
    obtain ⟨hlength, rfl⟩ := hbytes flags fds bytes h
    rw [hsize]
    exact hlength

/-- A captured list is described without a write outside a name, and what the server is
sent of it, once it has been serialised, reads back as the same list with the names cut
at 259 units. -/
theorem file_list_survives_wire (hparse : ParsesBack serialize parse)
    (remoteFlags : Option UInt32) (files : List ClipboardInfoFile) (mimeData : MimeData)
    (client : RemoteFormats) (hne : files ≠ [])
    (hnames : ∀ file ∈ files, IsWireName file.displayName) (hurls : mimeData.hasUrls = true)
    (hrequested : client.requestedRemoteFormatName = clipboardFormatFileName) :
    ∃ fds, files.mapM describeFile = some fds ∧
      ∀ bytes, serialize (fileListFlags remoteFlags) fds = (0, some bytes) →
        ∃ response,
          (localFormatData serialize remoteFlags files mimeData clipboardFormatFile).bind
            FormatDataAnswer.response = some response ∧
          qfCliprdrServerFormatDataResponseCallBack parse client response =
            .fileList (.ok (files.map receivedFile)) := by
  obtain ⟨fds, hfds, hreceived⟩ := mapM_describeFile hnames
  refine ⟨fds, hfds, fun bytes hbytes => ⟨⟨cbResponseOk, bytes⟩, ?_, ?_⟩⟩
  · have hanswer : fileListAnswer serialize remoteFlags files = some (.fileList files bytes) := by
      unfold fileListAnswer
      rw [if_neg hne, hfds]
      simp only [hbytes]
      exact if_neg (not_or.mpr ⟨not_not_intro rfl, hparse.ne_nil _ _ _ hbytes⟩)
    rw [localFormatData, if_neg (fun htext => absurd htext.2 (by decide)),
      if_neg (fun hdib => absurd hdib.2 (by decide)),
      if_neg (fun hpng => absurd hpng.2 (by decide)), if_pos ⟨hurls, rfl⟩, hanswer,
      Option.bind_some, FormatDataAnswer.response,
      Nat.mod_eq_of_lt (hparse.length_lt _ _ _ hbytes), List.take_length]
  · rw [qfCliprdrServerFormatDataResponseCallBack, if_neg (not_not_intro rfl), if_pos hrequested,
      hparse.parse_serialize _ _ _ hbytes]
    rw [← hreceived]
    rfl

def copiedDirectory : ClipboardInfoFile := ⟨ofAscii "d", ofAscii "/d", 4096, true⟩

theorem file_list_survives_wire_file_and_directory : ∃ response,
    (localFormatData serializeFileListEx none [olderFile, copiedDirectory] (copied olderFile)
        clipboardFormatFile).bind FormatDataAnswer.response = some response ∧
      qfCliprdrServerFormatDataResponseCallBack parseFileList
          { RemoteFormats.initial with requestedRemoteFormatName := clipboardFormatFileName }
          response =
        .fileList (.ok [⟨ofAscii "a", ofAscii "a", 3, false⟩,
          ⟨ofAscii "d", ofAscii "d", 0, true⟩]) := by
  have hnames : ∀ file ∈ [olderFile, copiedDirectory], IsWireName file.displayName := by
    intro file hfile
    rcases List.mem_cons.mp hfile with rfl | hfile
    · exact ⟨⟨by decide, by decide⟩, by decide⟩
    · rw [List.mem_singleton.mp hfile]
      exact ⟨⟨by decide, by decide⟩, by decide⟩
  obtain ⟨fds, hfds, hsent⟩ := file_list_survives_wire parsesBack_serializeFileListEx none
    [olderFile, copiedDirectory] (copied olderFile)
    { RemoteFormats.initial with requestedRemoteFormatName := clipboardFormatFileName }
    (List.cons_ne_nil _ _) hnames rfl rfl
  obtain ⟨first, hfirst⟩ := Option.isSome_iff_exists.mp (describeFile_isSome olderFile)
  obtain ⟨second, hsecond⟩ := Option.isSome_iff_exists.mp (describeFile_isSome copiedDirectory)
  obtain rfl : [first, second] = fds := by
    simpa [List.mapM_cons, hfirst, hsecond] using hfds
  have hserialized : serializeFileListEx (fileListFlags none) [first, second] =
      (0, some (leUInt32 2 ++ [first, second].flatMap packFileDescriptor)) := by
    rw [serializeFileListEx, if_pos (by simp), packFileList, if_neg (by decide)]
    rfl
  exact hsent _ hserialized

end QfClient
