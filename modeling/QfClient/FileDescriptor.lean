import QfClient.Basic
import QfClient.LittleEndian

/-!
# File descriptors

A file list crosses the wire as an array of `FILEDESCRIPTORW`, with the size in
two halves and the name in a buffer of 260 UTF-16 units. One direction fills in a
descriptor for every captured file, the other turns the descriptors of the server
into remote files.
-/

namespace QfClient

open LittleEndian

def fdAttributes : UInt32 := 0x4
def fdFileSize : UInt32 := 0x40

def fileAttributeDirectory : UInt32 := 0x10
def fileAttributeNormal : UInt32 := 0x80

/-- `FILEDESCRIPTORW`, without the times and the position that nobody fills in. -/
structure FileDescriptor where
  dwFlags : UInt32
  dwFileAttributes : UInt32
  nFileSizeHigh : UInt32
  nFileSizeLow : UInt32
  cFileName : Vector UInt16 260
  deriving DecidableEq

def FileDescriptor.zero : FileDescriptor where
  dwFlags := 0
  dwFileAttributes := 0
  nFileSizeHigh := 0
  nFileSizeLow := 0
  cFileName := Vector.replicate 260 0

/-- The units are stored one after the other; `none` is a store past the end. -/
def storeUnits (buffer : Vector UInt16 260) (i : ℕ) : List UInt16 → Option (Vector UInt16 260)
  | [] => some buffer
  | unit :: units => if h : i < 260 then storeUnits (buffer.set i unit h) (i + 1) units else none

def qfCopyFileDescriptorName (descriptor : FileDescriptor) (displayName : QString) :
    Option FileDescriptor :=
  let maxChars := 260 - 1
  let clippedName := displayName.take maxChars
  (storeUnits descriptor.cFileName 0 (clippedName ++ [0])).map
    (fun name => { descriptor with cFileName := name })

def describeFile (fileInfo : ClipboardInfoFile) : Option FileDescriptor :=
  let fileSize := if fileInfo.isDirectory then 0 else fileInfo.total
  qfCopyFileDescriptorName
    { FileDescriptor.zero with
      nFileSizeLow := low32 fileSize
      nFileSizeHigh := high32 fileSize
      dwFlags := fdFileSize ||| fdAttributes
      dwFileAttributes := if fileInfo.isDirectory then fileAttributeDirectory
        else fileAttributeNormal }
    fileInfo.displayName

def remoteFile (descriptor : FileDescriptor) : ClipboardInfoFile :=
  let displayName := Qt.fromUtf16 descriptor.cFileName.toList
  { displayName := displayName
    localPath := displayName
    total := join32 descriptor.nFileSizeHigh descriptor.nFileSizeLow
    isDirectory := descriptor.dwFileAttributes &&& fileAttributeDirectory ≠ 0 }

theorem storeUnits_isSome {buffer : Vector UInt16 260} {i : ℕ} {units : List UInt16}
    (h : i + units.length ≤ 260) : (storeUnits buffer i units).isSome := by
  induction units generalizing buffer i with
  | nil => rfl
  | cons unit units ih =>
      rw [List.length_cons] at h
      rw [storeUnits, dif_pos (by omega)]
      exact ih (by omega)

/-- The copy of a name stays inside the buffer, whatever the name. -/
theorem qfCopyFileDescriptorName_isSome (descriptor : FileDescriptor) (displayName : QString) :
    (qfCopyFileDescriptorName descriptor displayName).isSome := by
  rw [qfCopyFileDescriptorName, Option.isSome_map]
  apply storeUnits_isSome
  rw [List.length_append, List.length_take, List.length_singleton]
  omega

theorem describeFile_isSome (fileInfo : ClipboardInfoFile) : (describeFile fileInfo).isSome :=
  qfCopyFileDescriptorName_isSome _ _

/-- The units stand at their place, and the rest of the buffer is as it was. -/
theorem toList_storeUnits {buffer stored : Vector UInt16 260} {i : ℕ} {units : List UInt16}
    (h : storeUnits buffer i units = some stored) :
    stored.toList = buffer.toList.take i ++ units ++ buffer.toList.drop (i + units.length) := by
  induction units generalizing buffer i with
  | nil =>
      rw [← Option.some.inj h, List.append_nil, List.length_nil, Nat.add_zero,
        List.take_append_drop]
  | cons unit units ih =>
      rw [storeUnits] at h
      split_ifs at h with hi
      have hlength : (buffer.toList.take i).length = i := by
        rw [List.length_take, Vector.length_toList]
        omega
      have hset : (buffer.set i unit hi).toList =
          (buffer.toList.take i ++ [unit]) ++ buffer.toList.drop (i + 1) := by
        rw [Vector.toList_set, List.set_eq_take_append_cons_drop,
          if_pos (by rwa [Vector.length_toList]), List.append_assoc, List.singleton_append]
      have hfront : (buffer.toList.take i ++ [unit]).length = i + 1 := by
        rw [List.length_append, hlength, List.length_singleton]
      rw [ih h, hset, List.take_left' hfront, ← hfront, List.drop_length_add_append, hfront,
        List.drop_drop, List.length_cons, List.append_assoc _ [unit], List.singleton_append,
        Nat.add_assoc, Nat.add_comm 1]

def FileDescriptor.name (descriptor : FileDescriptor) : QString :=
  descriptor.cFileName.toList.takeWhile (· ≠ 0)

/-- The first 259 units of a name are copied, and a NUL behind them. -/
theorem toList_qfCopyFileDescriptorName {descriptor copied : FileDescriptor} {displayName : QString}
    (h : qfCopyFileDescriptorName descriptor displayName = some copied) :
    ∃ rest, copied.cFileName.toList = displayName.take 259 ++ 0 :: rest := by
  obtain ⟨name, hname, rfl⟩ := Option.map_eq_some_iff.mp h
  refine ⟨descriptor.cFileName.toList.drop (0 + (displayName.take 259 ++ [0]).length), ?_⟩
  rw [toList_storeUnits hname, List.take_zero, List.nil_append, List.append_assoc,
    List.singleton_append]

end QfClient
