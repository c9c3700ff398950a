import Mathlib.Logic.Function.Basic
import QfClient.Basic
import QfClient.LittleEndian
import QfClient.Slot

/-!
# Downloading a remote file

`download_remote_file` asks for the size of a file and then for one chunk after
the other. `DownloadState` says which request comes next, and `resume` is what
the function does with the result of that request, up to its next one. Whether
the local file can be opened and written is an input, `LocalIo`.
-/

namespace QfClient

open LittleEndian

/-- `remote_file_job`; `batch` numbers the batch it belongs to. -/
structure RemoteFileJob where
  listIndex : UInt32
  displayName : QString
  localPath : QString
  batch : ℕ
  deriving DecidableEq, Repr

abbrev LocalFiles := QString → Option Bytes

namespace LocalFiles

variable (files : LocalFiles) (path : QString)

/-- `open(WriteOnly | Truncate)`. -/
def truncate : LocalFiles := Function.update files path (some [])

def append (chunk : Bytes) : LocalFiles :=
  Function.update files path ((files path).map (· ++ chunk))

def remove : LocalFiles := Function.update files path none

end LocalFiles

structure LocalIo where
  opens : Bool
  writes : Bool
  deriving DecidableEq, Repr

def LocalIo.succeeds : LocalIo := ⟨true, true⟩

inductive DownloadState where
  | querySize
  | fetch (fileSize offset : UInt64)
  | returned (path : Option QString)
  deriving DecidableEq, Repr

def chunkSize : UInt32 := 64 * 1024

/-- `std::min<uint64_t>(chunkSize, fileSize - offset)`, cast to 32 bits. -/
def bytesToRequest (fileSize offset : UInt64) : UInt32 :=
  if fileSize - offset < chunkSize.toUInt64 then (fileSize - offset).toUInt32 else chunkSize

def requestRemoteSize (streamId listIndex : UInt32) : FileContentsRequest where
  streamId := streamId
  listIndex := listIndex
  dwFlags := fileContentsSize
  nPositionLow := 0
  nPositionHigh := 0
  cbRequested := 8
  clipDataId := none

def requestRemoteRange (streamId listIndex : UInt32) (offset : UInt64) (bytesToRequest : UInt32) :
    FileContentsRequest where
  streamId := streamId
  listIndex := listIndex
  dwFlags := fileContentsRange
  nPositionLow := low32 offset
  nPositionHigh := high32 offset
  cbRequested := bytesToRequest
  clipDataId := none

namespace DownloadState

def kind : DownloadState → RemoteRequestKind
  | querySize => .size
  | fetch _ _ => .range
  | returned _ => .none

def request (job : RemoteFileJob) (streamId : UInt32) : DownloadState → Option FileContentsRequest
  | querySize => some (requestRemoteSize streamId job.listIndex)
  | fetch fileSize offset =>
      some (requestRemoteRange streamId job.listIndex offset (bytesToRequest fileSize offset))
  | returned _ => none

end DownloadState

/-- The test of the chunk loop. -/
def chunkLoop (job : RemoteFileJob) (fileSize offset : UInt64) : DownloadState :=
  if offset < fileSize then .fetch fileSize offset else .returned (some job.localPath)

/-- What follows `request_remote_size`; `result` is what the wait returned. -/
def sizeAnswered (io : LocalIo) (job : RemoteFileJob) (files : LocalFiles) (result : Option Bytes) :
    DownloadState × LocalFiles :=
  match result with
  | none => (.returned none, files)
  | some data =>
      if data.length < 8 then (.returned none, files)
      else if io.opens then
        (chunkLoop job (UInt64.ofNat (leNat (data.take 8))) 0, files.truncate job.localPath)
      else (.returned none, files)

def rangeAnswered (io : LocalIo) (job : RemoteFileJob) (fileSize offset : UInt64)
    (files : LocalFiles) (result : Option Bytes) : DownloadState × LocalFiles :=
  match result with
  | none => (.returned none, files.remove job.localPath)
  | some chunk =>
      if UInt32.ofNat chunk.length ≠ bytesToRequest fileSize offset then
        (.returned none, files.remove job.localPath)
      else if io.writes then
        (chunkLoop job fileSize (offset + UInt64.ofNat chunk.length),
          files.append job.localPath chunk)
      else (.returned none, files.remove job.localPath)

/-- `download_remote_file` from the result of one request to the next request. -/
def DownloadState.resume (io : LocalIo) (job : RemoteFileJob) (files : LocalFiles)
    (result : Option Bytes) : DownloadState → DownloadState × LocalFiles
  | querySize => sizeAnswered io job files result
  | fetch fileSize offset => rangeAnswered io job fileSize offset files result
  | returned path => (.returned path, files)

theorem requestRemoteRange_asks (streamId listIndex : UInt32) (offset : UInt64) (count : UInt32) :
    ¬ (requestRemoteRange streamId listIndex offset count).asksSize ∧
      (requestRemoteRange streamId listIndex offset count).asksRange := by
  have hsize : ¬ fileContentsRange &&& fileContentsSize ≠ 0 := by decide
  have hrange : fileContentsRange &&& fileContentsRange ≠ 0 := by decide
  exact ⟨hsize, hrange⟩

theorem requestRemoteSize_asks (streamId listIndex : UInt32) :
    (requestRemoteSize streamId listIndex).asksSize := by
  have hsize : fileContentsSize &&& fileContentsSize ≠ 0 := by decide
  exact hsize

theorem bytesToRequest_toNat {fileSize offset : UInt64} (h : offset < fileSize) :
    (bytesToRequest fileSize offset).toNat = min 65536 (fileSize.toNat - offset.toNat) := by
  have hle : offset ≤ fileSize := UInt64.le_of_lt h
  have hsub := UInt64.toNat_sub_of_le fileSize offset hle
  have hchunk : chunkSize.toUInt64.toNat = 65536 := rfl
  simp only [bytesToRequest]
  split_ifs with hsmall
  · rw [UInt64.lt_iff_toNat_lt, hsub, hchunk] at hsmall
    rw [UInt64.toNat_toUInt32, hsub]
    omega
  · rw [UInt64.lt_iff_toNat_lt, hsub, hchunk] at hsmall
    change 65536 = _
    omega

/-- A size answer of eight bytes starts the chunk loop on the truncated file. -/
theorem sizeAnswered_size (job : RemoteFileJob) (files : LocalFiles) (fileSize : UInt64) :
    sizeAnswered .succeeds job files (some (leUInt64 fileSize)) =
      (chunkLoop job fileSize 0, files.truncate job.localPath) := by
  have htake : (leUInt64 fileSize).take 8 = leUInt64 fileSize :=
    List.take_of_length_le (by rw [length_leUInt64])
  simp only [sizeAnswered, length_leUInt64, lt_irrefl, if_false, LocalIo.succeeds, if_true, htake,
    ofNat_leNat_leUInt64]

/-- A chunk of the requested size is appended. -/
theorem rangeAnswered_chunk {job : RemoteFileJob} {fileSize offset : UInt64} (files : LocalFiles)
    {chunk : Bytes} (h : chunk.length = (bytesToRequest fileSize offset).toNat) :
    rangeAnswered .succeeds job fileSize offset files (some chunk) =
      (chunkLoop job fileSize (offset + UInt64.ofNat chunk.length),
        files.append job.localPath chunk) := by
  have hlen : UInt32.ofNat chunk.length = bytesToRequest fileSize offset := by
    rw [h, UInt32.ofNat_toNat]
  simp only [rangeAnswered, hlen, ne_eq, not_true, if_false, LocalIo.succeeds, if_true]

end QfClient
