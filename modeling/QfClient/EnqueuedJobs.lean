import QfClient.EntryBatches
import QfClient.FirstWins

/-!
# The jobs and paths of a file list

One pass over a remote file list queues the jobs of its batch, counts them and gathers
the paths that are published when they are done. What comes out is told here by the
list alone: the entries whose names are accepted, and those of them that are downloaded.
-/

namespace QfClient

open FirstWins

def acceptedEntries (files : List ClipboardInfoFile) : List (ClipboardInfoFile × ℕ) :=
  files.zipIdx.filter (fun entry => safeRemoteRelativePath entry.1.displayName ≠ [])

def entryTopPath (rootPath : QString) (entry : ClipboardInfoFile × ℕ) : QString :=
  topPathOf rootPath (safeRemoteRelativePath entry.1.displayName)

variable {io : EnqueueIo} {number : ℕ} {rootPath : QString} {files : List ClipboardInfoFile}
  {jobs : List RemoteFileJob} {batch : RemoteFileBatch}

theorem addTopPath_topPaths (batch : RemoteFileBatch) (topPath : QString) :
    (batch.addTopPath topPath).topPaths = addNew id batch.topPaths topPath := by
  unfold RemoteFileBatch.addTopPath addNew
  rw [List.map_id, id]
  split_ifs
  · rfl
  · rfl

/-- The path of an accepted entry is gathered, whatever comes of the entry. -/
theorem enqueueEntry_topPaths (io : EnqueueIo) (number i : ℕ) (file : ClipboardInfoFile)
    (jobs : List RemoteFileJob) (batch : RemoteFileBatch) :
    (enqueueEntry io number i file jobs batch).2.topPaths =
      if safeRemoteRelativePath file.displayName = [] then batch.topPaths
      else addNew id batch.topPaths (entryTopPath batch.rootPath (file, i)) := by
  have htop := addTopPath_topPaths batch (entryTopPath batch.rootPath (file, i))
  unfold enqueueEntry
  by_cases hpath : safeRemoteRelativePath file.displayName = []
  · simp only [if_pos hpath]
  · simp only [if_neg hpath]
    split_ifs
    · exact htop
    · exact htop
    · exact htop

theorem enqueueEntries_topPaths (io : EnqueueIo) (number i : ℕ) (files : List ClipboardInfoFile)
    (jobs : List RemoteFileJob) (batch : RemoteFileBatch) :
    (enqueueEntries io number i files jobs batch).2.topPaths =
      addAll id batch.topPaths
        (((files.zipIdx i).filter
          (fun entry => safeRemoteRelativePath entry.1.displayName ≠ [])).map
            (entryTopPath batch.rootPath)) := by
  induction files generalizing i jobs batch with
  | nil => rfl
  | cons file files ih =>
      obtain ⟨-, -, hroot⟩ := enqueueEntry_eq io number i file jobs batch
      rw [enqueueEntries, ih, hroot, enqueueEntry_topPaths, List.zipIdx_cons]
      by_cases hpath : safeRemoteRelativePath file.displayName = []
      · rw [if_pos hpath, List.filter_cons_of_neg (by simpa using hpath)]
      · rw [if_neg hpath, List.filter_cons_of_pos (by simpa using hpath), List.map_cons,
          addAll_cons]

end QfClient
