import QfClient.Download
import QfClient.RemotePath

/-!
# The remote file worker

`enqueueRemoteFileList` turns a file list of the server into a batch of jobs, and
the worker thread takes the jobs from the queue, downloads them and publishes a
batch when its last job is done. `entryStep` interleaves the two with the
responses of the server. The sections under `m_remote_mutex` are single steps;
what the worker does on its own after such a section belongs to the same step.
-/

namespace QfClient

open Machine

structure RemoteFileBatch where
  remaining : ℕ
  rootPath : QString
  topPaths : List QString
  deriving DecidableEq, Repr

/-- A parsed file list; its length is a `UINT32`. -/
abbrev RemoteFileList := { files : List ClipboardInfoFile // files.length < 4294967296 }

/-- The outcomes of `mkpath` in one call: whether the root directory can be
created, and the entries that fail. -/
structure EnqueueIo where
  rootCreated : Bool
  failing : List ℕ
  deriving DecidableEq, Repr

structure EntryEnv where
  tempPath : QString
  applicationPid : ℕ
  deriving DecidableEq, Repr

/-- Where the worker stands in `remote_file_worker_loop`; `absent` is no thread. -/
inductive WorkerPc where
  | absent
  | idle
  | picked (context : Bool) (job : RemoteFileJob)
  | downloading (job : RemoteFileJob) (state : DownloadState)
  | exited
  deriving DecidableEq, Repr

/-- `clipboard_entry`. The batches are all that were ever created; a job names
its batch by the position in this list. -/
structure ClipboardEntry where
  slot : RemoteSlot
  jobs : List RemoteFileJob
  context : Bool
  batches : List RemoteFileBatch
  nextBatchId : ℕ
  worker : WorkerPc
  files : LocalFiles
  rdpViewItem : Bool

def ClipboardEntry.initial (files : LocalFiles) (rdpViewItem : Bool) : ClipboardEntry where
  slot := .initial
  jobs := []
  context := false
  batches := []
  nextBatchId := 1
  worker := .absent
  files := files
  rdpViewItem := rdpViewItem

/-- A call of `publish_remote_batch`: the batch, and the paths it posts, if any. -/
structure Publication where
  batch : ℕ
  posted : Option (List QString)
  deriving DecidableEq, Repr

inductive EntryInput where
  | enqueue (context : Bool) (files : RemoteFileList) (io : EnqueueIo)
  | pop
  | start
  | request
  | send (rc : UInt32)
  | reset
  | wait (io : LocalIo)
  | complete
  | response (response : FileContentsResponse)
  | stop
  deriving DecidableEq

inductive EntryOutput where
  | ignored
  | enqueued (batch : ℕ) (jobs : List RemoteFileJob) (publication : Option Publication)
  | popped (job : RemoteFileJob)
  | exited
  | dropped (job : RemoteFileJob)
  | started (job : RemoteFileJob)
  | armed (kind : RemoteRequestKind) (request : FileContentsRequest)
  | sent (request : FileContentsRequest)
  | failed
  | waited (streamId : UInt32) (result : Option Bytes)
  | completed (job : RemoteFileJob) (publication : Option Publication)
  | responded (accepted : Bool)
  | stopped
  deriving DecidableEq, Repr

abbrev EntryEvent := EntryInput × EntryOutput

def makeRemoteBatchRoot (env : EntryEnv) (batchId : ℕ) : QString :=
  Qt.filePath env.tempPath
    (Qt.ofAscii ("qfreerdp-clipboard-" ++ toString env.applicationPid ++ "-" ++ toString batchId))

def RemoteFileBatch.addTopPath (batch : RemoteFileBatch) (topPath : QString) : RemoteFileBatch :=
  if topPath ∈ batch.topPaths then batch
  else { batch with topPaths := batch.topPaths ++ [topPath] }

/-- The body of the loop over the entries. -/
def enqueueEntry (io : EnqueueIo) (number : ℕ) (i : ℕ) (file : ClipboardInfoFile)
    (jobs : List RemoteFileJob) (batch : RemoteFileBatch) : List RemoteFileJob × RemoteFileBatch :=
  let relativePath := safeRemoteRelativePath file.displayName
  if relativePath = [] then (jobs, batch)
  else
    let batch := batch.addTopPath (topPathOf batch.rootPath relativePath)
    if file.isDirectory then (jobs, batch)
    else if i ∈ io.failing then (jobs, batch)
    else
      let job : RemoteFileJob :=
        { listIndex := UInt32.ofNat i
          displayName := file.displayName
          localPath := localPathOf batch.rootPath relativePath
          batch := number }
      (jobs ++ [job], { batch with remaining := batch.remaining + 1 })

def enqueueEntries (io : EnqueueIo) (number : ℕ) : ℕ → List ClipboardInfoFile →
    List RemoteFileJob → RemoteFileBatch → List RemoteFileJob × RemoteFileBatch
  | _, [], jobs, batch => (jobs, batch)
  | i, file :: files, jobs, batch =>
      let next := enqueueEntry io number i file jobs batch
      enqueueEntries io number (i + 1) files next.1 next.2

/-- `publish_remote_batch`; the posted paths reach the view through its event loop. -/
def publishRemoteBatch (rdpViewItem : Bool) (number : ℕ) (batch : RemoteFileBatch) : Publication :=
  ⟨number, if batch.topPaths = [] ∨ rdpViewItem = false then none else some batch.topPaths⟩

def startRemoteFileWorker (e : ClipboardEntry) : ClipboardEntry :=
  if e.worker = .absent then
    { e with slot := { e.slot with stopped := false }, worker := .idle }
  else e

/-- `enqueue_remote_file_list` once the root directory exists. -/
def enqueueBatch (e : ClipboardEntry) (rootPath : QString) (files : List ClipboardInfoFile)
    (io : EnqueueIo) : ClipboardEntry × EntryOutput :=
  let number := e.batches.length
  let new := enqueueEntries io number 0 files [] ⟨0, rootPath, []⟩
  ({ e with jobs := e.jobs ++ new.1, batches := e.batches ++ [new.2] },
    .enqueued number new.1
      (if new.2.remaining = 0 then some (publishRemoteBatch e.rdpViewItem number new.2) else none))

def enqueueRemoteFileList (env : EntryEnv) (e : ClipboardEntry) (context : Bool)
    (files : List ClipboardInfoFile) (io : EnqueueIo) : ClipboardEntry × EntryOutput :=
  if context = false ∨ files = [] then (e, .ignored)
  else
    let e := startRemoteFileWorker e
    let rootPath := makeRemoteBatchRoot env e.nextBatchId
    let e := { e with context := context, nextBatchId := e.nextBatchId + 1 }
    if io.rootCreated then enqueueBatch e rootPath files io else (e, .ignored)

/-- What follows `download_remote_file` in the worker's loop. -/
def completeJob (e : ClipboardEntry) (job : RemoteFileJob) : ClipboardEntry × EntryOutput :=
  let batches := e.batches.modify job.batch (fun b => { b with remaining := b.remaining - 1 })
  ({ e with batches := batches, worker := .idle },
    .completed job
      (match batches[job.batch]? with
      | none => none
      | some batch =>
          if batch.remaining = 0 then some (publishRemoteBatch e.rdpViewItem job.batch batch)
          else none))

def resumeDownload (e : ClipboardEntry) (slot : RemoteSlot) (io : LocalIo) (job : RemoteFileJob)
    (state : DownloadState) (result : Option Bytes) : ClipboardEntry :=
  let next := state.resume io job e.files result
  { e with slot := slot, worker := .downloading job next.1, files := next.2 }

def entryStep (env : EntryEnv) : Step ClipboardEntry EntryInput EntryOutput
  | e, .enqueue context files io => some (enqueueRemoteFileList env e context files.1 io)
  | e, .pop =>
      match e.worker with
      | .idle =>
          if e.slot.stopped then some ({ e with worker := .exited }, .exited)
          else
            match e.jobs with
            | [] => none
            | job :: jobs =>
                some ({ e with jobs := jobs, worker := .picked e.context job }, .popped job)
      | _ => none
  | e, .start =>
      match e.worker with
      | .picked context job =>
          if context then some ({ e with worker := .downloading job .querySize }, .started job)
          else some ({ e with worker := .idle }, .dropped job)
      | _ => none
  | e, .request =>
      match e.worker with
      | .downloading job state =>
          match state.request job (nextRemoteStreamId e.slot.nextStreamId).1,
            slotStep e.slot (.arm state.kind) with
          | some request, some (slot, _) =>
              some ({ e with slot := slot }, .armed state.kind request)
          | _, _ => none
      | _ => none
  | e, .send rc =>
      match e.worker, e.slot.pc with
      | .downloading job state, .armed streamId =>
          match state.request job streamId, slotStep e.slot (.send rc) with
          | some request, some (slot, _) => some ({ e with slot := slot }, .sent request)
          | _, _ => none
      | _, _ => none
  | e, .reset =>
      match e.worker with
      | .downloading job state =>
          match slotStep e.slot .reset with
          | some (slot, _) => some (resumeDownload e slot .succeeds job state none, .failed)
          | none => none
      | _ => none
  | e, .wait io =>
      match e.worker with
      | .downloading job state =>
          match slotStep e.slot .wait with
          | some (slot, .waited streamId result) =>
              some (resumeDownload e slot io job state result, .waited streamId result)
          | _ => none
      | _ => none
  | e, .complete =>
      match e.worker with
      | .downloading job (.returned _) => some (completeJob e job)
      | _ => none
  | e, .response response =>
      match slotStep e.slot (.response response) with
      | some (slot, .responded accepted) => some ({ e with slot := slot }, .responded accepted)
      | _ => none
  | e, .stop =>
      match slotStep e.slot .stop with
      | some (slot, _) => some ({ e with slot := slot }, .stopped)
      | none => none

inductive EntryStep (env : EntryEnv) (e : ClipboardEntry) :
    EntryInput → EntryOutput → ClipboardEntry → Prop
  | refused (context : Bool) (files : RemoteFileList) (io : EnqueueIo) :
      context = false ∨ files.1 = [] → EntryStep env e (.enqueue context files io) .ignored e
  | noRoot (files : RemoteFileList) (io : EnqueueIo) : io.rootCreated = false →
      EntryStep env e (.enqueue true files io) .ignored
        { startRemoteFileWorker e with context := true, nextBatchId := e.nextBatchId + 1 }
  | enqueued (files : RemoteFileList) (io : EnqueueIo) (jobs : List RemoteFileJob)
      (batch : RemoteFileBatch) :
      enqueueEntries io e.batches.length 0 files.1 []
        ⟨0, makeRemoteBatchRoot env e.nextBatchId, []⟩ = (jobs, batch) →
      EntryStep env e (.enqueue true files io)
        (.enqueued e.batches.length jobs (if batch.remaining = 0 then
          some (publishRemoteBatch e.rdpViewItem e.batches.length batch) else none))
        { startRemoteFileWorker e with
          context := true
          nextBatchId := e.nextBatchId + 1
          jobs := e.jobs ++ jobs
          batches := e.batches ++ [batch]
          rdpViewItem := e.rdpViewItem }
  | exited : e.worker = .idle → e.slot.stopped = true →
      EntryStep env e .pop .exited { e with worker := .exited }
  | popped (job : RemoteFileJob) (jobs : List RemoteFileJob) :
      e.worker = .idle → e.slot.stopped = false → e.jobs = job :: jobs →
      EntryStep env e .pop (.popped job) { e with jobs := jobs, worker := .picked e.context job }
  | dropped (job : RemoteFileJob) : e.worker = .picked false job →
      EntryStep env e .start (.dropped job) { e with worker := .idle }
  | started (job : RemoteFileJob) : e.worker = .picked true job →
      EntryStep env e .start (.started job) { e with worker := .downloading job .querySize }
  | armed (job : RemoteFileJob) (state : DownloadState) (request : FileContentsRequest)
      (slot : RemoteSlot) (o : SlotOutput) : e.worker = .downloading job state →
      state.request job (nextRemoteStreamId e.slot.nextStreamId).1 = some request →
      slotStep e.slot (.arm state.kind) = some (slot, o) →
      EntryStep env e .request (.armed state.kind request) { e with slot := slot }
  | sent (rc streamId : UInt32) (job : RemoteFileJob) (state : DownloadState)
      (request : FileContentsRequest) (slot : RemoteSlot) (o : SlotOutput) :
      e.worker = .downloading job state → e.slot.pc = .armed streamId →
      state.request job streamId = some request →
      slotStep e.slot (.send rc) = some (slot, o) →
      EntryStep env e (.send rc) (.sent request) { e with slot := slot }
  | reset (job : RemoteFileJob) (state : DownloadState) (slot : RemoteSlot) (o : SlotOutput) :
      e.worker = .downloading job state → slotStep e.slot .reset = some (slot, o) →
      EntryStep env e .reset .failed (resumeDownload e slot .succeeds job state none)
  | waited (io : LocalIo) (job : RemoteFileJob) (state : DownloadState) (slot : RemoteSlot)
      (streamId : UInt32) (result : Option Bytes) : e.worker = .downloading job state →
      slotStep e.slot .wait = some (slot, .waited streamId result) →
      EntryStep env e (.wait io) (.waited streamId result)
        (resumeDownload e slot io job state result)
  | completed (job : RemoteFileJob) (path : Option QString) :
      e.worker = .downloading job (.returned path) →
      EntryStep env e .complete (completeJob e job).2 (completeJob e job).1
  | responded (response : FileContentsResponse) (slot : RemoteSlot) (accepted : Bool) :
      slotStep e.slot (.response response) = some (slot, .responded accepted) →
      EntryStep env e (.response response) (.responded accepted) { e with slot := slot }
  | stopped (slot : RemoteSlot) (o : SlotOutput) : slotStep e.slot .stop = some (slot, o) →
      EntryStep env e .stop .stopped { e with slot := slot }

@[simp] theorem startRemoteFileWorker_jobs (e : ClipboardEntry) :
    (startRemoteFileWorker e).jobs = e.jobs := by
  unfold startRemoteFileWorker
  split_ifs <;> rfl

@[simp] theorem startRemoteFileWorker_batches (e : ClipboardEntry) :
    (startRemoteFileWorker e).batches = e.batches := by
  unfold startRemoteFileWorker
  split_ifs <;> rfl

@[simp] theorem startRemoteFileWorker_nextBatchId (e : ClipboardEntry) :
    (startRemoteFileWorker e).nextBatchId = e.nextBatchId := by
  unfold startRemoteFileWorker
  split_ifs <;> rfl

@[simp] theorem startRemoteFileWorker_rdpViewItem (e : ClipboardEntry) :
    (startRemoteFileWorker e).rdpViewItem = e.rdpViewItem := by
  unfold startRemoteFileWorker
  split_ifs <;> rfl

theorem enqueue_cases {env : EntryEnv} {e e' : ClipboardEntry} {context : Bool}
    {files : RemoteFileList} {io : EnqueueIo} {o : EntryOutput}
    (h : enqueueRemoteFileList env e context files.1 io = (e', o)) :
    EntryStep env e (.enqueue context files io) o e' := by
  unfold enqueueRemoteFileList at h
  split_ifs at h with hrefused hroot
  · obtain ⟨rfl, rfl⟩ := Prod.mk.inj h
    exact .refused context files io hrefused
  · obtain rfl : context = true := by
      simpa using (not_or.mp hrefused).1
    cases hnew : enqueueEntries io e.batches.length 0 files.1 []
        ⟨0, makeRemoteBatchRoot env e.nextBatchId, []⟩ with
    | mk jobs batch =>
        have hstep := EntryStep.enqueued files io jobs batch hnew
        simp only [enqueueBatch, startRemoteFileWorker_batches, startRemoteFileWorker_nextBatchId,
          startRemoteFileWorker_jobs, startRemoteFileWorker_rdpViewItem, hnew] at h
        obtain ⟨rfl, rfl⟩ := Prod.mk.inj h
        exact hstep
  · obtain rfl : context = true := by
      simpa using (not_or.mp hrefused).1
    have hstep := @EntryStep.noRoot env e files io (by simpa using hroot)
    simp only [startRemoteFileWorker_nextBatchId] at h
    obtain ⟨rfl, rfl⟩ := Prod.mk.inj h
    exact hstep

theorem entryStep_cases {env : EntryEnv} {e e' : ClipboardEntry} {i : EntryInput}
    {o : EntryOutput} (h : entryStep env e i = some (e', o)) : EntryStep env e i o e' := by
  cases i with
  | enqueue context files io => exact enqueue_cases (Option.some.inj h)
  | pop =>
      simp only [entryStep] at h
      split at h
      · rename_i hidle
        split_ifs at h with hstopped
        · obtain ⟨rfl, rfl⟩ := Prod.mk.inj (Option.some.inj h)
          exact .exited hidle hstopped
        · split at h
          · exact absurd h (by simp)
          · rename_i job jobs hjobs
            obtain ⟨rfl, rfl⟩ := Prod.mk.inj (Option.some.inj h)
            exact .popped job jobs hidle (by simpa using hstopped) hjobs
      · exact absurd h (by simp)
  | start =>
      simp only [entryStep] at h
      split at h
      · rename_i context job hpicked
        cases context with
        | true =>
            obtain ⟨rfl, rfl⟩ := Prod.mk.inj (Option.some.inj h)
            exact .started job hpicked
        | false =>
            obtain ⟨rfl, rfl⟩ := Prod.mk.inj (Option.some.inj h)
            exact .dropped job hpicked
      · exact absurd h (by simp)
  | request =>
      simp only [entryStep] at h
      split at h
      · rename_i job state hworker
        split at h
        · rename_i request slot o' hrequest hslot
          obtain ⟨rfl, rfl⟩ := Prod.mk.inj (Option.some.inj h)
          exact .armed job state request slot o' hworker hrequest hslot
        · exact absurd h (by simp)
      · exact absurd h (by simp)
  | send rc =>
      simp only [entryStep] at h
      split at h
      · rename_i job state streamId hworker hpc
        split at h
        · rename_i request slot o' hrequest hslot
          obtain ⟨rfl, rfl⟩ := Prod.mk.inj (Option.some.inj h)
          exact .sent rc streamId job state request slot o' hworker hpc hrequest hslot
        · exact absurd h (by simp)
      · exact absurd h (by simp)
  | reset =>
      simp only [entryStep] at h
      split at h
      · rename_i job state hworker
        split at h
        · rename_i slot o' hslot
          obtain ⟨rfl, rfl⟩ := Prod.mk.inj (Option.some.inj h)
          exact .reset job state slot o' hworker hslot
        · exact absurd h (by simp)
      · exact absurd h (by simp)
  | wait io =>
      simp only [entryStep] at h
      split at h
      · rename_i job state hworker
        split at h
        · rename_i slot streamId result hslot
          obtain ⟨rfl, rfl⟩ := Prod.mk.inj (Option.some.inj h)
          exact .waited io job state slot streamId result hworker hslot
        · exact absurd h (by simp)
      · exact absurd h (by simp)
  | complete =>
      simp only [entryStep] at h
      split at h
      · rename_i job path hworker
        rw [← (Prod.mk.inj (Option.some.inj h)).1, ← (Prod.mk.inj (Option.some.inj h)).2]
        exact .completed job path hworker
      · exact absurd h (by simp)
  | response response =>
      simp only [entryStep] at h
      split at h
      · rename_i slot accepted hslot
        obtain ⟨rfl, rfl⟩ := Prod.mk.inj (Option.some.inj h)
        exact .responded response slot accepted hslot
      · exact absurd h (by simp)
  | stop =>
      simp only [entryStep] at h
      split at h
      · rename_i slot o' hslot
        obtain ⟨rfl, rfl⟩ := Prod.mk.inj (Option.some.inj h)
        exact .stopped slot o' hslot
      · exact absurd h (by simp)

end QfClient
