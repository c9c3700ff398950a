import QfClient.Entry

/-!
# Batch accounting

The counter of a batch is the number of its jobs that are queued or running, and
the batch is published when that number is zero, once. The jobs leave the queue
in the order in which they entered it, and none of them is lost.
-/

namespace QfClient

open Machine

def jobOf (io : EnqueueIo) (number : ℕ) (rootPath : QString) (entry : ClipboardInfoFile × ℕ) :
    Option RemoteFileJob :=
  let relativePath := safeRemoteRelativePath entry.1.displayName
  if relativePath = [] ∨ entry.1.isDirectory = true ∨ entry.2 ∈ io.failing then none
  else some
    { listIndex := UInt32.ofNat entry.2
      displayName := entry.1.displayName
      localPath := localPathOf rootPath relativePath
      batch := number }

variable {io : EnqueueIo} {number : ℕ}

@[simp] theorem addTopPath_remaining (batch : RemoteFileBatch) (topPath : QString) :
    (batch.addTopPath topPath).remaining = batch.remaining := by
  unfold RemoteFileBatch.addTopPath
  split_ifs <;> rfl

@[simp] theorem addTopPath_rootPath (batch : RemoteFileBatch) (topPath : QString) :
    (batch.addTopPath topPath).rootPath = batch.rootPath := by
  unfold RemoteFileBatch.addTopPath
  split_ifs <;> rfl

theorem enqueueEntry_eq (io : EnqueueIo) (number i : ℕ) (file : ClipboardInfoFile)
    (jobs : List RemoteFileJob) (batch : RemoteFileBatch) :
    (enqueueEntry io number i file jobs batch).1 =
        jobs ++ (jobOf io number batch.rootPath (file, i)).toList ∧
      (enqueueEntry io number i file jobs batch).2.remaining =
        batch.remaining + (jobOf io number batch.rootPath (file, i)).toList.length ∧
      (enqueueEntry io number i file jobs batch).2.rootPath = batch.rootPath := by
  unfold enqueueEntry jobOf
  by_cases hpath : safeRemoteRelativePath file.displayName = []
  · simp [hpath]
  · by_cases hdir : file.isDirectory = true
    · simp [hpath, hdir]
    · by_cases hio : i ∈ io.failing
      · simp [hpath, hdir, hio]
      · simp [hpath, hdir, hio]

/-- One job for each entry that gets one, in the order of the list. -/
theorem enqueueEntries_eq (io : EnqueueIo) (number i : ℕ) (files : List ClipboardInfoFile)
    (jobs : List RemoteFileJob) (batch : RemoteFileBatch) :
    (enqueueEntries io number i files jobs batch).1 =
        jobs ++ (files.zipIdx i).filterMap (jobOf io number batch.rootPath) ∧
      (enqueueEntries io number i files jobs batch).2.remaining =
        batch.remaining + ((files.zipIdx i).filterMap (jobOf io number batch.rootPath)).length ∧
      (enqueueEntries io number i files jobs batch).2.rootPath = batch.rootPath := by
  induction files generalizing i jobs batch with
  | nil => simp [enqueueEntries]
  | cons file files ih =>
      obtain ⟨hjobs, hremaining, hroot⟩ := enqueueEntry_eq io number i file jobs batch
      obtain ⟨hjobs', hremaining', hroot'⟩ := ih (i + 1)
        (enqueueEntry io number i file jobs batch).1 (enqueueEntry io number i file jobs batch).2
      rw [hroot] at hjobs' hremaining' hroot'
      have hsplit : ((file :: files).zipIdx i).filterMap (jobOf io number batch.rootPath) =
          (jobOf io number batch.rootPath (file, i)).toList ++
            (files.zipIdx (i + 1)).filterMap (jobOf io number batch.rootPath) := by
        rw [List.zipIdx_cons, List.filterMap_cons]
        cases jobOf io number batch.rootPath (file, i) <;> rfl
      refine ⟨?_, ?_, hroot'⟩
      · rw [enqueueEntries, hjobs', hjobs, hsplit, List.append_assoc]
      · rw [enqueueEntries, hremaining', hremaining, hsplit, List.length_append, Nat.add_assoc]

theorem jobOf_batch {rootPath : QString} {entry : ClipboardInfoFile × ℕ} {job : RemoteFileJob}
    (h : jobOf io number rootPath entry = some job) : job.batch = number := by
  simp only [jobOf] at h
  split_ifs at h
  exact (Option.some.inj h) ▸ rfl

/-- The jobs and the counter of a new batch. -/
theorem enqueueEntries_new {files : List ClipboardInfoFile} {rootPath : QString}
    {jobs : List RemoteFileJob} {batch : RemoteFileBatch}
    (h : enqueueEntries io number 0 files [] ⟨0, rootPath, []⟩ = (jobs, batch)) :
    jobs = files.zipIdx.filterMap (jobOf io number rootPath) ∧ batch.remaining = jobs.length ∧
      batch.rootPath = rootPath ∧ ∀ job ∈ jobs, job.batch = number := by
  obtain ⟨hjobs, hremaining, hroot⟩ := enqueueEntries_eq io number 0 files [] ⟨0, rootPath, []⟩
  rw [h, List.nil_append] at hjobs
  rw [h, Nat.zero_add] at hremaining
  rw [h] at hroot
  dsimp only at hjobs hremaining hroot
  refine ⟨hjobs, by rw [hremaining, hjobs], hroot, fun job hjob => ?_⟩
  rw [hjobs] at hjob
  obtain ⟨entry, -, hentry⟩ := List.mem_filterMap.mp hjob
  exact jobOf_batch hentry

def enqueuedJobs (t : List EntryEvent) : List RemoteFileJob :=
  t.flatMap (fun
    | (_, .enqueued _ jobs _) => jobs
    | _ => [])

def completedJobs (t : List EntryEvent) : List RemoteFileJob :=
  t.filterMap (fun
    | (_, .completed job _) => some job
    | _ => none)

def droppedJobs (t : List EntryEvent) : List RemoteFileJob :=
  t.filterMap (fun
    | (_, .dropped job) => some job
    | _ => none)

def publishes : EntryEvent → Option ℕ
  | (_, .enqueued _ _ publication) => publication.map Publication.batch
  | (_, .completed _ publication) => publication.map Publication.batch
  | _ => none

def publishCount (b : ℕ) (t : List EntryEvent) : ℕ := t.countP (fun ev => publishes ev = some b)

theorem enqueuedJobs_append (t u : List EntryEvent) :
    enqueuedJobs (t ++ u) = enqueuedJobs t ++ enqueuedJobs u := List.flatMap_append

theorem completedJobs_append (t u : List EntryEvent) :
    completedJobs (t ++ u) = completedJobs t ++ completedJobs u := List.filterMap_append

theorem droppedJobs_append (t u : List EntryEvent) :
    droppedJobs (t ++ u) = droppedJobs t ++ droppedJobs u := List.filterMap_append

theorem publishCount_append_singleton (b : ℕ) (t : List EntryEvent) (ev : EntryEvent) :
    publishCount b (t ++ [ev]) = publishCount b t + if publishes ev = some b then 1 else 0 := by
  rw [publishCount, List.countP_append, List.countP_singleton]
  simp only [decide_eq_true_eq]
  rfl

namespace ClipboardEntry

variable (e : ClipboardEntry)

def current : Option RemoteFileJob :=
  match e.worker with
  | .picked _ job => some job
  | .downloading job _ => some job
  | _ => none

def queued (b : ℕ) : ℕ := e.jobs.countP (fun job => job.batch = b)

def running (b : ℕ) : ℕ := e.current.toList.countP (fun job => job.batch = b)

end ClipboardEntry

structure BatchAccounting (t : List EntryEvent) (e : ClipboardEntry) : Prop where
  counts : ∀ b batch, e.batches[b]? = some batch → batch.remaining = e.queued b + e.running b
  numbered : ∀ job ∈ e.current.toList ++ e.jobs, job.batch < e.batches.length
  published : ∀ b, publishCount b t =
    if b < e.batches.length ∧ e.queued b + e.running b = 0 then 1 else 0
  fifo : enqueuedJobs t = completedJobs t ++ (e.current.toList ++ e.jobs)
  undropped : droppedJobs t = []
  context : e.jobs ≠ [] → e.context = true
  picked : ∀ job, e.worker ≠ .picked false job

def isInert : EntryOutput → Bool
  | .enqueued _ _ _ => false
  | .completed _ _ => false
  | .dropped _ => false
  | _ => true

variable {t : List EntryEvent} {e e' : ClipboardEntry} {i : EntryInput} {o : EntryOutput}

theorem inert_event (h : isInert o = true) :
    enqueuedJobs [(i, o)] = [] ∧ completedJobs [(i, o)] = [] ∧ droppedJobs [(i, o)] = [] ∧
      publishes (i, o) = none := by
  cases o <;> first | exact ⟨rfl, rfl, rfl, rfl⟩ | exact absurd h (by simp [isInert])

theorem counts_eq_of_jobs
    (hjobs : e'.current.toList ++ e'.jobs = e.current.toList ++ e.jobs) (b : ℕ) :
    e'.queued b + e'.running b = e.queued b + e.running b := by
  have hb := congrArg (List.countP (fun job => job.batch = b)) hjobs
  rw [List.countP_append, List.countP_append] at hb
  rw [Nat.add_comm, Nat.add_comm (e.queued b)]
  exact hb

theorem current_startRemoteFileWorker (e : ClipboardEntry) :
    (startRemoteFileWorker e).current = e.current := by
  unfold startRemoteFileWorker
  split_ifs with hworker
  · simp only [ClipboardEntry.current, hworker]
  · rfl

theorem picked_startRemoteFileWorker (h : ∀ job, e.worker ≠ .picked false job)
    (job : RemoteFileJob) : (startRemoteFileWorker e).worker ≠ .picked false job := by
  unfold startRemoteFileWorker
  split_ifs with hworker
  · simp
  · exact h job

inductive BatchEffect (e : ClipboardEntry) (o : EntryOutput) (e' : ClipboardEntry) : Prop
  | inert : isInert o = true → e'.batches = e.batches →
      e'.current.toList ++ e'.jobs = e.current.toList ++ e.jobs → BatchEffect e o e'
  | enqueued (io : EnqueueIo) (files : List ClipboardInfoFile) (rootPath : QString)
      (jobs : List RemoteFileJob) (batch : RemoteFileBatch) :
      enqueueEntries io e.batches.length 0 files [] ⟨0, rootPath, []⟩ = (jobs, batch) →
      o = .enqueued e.batches.length jobs (if batch.remaining = 0 then
        some (publishRemoteBatch e.rdpViewItem e.batches.length batch) else none) →
      e'.batches = e.batches ++ [batch] → e'.jobs = e.jobs ++ jobs →
      e'.current = e.current → BatchEffect e o e'
  | completed (job : RemoteFileJob) : e.current = some job → o = (completeJob e job).2 →
      e' = (completeJob e job).1 → BatchEffect e o e'

theorem batchEffect {env : EntryEnv} (hpicked : ∀ job, e.worker ≠ .picked false job)
    (hs : entryStep env e i = some (e', o)) : BatchEffect e o e' := by
  cases entryStep_cases hs with
  | refused | armed | sent | responded | stopped => exact .inert rfl rfl rfl
  | noRoot files io =>
      refine .inert rfl (startRemoteFileWorker_batches e) ?_
      exact congrArg₂ _ (congrArg _ (current_startRemoteFileWorker e))
        (startRemoteFileWorker_jobs e)
  | enqueued files io jobs batch hnew =>
      exact .enqueued io files.1 _ jobs batch hnew rfl rfl rfl (current_startRemoteFileWorker e)
  | exited hidle =>
      refine .inert rfl rfl ?_
      simp [ClipboardEntry.current, hidle]
  | popped job jobs hidle _ hjobs =>
      refine .inert rfl rfl ?_
      simp [ClipboardEntry.current, hidle, hjobs]
  | dropped job hdropped => exact absurd hdropped (hpicked job)
  | started job hstarted =>
      refine .inert rfl rfl ?_
      simp [ClipboardEntry.current, hstarted]
  | reset job state slot o hworker =>
      refine .inert rfl rfl ?_
      simp [ClipboardEntry.current, hworker, resumeDownload]
  | waited io job state slot streamId result hworker =>
      refine .inert rfl rfl ?_
      simp [ClipboardEntry.current, hworker, resumeDownload]
  | completed job path hworker =>
      refine .completed job ?_ rfl rfl
      rw [ClipboardEntry.current, hworker]

/-- A queued job has a context, and so has the job that is picked. -/
theorem context_step {env : EntryEnv} (hcontext : e.jobs ≠ [] → e.context = true)
    (hpicked : ∀ job, e.worker ≠ .picked false job) (hs : entryStep env e i = some (e', o)) :
    (e'.jobs ≠ [] → e'.context = true) ∧ ∀ job, e'.worker ≠ .picked false job := by
  cases entryStep_cases hs with
  | refused | armed | sent | responded | stopped => exact ⟨hcontext, hpicked⟩
  | noRoot | enqueued => exact ⟨fun _ => rfl, picked_startRemoteFileWorker hpicked⟩
  | exited | started => exact ⟨hcontext, fun job => by simp⟩
  | popped job jobs hidle _ hjobs =>
      have hset : e.context = true := hcontext (by simp [hjobs])
      exact ⟨fun _ => hset, fun job' => by simp [hset]⟩
  | dropped job hdropped => exact absurd hdropped (hpicked job)
  | reset | waited => exact ⟨hcontext, fun job => by simp [resumeDownload]⟩
  | completed => exact ⟨hcontext, fun job => by simp [completeJob]⟩

/-- A step that leaves the batches alone and the jobs in their order. -/
theorem BatchAccounting.inert (h : BatchAccounting t e) (ho : isInert o = true)
    (hbatches : e'.batches = e.batches)
    (hjobs : e'.current.toList ++ e'.jobs = e.current.toList ++ e.jobs)
    (hcontext : e'.jobs ≠ [] → e'.context = true) (hpicked : ∀ job, e'.worker ≠ .picked false job) :
    BatchAccounting (t ++ [(i, o)]) e' := by
  obtain ⟨henqueued, hcompleted, hdropped, hpublishes⟩ := inert_event (i := i) ho
  have hcount := counts_eq_of_jobs hjobs
  refine ⟨?_, ?_, ?_, ?_, ?_, hcontext, hpicked⟩
  · intro b batch hb
    rw [hbatches] at hb
    rw [hcount, h.counts b batch hb]
  · rw [hjobs, hbatches]
    exact h.numbered
  · intro b
    rw [publishCount_append_singleton, hpublishes, hbatches, hcount, h.published b]
    simp
  · rw [enqueuedJobs_append, completedJobs_append, henqueued, hcompleted, hjobs, List.append_nil,
      List.append_nil, h.fifo]
  · rw [droppedJobs_append, h.undropped, hdropped]
    rfl

theorem ite_some_ne {p : Prop} [Decidable p] {a b : ℕ} (h : a ≠ b) :
    (if p then some a else none) ≠ some b := by
  split_ifs
  · simpa using h
  · simp

theorem publishes_enqueued (jobs : List RemoteFileJob) (rdpViewItem : Bool) (number : ℕ)
    (batch : RemoteFileBatch) :
    publishes (i, .enqueued number jobs (if batch.remaining = 0 then
        some (publishRemoteBatch rdpViewItem number batch) else none)) =
      if batch.remaining = 0 then some number else none := by
  simp only [publishes]
  split_ifs <;> rfl

theorem countP_batch_of_forall {jobs : List RemoteFileJob} {number : ℕ}
    (h : ∀ job ∈ jobs, job.batch = number) (b : ℕ) :
    jobs.countP (fun job => job.batch = b) = if b = number then jobs.length else 0 := by
  split_ifs with hb
  · rw [hb, List.countP_eq_length]
    simpa using h
  · rw [List.countP_eq_zero]
    intro job hjob
    rw [h job hjob]
    simpa using fun he => hb he.symm

/-- No job belongs to a batch that does not exist yet. -/
theorem BatchAccounting.no_job_beyond (h : BatchAccounting t e) {b : ℕ}
    (hb : e.batches.length ≤ b) : e.queued b + e.running b = 0 := by
  have hnone : ∀ job ∈ e.current.toList ++ e.jobs, ¬ decide (job.batch = b) = true := by
    intro job hjob
    have hlt := h.numbered job hjob
    simp only [decide_eq_true_eq]
    omega
  have hcount := List.countP_eq_zero.mpr hnone
  rw [List.countP_append] at hcount
  rw [Nat.add_comm]
  exact hcount

/-- A list whose root directory was created becomes a batch with its jobs queued
behind all others. -/
theorem BatchAccounting.enqueued {files : List ClipboardInfoFile} {rootPath : QString}
    {jobs : List RemoteFileJob} {batch : RemoteFileBatch} (h : BatchAccounting t e)
    (hnew : enqueueEntries io e.batches.length 0 files [] ⟨0, rootPath, []⟩ = (jobs, batch))
    (hbatches : e'.batches = e.batches ++ [batch]) (hjobs : e'.jobs = e.jobs ++ jobs)
    (hcurrent : e'.current = e.current) (hcontext : e'.jobs ≠ [] → e'.context = true)
    (hpicked : ∀ job, e'.worker ≠ .picked false job) :
    BatchAccounting (t ++ [(i, .enqueued e.batches.length jobs (if batch.remaining = 0 then
      some (publishRemoteBatch e.rdpViewItem e.batches.length batch) else none))]) e' := by
  obtain ⟨-, hremaining, -, hnumber⟩ := enqueueEntries_new hnew
  have hrunning : ∀ b, e'.running b = e.running b := by
    intro b
    rw [ClipboardEntry.running, hcurrent]
    rfl
  have hqueued : ∀ b, e'.queued b =
      e.queued b + if b = e.batches.length then batch.remaining else 0 := by
    intro b
    rw [ClipboardEntry.queued, hjobs, List.countP_append, countP_batch_of_forall hnumber,
      hremaining]
    rfl
  have hlength : e'.batches.length = e.batches.length + 1 := by
    rw [hbatches, List.length_append, List.length_singleton]
  refine ⟨?_, ?_, ?_, ?_, ?_, hcontext, hpicked⟩
  · intro b batch' hb
    rw [hbatches] at hb
    rcases Nat.lt_trichotomy b e.batches.length with hlt | rfl | hgt
    · rw [List.getElem?_append_left hlt] at hb
      rw [hqueued, hrunning, if_neg (by omega), Nat.add_zero]
      exact h.counts b batch' hb
    · rw [List.getElem?_concat_length] at hb
      obtain rfl := Option.some.inj hb
      have hzero := h.no_job_beyond (Nat.le_refl _)
      rw [hqueued, hrunning, if_pos rfl]
      omega
    · rw [List.getElem?_eq_none (by rw [List.length_append, List.length_singleton]; omega)] at hb
      exact absurd hb (by simp)
  · intro job hjob
    rw [hlength]
    rw [hcurrent, hjobs, ← List.append_assoc] at hjob
    rcases List.mem_append.mp hjob with hjob | hjob
    · exact Nat.lt_succ_of_lt (h.numbered job hjob)
    · rw [hnumber job hjob]
      exact Nat.lt_succ_self _
  · intro b
    rw [publishCount_append_singleton, h.published b, hqueued, hrunning, hlength,
      publishes_enqueued]
    rcases Nat.lt_trichotomy b e.batches.length with hlt | rfl | hgt
    · have hne : (if batch.remaining = 0 then some e.batches.length else none) ≠ some b :=
        ite_some_ne (Nat.ne_of_gt hlt)
      simp only [if_neg hne, hlt, Nat.lt_succ_of_lt hlt, Nat.ne_of_lt hlt, if_false, true_and,
        Nat.add_zero]
    · have hzero := h.no_job_beyond (Nat.le_refl _)
      rw [if_neg (fun hand => absurd hand.1 (Nat.lt_irrefl _)), if_pos rfl]
      by_cases hbatch : batch.remaining = 0
      · simp [hbatch]
        omega
      · simp [hbatch]
    · have hne : (if batch.remaining = 0 then some e.batches.length else none) ≠ some b :=
        ite_some_ne (Nat.ne_of_lt hgt)
      rw [if_neg hne, if_neg (by omega), if_neg (by omega)]
  · rw [enqueuedJobs_append, completedJobs_append, h.fifo, hcurrent, hjobs]
    simp [enqueuedJobs, completedJobs]
  · rw [droppedJobs_append, h.undropped]
    rfl

theorem completeJob_getElem? {job : RemoteFileJob} {batch : RemoteFileBatch}
    (hbatch : e.batches[job.batch]? = some batch) (b : ℕ) :
    (completeJob e job).1.batches[b]? = if job.batch = b then
      some { batch with remaining := batch.remaining - 1 } else e.batches[b]? := by
  rw [completeJob, List.getElem?_modify]
  split_ifs with hb
  · rw [← hb, hbatch]
    rfl
  · simp

theorem publishes_completeJob {job : RemoteFileJob} {batch : RemoteFileBatch}
    (hbatch : e.batches[job.batch]? = some batch) :
    publishes (i, (completeJob e job).2) =
      if batch.remaining - 1 = 0 then some job.batch else none := by
  have hsome := completeJob_getElem? hbatch job.batch
  rw [if_pos rfl] at hsome
  simp only [completeJob] at hsome ⊢
  simp only [hsome, publishes]
  split_ifs <;> rfl

/-- Only the counter of a batch changes. -/
theorem batch_step {env : EntryEnv} (hpicked : ∀ job, e.worker ≠ .picked false job)
    (hs : entryStep env e i = some (e', o)) {b : ℕ} {batch : RemoteFileBatch}
    (hb : e.batches[b]? = some batch) :
    ∃ remaining, e'.batches[b]? = some { batch with remaining := remaining } := by
  cases batchEffect hpicked hs with
  | inert ho hbatches => exact ⟨batch.remaining, by rw [hbatches, hb]⟩
  | enqueued io files rootPath jobs new hnew ho hbatches =>
      refine ⟨batch.remaining, ?_⟩
      rw [hbatches, List.getElem?_append_left (List.getElem?_eq_some_iff.mp hb).1, hb]
  | completed job hcurrent ho he =>
      subst he
      by_cases hjob : job.batch = b
      · subst hjob
        exact ⟨_, (completeJob_getElem? hb _).trans (if_pos rfl)⟩
      · refine ⟨batch.remaining, ?_⟩
        change (e.batches.modify job.batch _)[b]? = some batch
        simp [hjob, hb]

/-- The job that is done leaves its batch, which is published with its last job. -/
theorem BatchAccounting.completed {job : RemoteFileJob} (h : BatchAccounting t e)
    (hcurrent : e.current = some job) :
    BatchAccounting (t ++ [(i, (completeJob e job).2)]) (completeJob e job).1 := by
  have hnone : (completeJob e job).1.current = none := rfl
  have hjobs : (completeJob e job).1.jobs = e.jobs := rfl
  have hrunning : ∀ b, e.running b = if job.batch = b then 1 else 0 := by
    intro b
    rw [ClipboardEntry.running, hcurrent, Option.toList_some, List.countP_singleton]
    simp only [decide_eq_true_eq]
  have hlt : job.batch < e.batches.length := h.numbered job (by rw [hcurrent]; simp)
  have hlength : (completeJob e job).1.batches.length = e.batches.length :=
    List.length_modify _ _ _
  obtain ⟨batch, hbatch⟩ : ∃ batch, e.batches[job.batch]? = some batch :=
    ⟨_, List.getElem?_eq_getElem hlt⟩
  have hcount := h.counts job.batch batch hbatch
  rw [hrunning, if_pos rfl] at hcount
  have hpublishes : publishes (i, (completeJob e job).2) =
      if e.queued job.batch = 0 then some job.batch else none := by
    rw [publishes_completeJob hbatch, hcount, Nat.add_sub_cancel]
  refine ⟨?_, ?_, ?_, ?_, ?_, ?_, ?_⟩
  · intro b batch' hb
    rw [completeJob_getElem? hbatch] at hb
    have hzero : (completeJob e job).1.running b = 0 := rfl
    have hsame : (completeJob e job).1.queued b = e.queued b := rfl
    rw [hzero, hsame]
    split_ifs at hb with hjb
    · obtain rfl := Option.some.inj hb
      subst hjb
      change batch.remaining - 1 = _
      omega
    · rw [h.counts b batch' hb, hrunning, if_neg hjb]
  · intro job' hjob'
    rw [hlength]
    rw [hnone, hjobs] at hjob'
    exact h.numbered job' (List.mem_append_right _ (by simpa using hjob'))
  · intro b
    have hzero : (completeJob e job).1.running b = 0 := rfl
    have hsame : (completeJob e job).1.queued b = e.queued b := rfl
    rw [publishCount_append_singleton, h.published b, hpublishes, hzero, hsame, hlength, hrunning]
    by_cases hb : job.batch = b
    · subst hb
      by_cases hq : e.queued job.batch = 0
      · simp [hq, hlt]
      · simp [hq]
    · have hne : (if e.queued job.batch = 0 then some job.batch else none) ≠ some b :=
        ite_some_ne hb
      simp only [if_neg hne, if_neg hb, Nat.add_zero]
  · rw [enqueuedJobs_append, completedJobs_append, h.fifo, hnone, hjobs, hcurrent]
    simp [enqueuedJobs, completedJobs, completeJob]
  · rw [droppedJobs_append, h.undropped]
    rfl
  · exact h.context
  · intro job'
    simp [completeJob]

theorem batchAccounting_step {env : EntryEnv} (h : BatchAccounting t e)
    (hs : entryStep env e i = some (e', o)) : BatchAccounting (t ++ [(i, o)]) e' := by
  obtain ⟨hcontext, hpicked⟩ := context_step h.context h.picked hs
  cases batchEffect h.picked hs with
  | inert ho hbatches hjobs => exact h.inert ho hbatches hjobs hcontext hpicked
  | enqueued io files rootPath jobs batch hnew ho hbatches hjobs hcurrent =>
      subst ho
      exact h.enqueued hnew hbatches hjobs hcurrent hcontext hpicked
  | completed job hcurrent ho he =>
      subst ho he
      exact h.completed hcurrent

theorem batchAccounting {env : EntryEnv} {files : LocalFiles} {rdpViewItem : Bool}
    (h : Execution (entryStep env) (.initial files rdpViewItem) t e) : BatchAccounting t e := by
  induction h with
  | nil =>
      refine ⟨?_, ?_, ?_, rfl, rfl, ?_, ?_⟩
      · intro b batch hb
        exact absurd hb (by simp [ClipboardEntry.initial])
      · simp [ClipboardEntry.initial, ClipboardEntry.current]
      · intro b
        simp [publishCount, ClipboardEntry.initial]
      · simp [ClipboardEntry.initial]
      · simp [ClipboardEntry.initial]
  | snoc _ hs ih => exact batchAccounting_step ih hs

/-- In every state reached, the counter of a batch is the number of its jobs that
are queued or running, and the batch has been published once if that is zero and
never otherwise. The jobs that were enqueued are those completed, the one running
and those queued, in this order, and none was dropped. -/
theorem batch_accounting {env : EntryEnv} {files : LocalFiles} {rdpViewItem : Bool}
    (h : Execution (entryStep env) (.initial files rdpViewItem) t e) :
    (∀ b batch, e.batches[b]? = some batch →
      batch.remaining = e.queued b + e.running b ∧ e.running b ≤ 1 ∧
        publishCount b t = if e.queued b + e.running b = 0 then 1 else 0) ∧
    enqueuedJobs t = completedJobs t ++ (e.current.toList ++ e.jobs) ∧ droppedJobs t = [] := by
  have haccounting := batchAccounting h
  refine ⟨fun b batch hb => ⟨haccounting.counts b batch hb, ?_, ?_⟩, haccounting.fifo,
    haccounting.undropped⟩
  · refine Nat.le_trans List.countP_le_length ?_
    cases e.current <;> simp
  · obtain ⟨hlt, -⟩ := List.getElem?_eq_some_iff.mp hb
    rw [haccounting.published b]
    simp only [hlt, true_and]

def failedDownload : List EntryInput :=
  [.enqueue true ⟨[⟨Qt.ofAscii "a", [], 0, false⟩], by decide⟩ ⟨true, []⟩, .pop, .start, .request,
    .send channelRcBadProc, .reset, .complete]

theorem batch_accounting_failed_download :
    ∃ t e, run (entryStep ⟨[Qt.slash], 1⟩) (.initial (fun _ => none) true) failedDownload =
      some (e, t) ∧ publishCount 0 t = 1 ∧ droppedJobs t = [] := by
  obtain ⟨t, e, hrun, hlength, hjobs, hcurrent⟩ : ∃ t e,
      run (entryStep ⟨[Qt.slash], 1⟩) (.initial (fun _ => none) true) failedDownload =
        some (e, t) ∧ 0 < e.batches.length ∧ e.jobs = [] ∧ e.current = none :=
    ⟨_, _, rfl, by decide, rfl, rfl⟩
  obtain ⟨hbatches, -, hdropped⟩ := batch_accounting (Execution.of_run hrun)
  have hpublished := (hbatches 0 _ (List.getElem?_eq_getElem hlength)).2.2
  rw [ClipboardEntry.queued, ClipboardEntry.running, hjobs, hcurrent] at hpublished
  exact ⟨t, e, hrun, hpublished, hdropped⟩

end QfClient
