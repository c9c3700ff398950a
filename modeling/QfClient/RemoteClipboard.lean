import QfClient.EnqueuedJobs
import QfClient.PublicationOrder

/-!
# Remote files on the local clipboard

`publish_remote_batch` posts a call of `updateClipboardFilesFromRemote` to the
event loop of the view, which performs the posted calls in order and puts the
paths that exist on the clipboard. `sessionStep` runs the file worker and the
view side by side.
-/

namespace QfClient

open FirstWins Machine

/-- `updateClipboardFilesFromRemote` on the clipboard; `context` is the test for
the clipboard context. -/
def updateClipboardFilesFromRemote (context : Bool) (fileExists : QString → Bool)
    (clipboard : Option (List QString)) (paths : List QString) : Option (List QString) :=
  if context = false then clipboard
  else if paths = [] then clipboard
  else
    let urls := paths.filter fileExists
    if urls = [] then clipboard else some urls

/-- A performed call: the batch it was posted for, its paths, and those that exist. -/
structure ViewUpdate where
  batch : ℕ
  paths : List QString
  urls : List QString
  deriving DecidableEq, Repr

def ViewUpdate.call (update : ViewUpdate) : ℕ × List QString := (update.batch, update.paths)

structure ClipboardSession where
  entry : ClipboardEntry
  posted : List (ℕ × List QString)
  clipboard : Option (List QString)

def ClipboardSession.initial (files : LocalFiles) : ClipboardSession :=
  ⟨.initial files true, [], none⟩

inductive SessionInput where
  | entry (i : EntryInput)
  | update (fileExists : QString → Bool)

inductive SessionOutput where
  | entry (o : EntryOutput)
  | updated (update : ViewUpdate)
  deriving DecidableEq, Repr

def publicationOf : EntryOutput → Option Publication
  | .enqueued _ _ publication => publication
  | .completed _ publication => publication
  | _ => none

def postedCall (o : EntryOutput) : Option (ℕ × List QString) :=
  (publicationOf o).bind (fun publication => publication.posted.map (publication.batch, ·))

/-- A list can arrive only through a clipboard context, so the view has one. -/
def sessionStep (env : EntryEnv) : Step ClipboardSession SessionInput SessionOutput
  | s, .entry i =>
      match entryStep env s.entry i with
      | none => none
      | some (e, o) =>
          some ({ s with entry := e, posted := s.posted ++ (postedCall o).toList }, .entry o)
  | s, .update fileExists =>
      match s.posted with
      | [] => none
      | (batch, paths) :: posted =>
          some ({ s with
            posted := posted
            clipboard := updateClipboardFilesFromRemote true fileExists s.clipboard paths },
            .updated ⟨batch, paths, paths.filter fileExists⟩)

abbrev SessionTrace := Trace SessionInput SessionOutput

def toEntryEvent : SessionInput × SessionOutput → Option EntryEvent
  | (.entry i, .entry o) => some (i, o)
  | _ => none

def entryTrace (t : SessionTrace) : List EntryEvent := t.filterMap toEntryEvent

def updates (t : SessionTrace) : List ViewUpdate :=
  t.filterMap (fun
    | (_, .updated update) => some update
    | _ => none)

def postedCalls (t : List EntryEvent) : List (ℕ × List QString) :=
  t.filterMap (fun ev => postedCall ev.2)

def ViewUpdate.shown (update : ViewUpdate) : Option (List QString) :=
  if update.urls = [] then none else some update.urls

variable {env : EntryEnv} {localFiles : LocalFiles} {t : List EntryEvent} {e e' : ClipboardEntry}
  {i : EntryInput} {o : EntryOutput} {st : SessionTrace} {s s' : ClipboardSession}

theorem publishes_eq (i : EntryInput) (o : EntryOutput) :
    publishes (i, o) = (publicationOf o).map Publication.batch := by
  cases o <;> rfl

theorem publicationOf_inert (h : isInert o = true) : publicationOf o = none := by
  cases o <;> first | rfl | exact absurd h (by simp [isInert])

/-- A list with an accepted entry has a path to publish. -/
theorem topPaths_ne_nil (io : EnqueueIo) (number : ℕ) (rootPath : QString)
    {files : List ClipboardInfoFile} (h : Accepted files) :
    (enqueueEntries io number 0 files [] ⟨0, rootPath, []⟩).2.topPaths ≠ [] := by
  obtain ⟨file, hfile, hpath⟩ := h
  obtain ⟨i, hi⟩ := List.mem_iff_getElem?.mp hfile
  have haccepted : (file, i) ∈ acceptedEntries files :=
    List.mem_filter.mpr ⟨List.mem_zipIdx_iff_getElem?.mpr hi, by simpa using hpath⟩
  have htop : entryTopPath rootPath (file, i) ∈
      (addAll id [] ((acceptedEntries files).map (entryTopPath rootPath))).map id :=
    (addAll_keys _ _).mpr (Or.inr (List.mem_map_of_mem (List.mem_map_of_mem haccepted)))
  rw [enqueueEntries_topPaths]
  rw [List.map_id] at htop
  exact List.ne_nil_of_mem htop

structure PostedPaths (t : List EntryEvent) (e : ClipboardEntry) : Prop where
  view : e.rdpViewItem = true
  paths : ∀ call ∈ postedCalls t, ∃ batch, e.batches[call.1]? = some batch ∧
    call.2 = batch.topPaths
  posted : ∀ b ∈ publishedOrder t, ∀ batch, e.batches[b]? = some batch → batch.topPaths ≠ [] →
    (b, batch.topPaths) ∈ postedCalls t
  order : ((postedCalls t).map Prod.fst).Sublist (publishedOrder t)
  accepted : ∀ context list io b jobs publication,
    (EntryInput.enqueue context list io, EntryOutput.enqueued b jobs publication) ∈ t →
    Accepted list.1 → ∃ batch, e.batches[b]? = some batch ∧ batch.topPaths ≠ []

theorem postedCalls_snoc (t : List EntryEvent) (ev : EntryEvent) :
    postedCalls (t ++ [ev]) = postedCalls t ++ (postedCall ev.2).toList :=
  filterMap_snoc _ t ev

/-- A step publishes a batch that it leaves in the list, with the paths it has. -/
theorem publication_step (hpicked : ∀ job, e.worker ≠ .picked false job)
    (hs : entryStep env e i = some (e', o)) {publication : Publication}
    (hp : publicationOf o = some publication) :
    ∃ batch, e'.batches[publication.batch]? = some batch ∧
      publication = publishRemoteBatch e.rdpViewItem publication.batch batch := by
  cases batchEffect hpicked hs with
  | inert ho =>
      rw [publicationOf_inert ho] at hp
      cases hp
  | enqueued io files rootPath jobs batch hnew ho hbatches =>
      subst ho
      simp only [publicationOf] at hp
      split_ifs at hp
      obtain rfl := Option.some.inj hp
      exact ⟨batch, by rw [hbatches]; exact List.getElem?_concat_length, rfl⟩
  | completed job hcurrent ho he =>
      subst ho he
      simp only [publicationOf, completeJob] at hp ⊢
      split at hp
      · cases hp
      · rename_i batch hbatch
        split_ifs at hp
        obtain rfl := Option.some.inj hp
        exact ⟨batch, hbatch, rfl⟩

theorem postedCall_sublist (i : EntryInput) (o : EntryOutput) :
    ((postedCall o).toList.map Prod.fst).Sublist (publishes (i, o)).toList := by
  rw [publishes_eq, postedCall]
  cases publicationOf o with
  | none => exact List.Sublist.refl _
  | some publication =>
      cases hposted : publication.posted with
      | none => simp [hposted]
      | some paths => simp [hposted]

theorem postedPaths_step (h : PostedPaths t e) (hpicked : ∀ job, e.worker ≠ .picked false job)
    (hlt : ∀ b ∈ publishedOrder t, b < e.batches.length)
    (hs : entryStep env e i = some (e', o)) : PostedPaths (t ++ [(i, o)]) e' := by
  refine ⟨(rdpViewItem_step hs).trans h.view, ?_, ?_, ?_, ?_⟩
  · intro call hcall
    rw [postedCalls_snoc] at hcall
    rcases List.mem_append.mp hcall with hold | hnew
    · obtain ⟨batch, hbatch, hpaths⟩ := h.paths call hold
      obtain ⟨remaining, hbatch'⟩ := batch_step hpicked hs hbatch
      exact ⟨_, hbatch', hpaths⟩
    · rw [Option.mem_toList, postedCall, Option.bind_eq_some_iff] at hnew
      obtain ⟨publication, hp, hposted⟩ := hnew
      obtain ⟨topPaths, hpaths, rfl⟩ := Option.map_eq_some_iff.mp hposted
      obtain ⟨batch, hbatch, hpublication⟩ := publication_step hpicked hs hp
      refine ⟨batch, hbatch, ?_⟩
      rw [hpublication, publishRemoteBatch] at hpaths
      split_ifs at hpaths
      exact (Option.some.inj hpaths).symm
  · intro b hb batch' hbatch' htop
    rw [publishedOrder_snoc] at hb
    rw [postedCalls_snoc]
    rcases List.mem_append.mp hb with hold | hnew
    · obtain ⟨batch, hbatch⟩ : ∃ batch, e.batches[b]? = some batch :=
        ⟨_, List.getElem?_eq_getElem (hlt b hold)⟩
      obtain ⟨remaining, hbatch''⟩ := batch_step hpicked hs hbatch
      obtain rfl := Option.some.inj (hbatch'.symm.trans hbatch'')
      exact List.mem_append_left _ (h.posted b hold batch hbatch htop)
    · rw [Option.mem_toList, publishes_eq, Option.map_eq_some_iff] at hnew
      obtain ⟨publication, hp, rfl⟩ := hnew
      obtain ⟨batch, hbatch, hpublication⟩ := publication_step hpicked hs hp
      obtain rfl := Option.some.inj (hbatch'.symm.trans hbatch)
      refine List.mem_append_right _ ?_
      rw [postedCall, hp, Option.mem_toList, Option.bind_some, hpublication, publishRemoteBatch,
        h.view]
      simp [htop]
  · rw [postedCalls_snoc, publishedOrder_snoc, List.map_append]
    exact h.order.append (postedCall_sublist i o)
  · intro context list io b jobs publication hmem haccepted
    rcases List.mem_append.mp hmem with hold | hlast
    · obtain ⟨batch, hbatch, htop⟩ := h.accepted _ _ _ _ _ _ hold haccepted
      obtain ⟨remaining, hbatch'⟩ := batch_step hpicked hs hbatch
      exact ⟨_, hbatch', htop⟩
    · obtain ⟨rfl, rfl⟩ := Prod.mk.inj (List.mem_singleton.mp hlast)
      cases entryStep_cases hs with
      | enqueued _ _ _ batch hnew =>
          refine ⟨batch, List.getElem?_concat_length, ?_⟩
          have htop : (enqueueEntries io e.batches.length 0 list.1 []
              ⟨0, makeRemoteBatchRoot env e.nextBatchId, []⟩).2.topPaths ≠ [] :=
            topPaths_ne_nil io e.batches.length _ haccepted
          rwa [hnew] at htop

theorem postedPaths (h : Execution (entryStep env) (.initial localFiles true) t e) :
    PostedPaths t e := by
  induction h with
  | nil =>
      refine ⟨rfl, List.forall_mem_nil _, fun b hb => absurd hb (by simp [publishedOrder]),
        List.Sublist.refl _, ?_⟩
      intro _ _ _ _ _ _ hmem
      exact absurd hmem (by simp)
  | snoc ht hs ih =>
      have haccounting := batchAccounting ht
      exact postedPaths_step ih haccounting.picked
        (fun b hb => (haccounting.mem_publishedOrder.mp hb).1) hs

/-- The view performs the posted calls in order, and the clipboard holds the last
paths that were shown. -/
structure ViewHistory (env : EntryEnv) (localFiles : LocalFiles) (st : SessionTrace)
    (s : ClipboardSession) : Prop where
  entry : Execution (entryStep env) (.initial localFiles true) (entryTrace st) s.entry
  calls : postedCalls (entryTrace st) = (updates st).map ViewUpdate.call ++ s.posted
  clipboard : s.clipboard = ((updates st).filterMap ViewUpdate.shown).getLast?
  urls : ∀ update ∈ updates st, update.urls.Sublist update.paths

theorem entryTrace_snoc (st : SessionTrace) (ev : SessionInput × SessionOutput) :
    entryTrace (st ++ [ev]) = entryTrace st ++ (toEntryEvent ev).toList := filterMap_snoc _ st ev

theorem updates_snoc_entry (st : SessionTrace) (i : EntryInput) (o : EntryOutput) :
    updates (st ++ [(.entry i, .entry o)]) = updates st := by
  rw [updates, filterMap_snoc]
  exact List.append_nil _

theorem updates_snoc_update (st : SessionTrace) (fileExists : QString → Bool)
    (update : ViewUpdate) :
    updates (st ++ [(.update fileExists, .updated update)]) = updates st ++ [update] := by
  rw [updates, filterMap_snoc]
  rfl

theorem updateClipboard_shown (fileExists : QString → Bool) (clipboard : Option (List QString))
    (batch : ℕ) (paths : List QString) :
    updateClipboardFilesFromRemote true fileExists clipboard paths =
      ((ViewUpdate.mk batch paths (paths.filter fileExists)).shown).or clipboard := by
  unfold updateClipboardFilesFromRemote ViewUpdate.shown
  by_cases hpaths : paths = []
  · simp [hpaths]
  · by_cases hurls : paths.filter fileExists = []
    · simp only [Bool.true_eq_false, if_false, if_neg hpaths, if_pos hurls, Option.none_or]
    · simp only [Bool.true_eq_false, if_false, if_neg hpaths, if_neg hurls, Option.some_or]

theorem viewHistory (h : Execution (sessionStep env) (.initial localFiles) st s) :
    ViewHistory env localFiles st s := by
  induction h with
  | nil => exact ⟨.nil, rfl, rfl, List.forall_mem_nil _⟩
  | @snoc st s s' i o _ hs ih =>
      cases i with
      | entry i =>
          simp only [sessionStep] at hs
          split at hs
          · cases hs
          · rename_i e o' hentry
            obtain ⟨rfl, rfl⟩ := Prod.mk.inj (Option.some.inj hs)
            have htrace : entryTrace (st ++ [(.entry i, .entry o')]) = entryTrace st ++ [(i, o')] :=
              entryTrace_snoc st _
            refine ⟨?_, ?_, ?_, ?_⟩
            · rw [htrace]
              exact .snoc ih.entry hentry
            · rw [htrace, postedCalls_snoc, ih.calls, updates_snoc_entry, List.append_assoc]
            · rw [updates_snoc_entry]
              exact ih.clipboard
            · rw [updates_snoc_entry]
              exact ih.urls
      | update fileExists =>
          simp only [sessionStep] at hs
          split at hs
          · cases hs
          · rename_i batch paths posted hposted
            obtain ⟨rfl, rfl⟩ := Prod.mk.inj (Option.some.inj hs)
            have htrace : ∀ update : ViewUpdate,
                entryTrace (st ++ [(.update fileExists, .updated update)]) = entryTrace st := by
              intro update
              rw [entryTrace_snoc]
              exact List.append_nil _
            refine ⟨?_, ?_, ?_, ?_⟩
            · rw [htrace]
              exact ih.entry
            · rw [htrace, ih.calls, updates_snoc_update, hposted, List.map_append,
                List.append_assoc]
              rfl
            · rw [updates_snoc_update, List.filterMap_append, List.getLast?_append,
                updateClipboard_shown fileExists s.clipboard batch paths, ih.clipboard,
                filterMap_singleton]
              cases (ViewUpdate.mk batch paths (paths.filter fileExists)).shown <;> rfl
            · rw [updates_snoc_update]
              exact List.forall_mem_append.mpr
                ⟨ih.urls, List.forall_mem_singleton.mpr List.filter_sublist⟩

/-- The update of the latest batch of which a path exists is the last one shown. -/
theorem latest_shown {us : List ViewUpdate} (hsorted : us.Pairwise (fun u u' => u.batch < u'.batch))
    {update : ViewUpdate} (hmem : update ∈ us) (hurls : update.urls ≠ [])
    (hlater : ∀ later ∈ us, update.batch < later.batch → later.urls = []) :
    (us.filterMap ViewUpdate.shown).getLast? = some update.urls := by
  obtain ⟨before, after, rfl⟩ := List.append_of_mem hmem
  have hafter : after.filterMap ViewUpdate.shown = [] := by
    rw [List.filterMap_eq_nil_iff]
    intro later hin
    have hlt := List.rel_of_pairwise_cons (List.pairwise_append.mp hsorted).2.1 hin
    exact if_pos (hlater later (by simp [hin]) hlt)
  have hshown : update.shown = some update.urls := if_neg hurls
  rw [List.filterMap_append, List.filterMap_cons_some hshown, hafter, List.getLast?_concat]

/-- In every run in which no list without file jobs is received while an older
job is unfinished, batches are published in the order of receipt, and in this order
the view is offered the paths of each of them at most once. Once the queue is drained
and the posted calls are performed, every list with an accepted entry has been
offered, and the clipboard holds the existing paths of the latest one that has any. -/
theorem published_in_order_of_receipt
    (h : Execution (sessionStep env) (.initial localFiles) st s)
    (horder : ReceivedInOrder (entryTrace st)) :
    (publishedOrder (entryTrace st)).Pairwise (· < ·) ∧
      (receivedOrder (entryTrace st)).Pairwise (· < ·) ∧
      ((updates st).map ViewUpdate.batch).Pairwise (· < ·) ∧
      (∀ update ∈ updates st, update.urls.Sublist update.paths ∧
        ∃ batch, s.entry.batches[update.batch]? = some batch ∧ update.paths = batch.topPaths) ∧
      (enqueuedJobs (entryTrace st) = completedJobs (entryTrace st) →
        publishedOrder (entryTrace st) = receivedOrder (entryTrace st) ∧
        (s.posted = [] →
          (∀ context list io b jobs publication,
            (EntryInput.enqueue context list io, EntryOutput.enqueued b jobs publication) ∈
              entryTrace st → Accepted list.1 → ∃ update ∈ updates st, update.batch = b) ∧
          ∀ update ∈ updates st, update.urls ≠ [] →
            (∀ later ∈ updates st, update.batch < later.batch → later.urls = []) →
            s.clipboard = some update.urls)) := by
  have hhistory := viewHistory h
  have hincreasing := (publicationOrder hhistory.entry horder).increasing
  have hpaths := postedPaths hhistory.entry
  have hoffered : ((updates st).map ViewUpdate.batch).Pairwise (· < ·) := by
    have hcalls := hincreasing.sublist hpaths.order
    rw [hhistory.calls, List.map_append, List.map_map] at hcalls
    exact (List.pairwise_append.mp hcalls).1
  refine ⟨hincreasing, ?_, hoffered, fun update hupdate => ⟨hhistory.urls update hupdate, ?_⟩,
    fun hdrained => ?_⟩
  · rw [receivedOrder_eq hhistory.entry]
    exact List.pairwise_lt_range
  · apply hpaths.paths update.call
    rw [hhistory.calls]
    exact List.mem_append_left _ (List.mem_map_of_mem hupdate)
  have hpublished := publishedOrder_eq_receivedOrder hhistory.entry horder hdrained
  refine ⟨hpublished, fun hposted => ?_⟩
  have hcalls := hhistory.calls
  rw [hposted, List.append_nil] at hcalls
  constructor
  · intro context list io b jobs publication hmem haccepted
    obtain ⟨batch, hbatch, htop⟩ := hpaths.accepted _ _ _ _ _ _ hmem haccepted
    have hb : b ∈ publishedOrder (entryTrace st) := by
      rw [hpublished, receivedOrder_eq hhistory.entry, List.mem_range]
      exact (List.getElem?_eq_some_iff.mp hbatch).1
    have hcall := hpaths.posted b hb batch hbatch htop
    rw [hcalls, List.mem_map] at hcall
    obtain ⟨update, hupdate, heq⟩ := hcall
    exact ⟨update, hupdate, congrArg Prod.fst heq⟩
  · intro update hupdate hurls hlater
    rw [hhistory.clipboard]
    exact latest_shown (List.pairwise_map.mp hoffered) hupdate hurls hlater

def oneFile (name : String) : RemoteFileList := ⟨[⟨Qt.ofAscii name, [], 0, false⟩], by simp⟩

def oneDirectory (name : String) : RemoteFileList := ⟨[⟨Qt.ofAscii name, [], 0, true⟩], by simp⟩

def downloadEmpty (streamId : UInt32) : List SessionInput :=
  [.entry .pop, .entry .start, .entry .request, .entry (.send channelRcOk),
    .entry (.response ⟨cbResponseOk, streamId, 8, some (LittleEndian.leUInt64 0)⟩),
    .entry (.wait .succeeds), .entry .complete]

def isJobless : EntryOutput → Bool
  | .enqueued _ [] _ => true
  | _ => false

theorem receivedInOrder_of_jobs (h : t.all (fun ev => !isJobless ev.2) = true) :
    ReceivedInOrder t := by
  intro u ev v ht number publication hev
  have hjobs := List.all_eq_true.mp h ev (by simp [ht])
  rw [hev] at hjobs
  exact absurd hjobs (by simp [isJobless])

theorem published_in_order_of_two_files :
    ∃ s st, run (sessionStep ⟨[Qt.slash], 1⟩) (.initial (fun _ => none))
        ([.entry (.enqueue true (oneFile "a") ⟨true, []⟩),
          .entry (.enqueue true (oneFile "b") ⟨true, []⟩)] ++ downloadEmpty 1 ++ downloadEmpty 2 ++
          [.update (fun _ => true), .update (fun _ => true)]) = some (s, st) ∧
      receivedOrder (entryTrace st) = [0, 1] ∧
      publishedOrder (entryTrace st) = receivedOrder (entryTrace st) ∧
      ((updates st).map ViewUpdate.batch).Nodup := by
  obtain ⟨s, st, hrun, hjobs, hdrained, hreceived⟩ : ∃ s st,
      run (sessionStep ⟨[Qt.slash], 1⟩) (.initial (fun _ => none))
        ([.entry (.enqueue true (oneFile "a") ⟨true, []⟩),
          .entry (.enqueue true (oneFile "b") ⟨true, []⟩)] ++ downloadEmpty 1 ++ downloadEmpty 2 ++
          [.update (fun _ => true), .update (fun _ => true)]) = some (s, st) ∧
      (entryTrace st).all (fun ev => !isJobless ev.2) = true ∧
      enqueuedJobs (entryTrace st) = completedJobs (entryTrace st) ∧
      receivedOrder (entryTrace st) = [0, 1] := ⟨_, _, rfl, rfl, rfl, rfl⟩
  obtain ⟨-, -, hoffered, -, hpublished⟩ := published_in_order_of_receipt (Execution.of_run hrun)
    (receivedInOrder_of_jobs hjobs)
  exact ⟨s, st, hrun, hreceived, (hpublished hdrained).1, hoffered.imp Nat.ne_of_lt⟩

/-- A list of one directory arrives while the file of the list before it is
waiting: the newer list is published first, and the older one stays on the
clipboard. -/
theorem directories_overtake_files :
    ∃ s st, run (sessionStep ⟨[Qt.slash], 1⟩) (.initial (fun _ => none))
        ([.entry (.enqueue true (oneFile "a") ⟨true, []⟩),
          .entry (.enqueue true (oneDirectory "d") ⟨true, []⟩)] ++ downloadEmpty 1 ++
          [.update (fun _ => true), .update (fun _ => true)]) = some (s, st) ∧
      receivedOrder (entryTrace st) = [0, 1] ∧ publishedOrder (entryTrace st) = [1, 0] ∧
      enqueuedJobs (entryTrace st) = completedJobs (entryTrace st) ∧ s.posted = [] ∧
      (updates st).map ViewUpdate.batch = [1, 0] ∧
      (updates st).all (fun update => !update.urls.isEmpty) = true ∧
      s.clipboard = (updates st).getLast?.map ViewUpdate.urls :=
  ⟨_, _, rfl, rfl, rfl, rfl, rfl, rfl, rfl, rfl⟩

end QfClient
