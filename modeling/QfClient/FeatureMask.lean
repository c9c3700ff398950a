import QfClient.FormatAnswers
import QfClient.MessageEffects

/-!
# The feature mask over whole runs

The clipboard feature mask of the settings says which way data and files may go. Without
the bits for copying from the server nothing is requested of it and nothing of it is
handed on. Without the bits for copying to the server the packets of a run say nothing
about the local clipboard, the captured files or the disk.
-/

namespace QfClient

open LittleEndian Machine Qt WinPR

variable {setup : ClipboardSetup} {content : LocalContent} {state state' : ClipboardState}
  {header : ClipboardHeader} {body bytes : Bytes} {handled : Handled} {s s' : Client}
  {i : ClientInput} {o : ClientOutput} {t : ClientTrace} {context : CliprdrPlugin}
  {formats : List CliprdrFormat} {mask : UInt32}

theorem and_remoteToLocalFiles (mask : UInt32) :
    mask &&& remoteToLocal &&& cliprdrFlagRemoteToLocalFiles =
      mask &&& cliprdrFlagRemoteToLocalFiles := by
  have h : remoteToLocal &&& cliprdrFlagRemoteToLocalFiles = cliprdrFlagRemoteToLocalFiles := by
    decide
  rw [UInt32.and_assoc, h]

theorem filter_sublist (formats : List CliprdrFormat) (mask checkMask : UInt32) :
    (cliprdrFilterFormatList formats mask checkMask).Sublist formats := by
  rw [cliprdrFilterFormatList]
  split_ifs
  · exact List.Sublist.refl _
  · exact List.filter_sublist
  · exact List.filter_sublist
  · exact List.nil_sublist _

/-- Without the files bit no format that names files passes. -/
theorem filter_namesFiles (h : mask &&& cliprdrFlagRemoteToLocalFiles = 0)
    {format : CliprdrFormat} (hmem : format ∈ cliprdrFilterFormatList formats mask remoteToLocal) :
    namesFiles format = false := by
  have hfull : mask &&& remoteToLocal ≠ remoteToLocal := by
    intro heq
    have hbit := and_remoteToLocalFiles mask
    rw [heq, h] at hbit
    exact absurd hbit (by decide)
  have hfiles : mask &&& (remoteToLocal &&&
      (cliprdrFlagLocalToRemoteFiles ||| cliprdrFlagRemoteToLocalFiles)) = 0 := h
  simp only [cliprdrFilterFormatList, if_neg hfull, hfiles, ne_eq, not_true, if_false] at hmem
  split_ifs at hmem
  · exact absurd hmem List.not_mem_nil
  · simpa using (List.mem_filter.mp hmem).2

theorem selectNamed_names {request : FormatRequest} (h : selectNamed formats = some request)
    (hname : request.formatName = clipboardFormatFileName) :
    ∃ format ∈ formats, format.formatName = some clipboardFormatFileName := by
  induction formats with
  | nil => exact absurd h (by simp [selectNamed])
  | cons format formats ih =>
      rw [selectNamed] at h
      split_ifs at h with hpng hfile
      · have hne : "PNG" ≠ clipboardFormatFileName := by decide
        rw [← Option.some.inj h] at hname
        exact absurd hname hne
      · exact ⟨format, List.mem_cons_self, hfile⟩
      · obtain ⟨other, hother, hnamed⟩ := ih h
        exact ⟨other, List.mem_cons_of_mem _ hother, hnamed⟩

/-- Files are requested only where the list offers them. -/
theorem selectFormat_names {stored : UInt32 → Option String} {request : FormatRequest}
    (h : selectFormat stored formats = some request)
    (hname : request.formatName = clipboardFormatFileName) :
    ∃ format ∈ formats, format.formatName = some clipboardFormatFileName := by
  have hempty : "" ≠ clipboardFormatFileName := by decide
  rw [selectFormat] at h
  by_cases htext : (stored cfUnicodeText).isSome = true
  · rw [if_pos htext] at h
    rw [← Option.some.inj h] at hname
    exact absurd hname hempty
  · rw [if_neg htext] at h
    cases hnamed : selectNamed formats with
    | some named =>
        simp only [hnamed] at h
        exact selectNamed_names (hnamed.trans h) hname
    | none =>
        simp only [hnamed] at h
        split_ifs at h
        · rw [← Option.some.inj h] at hname
          exact absurd hname hempty
        · rw [← Option.some.inj h] at hname
          exact absurd hname hempty

theorem processFormatList_name {remote remote' : RemoteFormats} {selection : Selection}
    (hmask : context.featureMask &&& cliprdrFlagRemoteToLocalFiles = 0)
    (hremote : remote.requestedRemoteFormatName ≠ clipboardFormatFileName)
    (h : cliprdrProcessFormatList context remote formats = some (remote', selection)) :
    remote'.requestedRemoteFormatName ≠ clipboardFormatFileName := by
  simp only [cliprdrProcessFormatList, qfCliprdrServerFormatListCallBack] at h
  split_ifs at h
  · obtain ⟨rfl, -⟩ := Prod.mk.inj (Option.some.inj h)
    exact hremote
  · split at h
    · obtain ⟨rfl, -⟩ := Prod.mk.inj (Option.some.inj h)
      exact hremote
    · rename_i request hselect
      obtain ⟨r, hrequest, hr⟩ := Option.map_eq_some_iff.mp h
      obtain ⟨rfl, -⟩ := Prod.mk.inj hr
      obtain ⟨outcome, -, rfl⟩ := Option.map_eq_some_iff.mp hrequest
      intro hname
      obtain ⟨format, hformat, hnamed⟩ := selectFormat_names hselect hname
      have hfiles := filter_namesFiles hmask hformat
      simp [namesFiles, hnamed] at hfiles

/-- No file list was asked for or handed on. -/
structure NoRemoteFiles (state : ClipboardState) : Prop where
  name : state.remote.requestedRemoteFormatName ≠ clipboardFormatFileName
  fileLists : state.fileLists = []

theorem NoRemoteFiles.receive (h : NoRemoteFiles state) (response : FormatDataResponse) :
    NoRemoteFiles
      (state.receive
        (cliprdrProcessFormatDataResponse context setup.parse state.remote response)) := by
  simp only [cliprdrProcessFormatDataResponse, qfCliprdrServerFormatDataResponseCallBack,
    if_neg h.name]
  split_ifs
  · exact h
  · exact h
  · exact ⟨h.name, h.fileLists⟩

theorem NoRemoteFiles.message
    (hmask : setup.context.featureMask &&& cliprdrFlagRemoteToLocalFiles = 0)
    (h : NoRemoteFiles state) (hreceive : receiveMessage setup content state bytes = some handled) :
    NoRemoteFiles handled.state := by
  have heffect := receiveMessage_effect hreceive
  generalize handled.state = next at heffect ⊢
  cases heffect with
  | unchanged _ => exact h
  | clipCaps _ _ _ => exact ⟨h.name, h.fileLists⟩
  | monitorReady _ _ => exact ⟨h.name, h.fileLists⟩
  | formatList _ hprocess => exact ⟨processFormatList_name hmask h.name hprocess, h.fileLists⟩
  | formatDataRequest _ _ => exact ⟨h.name, h.fileLists⟩
  | formatDataResponse response _ => exact h.receive response
  | fileContentsResponse _ => exact ⟨h.name, h.fileLists⟩

/-- Nothing was handed to the view. -/
def NothingQueued (state : ClipboardState) : Prop := state.queued = []

theorem NothingQueued.message (hmask : setup.context.featureMask &&& remoteToLocal = 0)
    (h : NothingQueued state) (hreceive : receiveMessage setup content state bytes = some handled) :
    NothingQueued handled.state := by
  have heffect := receiveMessage_effect hreceive
  generalize handled.state = next at heffect ⊢
  cases heffect with
  | formatDataResponse response _ =>
      rw [cliprdrProcessFormatDataResponse, if_pos hmask]
      exact h
  | _ => exact h

/-- A change of the local clipboard or a turn of the worker leaves what came from the
server alone. -/
theorem clientStep_keeps {P : ClipboardState → Prop}
    (hmessage : ∀ {content bytes state handled}, P state →
      receiveMessage setup content state bytes = some handled → P handled.state)
    (hchange : ∀ state files caps, P state → P { state with files := files, caps := caps })
    (hslot : ∀ state slot, P state → P { state with slot := slot })
    (h : P s.state) (hs : clientStep setup s i = some (s', o)) : P s'.state := by
  cases clientStep_cases hs with
  | message _ hreceive => exact hmessage h hreceive
  | @dataChanged fromRemote disk mimeData r hchanged =>
      simp only [ClipboardState.dataChanged] at hchanged
      split at hchanged
      · obtain rfl := Option.some.inj hchanged
        exact hchange _ _ s.state.caps h
      · obtain ⟨outcome, -, rfl⟩ := Option.map_eq_some_iff.mp hchanged
        exact hchange _ _ _ h
  | send _ _ _ => exact hslot _ _ h
  | worker _ => exact hslot _ _ h

theorem clientStep_no_file_request
    (hmask : setup.context.featureMask &&& cliprdrFlagRemoteToLocalFiles = 0)
    (hs : clientStep setup s i = some (s', o)) :
    ∀ bytes ∈ o.packets, uint16At bytes 0 ≠ cbFileContentsRequest := by
  intro bytes hbytes heq
  have hallowed := (clientStep_packets hs).type_mem hbytes
  rw [heq] at hallowed
  cases clientStep_cases hs with
  | @message message content r _ _ =>
      simp only [ClientInput.allowed] at hallowed
      generalize messageType message = type at hallowed
      cases type with
      | none => exact absurd hallowed (by decide)
      | some type => cases type <;> exact absurd hallowed (by decide)
  | dataChanged _ => exact absurd hallowed (show cbFileContentsRequest ∉ [cbFormatList] by decide)
  | @send request _ _ _ _ _ hsent _ =>
      have hnone : cliprdrClientFileContentsRequest (setup.context.agreed s.state.caps) request =
          some (channelRcOk, []) := if_pos hmask
      rw [hnone] at hsent
      obtain ⟨-, rfl⟩ := Prod.mk.inj (Option.some.inj hsent)
      exact absurd hbytes List.not_mem_nil
  | worker _ => exact absurd hbytes List.not_mem_nil

theorem clientStep_no_data_request (hmask : setup.context.featureMask &&& remoteToLocal = 0)
    (hs : clientStep setup s i = some (s', o)) :
    ∀ bytes ∈ o.packets, uint16At bytes 0 ≠ cbFormatDataRequest := by
  intro bytes hbytes heq
  have hallowed := (clientStep_packets hs).type_mem hbytes
  rw [heq] at hallowed
  cases clientStep_cases hs with
  | @message message content r _ hreceive =>
      simp only [ClientInput.allowed, messageType] at hallowed
      cases hread : readHeader message with
      | none =>
          rw [hread] at hallowed
          exact absurd hallowed (by decide)
      | some read =>
          obtain ⟨header, body⟩ := read
          simp only [receiveMessage, hread, processMessage] at hreceive
          simp only [hread, Option.bind_some] at hallowed
          generalize MessageType.ofCode header.msgType = type at hreceive hallowed
          cases type with
          | none => exact absurd hallowed (by decide)
          | some type =>
              cases type with
              | formatList =>
                  simp only [cliprdrProcessFormatListMessage, cliprdrProcessFormatList,
                    filter_eq_nil _ hmask, if_true] at hreceive
                  split at hreceive
                  · obtain rfl := Option.some.inj hreceive
                    exact absurd hbytes List.not_mem_nil
                  · obtain rfl := Option.some.inj hreceive
                    exact absurd hbytes List.not_mem_nil
              | _ => exact absurd hallowed (by decide)
  | dataChanged _ => exact absurd hallowed (show cbFormatDataRequest ∉ [cbFormatList] by decide)
  | send _ _ _ =>
      exact absurd hallowed (show cbFormatDataRequest ∉ [cbFileContentsRequest] by decide)
  | worker _ => exact absurd hbytes List.not_mem_nil

/-- What the mask does not allow from the server does not come in any run: without the
files bit no file list is handed on and no file contents are asked for, and without either
bit nothing is handed to the view and no data is asked for. -/
theorem remote_to_local_mask (setup : ClipboardSetup) (s : Client) (t : ClientTrace)
    (h : Execution (clientStep setup) .initial t s) :
    (setup.context.featureMask &&& cliprdrFlagRemoteToLocalFiles = 0 →
      s.state.fileLists = [] ∧
        ∀ bytes ∈ sentPackets t, uint16At bytes 0 ≠ cbFileContentsRequest) ∧
    (setup.context.featureMask &&& remoteToLocal = 0 →
      s.state.queued = [] ∧ ∀ bytes ∈ sentPackets t, uint16At bytes 0 ≠ cbFormatDataRequest) := by
  constructor
  · intro hmask
    have hinitial : NoRemoteFiles Client.initial.state :=
      ⟨show "" ≠ clipboardFormatFileName by decide, rfl⟩
    have hstate : NoRemoteFiles s.state := h.invariant (I := fun s => NoRemoteFiles s.state)
      (fun _ _ _ _ hkept hs => clientStep_keeps (P := NoRemoteFiles)
        (fun hstate => hstate.message hmask)
        (fun _ _ _ hstate => ⟨hstate.name, hstate.fileLists⟩)
        (fun _ _ hstate => ⟨hstate.name, hstate.fileLists⟩) hkept hs) hinitial
    refine ⟨hstate.fileLists, fun bytes hbytes => ?_⟩
    obtain ⟨e, he, hpacket⟩ := List.mem_flatMap.mp hbytes
    have hevents := h.forall_events (I := fun _ => True)
      (P := fun e => ∀ bytes ∈ e.2.packets, uint16At bytes 0 ≠ cbFileContentsRequest)
      (fun _ _ _ _ _ hs => ⟨trivial, clientStep_no_file_request hmask hs⟩) trivial
    exact hevents e he bytes hpacket
  · intro hmask
    have hstate : NothingQueued s.state := h.invariant (I := fun s => NothingQueued s.state)
      (fun _ _ _ _ hkept hs => clientStep_keeps (P := NothingQueued)
        (fun hstate => NothingQueued.message hmask hstate) (fun _ _ _ hstate => hstate)
        (fun _ _ hstate => hstate) hkept hs) (show NothingQueued Client.initial.state from rfl)
    refine ⟨hstate, fun bytes hbytes => ?_⟩
    obtain ⟨e, he, hpacket⟩ := List.mem_flatMap.mp hbytes
    have hevents := h.forall_events (I := fun _ => True)
      (P := fun e => ∀ bytes ∈ e.2.packets, uint16At bytes 0 ≠ cbFormatDataRequest)
      (fun _ _ _ _ _ hs => ⟨trivial, clientStep_no_data_request hmask hs⟩) trivial
    exact hevents e he bytes hpacket

/-- A server that offers a text and hands on data that nobody asked for. -/
def uninvitedServer : List ClientInput :=
  [.message (packet cbMonitorReady 0 []) ⟨none, fun _ => none⟩,
    .message (packet cbFormatList 0 (leUInt32 cfUnicodeText ++ List.replicate 32 0))
      ⟨none, fun _ => none⟩,
    .message (packet cbFormatDataResponse cbResponseOk [0x61, 0, 0, 0]) ⟨none, fun _ => none⟩]

theorem remote_to_local_mask_uninvited :
    ∃ s t, Execution (clientStep (.session localToRemote)) .initial t s ∧ t.length = 3 ∧
      s.state.queued = [] := by
  have hrun : ∃ s t, run (clientStep (.session localToRemote)) .initial uninvitedServer =
      some (s, t) ∧ t.length = 3 := ⟨_, _, rfl, rfl⟩
  obtain ⟨s, t, hrun, hlength⟩ := hrun
  have h := Execution.of_run hrun
  exact ⟨s, t, h, hlength, ((remote_to_local_mask _ _ _ h).2 rfl).1⟩

theorem localToRemoteFiles_eq_zero (h : mask &&& localToRemote = 0) :
    mask &&& cliprdrFlagLocalToRemoteFiles = 0 := by
  have hbit : localToRemote &&& cliprdrFlagLocalToRemoteFiles = cliprdrFlagLocalToRemoteFiles := by
    decide
  rw [← hbit, ← UInt32.and_assoc, h, UInt32.zero_and]

theorem filter_local_eq_nil (h : mask &&& localToRemote = 0) :
    cliprdrFilterFormatList formats mask localToRemote = [] := by
  have hfiles : mask &&& (localToRemote &&&
      (cliprdrFlagLocalToRemoteFiles ||| cliprdrFlagRemoteToLocalFiles)) = 0 :=
    localToRemoteFiles_eq_zero h
  have hdata : mask &&& (localToRemote &&&
      (cliprdrFlagLocalToRemote ||| cliprdrFlagRemoteToLocal)) = 0 := by
    rw [← UInt32.and_assoc, h, UInt32.zero_and]
  have hne : (0 : UInt32) ≠ localToRemote := by decide
  simp only [cliprdrFilterFormatList, h, hfiles, hdata, if_neg hne, ne_eq, not_true, if_false]

def ClipboardState.withFiles (state : ClipboardState) (files : List ClipboardInfoFile) :
    ClipboardState := { state with files := files }

def Handled.withFiles (handled : Handled) (files : List ClipboardInfoFile) : Handled :=
  { handled with state := handled.state.withFiles files }

variable {content' : LocalContent} {files : List ClipboardInfoFile}

theorem receive_withFiles (effect : ResponseEffect) :
    (state.withFiles files).receive effect = (state.receive effect).withFiles files := by
  cases effect with
  | ignored => rfl
  | fileList list => cases list <;> rfl
  | queued update => rfl

/-- Without the bits for the way to the server, the answer to a message does not depend
on what is local. -/
theorem processMessage_withFiles (hmask : setup.context.featureMask &&& localToRemote = 0) :
    processMessage setup content' (state.withFiles files) header body =
      (processMessage setup content state header body).map (·.withFiles files) := by
  rw [processMessage, processMessage]
  cases MessageType.ofCode header.msgType with
  | none => rfl
  | some type =>
      cases type with
      | clipCaps =>
          simp only [cliprdrProcessClipCaps, Option.map_some]
          split_ifs <;> rfl
      | monitorReady =>
          simp only [cliprdrProcessMonitorReady, Option.map_map]
          rfl
      | formatList =>
          simp only [cliprdrProcessFormatListMessage, ClipboardState.withFiles]
          cases cliprdrReadFormatList setup.reader header state.caps.useLongFormatNames body with
          | error error => rfl
          | ok formats =>
              simp only [Option.map_map]
              rfl
      | formatDataRequest =>
          simp only [cliprdrProcessFormatDataRequest, if_pos hmask]
          split_ifs
          · rfl
          · rw [Option.map_map]
            rfl
      | formatDataResponse =>
          simp only [cliprdrProcessFormatDataResponseMessage, receive_withFiles, Option.map_some]
          split_ifs <;> rfl
      | fileContentsRequest =>
          simp only [cliprdrProcessFileContentsRequestMessage, cliprdrProcessFileContentsRequest,
            if_pos (localToRemoteFiles_eq_zero hmask), Option.map_map]
          rfl
      | fileContentsResponse =>
          simp only [cliprdrProcessFileContentsResponse, Option.map_some]
          cases cliprdrReadFileContentsResponse header body <;> rfl
      | formatListResponse => rfl
      | lockClipData =>
          simp only [cliprdrProcessClipData, Option.map_some]
          split_ifs <;> rfl
      | unlockClipData =>
          simp only [cliprdrProcessClipData, Option.map_some]
          split_ifs <;> rfl

theorem receiveMessage_withFiles (hmask : setup.context.featureMask &&& localToRemote = 0) :
    receiveMessage setup content' (state.withFiles files) bytes =
      (receiveMessage setup content state bytes).map (·.withFiles files) := by
  rw [receiveMessage, receiveMessage]
  cases readHeader bytes with
  | none => rfl
  | some message => exact processMessage_withFiles hmask

/-- Once the view may call `ClientFormatList`, the empty list of the beginning is sent. -/
def Announced (state : ClipboardState) : Prop :=
  state.ready = true → state.caps.initialFormatListSent = true

theorem processCapabilitySets_initialFormatListSent (count : ℕ) (caps : CliprdrCapabilities)
    (bytes : Bytes) :
    (processCapabilitySets count caps bytes).2.initialFormatListSent =
      caps.initialFormatListSent := by
  induction count generalizing caps bytes with
  | zero => rfl
  | succ count ih =>
      simp only [processCapabilitySets]
      split_ifs
      · rfl
      · rfl
      · rfl
      · rw [ih]
        rfl
      · rfl

theorem Announced.message (hworks : setup.context.Works) (h : Announced state)
    (hreceive : receiveMessage setup content state bytes = some handled) :
    Announced handled.state := by
  have heffect := receiveMessage_effect hreceive
  generalize handled.state = next at heffect ⊢
  cases heffect with
  | clipCaps _ _ _ =>
      intro hready
      exact (processCapabilitySets_initialFormatListSent _ _ _).trans (h hready)
  | monitorReady _ _ =>
      intro _
      have hcallback := qfCliprdrMonitorReadyCallback_eq hworks state.caps.processMonitorReady
      exact congrArg (fun r => r.1.initialFormatListSent) hcallback
  | formatDataResponse response _ =>
      intro hready
      generalize cliprdrProcessFormatDataResponse setup.context setup.parse state.remote response =
        effect at hready ⊢
      cases effect with
      | ignored => exact h hready
      | fileList list => cases list <;> exact h hready
      | queued update => exact h hready
  | unchanged _ => exact h
  | formatList _ _ => exact h
  | formatDataRequest _ _ => exact h
  | fileContentsResponse _ => exact h

/-- A change of the local clipboard is kept from the server. -/
theorem dataChanged_silent (hmask : setup.context.featureMask &&& localToRemote = 0)
    (h : Announced state) (fromRemote : Bool) (disk : FileNode) (mimeData : MimeData) :
    ∃ files, state.dataChanged setup fromRemote disk mimeData =
      some ⟨channelRcOk, [], state.withFiles files⟩ := by
  simp only [ClipboardState.dataChanged]
  by_cases hready : state.ready = true
  · split
    · exact ⟨_, rfl⟩
    · simp only [cliprdrClientFormatList, filter_local_eq_nil hmask, h hready, and_self, if_true,
        Option.map_some]
      exact ⟨_, rfl⟩
  · have hquiet : dataChangedCallback (captureUrls disk) state.ready fromRemote state.files
        mimeData = (state.files, none) := if_pos (by simpa using hready)
    rw [hquiet]
    exact ⟨_, rfl⟩

/-- The inputs are the same for the server: only what is local may differ. -/
inductive SameToServer : ClientInput → ClientInput → Prop
  | message (bytes : Bytes) (content content' : LocalContent) :
      SameToServer (.message bytes content) (.message bytes content')
  | dataChanged (fromRemote fromRemote' : Bool) (disk disk' : FileNode)
      (mimeData mimeData' : MimeData) :
      SameToServer (.dataChanged fromRemote disk mimeData)
        (.dataChanged fromRemote' disk' mimeData')
  | send (request : FileContentsRequest) : SameToServer (.send request) (.send request)
  | worker (turn : WorkerTurn) : SameToServer (.worker turn) (.worker turn)

structure DifferInFiles (s s' : Client) : Prop where
  running : s'.running = s.running
  state : ∃ files, s'.state = s.state.withFiles files
  announced : Announced s.state

theorem clientStep_worker_withFiles (turn : WorkerTurn) (running : Bool) :
    clientStep setup ⟨state.withFiles files, running⟩ (.worker turn) =
      (clientStep setup ⟨state, running⟩ (.worker turn)).map
        fun r => (⟨r.1.state.withFiles files, r.1.running⟩, r.2) := by
  simp only [clientStep, Option.map_map]
  rfl

theorem clientStep_send_withFiles (request : FileContentsRequest) (running : Bool) :
    clientStep setup ⟨state.withFiles files, running⟩ (.send request) =
      (clientStep setup ⟨state, running⟩ (.send request)).map
        fun r => (⟨r.1.state.withFiles files, r.1.running⟩, r.2) := by
  have hpc' : (state.withFiles files).slot.pc = state.slot.pc := rfl
  have hcaps : (state.withFiles files).caps = state.caps := rfl
  rw [clientStep, clientStep, hpc', hcaps]
  by_cases hpc : state.slot.pc = .armed request.streamId
  · rw [if_pos hpc, if_pos hpc]
    cases cliprdrClientFileContentsRequest (setup.context.agreed state.caps) request with
    | none => rfl
    | some outcome =>
        simp only [Option.map_map]
        rfl
  · rw [if_neg hpc, if_neg hpc, Option.map_none]

/-- A machine that only carries the captured files along keeps two states in step. -/
theorem differInFiles_carried {r : Option (Client × ClientOutput)}
    (h : ∀ r' ∈ r, Announced r'.1.state) :
    Option.Rel (fun r r' => DifferInFiles r.1 r'.1 ∧ r.2 = r'.2) r
      (r.map fun r => (⟨r.1.state.withFiles files, r.1.running⟩, r.2)) := by
  cases r with
  | none => exact .none
  | some r => exact .some ⟨⟨rfl, ⟨files, rfl⟩, h r rfl⟩, rfl⟩

theorem announced_worker {running : Bool} {turn : WorkerTurn} (h : Announced state) :
    ∀ r ∈ clientStep setup ⟨state, running⟩ (.worker turn), Announced r.1.state := by
  rintro ⟨s', o⟩ hs
  cases clientStep_cases hs with
  | worker _ => exact h

theorem announced_send {running : Bool} {request : FileContentsRequest} (h : Announced state) :
    ∀ r ∈ clientStep setup ⟨state, running⟩ (.send request), Announced r.1.state := by
  rintro ⟨s', o⟩ hs
  cases clientStep_cases hs with
  | send _ _ _ => exact h

theorem lockstep_sameToServer (hworks : setup.context.Works)
    (hmask : setup.context.featureMask &&& localToRemote = 0) :
    Lockstep (clientStep setup) (clientStep setup) DifferInFiles SameToServer (· = ·) := by
  rintro ⟨state, running⟩ s' i i' hs hi
  obtain ⟨state', running'⟩ := s'
  obtain ⟨hrunning, ⟨files, hstate⟩, hannounced⟩ := hs
  simp only at hrunning hstate hannounced
  subst hrunning hstate
  cases hi with
  | message bytes content content' =>
      simp only [clientStep]
      cases running' with
      | false => exact .none
      | true =>
          have hsame : receiveMessage setup content' (state.withFiles files) bytes =
              (receiveMessage setup content state bytes).map (·.withFiles files) :=
            receiveMessage_withFiles hmask
          rw [if_pos rfl, if_pos rfl, hsame]
          cases hreceive : receiveMessage setup content state bytes with
          | none => exact .none
          | some handled =>
              exact .some ⟨⟨rfl, ⟨files, rfl⟩, hannounced.message hworks hreceive⟩, rfl⟩
  | dataChanged fromRemote fromRemote' disk disk' mimeData mimeData' =>
      obtain ⟨changed, hchanged⟩ := dataChanged_silent hmask hannounced fromRemote disk mimeData
      have hannounced' : Announced (state.withFiles files) := hannounced
      obtain ⟨changed', hchanged'⟩ :=
        dataChanged_silent hmask hannounced' fromRemote' disk' mimeData'
      simp only [clientStep, hchanged, hchanged', Option.map_some]
      exact .some ⟨⟨rfl, ⟨changed', rfl⟩, hannounced⟩, rfl⟩
  | send request =>
      rw [clientStep_send_withFiles]
      exact differInFiles_carried (announced_send hannounced)
  | worker turn =>
      rw [clientStep_worker_withFiles]
      exact differInFiles_carried (announced_worker hannounced)

/-- What is seen of a run from outside: the return code and the packets of every turn, and
what the file worker learns. -/
def observations (setup : ClipboardSetup) (is : List ClientInput) : Option (List ClientOutput) :=
  (run (clientStep setup) .initial is).map fun r => r.2.map Prod.snd

/-- With no bit for the way to the server, and a transport that works, a run tells
nothing of the local clipboard, the captured files or the disk. -/
theorem local_clipboard_kept_secret (setup : ClipboardSetup) (hworks : setup.context.Works)
    (hmask : setup.context.featureMask &&& localToRemote = 0) (is is' : List ClientInput)
    (h : List.Forall₂ SameToServer is is') : observations setup is = observations setup is' := by
  have hinitial : DifferInFiles .initial .initial :=
    ⟨rfl, ⟨[], rfl⟩, fun hready => absurd hready (by decide)⟩
  exact (lockstep_sameToServer hworks hmask).run_observations (fun _ _ heq => heq) hinitial h

theorem sameToServer_textSession (text text' : QString) :
    List.Forall₂ SameToServer (textSession text) (textSession text') :=
  .cons (.message _ _ _) (.cons (.dataChanged _ _ _ _ _ _) (.cons (.message _ _ _)
    (.cons (.worker _) (.cons (.send _) (.cons (.message _ _ _) (.cons (.worker _) .nil))))))

theorem local_clipboard_kept_secret_text :
    observations (.session remoteToLocal) (textSession [0x61]) =
        observations (.session remoteToLocal) (textSession [0x62, 0x63]) ∧
      (observations (.session remoteToLocal) (textSession [0x61])).isSome = true ∧
      observations (.session 0xFFFFFFFF) (textSession [0x61]) ≠
        observations (.session 0xFFFFFFFF) (textSession [0x62, 0x63]) := by
  refine ⟨?_, rfl, ?_⟩
  · exact local_clipboard_kept_secret _ ⟨fun _ => rfl, fun _ => rfl⟩ rfl _ _
      (sameToServer_textSession _ _)
  · intro h
    have hpackets := congrArg (fun os => os.map fun os => os.flatMap ClientOutput.packets) h
    exact absurd hpackets (by decide)

/-- The inputs differ in what the files on the disk hold, once they are captured. -/
inductive SameButDisk : ClientInput → ClientInput → Prop
  | message (bytes : Bytes) (mimeData : Option MimeData) (disk disk' : Disk) :
      SameButDisk (.message bytes ⟨mimeData, disk⟩) (.message bytes ⟨mimeData, disk'⟩)
  | same (i : ClientInput) : SameButDisk i i

theorem processMessage_disk {mimeData : Option MimeData} {disk disk' : Disk}
    (hmask : setup.context.featureMask &&& cliprdrFlagLocalToRemoteFiles = 0) :
    processMessage setup ⟨mimeData, disk⟩ state header body =
      processMessage setup ⟨mimeData, disk'⟩ state header body := by
  rw [processMessage, processMessage]
  cases MessageType.ofCode header.msgType with
  | none => rfl
  | some type =>
      cases type with
      | fileContentsRequest =>
          simp only [cliprdrProcessFileContentsRequestMessage, cliprdrProcessFileContentsRequest,
            if_pos hmask]
      | _ => rfl

/-- Without the files bit for the way to the server, a run tells nothing of what the
captured files hold, although their names and sizes may go out. -/
theorem local_files_kept_secret (setup : ClipboardSetup)
    (hmask : setup.context.featureMask &&& cliprdrFlagLocalToRemoteFiles = 0)
    (is is' : List ClientInput) (h : List.Forall₂ SameButDisk is is') :
    observations setup is = observations setup is' := by
  have hlockstep : Lockstep (clientStep setup) (clientStep setup) (· = ·) SameButDisk (· = ·) := by
    rintro s _ i i' rfl hi
    have hstep : clientStep setup s i = clientStep setup s i' := by
      cases hi with
      | message bytes mimeData disk disk' =>
          simp only [clientStep, receiveMessage]
          cases readHeader bytes with
          | none => rfl
          | some message =>
              simp only
              rw [processMessage_disk hmask]
      | same => rfl
    rw [hstep]
    cases clientStep setup s i' with
    | none => exact .none
    | some r => exact .some ⟨rfl, rfl⟩
  exact hlockstep.run_observations (fun _ _ heq => heq) rfl h

def fileSession (contents : Bytes) : List ClientInput :=
  [.message (packet cbMonitorReady 0 []) ⟨none, fun _ => none⟩,
    .dataChanged false sharedDisk (selection [ofAscii "/a"]),
    .message (packet cbFileContentsRequest 0 (leUInt32 1 ++ leUInt32 1 ++ leUInt32 2 ++
        leUInt32 0 ++ leUInt32 0 ++ leUInt32 3))
      ⟨none, fun _ => some ⟨3, fun _ => true, fun _ n => some (contents.take n.toNat), by
        rintro offset n data h
        rw [← Option.some.inj h]
        exact List.length_take_le _ _⟩⟩]

theorem local_files_kept_secret_contents :
    observations (.session cliprdrFlagLocalToRemote) (fileSession [1, 2, 3]) =
        observations (.session cliprdrFlagLocalToRemote) (fileSession [4, 5, 6]) ∧
      (observations (.session cliprdrFlagLocalToRemote) (fileSession [1, 2, 3])).isSome = true ∧
      observations (.session 0xFFFFFFFF) (fileSession [1, 2, 3]) ≠
        observations (.session 0xFFFFFFFF) (fileSession [4, 5, 6]) := by
  have hinputs : List.Forall₂ SameButDisk (fileSession [1, 2, 3]) (fileSession [4, 5, 6]) :=
    .cons (.same _) (.cons (.same _) (.cons (.message _ _ _ _) .nil))
  refine ⟨local_files_kept_secret _ rfl _ _ hinputs, rfl, ?_⟩
  intro h
  have hpackets := congrArg (fun os => os.map fun os => os.flatMap ClientOutput.packets) h
  exact absurd hpackets (by decide)

end QfClient
