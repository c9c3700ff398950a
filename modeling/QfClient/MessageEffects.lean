import QfClient.ClipboardClient
import QfClient.SlotHistory

/-!
# What a message changes

Each message changes the part of the client that belongs to its type and nothing else.
The slot of the worker is changed by file contents responses alone, so a run of the
client is a run of the slot with the responses that were on the wire.
-/

namespace QfClient

open LittleEndian Machine WinPR

inductive MessageEffect (setup : ClipboardSetup) (state : ClipboardState) (bytes : Bytes) :
    ClipboardState → Prop
  | unchanged : receiveFileContentsResponse bytes = none → MessageEffect setup state bytes state
  | clipCaps {header : ClipboardHeader} {body : Bytes} :
      readHeader bytes = some (header, body) → messageType bytes = some .clipCaps →
      4 ≤ body.length →
      MessageEffect setup state bytes
        { state with
          caps := (processCapabilitySets (uint16At body 0).toNat state.caps (body.drop 4)).2 }
  | monitorReady {outcome : UInt32 × List Bytes} :
      messageType bytes = some .monitorReady →
      (qfCliprdrMonitorReadyCallback setup.context state.caps.processMonitorReady).2 =
        some outcome →
      MessageEffect setup state bytes
        { state with
          caps := (qfCliprdrMonitorReadyCallback setup.context state.caps.processMonitorReady).1
          ready := true }
  | formatList {formats : List CliprdrFormat} {remote : RemoteFormats} {selection : Selection} :
      messageType bytes = some .formatList →
      cliprdrProcessFormatList setup.context state.remote formats = some (remote, selection) →
      MessageEffect setup state bytes { state with remote := remote }
  | formatDataRequest (requestedFormatId : UInt32) :
      messageType bytes = some .formatDataRequest →
      MessageEffect setup state bytes { state with lastRequestedFormatId := requestedFormatId }
  | formatDataResponse (response : FormatDataResponse) :
      messageType bytes = some .formatDataResponse →
      MessageEffect setup state bytes
        (state.receive
          (cliprdrProcessFormatDataResponse setup.context setup.parse state.remote response))
  | fileContentsResponse {response : FileContentsResponse} :
      receiveFileContentsResponse bytes = some response →
      MessageEffect setup state bytes
        { state with
          slot := { state.slot with
            pending := (serverFileContentsResponse true (some response) state.slot.pending).2 } }

variable {setup : ClipboardSetup} {content : LocalContent} {state state' : ClipboardState}
  {header : ClipboardHeader} {body bytes : Bytes} {handled : Handled}

/-- A message of another type is no file contents response. -/
theorem receiveFileContentsResponse_eq_none {type : MessageType}
    (h : messageType bytes = some type) (htype : type ≠ .fileContentsResponse) :
    receiveFileContentsResponse bytes = none := by
  rw [messageType] at h
  obtain ⟨message, hread, hcode⟩ := Option.bind_eq_some_iff.mp h
  have hne : message.1.msgType ≠ cbFileContentsResponse := by
    intro heq
    rw [heq] at hcode
    exact htype (Option.some.inj hcode).symm
  rw [receiveFileContentsResponse, hread]
  exact if_neg hne

theorem ofCode_eq_fileContentsResponse {code : UInt16}
    (h : MessageType.ofCode code = some .fileContentsResponse) : code = cbFileContentsResponse := by
  rw [MessageType.ofCode] at h
  split_ifs at h <;> first | assumption | simp at h

theorem receiveMessage_effect (h : receiveMessage setup content state bytes = some handled) :
    MessageEffect setup state bytes handled.state := by
  cases hread : readHeader bytes with
  | none =>
      rw [receiveMessage, hread] at h
      obtain rfl := Option.some.inj h
      exact .unchanged (by rw [receiveFileContentsResponse, hread])
  | some message =>
      obtain ⟨header, body⟩ := message
      simp only [receiveMessage, hread, processMessage] at h
      have htypeOf : messageType bytes = MessageType.ofCode header.msgType := by
        rw [messageType, hread, Option.bind_some]
      cases htype : MessageType.ofCode header.msgType with
      | none =>
          rw [htype] at h htypeOf
          obtain rfl := Option.some.inj h
          refine .unchanged ?_
          have hne : header.msgType ≠ cbFileContentsResponse := by
            intro heq
            rw [heq] at htype
            cases htype
          simp only [receiveFileContentsResponse, hread, if_neg hne]
      | some type =>
          rw [htype] at h htypeOf
          have hother : type ≠ .fileContentsResponse → receiveFileContentsResponse bytes = none :=
            receiveFileContentsResponse_eq_none htypeOf
          cases type with
          | clipCaps =>
              obtain rfl := Option.some.inj h
              rw [cliprdrProcessClipCaps]
              split_ifs with hshort
              · exact .unchanged (hother (by decide))
              · exact .clipCaps hread htypeOf (not_lt.mp hshort)
          | monitorReady =>
              obtain ⟨outcome, houtcome, rfl⟩ := Option.map_eq_some_iff.mp h
              exact .monitorReady htypeOf houtcome
          | formatList =>
              simp only [cliprdrProcessFormatListMessage] at h
              split at h
              · obtain rfl := Option.some.inj h
                exact .unchanged (hother (by decide))
              · obtain ⟨r, hprocess, rfl⟩ := Option.map_eq_some_iff.mp h
                exact .formatList htypeOf hprocess
          | formatDataRequest =>
              simp only [cliprdrProcessFormatDataRequest] at h
              split_ifs at h
              · obtain rfl := Option.some.inj h
                exact .unchanged (hother (by decide))
              · obtain ⟨outcome, -, rfl⟩ := Option.map_eq_some_iff.mp h
                exact .unchanged (hother (by decide))
              · obtain ⟨r, -, rfl⟩ := Option.map_eq_some_iff.mp h
                exact .formatDataRequest _ htypeOf
          | formatDataResponse =>
              obtain rfl := Option.some.inj h
              rw [cliprdrProcessFormatDataResponseMessage]
              split_ifs
              · exact .unchanged (hother (by decide))
              · exact .formatDataResponse _ htypeOf
          | fileContentsRequest =>
              obtain ⟨outcome, -, rfl⟩ := Option.map_eq_some_iff.mp h
              exact .unchanged (hother (by decide))
          | fileContentsResponse =>
              obtain rfl := Option.some.inj h
              have hcode := ofCode_eq_fileContentsResponse htype
              cases hresponse : cliprdrReadFileContentsResponse header body with
              | error error =>
                  simp only [cliprdrProcessFileContentsResponse, hresponse]
                  refine .unchanged ?_
                  simp only [receiveFileContentsResponse, hread, hcode, if_true, hresponse]
                  rfl
              | ok response =>
                  simp only [cliprdrProcessFileContentsResponse, hresponse]
                  refine .fileContentsResponse ?_
                  simp only [receiveFileContentsResponse, hread, hcode, if_true, hresponse]
                  rfl
          | formatListResponse =>
              obtain rfl := Option.some.inj h
              exact .unchanged (hother (by decide))
          | lockClipData =>
              obtain rfl := Option.some.inj h
              rw [cliprdrProcessClipData]
              split_ifs <;> exact .unchanged (hother (by decide))
          | unlockClipData =>
              obtain rfl := Option.some.inj h
              rw [cliprdrProcessClipData]
              split_ifs <;> exact .unchanged (hother (by decide))

@[simp] theorem slot_receive (effect : ResponseEffect) :
    (state.receive effect).slot = state.slot := by
  cases effect with
  | ignored => rfl
  | fileList files => cases files <;> rfl
  | queued update => rfl

theorem receiveMessage_slot (h : receiveMessage setup content state bytes = some handled) :
    handled.state.slot = match receiveFileContentsResponse bytes with
      | none => state.slot
      | some response => { state.slot with
          pending := (serverFileContentsResponse true (some response) state.slot.pending).2 } := by
  have heffect := receiveMessage_effect h
  generalize handled.state = next at heffect ⊢
  cases heffect with
  | unchanged hnone => rw [hnone]
  | clipCaps _ htype _ => rw [receiveFileContentsResponse_eq_none htype (by decide)]
  | monitorReady htype _ => rw [receiveFileContentsResponse_eq_none htype (by decide)]
  | formatList htype _ => rw [receiveFileContentsResponse_eq_none htype (by decide)]
  | formatDataRequest _ htype => rw [receiveFileContentsResponse_eq_none htype (by decide)]
  | formatDataResponse _ htype =>
      rw [receiveFileContentsResponse_eq_none htype (by decide), slot_receive]
  | fileContentsResponse hresponse => rw [hresponse]

theorem dataChanged_slot {fromRemote : Bool} {disk : FileNode} {mimeData : MimeData}
    (h : state.dataChanged setup fromRemote disk mimeData = some handled) :
    handled.state.slot = state.slot := by
  simp only [ClipboardState.dataChanged] at h
  split at h
  · obtain rfl := Option.some.inj h
    rfl
  · obtain ⟨outcome, -, rfl⟩ := Option.map_eq_some_iff.mp h
    rfl

def slotEvent : ClientInput × ClientOutput → Option SlotEvent
  | (.message bytes _, o) =>
      match receiveFileContentsResponse bytes, o.slot with
      | some response, some out => some (.response response, out)
      | _, _ => none
  | (.dataChanged _ _ _, _) => none
  | (.send _, o) => o.slot.map fun out => (.send o.rc, out)
  | (.worker turn, o) => o.slot.map fun out => (turn.input, out)

variable {s s' : Client} {i : ClientInput} {o : ClientOutput} {t : ClientTrace}

theorem clientStep_slot (h : clientStep setup s i = some (s', o)) :
    DoesEvent slotStep s.state.slot s'.state.slot (slotEvent (i, o)) := by
  cases clientStep_cases h with
  | @message bytes content r _ hreceive =>
      have hslot := receiveMessage_slot hreceive
      cases hresponse : receiveFileContentsResponse bytes with
      | none =>
          rw [hresponse] at hslot
          simp only [slotEvent, slotAnswer, hresponse]
          exact hslot
      | some response =>
          rw [hresponse] at hslot
          simp only [slotEvent, slotAnswer, hresponse, Option.map_some, DoesEvent, slotStep]
          rw [hslot]
  | dataChanged hchanged => exact dataChanged_slot hchanged
  | send _ _ hslot => exact hslot
  | worker hslot => exact hslot

/-- A run of the client is a run of the slot. -/
theorem client_run_slot (h : Execution (clientStep setup) s t s') :
    Execution slotStep s.state.slot (t.filterMap slotEvent) s'.state.slot := by
  have hproject := Execution.project (I := fun _ => True) (P := fun _ => True)
    (fun s : Client => s.state.slot) slotEvent (fun _ _ _ _ _ _ _ => trivial)
    (fun _ _ _ _ _ _ hs => clientStep_slot hs) trivial (fun _ _ => trivial) h
  exact hproject.1

end QfClient
