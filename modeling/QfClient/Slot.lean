import QfClient.Machine
import QfClient.Packet

/-!
# The pending response slot

One slot carries the answer of the server from the channel thread to the file
worker. The worker arms it, sends its request and waits; the channel thread
stores a response in it. Each section under `m_remote_mutex` is one step, and
`RequestPc` says between which of them the worker stands.
-/

namespace QfClient

open Machine

inductive RemoteRequestKind where
  | none
  | size
  | range
  deriving DecidableEq, Repr

structure RemotePendingResponse where
  active : Bool
  ready : Bool
  ok : Bool
  streamId : UInt32
  kind : RemoteRequestKind
  data : Bytes
  deriving DecidableEq, Repr

namespace RemotePendingResponse

def empty : RemotePendingResponse := ⟨false, false, false, 0, .none, []⟩

def armed (streamId : UInt32) (kind : RemoteRequestKind) : RemotePendingResponse :=
  { empty with active := true, streamId := streamId, kind := kind }

def expects (pending : RemotePendingResponse) (response : FileContentsResponse) : Bool :=
  pending.active && response.streamId == pending.streamId

def store (pending : RemotePendingResponse) (response : FileContentsResponse) :
    RemotePendingResponse :=
  let ok : Bool := response.msgFlags = cbResponseOk
  { pending with ok := ok, data := if ok then response.payload else [], ready := true }

end RemotePendingResponse

/-- `next_remote_stream_id`: the id drawn, and `m_next_stream_id` afterwards. -/
def nextRemoteStreamId (next : UInt32) : UInt32 × UInt32 :=
  if next = 0 then (next + 1, next + 1 + 1) else (next, next + 1)

def serverFileContentsResponse (context : Bool) (response : Option FileContentsResponse)
    (pending : RemotePendingResponse) : UInt32 × RemotePendingResponse :=
  match context, response with
  | true, some response =>
      if pending.expects response then (channelRcOk, pending.store response)
      else (channelRcOk, pending)
  | _, _ => (errorInvalidParameter, pending)

/-- Where the worker stands in `send_remote_file_request` and
`wait_remote_response`. -/
inductive RequestPc where
  | idle
  | armed (streamId : UInt32)
  | failed (streamId : UInt32)
  | waiting (streamId : UInt32)
  deriving DecidableEq, Repr

def RequestPc.streamId? : RequestPc → Option UInt32
  | .idle => Option.none
  | .armed streamId => some streamId
  | .failed streamId => some streamId
  | .waiting streamId => some streamId

structure RemoteSlot where
  pending : RemotePendingResponse
  stopped : Bool
  nextStreamId : UInt32
  pc : RequestPc
  deriving DecidableEq, Repr

def RemoteSlot.initial : RemoteSlot := ⟨.empty, false, 1, .idle⟩

inductive SlotInput where
  | arm (kind : RemoteRequestKind)
  | send (rc : UInt32)
  | reset
  | wait
  | response (response : FileContentsResponse)
  | stop
  deriving DecidableEq, Repr

inductive SlotOutput where
  | armed (streamId : UInt32)
  | sent (ok : Bool)
  | done
  | waited (streamId : UInt32) (result : Option Bytes)
  | responded (accepted : Bool)
  deriving DecidableEq, Repr

def RemoteSlot.waitOver (s : RemoteSlot) (streamId : UInt32) : Bool :=
  s.stopped || (s.pending.ready && s.pending.streamId == streamId)

/-- What `wait_remote_response` returns; `none` is `false`. -/
def RemoteSlot.result (s : RemoteSlot) : Option Bytes :=
  if s.stopped || !s.pending.ok then none else some s.pending.data

def slotStep : Step RemoteSlot SlotInput SlotOutput
  | s, .arm kind =>
      match s.pc with
      | .idle =>
          let drawn := nextRemoteStreamId s.nextStreamId
          some ({ s with
            pending := .armed drawn.1 kind
            nextStreamId := drawn.2
            pc := .armed drawn.1 }, .armed drawn.1)
      | _ => none
  | s, .send rc =>
      match s.pc with
      | .armed streamId =>
          if rc ≠ channelRcOk then some ({ s with pc := .failed streamId }, .sent false)
          else some ({ s with pc := .waiting streamId }, .sent true)
      | _ => none
  | s, .reset =>
      match s.pc with
      | .failed _ => some ({ s with pending := .empty, pc := .idle }, .done)
      | _ => none
  | s, .wait =>
      match s.pc with
      | .waiting streamId =>
          if s.waitOver streamId then
            some ({ s with pending := .empty, pc := .idle }, .waited streamId s.result)
          else none
      | _ => none
  | s, .response response =>
      some ({ s with pending := (serverFileContentsResponse true (some response) s.pending).2 },
        .responded (s.pending.expects response))
  | s, .stop =>
      some ({ s with stopped := true, pending := { s.pending with ready := true } }, .done)

inductive SlotStep (s : RemoteSlot) : SlotInput → SlotOutput → RemoteSlot → Prop
  | arm (kind : RemoteRequestKind) : s.pc = .idle →
      SlotStep s (.arm kind) (.armed (nextRemoteStreamId s.nextStreamId).1)
        { s with
          pending := .armed (nextRemoteStreamId s.nextStreamId).1 kind
          nextStreamId := (nextRemoteStreamId s.nextStreamId).2
          pc := .armed (nextRemoteStreamId s.nextStreamId).1 }
  | sendFailed (rc streamId : UInt32) : s.pc = .armed streamId → rc ≠ channelRcOk →
      SlotStep s (.send rc) (.sent false) { s with pc := .failed streamId }
  | sent (streamId : UInt32) : s.pc = .armed streamId →
      SlotStep s (.send channelRcOk) (.sent true) { s with pc := .waiting streamId }
  | reset (streamId : UInt32) : s.pc = .failed streamId →
      SlotStep s .reset .done { s with pending := .empty, pc := .idle }
  | wait (streamId : UInt32) : s.pc = .waiting streamId → s.waitOver streamId = true →
      SlotStep s .wait (.waited streamId s.result) { s with pending := .empty, pc := .idle }
  | accepted (response : FileContentsResponse) : s.pending.expects response = true →
      SlotStep s (.response response) (.responded true)
        { s with pending := s.pending.store response }
  | ignored (response : FileContentsResponse) : s.pending.expects response = false →
      SlotStep s (.response response) (.responded false) s
  | stop : SlotStep s .stop .done
      { s with stopped := true, pending := { s.pending with ready := true } }

theorem slotStep_cases {s s' : RemoteSlot} {i : SlotInput} {o : SlotOutput}
    (h : slotStep s i = some (s', o)) : SlotStep s i o s' := by
  cases i with
  | arm kind =>
      simp only [slotStep] at h
      split at h
      · rename_i hpc
        obtain ⟨rfl, rfl⟩ := Prod.mk.inj (Option.some.inj h)
        exact .arm kind hpc
      · exact absurd h (by simp)
  | send rc =>
      simp only [slotStep] at h
      split at h
      · rename_i streamId hpc
        split_ifs at h with hrc
        · obtain ⟨rfl, rfl⟩ := Prod.mk.inj (Option.some.inj h)
          exact .sendFailed rc streamId hpc hrc
        · obtain ⟨rfl, rfl⟩ := Prod.mk.inj (Option.some.inj h)
          obtain rfl := not_not.mp hrc
          exact .sent streamId hpc
      · exact absurd h (by simp)
  | reset =>
      simp only [slotStep] at h
      split at h
      · rename_i streamId hpc
        obtain ⟨rfl, rfl⟩ := Prod.mk.inj (Option.some.inj h)
        exact .reset streamId hpc
      · exact absurd h (by simp)
  | wait =>
      simp only [slotStep] at h
      split at h
      · rename_i streamId hpc
        split_ifs at h with hw
        obtain ⟨rfl, rfl⟩ := Prod.mk.inj (Option.some.inj h)
        exact .wait streamId hpc hw
      · exact absurd h (by simp)
  | response response =>
      simp only [slotStep, serverFileContentsResponse] at h
      obtain ⟨rfl, rfl⟩ := Prod.mk.inj (Option.some.inj h)
      by_cases he : s.pending.expects response = true
      · simp only [he, if_true]
        exact .accepted response he
      · have hf : s.pending.expects response = false := by simpa using he
        simp only [hf]
        exact .ignored response hf
  | stop =>
      obtain ⟨rfl, rfl⟩ := Prod.mk.inj (Option.some.inj h)
      exact .stop

theorem slotStep_wait {s s' : RemoteSlot} {streamId : UInt32} {result : Option Bytes}
    (h : slotStep s .wait = some (s', .waited streamId result)) :
    s.pc = .waiting streamId ∧ s.waitOver streamId = true ∧ result = s.result ∧
      s' = { s with pending := .empty, pc := .idle } := by
  generalize ho : SlotOutput.waited streamId result = o at h
  cases slotStep_cases h with
  | wait streamId' hpc hover =>
      obtain ⟨rfl, hresult⟩ := SlotOutput.waited.inj ho
      exact ⟨hpc, hover, hresult, rfl⟩

/-- A wait that has a result was not ended by a stop. -/
theorem RemoteSlot.running_of_result {s : RemoteSlot} {data : Bytes} (h : s.result = some data) :
    s.stopped = false := by
  cases hstopped : s.stopped with
  | false => rfl
  | true => simp [RemoteSlot.result, hstopped] at h

/-- A response changes nothing but the pending response. -/
theorem slotStep_response {s s' : RemoteSlot} {response : FileContentsResponse} {o : SlotOutput}
    (h : slotStep s (.response response) = some (s', o)) :
    ∃ pending, s' = { s with pending := pending } := by
  obtain ⟨rfl, -⟩ := Prod.mk.inj (Option.some.inj h)
  exact ⟨_, rfl⟩

def pendingOf (streamId : UInt32) (kind : RemoteRequestKind) :
    Option FileContentsResponse → RemotePendingResponse
  | none => .armed streamId kind
  | some response => (RemotePendingResponse.armed streamId kind).store response

variable {streamId : UInt32} {kind : RemoteRequestKind} {last : Option FileContentsResponse}
  {response : FileContentsResponse}

@[simp] theorem pendingOf_active : (pendingOf streamId kind last).active = true := by
  cases last <;> rfl

@[simp] theorem pendingOf_streamId : (pendingOf streamId kind last).streamId = streamId := by
  cases last <;> rfl

@[simp] theorem pendingOf_ready : (pendingOf streamId kind last).ready = last.isSome := by
  cases last <;> rfl

/-- Only the last stored response counts. -/
@[simp] theorem store_pendingOf :
    (pendingOf streamId kind last).store response = pendingOf streamId kind (some response) := by
  cases last <;> rfl

@[simp] theorem expects_pendingOf :
    (pendingOf streamId kind last).expects response = (response.streamId == streamId) := by
  simp [RemotePendingResponse.expects]

@[simp] theorem expects_empty : RemotePendingResponse.empty.expects response = false := rfl

/-- The wait returns the payload of the stored response, or fails with it. -/
theorem result_pendingOf {s : RemoteSlot} (hstop : s.stopped = false)
    (hp : s.pending = pendingOf streamId kind (some response)) :
    s.result = if response.msgFlags = cbResponseOk then some response.payload else none := by
  rw [RemoteSlot.result, hp, hstop]
  by_cases hok : response.msgFlags = cbResponseOk
  · simp [pendingOf, RemotePendingResponse.store, hok]
  · simp [pendingOf, RemotePendingResponse.store, hok]

end QfClient
