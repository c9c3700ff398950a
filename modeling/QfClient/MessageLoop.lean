import QfClient.Channel
import QfClient.FileServe

/-!
# File Contents Requests in the message loop

`cliprdrOrderRecv` is the handler that the message thread calls for every
clipboard message. The functions for the other message types are the parameter
`process`; the captured list and the disk that the n-th message meets are the
n-th element of `world`, so both may change between two messages.
-/

namespace QfClient

open WinPR

def cliprdrProcessFileContentsRequest (context : CliprdrPlugin)
    (serverFileContentsRequest : FileContentsRequest → Outcome) (bytes : Bytes) : Outcome :=
  match cliprdrReadFileContentsRequest bytes with
  | .error error => some (error, [])
  | .ok request =>
      if context.featureMask &&& cliprdrFlagLocalToRemoteFiles = 0 then
        cliprdrSendErrorResponse context cbFileContentsResponse
      else serverFileContentsRequest request

/-- What the loop carries from message to message: how many it has handled, the
packets sent, and the state of the other handlers. -/
structure Session (α : Type) where
  handled : ℕ
  sent : List Bytes
  others : α
  deriving DecidableEq

abbrev World := ℕ → List ClipboardInfoFile × Disk

/-- The functions `cliprdr_process_*` of the other message types, and the
default branch of the switch. -/
abbrev ProcessOther (α : Type) :=
  Session α → ClipboardHeader → Bytes → Option (UInt32 × Session α)

variable {α : Type}

def Session.answered (session : Session α) (packets : List Bytes) : Session α :=
  { session with handled := session.handled + 1, sent := session.sent ++ packets }

def cliprdrOrderRecv (context : CliprdrPlugin) (process : ProcessOther α) (world : World)
    (session : Session α) (s : WStream) : Option (UInt32 × Session α) :=
  match readHeader s.unread with
  | none => some (errorInvalidData, session.answered [])
  | some (header, body) =>
      if header.msgType = cbFileContentsRequest then
        let now := world session.handled
        (cliprdrProcessFileContentsRequest context
          (serverFileContentsRequest (some context) (some now.1) now.2) body).map
          (fun r => (r.1, session.answered r.2))
      else
        (process session header body).map
          (fun r => (r.1, { r.2 with handled := session.handled + 1 }))

/-- A message with a File Contents Request that its reader accepts. -/
def CarriesRequest (s : WStream) (request : FileContentsRequest) : Prop :=
  ∃ header body, readHeader s.unread = some (header, body) ∧
    header.msgType = cbFileContentsRequest ∧
    cliprdrReadFileContentsRequest body = .ok request

/-- The state after the messages, if the handler returns no error on any of them. -/
def handleAll {β : Type} (msgHandler : β → WStream → Option (UInt32 × β)) (userdata : β) :
    List WStream → Option β
  | [] => some userdata
  | s :: messages =>
      match msgHandler userdata s with
      | none => none
      | some (error, userdata) =>
          if error ≠ 0 then none else handleAll msgHandler userdata messages

def GoesOn {β : Type} (msgHandler : β → WStream → Option (UInt32 × β)) (userdata : β)
    (messages : List WStream) : Prop :=
  ∃ userdata', ∀ later,
    channelClientThreadProc msgHandler userdata (messages.map .data ++ later) =
      channelClientThreadProc msgHandler userdata' later

theorem threadProc_of_handleAll {β : Type} {msgHandler : β → WStream → Option (UInt32 × β)}
    {userdata userdata' : β} {messages : List WStream}
    (h : handleAll msgHandler userdata messages = some userdata') (later : List QueueMessage) :
    channelClientThreadProc msgHandler userdata (messages.map .data ++ later) =
      channelClientThreadProc msgHandler userdata' later := by
  induction messages generalizing userdata with
  | nil =>
      obtain rfl := Option.some.inj h
      rfl
  | cons s messages ih =>
      cases hs : msgHandler userdata s with
      | none => simp [handleAll, hs] at h
      | some r =>
          obtain ⟨error, next⟩ := r
          by_cases he : error ≠ 0
          · simp [handleAll, hs, he] at h
          · simp only [handleAll, hs, if_neg he] at h
            simp only [List.map_cons, List.cons_append, channelClientThreadProc, hs, if_neg he]
            exact ih h

theorem threadProc_stops {β : Type} {msgHandler : β → WStream → Option (UInt32 × β)}
    {userdata : β} {messages : List WStream}
    (h : handleAll msgHandler userdata messages = none) (userdata' : β)
    (left : List QueueMessage) :
    channelClientThreadProc msgHandler userdata (messages.map .data) ≠
      some (.waiting, userdata', left) := by
  induction messages generalizing userdata with
  | nil => exact absurd h (by simp [handleAll])
  | cons s messages ih =>
      cases hs : msgHandler userdata s with
      | none => simp [channelClientThreadProc, hs]
      | some r =>
          obtain ⟨error, next⟩ := r
          by_cases he : error ≠ 0
          · simp [channelClientThreadProc, hs, he]
          · simp only [handleAll, hs, if_neg he] at h
            simp only [List.map_cons, channelClientThreadProc, hs, if_neg he]
            exact ih h

theorem goesOn_iff {β : Type} {msgHandler : β → WStream → Option (UInt32 × β)} {userdata : β}
    {messages : List WStream} :
    GoesOn msgHandler userdata messages ↔ (handleAll msgHandler userdata messages).isSome := by
  constructor
  · rintro ⟨userdata', hgo⟩
    cases h : handleAll msgHandler userdata messages with
    | some next => rfl
    | none =>
        have hwait := hgo []
        rw [List.append_nil] at hwait
        exact absurd hwait (threadProc_stops h userdata' [])
  · intro h
    obtain ⟨userdata', hall⟩ := Option.isSome_iff_exists.mp h
    exact ⟨userdata', threadProc_of_handleAll hall⟩

variable {context : CliprdrPlugin} {process : ProcessOther α} {world : World}
  {session : Session α} {s : WStream} {request : FileContentsRequest}

theorem cliprdrOrderRecv_request (hc : context.Ready) (h : CarriesRequest s request) :
    cliprdrOrderRecv context process world session s =
      (serverFileContentsRequest (some context) (some (world session.handled).1)
        (world session.handled).2 request).map (fun r => (r.1, session.answered r.2)) := by
  obtain ⟨header, body, hheader, htype, hread⟩ := h
  simp only [cliprdrOrderRecv, hheader, if_pos htype, cliprdrProcessFileContentsRequest, hread,
    if_neg hc.localToRemoteFiles]

/-- A request that can be served costs one packet and leaves the loop running;
any other one is an error of the handler. -/
theorem cliprdrOrderRecv_servable (process : ProcessOther α) (world : World)
    (session : Session α) (hc : context.Ready) (h : CarriesRequest s request) :
    (Servable (world session.handled).1 (world session.handled).2 request →
      ∃ packet, cliprdrOrderRecv context process world session s =
        some (channelRcOk, session.answered [packet])) ∧
    (¬ Servable (world session.handled).1 (world session.handled).2 request →
      ∀ next, cliprdrOrderRecv context process world session s ≠ some (channelRcOk, next)) := by
  rw [cliprdrOrderRecv_request hc h]
  constructor
  · rintro ⟨data, hdata, hlen⟩
    exact ⟨_, by rw [serverFileContentsRequest_of_servable hc hdata, if_pos hlen]; rfl⟩
  · intro hnot next
    by_cases hserves : ∃ data,
        Serves (world session.handled).1 (world session.handled).2 request data
    · obtain ⟨data, hdata⟩ := hserves
      rw [serverFileContentsRequest_of_servable hc hdata,
        if_neg (fun hlen => hnot ⟨data, hdata, hlen⟩)]
      simp
    · rw [serverFileContentsRequest_of_not_serves (not_exists.mp hserves)]
      have hfail : cbResponseFail.toUInt32 ≠ channelRcOk := by decide
      simp [responseFailed, hfail]

theorem handleAll_requests_iff (hc : context.Ready)
    (messages : List (WStream × FileContentsRequest))
    (hm : ∀ m ∈ messages, CarriesRequest m.1 m.2) :
    (handleAll (cliprdrOrderRecv context process world) session (messages.map Prod.fst)).isSome ↔
      ∀ k m, messages[k]? = some m →
        Servable (world (session.handled + k)).1 (world (session.handled + k)).2 m.2 := by
  induction messages generalizing session with
  | nil => simp [handleAll]
  | cons m messages ih =>
      obtain ⟨hserved, hfailed⟩ :=
        cliprdrOrderRecv_servable process world session hc (hm m List.mem_cons_self)
      by_cases hservable : Servable (world session.handled).1 (world session.handled).2 m.2
      · obtain ⟨packet, hpacket⟩ := hserved hservable
        have hrest := @ih (session.answered [packet])
          (fun m' hm' => hm m' (List.mem_cons_of_mem _ hm'))
        simp only [List.map_cons, handleAll, hpacket, channelRcOk, ne_eq, not_true, if_false]
        rw [hrest]
        constructor
        · rintro hall (_ | k) m' hk
          · obtain rfl := Option.some.inj hk
            exact hservable
          · have hk' := hall k m' (by simpa using hk)
            rwa [Session.answered, Nat.add_right_comm] at hk'
        · intro hall k m' hk
          have hk' := hall (k + 1) m' (by simpa using hk)
          rwa [Session.answered, Nat.add_right_comm]
      · have hnone : handleAll (cliprdrOrderRecv context process world) session
            ((m :: messages).map Prod.fst) = none := by
          simp only [List.map_cons, handleAll]
          split
          · rfl
          · rename_i error next hs
            refine if_pos fun he => ?_
            rw [he] at hs
            exact hfailed hservable next hs
        rw [hnone]
        refine ⟨fun h => absurd h (by simp), fun hall => ?_⟩
        exact absurd (hall 0 m rfl) hservable

/-- A request is answered as it should be exactly when it can be served, and the
loop gets past a sequence of requests exactly when each of them can be served
when its turn comes. -/
theorem file_contents_requests_iff (hc : context.Ready) (process : ProcessOther α) :
    (∀ files disk request,
      Answered files disk request
          (serverFileContentsRequest (some context) (some files) disk request) ↔
        Servable files disk request) ∧
    (∀ (world : World) (session : Session α) (messages : List (WStream × FileContentsRequest)),
      (∀ m ∈ messages, CarriesRequest m.1 m.2) →
      (GoesOn (cliprdrOrderRecv context process world) session (messages.map Prod.fst) ↔
        ∀ k m, messages[k]? = some m →
          Servable (world (session.handled + k)).1 (world (session.handled + k)).2 m.2)) := by
  refine ⟨fun files disk request => answered_iff_servable hc, fun world session messages hm => ?_⟩
  rw [goesOn_iff, handleAll_requests_iff hc messages hm]

def sizeRequestMessage : WStream :=
  .ofBytes [8, 0, 0, 0, 24, 0, 0, 0, 5, 0, 0, 0, 0, 0, 0, 0, 1, 0, 0, 0, 0, 0, 0, 0, 0, 0, 0, 0,
    8, 0, 0, 0]

def sizeRequest : FileContentsRequest := ⟨5, 0, fileContentsSize, 0, 0, 8, none⟩

theorem sizeRequestMessage_carries : CarriesRequest sizeRequestMessage sizeRequest :=
  ⟨⟨8, 0, 24⟩, sizeRequestMessage.unread.drop 8, by decide, by decide, by decide⟩

theorem file_contents_requests_size_of_first :
    (Answered [⟨[], [], 3, false⟩] (fun _ => none) sizeRequest
        (serverFileContentsRequest (some .permissive) (some [⟨[], [], 3, false⟩])
          (fun _ => none) sizeRequest) ↔
      Servable [⟨[], [], 3, false⟩] (fun _ => none) sizeRequest) ∧
    (GoesOn (cliprdrOrderRecv .permissive (fun session _ _ => some (0, session))
        (fun _ => ([⟨[], [], 3, false⟩], fun _ => none))) (⟨0, [], ()⟩ : Session Unit)
        [sizeRequestMessage] ↔
      ∀ (k : ℕ) (m : WStream × FileContentsRequest),
        [(sizeRequestMessage, sizeRequest)][k]? = some m →
        Servable [⟨[], [], 3, false⟩] (fun _ => none) m.2) :=
  have hiff := file_contents_requests_iff CliprdrPlugin.permissive_ready
    (fun (session : Session Unit) _ _ => some (0, session))
  ⟨hiff.1 _ _ _, hiff.2 _ _ [(sizeRequestMessage, sizeRequest)]
    (by simpa using sizeRequestMessage_carries)⟩

/-- Asked for an entry of an empty list, the client sends nothing, returns the
flag `CB_RESPONSE_FAIL` as an error, and the loop ends with the next message
unread. -/
theorem request_beyond_list_ends_loop :
    serverFileContentsRequest (some .permissive) (some []) (fun _ => none) sizeRequest =
      some (2, []) ∧
    ¬ Answered [] (fun _ => none) sizeRequest
      (serverFileContentsRequest (some .permissive) (some []) (fun _ => none) sizeRequest) ∧
    channelClientThreadProc (cliprdrOrderRecv .permissive (fun session _ _ => some (0, session))
        (fun _ => ([], fun _ => none))) (⟨0, [], ()⟩ : Session Unit)
        [.data sizeRequestMessage, .data sizeRequestMessage] =
      some (.exited 2, ⟨1, [], ()⟩, [.data sizeRequestMessage]) := by
  have hresult : serverFileContentsRequest (some .permissive) (some []) (fun _ => none)
      sizeRequest =
      some (2, []) := rfl
  refine ⟨hresult, ?_, by decide⟩
  rintro ⟨-, hfail⟩
  obtain ⟨data, hdata⟩ := hfail (fun data hdata => by cases hdata <;> simp_all)
  rw [hresult] at hdata
  exact absurd hdata (by simp)

end QfClient
