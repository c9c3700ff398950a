import QfClient.CopyPaste
import QfClient.Desktops

/-!
# Two clipboards kept in step

One copy after the other is made, at either desktop, each when the exchange before it is
over. Between two copies the packets and posted calls can only take their course, and when
there are none left the other clipboard shows what was copied.
-/

namespace QfClient

open LittleEndian Machine Qt WinPR

/-- What a copy at one side looks like on the other clipboard: a text up to its first NUL, as
`QString::fromUtf16` reads it, an image as it is decoded from its PNG file. -/
inductive ShownAs (fromData : ImageFormat → Bytes → QImage) (mimeData : MimeData) : MimeData → Prop
  | text : mimeData.hasUrls = false → mimeData.hasText = true →
      mimeData.text.length ≤ 2147483638 →
      ShownAs fromData mimeData (copiedText (fromUtf16Sized (mimeData.text.takeWhile (· ≠ 0))))
  | image {png : Bytes} : mimeData.hasUrls = false → mimeData.hasText = false →
      mimeData.hasImage = true → mimeData.imageData.isNull = false →
      mimeData.imageData.png = some png → png.length ≤ 4294967279 →
      (fromData .png png).isNull = false →
      ShownAs fromData mimeData (copiedImage (fromData .png png))

/-- Transports that work, converters that know every name, and the bits for data. -/
structure Synchronises (setup : Seat → DesktopSetup) : Prop where
  works : ∀ side, (setup side).clipboard.context.Works
  reader : ∀ side, (setup side).clipboard.reader.Strict
  writer : ∀ side, (setup side).clipboard.writer.Faithful
  sends : ∀ side, (setup side).clipboard.context.featureMask &&& cliprdrFlagLocalToRemote ≠ 0
  receives : ∀ side, (setup side).clipboard.context.featureMask &&& cliprdrFlagRemoteToLocal ≠ 0

/-- The channel is up, and the view is between two calls. -/
structure Desktop.Connected (useLongFormatNames : Bool) (s : Desktop) : Prop where
  running : s.client.running = true
  ready : s.client.state.ready = true
  names : s.client.state.caps.useLongFormatNames = useLongFormatNames
  fromRemote : s.fromRemote = false
  performed : s.performed ≤ s.client.state.queued.length

def Desktop.pendingCalls (s : Desktop) : List RemoteUpdate := s.client.state.queued.drop s.performed

def Peers.Settled (s : Peers) : Prop :=
  ∀ side, s.incoming side = [] ∧ (s.desktop side).pendingCalls = []

/-- The copies so far and the state they led to; a copy is made in a settled state. -/
inductive Copies (setup : Seat → DesktopSetup) (s₀ : Peers) :
    List (Seat × MimeData) → Peers → Prop
  | start : Copies setup s₀ [] s₀
  | copied {copies : List (Seat × MimeData)} {s s' : Peers} {side : Seat} {disk : FileNode}
      {mimeData shown : MimeData} {packets : List Bytes} :
      Copies setup s₀ copies s → s.Settled →
      ShownAs (setup side.other).fromData mimeData shown →
      peersStep setup s (.turn side (.copied disk mimeData)) = some (s', packets) →
      Copies setup s₀ (copies ++ [(side, mimeData)]) s'
  | delivered {copies : List (Seat × MimeData)} {s s' : Peers} {side : Seat} {disk : Disk}
      {packets : List Bytes} :
      Copies setup s₀ copies s → peersStep setup s (.deliver side disk) = some (s', packets) →
      Copies setup s₀ copies s'
  | performed {copies : List (Seat × MimeData)} {s s' : Peers} {side : Seat} {disk : FileNode}
      {packets : List Bytes} :
      Copies setup s₀ copies s →
      peersStep setup s (.turn side (.perform disk)) = some (s', packets) →
      Copies setup s₀ copies s'

/-- The list of formats, the request and the data are on their way in turn, then the call
waits, and then it has been performed. -/
inductive Stage where
  | announced
  | asked
  | answered
  | posted
  | done
  deriving DecidableEq, Repr

structure Copy (fromData : ImageFormat → Bytes → QImage) where
  mimeData : MimeData
  formats : List CliprdrFormat
  request : FormatRequest
  bytes : Bytes
  shown : MimeData
  offers : Offers mimeData formats request bytes
  decodes : RemoteUpdate.mimeData fromData ⟨bytes, request.formatId, request.formatName⟩ =
    some shown

namespace Copy

variable {fromData : ImageFormat → Bytes → QImage} (copy : Copy fromData)

def update : RemoteUpdate := ⟨copy.bytes, copy.request.formatId, copy.request.formatName⟩

def toOther (useLongFormatNames : Bool) : Stage → List Bytes
  | .announced => [packet cbFormatList 0 (copy.formats.flatMap (wireFormat useLongFormatNames))]
  | .answered => [packet cbFormatDataResponse cbResponseOk copy.bytes]
  | _ => []

def toCopier : Stage → List Bytes
  | .asked => [packet cbFormatDataRequest 0 (leUInt32 copy.request.formatId)]
  | _ => []

def calls : Stage → List RemoteUpdate
  | .posted => [copy.update]
  | _ => []

end Copy

structure Exchanging (useLongFormatNames : Bool) {fromData : ImageFormat → Bytes → QImage}
    (copy : Copy fromData) (side : Seat) (stage : Stage) (s : Peers) : Prop where
  connected : ∀ side, (s.desktop side).Connected useLongFormatNames
  toOther : s.incoming side.other = copy.toOther useLongFormatNames stage
  toCopier : s.incoming side = copy.toCopier stage
  noCalls : (s.desktop side).pendingCalls = []
  calls : (s.desktop side.other).pendingCalls = copy.calls stage
  copied : (s.desktop side).clipboard = some copy.mimeData
  remote : stage = .asked ∨ stage = .answered → (s.desktop side.other).client.state.remote =
    ⟨copy.request.formatId, copy.request.formatName, storeFormats copy.formats⟩
  shown : stage = .done → (s.desktop side.other).clipboard = some copy.shown

variable {setup : Seat → DesktopSetup} {s s' : Peers} {side : Seat} {names : Bool}
  {fromData : ImageFormat → Bytes → QImage} {copy : Copy fromData} {stage : Stage}
  {desktop : Desktop} {packets incoming : List Bytes} {bytes : Bytes}

@[simp] theorem Seat.other_other (side : Seat) : side.other.other = side := by cases side <;> rfl

@[simp] theorem Seat.other_ne (side : Seat) : side.other ≠ side := by cases side <;> decide

@[simp] theorem Seat.ne_other (side : Seat) : side ≠ side.other := by cases side <;> decide

theorem Seat.eq_or_eq_other (side place : Seat) : place = side ∨ place = side.other := by
  cases side <;> cases place <;> simp [Seat.other]

@[simp] theorem desktop_taken : (s.taken side (desktop, packets)).desktop side = desktop := by
  simp [Peers.taken]

@[simp] theorem desktop_taken_other :
    (s.taken side (desktop, packets)).desktop side.other = s.desktop side.other := by
  simp [Peers.taken]

@[simp] theorem incoming_taken :
    (s.taken side (desktop, packets)).incoming side = s.incoming side := by
  simp [Peers.taken]

@[simp] theorem incoming_taken_other :
    (s.taken side (desktop, packets)).incoming side.other = s.incoming side.other ++ packets := by
  simp [Peers.taken]

@[simp] theorem desktop_dropped : (s.dropped side incoming).desktop = s.desktop := rfl

@[simp] theorem incoming_dropped : (s.dropped side incoming).incoming side = incoming := by
  simp [Peers.dropped]

@[simp] theorem incoming_dropped_other :
    (s.dropped side incoming).incoming side.other = s.incoming side.other := by
  simp [Peers.dropped]

@[simp] theorem desktop_taken_back :
    (s.taken side.other (desktop, packets)).desktop side = s.desktop side := by
  simp [Peers.taken]

@[simp] theorem incoming_taken_back :
    (s.taken side.other (desktop, packets)).incoming side = s.incoming side ++ packets := by
  simp [Peers.taken]

@[simp] theorem incoming_dropped_back :
    (s.dropped side.other incoming).incoming side = s.incoming side := by
  simp [Peers.dropped]

theorem connected_taken (h : ∀ place, (s.desktop place).Connected names)
    (hdesktop : desktop.Connected names) :
    ∀ place, ((s.taken side (desktop, packets)).desktop place).Connected names := by
  intro place
  rcases side.eq_or_eq_other place with rfl | rfl
  · rwa [desktop_taken]
  · rw [desktop_taken_other]
    exact h _

theorem Desktop.Connected.withState (h : desktop.Connected names) {state : ClipboardState}
    (hready : state.ready = true) (hnames : state.caps.useLongFormatNames = names)
    (hqueued : desktop.client.state.queued.length ≤ state.queued.length) :
    (desktop.withClient ⟨state, true⟩).Connected names :=
  ⟨rfl, hready, hnames, h.fromRemote, h.performed.trans hqueued⟩

/-- The next packet is handled. -/
theorem deliver_eq {disk : Disk} {next : ClipboardState}
    (hincoming : s.incoming side = bytes :: incoming)
    (hrunning : (s.desktop side).client.running = true)
    (hreceive : receiveMessage (setup side).clipboard ⟨(s.desktop side).clipboard, disk⟩
      (s.desktop side).client.state bytes = some ⟨channelRcOk, packets, next⟩) :
    peersStep setup s (.deliver side disk) =
      some ((s.dropped side incoming).taken side
        ((s.desktop side).withClient ⟨next, true⟩, packets), packets) := by
  simp only [peersStep, hincoming, Desktop.receive, Desktop.clientTurn, clientStep, hrunning,
    if_true, hreceive, Option.map_some, decide_true]

theorem deliver_eq_none {disk : Disk} (hincoming : s.incoming side = []) :
    peersStep setup s (.deliver side disk) = none := by
  simp only [peersStep, hincoming]

theorem perform_eq_none {disk : FileNode} (hcalls : (s.desktop side).pendingCalls = []) :
    peersStep setup s (.turn side (.perform disk)) = none := by
  have hle : (s.desktop side).client.state.queued.length ≤ (s.desktop side).performed :=
    List.drop_eq_nil_iff.mp hcalls
  simp only [peersStep, desktopStep, List.getElem?_eq_none hle, Option.map_none]

def linkFrom (setup : Seat → DesktopSetup) (side : Seat) : Link where
  client := (setup side.other).clipboard
  peer := (setup side).clipboard
  content := ⟨none, fun _ => none⟩
  wire := .whole

theorem Synchronises.carriesData (h : Synchronises setup) (side : Seat) :
    (linkFrom setup side).CarriesData := ⟨h.receives _, h.sends _⟩

/-- The list of formats is answered with a request. -/
theorem announced_asks (h : Synchronises setup) {copy : Copy (setup side.other).fromData}
    (hs : Exchanging names copy side .announced s) (disk : Disk) :
    ∃ s' packets, peersStep setup s (.deliver side.other disk) = some (s', packets) ∧
      Exchanging names copy side .asked s' := by
  have hother := hs.connected side.other
  have hreceive : receiveMessage (setup side.other).clipboard
      ⟨(s.desktop side.other).clipboard, disk⟩ (s.desktop side.other).client.state
      (packet cbFormatList 0 (copy.formats.flatMap (wireFormat
        (s.desktop side.other).client.state.caps.useLongFormatNames))) = some ⟨_, _, _⟩ :=
    receiveMessage_formatList (h.works side.other) (h.reader side.other) copy.offers.ne_nil
      copy.offers.nulFree (copy.offers.named _) (copy.offers.short _)
      ((h.carriesData side).filter_client copy.offers.plain) copy.offers.select
  rw [hother.names] at hreceive
  refine ⟨_, _, deliver_eq hs.toOther hother.running hreceive, ?_⟩
  exact
    { connected := connected_taken hs.connected
        (hother.withState hother.ready hother.names le_rfl)
      toOther := by
        rw [incoming_taken, incoming_dropped]
        rfl
      toCopier := by
        rw [incoming_taken_back, incoming_dropped_back, hs.toCopier]
        rfl
      noCalls := by
        rw [desktop_taken_back]
        exact hs.noCalls
      calls := by
        rw [desktop_taken]
        exact hs.calls
      copied := by
        rw [desktop_taken_back]
        exact hs.copied
      remote := by
        intro _
        rw [desktop_taken]
        rfl
      shown := by simp }

/-- The request is answered with the data of the clipboard. -/
theorem asked_answers (h : Synchronises setup) {copy : Copy (setup side.other).fromData}
    (hs : Exchanging names copy side .asked s) (disk : Disk) :
    ∃ s' packets, peersStep setup s (.deliver side disk) = some (s', packets) ∧
      Exchanging names copy side .answered s' := by
  have hside := hs.connected side
  have hmask : (setup side).clipboard.context.featureMask &&& localToRemote ≠ 0 :=
    localToRemote_of_filter copy.offers.ne_nil
      ((h.carriesData side).filter_peer copy.offers.plain)
  have hreceive : receiveMessage (setup side).clipboard ⟨(s.desktop side).clipboard, disk⟩
      (s.desktop side).client.state (packet cbFormatDataRequest 0
        (leUInt32 copy.request.formatId)) = some ⟨_, _, _⟩ :=
    receiveMessage_formatDataRequest (h.works side) hmask hs.copied
      (copy.offers.answer _ _ _) (response_data copy.offers.fits) copy.offers.fits
  refine ⟨_, _, deliver_eq hs.toCopier hside.running hreceive, ?_⟩
  exact
    { connected := connected_taken hs.connected
        (hside.withState hside.ready hside.names le_rfl)
      toOther := by
        rw [incoming_taken_other, incoming_dropped_other, hs.toOther]
        rfl
      toCopier := by
        rw [incoming_taken, incoming_dropped]
        rfl
      noCalls := by
        rw [desktop_taken]
        exact hs.noCalls
      calls := by
        rw [desktop_taken_other]
        exact hs.calls
      copied := by
        rw [desktop_taken]
        exact hs.copied
      remote := by
        intro _
        rw [desktop_taken_other]
        exact hs.remote (Or.inl rfl)
      shown := by simp }

/-- The data is handed to the view. -/
theorem answered_posts (h : Synchronises setup) {copy : Copy (setup side.other).fromData}
    (hs : Exchanging names copy side .answered s) (disk : Disk) :
    ∃ s' packets, peersStep setup s (.deliver side.other disk) = some (s', packets) ∧
      Exchanging names copy side .posted s' := by
  have hother := hs.connected side.other
  have hmask : (setup side.other).clipboard.context.featureMask &&& remoteToLocal ≠ 0 :=
    remoteToLocal_of_filter copy.offers.ne_nil
      ((h.carriesData side).filter_client copy.offers.plain)
  have hreceive : receiveMessage (setup side.other).clipboard
      ⟨(s.desktop side.other).clipboard, disk⟩ (s.desktop side.other).client.state
      (packet cbFormatDataResponse cbResponseOk copy.bytes) = some ⟨_, _, _⟩ :=
    copy.offers.receiveMessage_response hmask (hs.remote (Or.inr rfl))
  refine ⟨_, _, deliver_eq hs.toOther hother.running hreceive, ?_⟩
  exact
    { connected := connected_taken hs.connected
        (hother.withState hother.ready hother.names (by simp))
      toOther := by
        rw [incoming_taken, incoming_dropped]
        rfl
      toCopier := by
        rw [incoming_taken_back, incoming_dropped_back, hs.toCopier]
        rfl
      noCalls := by
        rw [desktop_taken_back]
        exact hs.noCalls
      calls := by
        have hcalls := hs.calls
        rw [desktop_taken]
        change List.drop (s.desktop side.other).performed (_ ++ _) = _
        rw [List.drop_append_of_le_length hother.performed]
        change (s.desktop side.other).pendingCalls ++ _ = _
        rw [hcalls]
        rfl
      copied := by
        rw [desktop_taken_back]
        exact hs.copied
      remote := by simp
      shown := by simp }

/-- The call puts what was copied on the other clipboard. -/
theorem posted_shows {copy : Copy (setup side.other).fromData}
    (hs : Exchanging names copy side .posted s) (disk : FileNode) :
    ∃ s' packets, peersStep setup s (.turn side.other (.perform disk)) = some (s', packets) ∧
      Exchanging names copy side .done s' := by
  have hother := hs.connected side.other
  have hcalls := hs.calls
  change List.drop _ _ = [copy.update] at hcalls
  have hnext : (s.desktop side.other).client.state.queued[(s.desktop side.other).performed]? =
      some copy.update := by
    rw [← List.head?_drop, hcalls]
    rfl
  have hstep : peersStep setup s (.turn side.other (.perform disk)) =
      some (s.taken side.other ({ s.desktop side.other with
        performed := (s.desktop side.other).performed + 1
        clipboard := some copy.shown
        fromRemote := false }, []), []) := by
    have hdecodes : copy.update.mimeData (setup side.other).fromData = some copy.shown :=
      copy.decodes
    simp only [peersStep, desktopStep, hnext, Desktop.updateClipboardData, hother.ready,
      Bool.true_eq_false, if_false, hdecodes, setFromRemote_eq, Option.some_or, Option.map_some]
  have hone : (s.desktop side.other).client.state.queued.length -
      (s.desktop side.other).performed = 1 := by
    rw [← List.length_drop, hcalls]
    rfl
  have hperformed : (s.desktop side.other).performed + 1 ≤
    (s.desktop side.other).client.state.queued.length := by omega
  refine ⟨_, _, hstep, ?_⟩
  exact
    { connected := connected_taken hs.connected
        ⟨hother.running, hother.ready, hother.names, rfl, hperformed⟩
      toOther := by
        rw [incoming_taken]
        exact hs.toOther
      toCopier := by
        rw [incoming_taken_back, hs.toCopier]
        rfl
      noCalls := by
        rw [desktop_taken_back]
        exact hs.noCalls
      calls := by
        rw [desktop_taken]
        change List.drop ((s.desktop side.other).performed + 1) _ = []
        rw [← List.tail_drop, hcalls]
        rfl
      copied := by
        rw [desktop_taken_back]
        exact hs.copied
      remote := by simp
      shown := by
        intro _
        rw [desktop_taken] }

theorem Exchanging.settled (hs : Exchanging names copy side .done s) : s.Settled := by
  intro place
  rcases side.eq_or_eq_other place with rfl | rfl
  · exact ⟨hs.toCopier, hs.noCalls⟩
  · exact ⟨hs.toOther, hs.calls⟩

theorem of_same_step {r : Option (Peers × List Bytes)} {P : Peers → Prop}
    (h : ∃ s packets, r = some (s, packets) ∧ P s) (hr : r = some (s', packets)) : P s' := by
  obtain ⟨s, packets, hs, hP⟩ := h
  obtain ⟨rfl, -⟩ := Prod.mk.inj (Option.some.inj (hs.symm.trans hr))
  exact hP

/-- Only the packet that is on its way can arrive. -/
theorem Exchanging.delivered (h : Synchronises setup) {copy : Copy (setup side.other).fromData}
    (hs : Exchanging names copy side stage s) {place : Seat} {disk : Disk}
    (hstep : peersStep setup s (.deliver place disk) = some (s', packets)) :
    ∃ stage', Exchanging names copy side stage' s' := by
  have hnone (hincoming : s.incoming place = []) : False := by
    rw [deliver_eq_none hincoming] at hstep
    cases hstep
  rcases side.eq_or_eq_other place with rfl | rfl
  · cases stage with
    | asked => exact ⟨_, of_same_step (asked_answers h hs disk) hstep⟩
    | announced => exact (hnone hs.toCopier).elim
    | answered => exact (hnone hs.toCopier).elim
    | posted => exact (hnone hs.toCopier).elim
    | done => exact (hnone hs.toCopier).elim
  · cases stage with
    | announced => exact ⟨_, of_same_step (announced_asks h hs disk) hstep⟩
    | answered => exact ⟨_, of_same_step (answered_posts h hs disk) hstep⟩
    | asked => exact (hnone hs.toOther).elim
    | posted => exact (hnone hs.toOther).elim
    | done => exact (hnone hs.toOther).elim

/-- Only the call that waits can be performed. -/
theorem Exchanging.performed {copy : Copy (setup side.other).fromData}
    (hs : Exchanging names copy side stage s) {place : Seat} {disk : FileNode}
    (hstep : peersStep setup s (.turn place (.perform disk)) = some (s', packets)) :
    ∃ stage', Exchanging names copy side stage' s' := by
  have hnone (hcalls : (s.desktop place).pendingCalls = []) : False := by
    rw [perform_eq_none hcalls] at hstep
    cases hstep
  rcases side.eq_or_eq_other place with rfl | rfl
  · exact (hnone hs.noCalls).elim
  · cases stage with
    | posted => exact ⟨_, of_same_step (posted_shows hs disk) hstep⟩
    | announced => exact (hnone hs.calls).elim
    | asked => exact (hnone hs.calls).elim
    | answered => exact (hnone hs.calls).elim
    | done => exact (hnone hs.calls).elim

def PeersInput.isCourse : PeersInput → Bool
  | .deliver _ _ => true
  | .turn _ (.perform _) => true
  | .turn _ _ => false

def TakesCourse (setup : Seat → DesktopSetup) (s s' : Peers) : Prop :=
  ∃ t, Execution (peersStep setup) s t s' ∧ ∀ e ∈ t, e.1.isCourse = true

theorem TakesCourse.cons {i : PeersInput} {s₁ s₂ : Peers}
    (hstep : peersStep setup s i = some (s₁, packets)) (hi : i.isCourse = true)
    (h : TakesCourse setup s₁ s₂) : TakesCourse setup s s₂ := by
  obtain ⟨t, ht, hcourse⟩ := h
  exact ⟨_, .cons hstep ht, List.forall_mem_cons.mpr ⟨hi, hcourse⟩⟩

/-- Nothing is copied meanwhile. -/
theorem TakesCourse.copies {s₀ : Peers} {copies : List (Seat × MimeData)}
    (h : TakesCourse setup s s') (hcopies : Copies setup s₀ copies s) :
    Copies setup s₀ copies s' := by
  obtain ⟨t, ht, hcourse⟩ := h
  induction ht with
  | nil => exact hcopies
  | @snoc t s₁ s₂ i o _ hs ih =>
      have hbefore := ih fun e he => hcourse e (List.mem_append_left _ he)
      have hlast := hcourse (i, o) (List.mem_append_right _ List.mem_cons_self)
      cases i with
      | deliver side disk => exact .delivered hbefore hs
      | turn side turn =>
          cases turn with
          | perform disk => exact .performed hbefore hs
          | copied | published | send | worker => cases hlast

/-- What has been copied last is under way, or nothing has been copied. -/
inductive InStep (setup : Seat → DesktopSetup) (names : Bool) :
    List (Seat × MimeData) → Peers → Prop
  | untouched {s : Peers} : (∀ place, (s.desktop place).Connected names) → s.Settled →
      InStep setup names [] s
  | exchange {copies : List (Seat × MimeData)} {side : Seat}
      {copy : Copy (setup side.other).fromData} {stage : Stage} {s : Peers} :
      ShownAs (setup side.other).fromData copy.mimeData copy.shown →
      Exchanging names copy side stage s →
      InStep setup names (copies ++ [(side, copy.mimeData)]) s

variable {copies : List (Seat × MimeData)} {s₀ : Peers}

theorem InStep.connected (h : InStep setup names copies s) :
    ∀ place, (s.desktop place).Connected names := by
  cases h with
  | untouched hconnected _ => exact hconnected
  | exchange _ hs => exact hs.connected

end QfClient
