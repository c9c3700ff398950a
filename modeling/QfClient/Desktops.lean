import Mathlib.Algebra.BigOperators.Group.List.Basic
import Mathlib.Algebra.GroupWithZero.Nat
import Mathlib.Algebra.Order.BigOperators.Group.List
import Mathlib.Algebra.Order.Group.Nat
import QfClient.ClipboardClient
import QfClient.CopyPaste
import QfClient.DibImages

/-!
# Two desktops

A desktop has a clipboard, and the view next to the client puts on it what the client was
sent. Qt emits `dataChanged` inside the setter of the clipboard, so `dataChangedCallback`
runs there, and `m_clipboardDataFromRemote` keeps it from announcing what came from the
other side. Here two desktops exchange packets, in any order of their turns.
-/

namespace Machine

variable {σ ι ω : Type*} {step : Step σ ι ω} {load : σ → ℕ} {cost credit : ι × ω → ℕ}
  {s s' : σ} {t : Trace ι ω}

/-- No step spends more than the state holds and the event brings in. -/
def Pays (step : Step σ ι ω) (load : σ → ℕ) (cost credit : ι × ω → ℕ) : Prop :=
  ∀ s i s' o, step s i = some (s', o) → load s' + cost (i, o) ≤ load s + credit (i, o)

theorem Pays.run (hpays : Pays step load cost credit) (h : Execution step s t s') :
    load s' + (t.map cost).sum ≤ load s + (t.map credit).sum := by
  induction h with
  | nil => exact Nat.le_refl _
  | snoc _ hs ih =>
      have hstep := hpays _ _ _ _ hs
      simp only [List.map_append, List.map_singleton, List.sum_append, List.sum_singleton]
      omega

end Machine

namespace QfClient

open LittleEndian Machine Qt WinPR

inductive ImageFormat where
  | png
  | bmp
  deriving DecidableEq, Repr

/-- `mimeDataOfUrls` is a `QMimeData` after `setUrls`. -/
structure DesktopSetup where
  clipboard : ClipboardSetup
  fromData : ImageFormat → Bytes → QImage
  mimeDataOfUrls : List QUrl → MimeData

/-- `clipboard` is what `QClipboard::mimeData` returns, `fromRemote` is
`m_clipboardDataFromRemote`, and `performed` counts the posted calls that the view has
performed. -/
structure Desktop where
  client : Client
  clipboard : Option MimeData
  fromRemote : Bool
  performed : ℕ

def copiedImage (image : QImage) : MimeData where
  hasText := false
  text := []
  hasImage := true
  imageData := image
  hasUrls := false
  urls := []

/-- What `updateClipboardDataFromRemote` puts on the clipboard, if it can be decoded. -/
def RemoteUpdate.mimeData (fromData : ImageFormat → Bytes → QImage) (update : RemoteUpdate) :
    Option MimeData :=
  match updateClipboardDataFromRemote update with
  | some .png =>
      let image := fromData .png update.data
      if image.isNull then none else some (copiedImage image)
  | some .dib =>
      let image := imageFromDib (fromData .bmp) update.data
      if image.isNull then none else some (copiedImage image)
  | some .unicodeText => some (copiedText (textFromRemote fromUtf16Sized update.data))
  | _ => none

/-- What happens at one desktop. A copy is the work of another program, `perform` is the next
posted call of `updateClipboardDataFromRemote`, and `published` is one of
`updateClipboardFilesFromRemote`. -/
inductive DesktopInput where
  | copied (disk : FileNode) (mimeData : MimeData)
  | perform (disk : FileNode)
  | published (fileExists : QString → Bool) (paths : List QString) (disk : FileNode)
  | send (request : FileContentsRequest)
  | worker (turn : WorkerTurn)

namespace Desktop

def withClient (s : Desktop) (client : Client) : Desktop := { s with client := client }

def clientTurn (s : Desktop) (setup : DesktopSetup) (i : ClientInput) :
    Option (Desktop × List Bytes) :=
  (clientStep setup.clipboard s.client i).map fun r => (s.withClient r.1, r.2.packets)

def receive (s : Desktop) (setup : DesktopSetup) (disk : Disk) (bytes : Bytes) :
    Option (Desktop × List Bytes) :=
  s.clientTurn setup (.message bytes ⟨s.clipboard, disk⟩)

def setMimeData (s : Desktop) (setup : DesktopSetup) (disk : FileNode) (mimeData : MimeData) :
    Option (Desktop × List Bytes) :=
  Desktop.clientTurn { s with clipboard := some mimeData } setup
    (.dataChanged s.fromRemote disk mimeData)

/-- The same between the two assignments of `m_clipboardDataFromRemote`. -/
def setFromRemote (s : Desktop) (setup : DesktopSetup) (disk : FileNode) :
    Option MimeData → Option (Desktop × List Bytes)
  | none => some ({ s with fromRemote := false }, [])
  | some mimeData =>
      (Desktop.setMimeData { s with fromRemote := true } setup disk mimeData).map
        fun r => ({ r.1 with fromRemote := false }, r.2)

def updateClipboardData (s : Desktop) (setup : DesktopSetup) (disk : FileNode)
    (update : RemoteUpdate) : Option (Desktop × List Bytes) :=
  if s.client.state.ready = false then some (s, [])
  else s.setFromRemote setup disk (update.mimeData setup.fromData)

def updateClipboardFiles (s : Desktop) (setup : DesktopSetup) (fileExists : QString → Bool)
    (paths : List QString) (disk : FileNode) : Option (Desktop × List Bytes) :=
  if s.client.state.ready = false then some (s, [])
  else
    let urls := (paths.filter fileExists).map fun path => QUrl.mk (some path)
    if urls = [] then some (s, [])
    else s.setFromRemote setup disk (some (setup.mimeDataOfUrls urls))

end Desktop

def desktopStep (setup : DesktopSetup) : Step Desktop DesktopInput (List Bytes)
  | s, .copied disk mimeData => s.setMimeData setup disk mimeData
  | s, .perform disk =>
      match s.client.state.queued[s.performed]? with
      | none => none
      | some update =>
          Desktop.updateClipboardData { s with performed := s.performed + 1 } setup disk update
  | s, .published fileExists paths disk => s.updateClipboardFiles setup fileExists paths disk
  | s, .send request => s.clientTurn setup (.send request)
  | s, .worker turn => s.clientTurn setup (.worker turn)

inductive Seat where
  | left
  | right
  deriving DecidableEq, Repr

def Seat.other : Seat → Seat
  | .left => .right
  | .right => .left

/-- The packets on their way to each side, the first one first. -/
structure Peers where
  desktop : Seat → Desktop
  incoming : Seat → List Bytes

inductive PeersInput where
  | turn (side : Seat) (i : DesktopInput)
  | deliver (side : Seat) (disk : Disk)

def Peers.dropped (s : Peers) (side : Seat) (incoming : List Bytes) : Peers :=
  { s with incoming := Function.update s.incoming side incoming }

def Peers.taken (s : Peers) (side : Seat) (r : Desktop × List Bytes) : Peers where
  desktop := Function.update s.desktop side r.1
  incoming := Function.update s.incoming side.other (s.incoming side.other ++ r.2)

def peersStep (setup : Seat → DesktopSetup) : Step Peers PeersInput (List Bytes)
  | s, .turn side i =>
      (desktopStep (setup side) (s.desktop side) i).map fun r => (s.taken side r, r.2)
  | s, .deliver side disk =>
      match s.incoming side with
      | [] => none
      | bytes :: incoming =>
          ((s.desktop side).receive (setup side) disk bytes).map fun r =>
            ((s.dropped side incoming).taken side r, r.2)

def exchangeLength : Option MessageType → ℕ
  | some .monitorReady => 5
  | some .formatList => 3
  | some .formatDataRequest => 2
  | some .fileContentsRequest => 2
  | _ => 1

def packetLoad (bytes : Bytes) : ℕ := exchangeLength (messageType bytes)

def Peers.load (s : Peers) : ℕ :=
  ((s.incoming .left).map packetLoad).sum + ((s.incoming .right).map packetLoad).sum

/-- The messages that an event takes from the wire, and those that it may lead to. -/
def PeersInput.delivers : PeersInput → ℕ
  | .deliver _ _ => 1
  | .turn _ _ => 0

def PeersInput.starts : PeersInput → ℕ
  | .turn _ (.copied _ _) => 3
  | .turn _ (.send _) => 2
  | _ => 0

abbrev PeersTrace := Trace PeersInput (List Bytes)

def deliveries (t : PeersTrace) : ℕ := (t.map fun e => e.1.delivers).sum

def startedMessages (t : PeersTrace) : ℕ := (t.map fun e => e.1.starts).sum

variable {setup : DesktopSetup} {s : Desktop} {r : Desktop × List Bytes} {types : List UInt16}
  {packets : List Bytes} {bytes : Bytes}

theorem messageType_of_isPacket {msgType : UInt16} (h : IsPacket msgType bytes) :
    messageType bytes = MessageType.ofCode msgType := by
  obtain ⟨header, body, hread, htype, -⟩ := h.readHeader
  rw [messageType, hread, Option.bind_some, htype]

theorem sum_packetLoad_le (h : SendsAmong types packets) :
    (packets.map packetLoad).sum ≤
      (types.map fun code => exchangeLength (MessageType.ofCode code)).sum := by
  obtain ⟨sent, hsent, hpackets⟩ := h
  have hload : packets.map packetLoad =
      sent.map fun code => exchangeLength (MessageType.ofCode code) := by
    clear hsent
    induction hpackets with
    | nil => rfl
    | cons hhead _ ih =>
        rw [List.map_cons, List.map_cons, ih, packetLoad, messageType_of_isPacket hhead]
  rw [hload]
  exact (hsent.map _).sum_le_sum fun _ _ => Nat.zero_le _

/-- A message takes more from the load than its answers bring. -/
theorem sum_replies_lt (type : Option MessageType) :
    ((replyTypes type).map fun code => exchangeLength (MessageType.ofCode code)).sum + 1 ≤
      exchangeLength type := by
  cases type with
  | none => decide
  | some type => cases type <;> decide

theorem receive_load {disk : Disk} (h : s.receive setup disk bytes = some r) :
    (r.2.map packetLoad).sum + 1 ≤ packetLoad bytes := by
  obtain ⟨next, hstep, rfl⟩ := Option.map_eq_some_iff.mp h
  have hpackets : SendsAmong (replyTypes (messageType bytes)) next.2.packets :=
    clientStep_packets hstep
  exact (Nat.succ_le_succ (sum_packetLoad_le hpackets)).trans (sum_replies_lt _)

/-- The callback does nothing while `m_clipboardDataFromRemote` is set. -/
theorem dataChanged_fromRemote (setup : ClipboardSetup) (state : ClipboardState) (disk : FileNode)
    (mimeData : MimeData) :
    state.dataChanged setup true disk mimeData = some ⟨channelRcOk, [], state⟩ := by
  have hnone : dataChangedCallback (captureUrls disk) state.ready true state.files mimeData =
      (state.files, none) := by
    simp [dataChangedCallback]
  simp only [ClipboardState.dataChanged, hnone]

/-- What comes from the other side is put on the clipboard and not announced. -/
theorem setFromRemote_eq (disk : FileNode) (mimeData : Option MimeData) :
    s.setFromRemote setup disk mimeData =
      some ({ s with clipboard := mimeData.or s.clipboard, fromRemote := false }, []) := by
  cases mimeData with
  | none => rfl
  | some mimeData =>
      simp only [Desktop.setFromRemote, Desktop.setMimeData, Desktop.clientTurn, clientStep,
        dataChanged_fromRemote, Option.map_some, Option.some_or]
      rfl

theorem updateClipboardData_silent {disk : FileNode} {update : RemoteUpdate}
    (h : s.updateClipboardData setup disk update = some r) : r.2 = [] := by
  rw [Desktop.updateClipboardData, setFromRemote_eq] at h
  split_ifs at h <;> exact (congrArg Prod.snd (Option.some.inj h)).symm

theorem updateClipboardFiles_silent {fileExists : QString → Bool} {paths : List QString}
    {disk : FileNode} (h : s.updateClipboardFiles setup fileExists paths disk = some r) :
    r.2 = [] := by
  simp only [Desktop.updateClipboardFiles, setFromRemote_eq] at h
  split_ifs at h <;> exact (congrArg Prod.snd (Option.some.inj h)).symm

theorem desktopStep_load (side : Seat) {i : DesktopInput}
    (h : desktopStep setup s i = some r) :
    (r.2.map packetLoad).sum ≤ (PeersInput.turn side i).starts := by
  cases i with
  | copied disk mimeData =>
      obtain ⟨next, hstep, rfl⟩ := Option.map_eq_some_iff.mp h
      exact sum_packetLoad_le (clientStep_packets hstep)
  | perform disk =>
      simp only [desktopStep] at h
      split at h
      · cases h
      · rw [updateClipboardData_silent h]
        exact Nat.zero_le _
  | published fileExists paths disk =>
      rw [updateClipboardFiles_silent h]
      exact Nat.zero_le _
  | send request =>
      obtain ⟨next, hstep, rfl⟩ := Option.map_eq_some_iff.mp h
      exact sum_packetLoad_le (clientStep_packets hstep)
  | worker turn =>
      obtain ⟨next, hstep, rfl⟩ := Option.map_eq_some_iff.mp h
      exact sum_packetLoad_le (clientStep_packets hstep)

section Traffic

variable {setup : Seat → DesktopSetup} {s s' : Peers} {t : PeersTrace}

theorem load_taken (s : Peers) (side : Seat) (r : Desktop × List Bytes) :
    (s.taken side r).load = s.load + (r.2.map packetLoad).sum := by
  cases side with
  | left =>
      simp only [Peers.load, Peers.taken, Seat.other, Function.update, reduceCtorEq, dite_true,
        dite_false, List.map_append, List.sum_append, Nat.add_assoc]
  | right =>
      simp only [Peers.load, Peers.taken, Seat.other, Function.update, reduceCtorEq, dite_true,
        dite_false, List.map_append, List.sum_append]
      omega

theorem load_dropped {side : Seat} {incoming : List Bytes}
    (h : s.incoming side = bytes :: incoming) :
    (s.dropped side incoming).load + packetLoad bytes = s.load := by
  cases side with
  | left =>
      simp only [Peers.load, Peers.dropped, Function.update, reduceCtorEq, dite_true, dite_false, h,
        List.map_cons, List.sum_cons]
      omega
  | right =>
      simp only [Peers.load, Peers.dropped, Function.update, reduceCtorEq, dite_true, dite_false, h,
        List.map_cons, List.sum_cons]
      omega

theorem peersStep_pays :
    Pays (peersStep setup) Peers.load (fun e => e.1.delivers) (fun e => e.1.starts) := by
  intro s i s' o hs
  cases i with
  | turn side i =>
      obtain ⟨r, hstep, hr⟩ := Option.map_eq_some_iff.mp hs
      obtain ⟨rfl, rfl⟩ := Prod.mk.inj hr
      have hload := desktopStep_load side hstep
      rw [load_taken]
      exact Nat.add_le_add_left hload _
  | deliver side disk =>
      simp only [peersStep] at hs
      cases hincoming : s.incoming side with
      | nil =>
          rw [hincoming] at hs
          cases hs
      | cons bytes incoming =>
          simp only [hincoming] at hs
          obtain ⟨r, hstep, hr⟩ := Option.map_eq_some_iff.mp hs
          obtain ⟨rfl, rfl⟩ := Prod.mk.inj hr
          have hreplies := receive_load hstep
          have hdropped := load_dropped hincoming
          rw [load_taken]
          change _ + 1 ≤ _ + 0
          omega

/-- In any order of turns and arrivals at both sides, and whatever fails: a copy leads to at
most three messages and a request for a file to two. What a side puts on its clipboard for
the other one starts no exchange, so the copies do not go back and forth. -/
theorem traffic_bounded (setup : Seat → DesktopSetup) (s s' : Peers) (t : PeersTrace)
    (h : Execution (peersStep setup) s t s') :
    s'.load + deliveries t ≤ s.load + startedMessages t :=
  peersStep_pays.run h

def readyPeers : Peers where
  desktop _ := ⟨readyClient true, none, false, 0⟩
  incoming _ := []

def sessionDesktop (_ : Seat) : DesktopSetup where
  clipboard := .session 0xFFFFFFFF
  fromData _ _ := ⟨true, none, none⟩
  mimeDataOfUrls urls := ⟨false, [], false, ⟨true, none, none⟩, true, urls⟩

/-- The left side asks for the size of a file before anything was copied. -/
theorem traffic_bounded_size :
    ∃ s t, Execution (peersStep sessionDesktop) readyPeers t s ∧ deliveries t = 1 ∧
      s.load + deliveries t ≤ readyPeers.load + startedMessages t := by
  obtain ⟨s, t, hrun, ht⟩ : ∃ s t, run (peersStep sessionDesktop) readyPeers
      [.turn .left (.worker (.arm .size)),
        .turn .left (.send ⟨1, 0, fileContentsSize, 0, 0, 8, none⟩),
        .deliver .right fun _ => none] = some (s, t) ∧ deliveries t = 1 := by
    refine ⟨_, _, rfl, ?_⟩
    rfl
  have h := Execution.of_run hrun
  exact ⟨s, t, h, ht, traffic_bounded _ _ _ _ h⟩

end Traffic

end QfClient
