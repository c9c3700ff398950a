import QfClient.Basic
import QfClient.Stream

/-!
# The client side of a static virtual channel

`channelClientPostMessage` collects the chunks of one message in `dataIn` and,
at the last chunk, hands the sealed stream to the message handler or posts it
to the queue; `channelClientThreadProc` is the loop that takes messages from
that queue. Allocation outcomes are inputs of a call, and the reallocation
policy of WinPR is the parameter `g`.
-/

namespace QfClient

open WinPR

structure Chunk where
  data : Bytes
  totalLength : UInt32
  dataFlags : UInt32
  deriving DecidableEq, Repr

namespace Chunk

def isControl (c : Chunk) : Bool :=
  c.dataFlags &&& channelFlagSuspend != 0 || c.dataFlags &&& channelFlagResume != 0

def isFirst (c : Chunk) : Bool := c.dataFlags &&& channelFlagFirst != 0

def isLast (c : Chunk) : Bool := c.dataFlags &&& channelFlagLast != 0

def startsMessage (c : Chunk) : Bool := c.isFirst && !c.isControl

end Chunk

/-- The allocations and the queue post that one call may need: which succeed. -/
structure Alloc where
  streamNew : Bool
  ensureCapacity : Bool
  ensureRemaining : Bool
  messagePost : Bool
  deriving DecidableEq, Repr

def Alloc.succeeds : Alloc := ⟨true, true, true, true⟩

/-- What a handler is created with: the `THREADING_FLAGS_DISABLE_THREADS` bit of
the settings and the message handler, a state transformer on its user data. -/
structure ChannelConfig (α : Type) where
  threadsDisabled : Bool
  msgHandler : α → WStream → UInt32 × α

/-- `msg_proc_internals`, with the queue as the messages not yet taken from it. -/
structure MsgProcInternals (α : Type) where
  queue : List WStream
  dataIn : Option WStream
  userdata : α

/-- What one call lets the caller see: the return code, the stream it posted or
passed to the handler, and the error that handler returned. -/
structure PostResult where
  rc : UInt32
  handed : Option WStream
  handlerError : UInt32
  deriving DecidableEq

variable {α : Type}

def MsgProcInternals.buffered (p : MsgProcInternals α) : Bytes :=
  match p.dataIn with
  | none => []
  | some s => s.written

/-- The `CHANNEL_FLAG_FIRST` block: `none` is its `CHANNEL_RC_NO_MEMORY` exit. -/
def openDataIn (g : Growth) (a : Alloc) (c : Chunk) (dataIn : Option WStream) :
    Option (Option WStream) :=
  if c.isFirst then
    match dataIn with
    | some s => (s.ensureCapacity g a.ensureCapacity c.totalLength.toNat).map some
    | none => some (if a.streamNew then WStream.new c.totalLength.toNat else none)
  else some dataIn

/-- The end of the `CHANNEL_FLAG_LAST` block: direct call or queue. -/
def handOver (cfg : ChannelConfig α) (p : MsgProcInternals α) (a : Alloc) (s : WStream) :
    MsgProcInternals α × PostResult :=
  if cfg.threadsDisabled then
    let r := cfg.msgHandler p.userdata s
    if r.1 ≠ 0 then ({ p with userdata := r.2 }, ⟨errorInternalError, some s, r.1⟩)
    else ({ p with userdata := r.2 }, ⟨channelRcOk, some s, 0⟩)
  else if a.messagePost then
    ({ p with queue := p.queue ++ [s] }, ⟨channelRcOk, some s, 0⟩)
  else (p, ⟨errorInternalError, none, 0⟩)

/-- What follows `Stream_Write`: the check and the delivery of the last chunk. -/
def finishChunk (cfg : ChannelConfig α) (p : MsgProcInternals α) (a : Alloc) (c : Chunk)
    (s : WStream) : MsgProcInternals α × PostResult :=
  if c.isLast then
    if s.capacity ≠ s.position then
      ({ p with dataIn := some s }, ⟨errorInternalError, none, 0⟩)
    else handOver cfg { p with dataIn := none } a s.sealLength.resetPosition
  else ({ p with dataIn := some s }, ⟨channelRcOk, none, 0⟩)

/-- What follows once `data_in` is known to be a stream. -/
def storeChunk (g : Growth) (cfg : ChannelConfig α) (p : MsgProcInternals α) (a : Alloc)
    (c : Chunk) (s : WStream) : MsgProcInternals α × PostResult :=
  match s.ensureRemainingCapacity g a.ensureRemaining c.data.length with
  | none => ({ p with dataIn := none }, ⟨channelRcNoMemory, none, 0⟩)
  | some s => finishChunk cfg p a c (s.1.write c.data s.2)

def channelClientPostMessage (g : Growth) (cfg : ChannelConfig α) (p : MsgProcInternals α)
    (a : Alloc) (c : Chunk) : MsgProcInternals α × PostResult :=
  if c.isControl then (p, ⟨channelRcOk, none, 0⟩)
  else
    match openDataIn g a c p.dataIn with
    | none => (p, ⟨channelRcNoMemory, none, 0⟩)
    | some none => ({ p with dataIn := none }, ⟨channelRcNoMemory, none, 0⟩)
    | some (some s) => storeChunk g cfg p a c s

def postAll (g : Growth) (cfg : ChannelConfig α) (p : MsgProcInternals α) :
    List (Alloc × Chunk) → MsgProcInternals α × List PostResult
  | [] => (p, [])
  | (a, c) :: calls =>
      let r := channelClientPostMessage g cfg p a c
      let rest := postAll g cfg r.1 calls
      (rest.1, r.2 :: rest.2)

def handedOver (rs : List PostResult) : List WStream := rs.filterMap PostResult.handed

/-- A message of the queue: `id == 0` with its stream, or `WMQ_QUIT`. -/
inductive QueueMessage where
  | data (s : WStream)
  | quit
  deriving DecidableEq

inductive ThreadStatus where
  | waiting
  | exited (error : UInt32)
  deriving DecidableEq, Repr

/-- The loop over the messages that reach the queue. The handler returns `none`
where an assertion stops the program; then so does the loop. The messages left
in the queue when the loop ends are part of the result. -/
def channelClientThreadProc (msgHandler : α → WStream → Option (UInt32 × α)) (userdata : α) :
    List QueueMessage → Option (ThreadStatus × α × List QueueMessage)
  | [] => some (.waiting, userdata, [])
  | .quit :: messages => some (.exited channelRcOk, userdata, messages)
  | .data s :: messages =>
      match msgHandler userdata s with
      | none => none
      | some (error, userdata) =>
          if error ≠ 0 then some (.exited error, userdata, messages)
          else channelClientThreadProc msgHandler userdata messages

variable {g : Growth} {cfg : ChannelConfig α} {p : MsgProcInternals α} {a : Alloc} {c : Chunk}

theorem postAll_append (calls calls' : List (Alloc × Chunk)) :
    postAll g cfg p (calls ++ calls') =
      ((postAll g cfg (postAll g cfg p calls).1 calls').1,
        (postAll g cfg p calls).2 ++ (postAll g cfg (postAll g cfg p calls).1 calls').2) := by
  induction calls generalizing p with
  | nil => rfl
  | cons call calls ih => simp only [List.cons_append, postAll, ih]

@[simp] theorem handedOver_nil : handedOver [] = [] := rfl

theorem handedOver_append (rs rs' : List PostResult) :
    handedOver (rs ++ rs') = handedOver rs ++ handedOver rs' := List.filterMap_append

theorem handedOver_cons (r : PostResult) (rs : List PostResult) :
    handedOver (r :: rs) = r.handed.toList ++ handedOver rs := by
  cases h : r.handed with
  | none => simp [handedOver, h]
  | some s => simp [handedOver, h]

theorem post_control (hc : c.isControl = true) :
    channelClientPostMessage g cfg p a c = (p, ⟨channelRcOk, none, 0⟩) := by
  rw [channelClientPostMessage, if_pos hc]

theorem post_of_open (cfg : ChannelConfig α) {s : WStream} (hc : c.isControl = false)
    (ho : openDataIn g a c p.dataIn = some (some s)) :
    channelClientPostMessage g cfg p a c = storeChunk g cfg p a c s := by
  rw [channelClientPostMessage, hc, ho]
  rfl

theorem openDataIn_rest (hf : c.isFirst = false) (d : Option WStream) :
    openDataIn g a c d = some d := by
  simp [openDataIn, hf]

/-- Handing over leaves the reassembly buffer alone, and a memory error is never
reported from there. -/
theorem handOver_spec (cfg : ChannelConfig α) (s : WStream) :
    (handOver cfg p a s).1.dataIn = p.dataIn ∧ (handOver cfg p a s).2.rc ≠ channelRcNoMemory ∧
      ∀ s', (handOver cfg p a s).2.handed = some s' → s' = s := by
  have hrc : errorInternalError ≠ channelRcNoMemory ∧ channelRcOk ≠ channelRcNoMemory := by decide
  simp only [handOver]
  split_ifs
  · exact ⟨rfl, hrc.1, fun s' h => (Option.some.inj h).symm⟩
  · exact ⟨rfl, hrc.2, fun s' h => (Option.some.inj h).symm⟩
  · exact ⟨rfl, hrc.2, fun s' h => (Option.some.inj h).symm⟩
  · exact ⟨rfl, hrc.1, fun _ h => absurd h (by simp)⟩

theorem handOver_of_post (s : WStream) (ha : a.messagePost = true) :
    (handOver cfg p a s).2.handed = some s ∧
      ((handOver cfg p a s).2.rc = channelRcOk ∨ (handOver cfg p a s).2.handlerError ≠ 0) := by
  simp only [handOver]
  split_ifs with _ he
  · exact ⟨rfl, Or.inr he⟩
  · exact ⟨rfl, Or.inl rfl⟩
  · exact ⟨rfl, Or.inl rfl⟩

/-- A chunk that finds memory is appended to the stream, which grows only when
the chunk does not fit. -/
theorem storeChunk_appends (cfg : ChannelConfig α) {s : WStream}
    {s₁ : { s₁ : WStream // s₁.position + c.data.length ≤ s₁.capacity }}
    (h : s.ensureRemainingCapacity g a.ensureRemaining c.data.length = some s₁) :
    ∃ s', storeChunk g cfg p a c s = finishChunk cfg p a c s' ∧
      s'.written = s.written ++ c.data ∧ s.capacity ≤ s'.capacity ∧
      (s.position + c.data.length ≤ s.capacity → s'.capacity = s.capacity) := by
  obtain ⟨_, hw, hcap⟩ := WStream.ensureRemainingCapacity_eq_some g h
  refine ⟨s₁.1.write c.data s₁.2, by rw [storeChunk, h], ?_, ?_, ?_⟩
  · rw [WStream.written_write, hw]
  · rwa [WStream.capacity_write]
  · intro hfits
    rw [WStream.ensureRemainingCapacity_of_fits g hfits] at h
    obtain rfl := Option.some.inj h
    exact WStream.capacity_write hfits

/-- The last chunk hands over all that was collected, or nothing. -/
theorem finishChunk_last (cfg : ChannelConfig α) {s : WStream} (hl : c.isLast = true)
    (ha : a.messagePost = true) :
    (s.capacity = s.position →
      (finishChunk cfg p a c s).1.dataIn = none ∧
        (finishChunk cfg p a c s).2.handed = some s.sealLength.resetPosition ∧
        ((finishChunk cfg p a c s).2.rc = channelRcOk ∨
          (finishChunk cfg p a c s).2.handlerError ≠ 0)) ∧
      (s.capacity ≠ s.position → (finishChunk cfg p a c s).2.handed = none) := by
  rw [finishChunk, if_pos hl]
  refine ⟨fun h => ?_, fun h => by rw [if_pos h]⟩
  rw [if_neg (not_not_intro h)]
  exact ⟨(handOver_spec cfg _).1, handOver_of_post _ ha⟩

end QfClient
