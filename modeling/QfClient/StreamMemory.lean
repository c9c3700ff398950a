import Mathlib.Algebra.Order.Group.Multiset
import Mathlib.Tactic.Abel
import QfClient.ChannelModes
import QfClient.MessageEffects
import QfClient.Ownership

/-!
# The streams of the clipboard channel

The chunks of a message are collected in a stream that the collecting side allocates, the
queue carries to the message thread and `cliprdr_order_recv` frees. A packet is a stream as
well, and the transport hands it back when it is done with it. Here the streams are blocks
of a heap, from the creation of the handler to its end, and the functions of the channel
allocate, use and free them as the source does.
-/

namespace QfClient.StreamMemory

open Machine Ownership WinPR

structure HeapStream where
  block : ℕ
  stream : WStream
  deriving DecidableEq

/-- Why a function does not come to its end: it touches a block that was freed, an assertion
stops the program, or nothing of the kind can happen now. -/
inductive Stop where
  | gone
  | assertion
  | disabled
  deriving DecidableEq, Repr

/-- The functions `cliprdr_process_*` behind the switch: the error, the packets that the
transport accepted and the new data. -/
abbrev ProcessMessage (α : Type) := α → ClipboardHeader → Bytes → Option (UInt32 × List Bytes × α)

/-- The heap, the packets that the transport has not handed back, and the data of the plugin. -/
structure PluginMemory (α : Type) where
  heap : Heap
  inFlight : List ℕ
  userdata : α

/-- `msg_proc_internals`. A message of the queue without a stream is `WMQ_QUIT`; without
threads there is neither queue nor thread. -/
structure MsgProcInternals where
  dataIn : Option HeapStream
  queue : List (Option HeapStream)
  thread : Option ThreadStatus

/-- `quitting` is the wait of `channel_client_quit_handler`. The internals that a failed wait
leaves behind are `abandoned`, and `stray` says that a thread still runs on internals that were
freed. -/
structure ChannelMemory (α : Type) where
  plugin : PluginMemory α
  msgsHandle : Option MsgProcInternals
  quitting : Bool
  abandoned : List MsgProcInternals
  stray : Bool

variable {α : Type}

/-- Each packet is a stream of its own. -/
def PluginMemory.sendAll (plugin : PluginMemory α) : List Bytes → PluginMemory α
  | [] => plugin
  | _ :: packets =>
      PluginMemory.sendAll { plugin with
        heap := plugin.heap.alloc
        inFlight := plugin.heap.next :: plugin.inFlight } packets

/-- The stream is freed at the end, but not where its header cannot be read. -/
def cliprdrOrderRecv (process : ProcessMessage α) (plugin : PluginMemory α) (s : HeapStream) :
    Except Stop (UInt32 × PluginMemory α) :=
  if s.block ∉ plugin.heap.live then .error .gone
  else
    match readHeader s.stream.unread with
    | none => .ok (errorInvalidData, plugin)
    | some (header, body) =>
        match process plugin.userdata header body with
        | none => .error .assertion
        | some (error, packets, userdata) =>
            let plugin := { plugin with userdata := userdata }.sendAll packets
            match plugin.heap.free s.block with
            | none => .error .gone
            | some heap => .ok (error, { plugin with heap := heap })

/-- What a step hands to `cliprdr_order_recv`, the stream whose post failed, and whether the
step frees internals on which a thread runs. -/
structure StepOutput where
  rc : UInt32
  handled : Option HeapStream
  unposted : Option HeapStream
  threadLeft : Bool
  deriving DecidableEq

def StepOutput.quiet (rc : UInt32) : StepOutput := ⟨rc, none, none, false⟩

abbrev PostOutcome (α : Type) := Except Stop (PluginMemory α × MsgProcInternals × StepOutput)

/-- The `CHANNEL_FLAG_FIRST` block; `none` is its `CHANNEL_RC_NO_MEMORY` exit. -/
def openDataIn (g : Growth) (a : Alloc) (c : Chunk) (heap : Heap) (dataIn : Option HeapStream) :
    Except Stop (Option (Heap × Option HeapStream)) :=
  if c.isFirst then
    match dataIn with
    | some s =>
        if s.block ∉ heap.live then .error .gone
        else
          .ok ((s.stream.ensureCapacity g a.ensureCapacity c.totalLength.toNat).map
            fun stream => (heap, some ⟨s.block, stream⟩))
    | none =>
        match if a.streamNew then WStream.new c.totalLength.toNat else none with
        | none => .ok (some (heap, none))
        | some stream => .ok (some (heap.alloc, some ⟨heap.next, stream⟩))
  else .ok (some (heap, dataIn))

def handOver (threadsDisabled : Bool) (process : ProcessMessage α) (plugin : PluginMemory α)
    (internals : MsgProcInternals) (a : Alloc) (s : HeapStream) : PostOutcome α :=
  if threadsDisabled then
    match cliprdrOrderRecv process plugin s with
    | .error stop => .error stop
    | .ok (error, plugin) =>
        .ok (plugin, internals,
          ⟨if error ≠ 0 then errorInternalError else channelRcOk, some s, none, false⟩)
  else if a.messagePost then
    .ok (plugin, { internals with queue := internals.queue ++ [some s] }, .quiet channelRcOk)
  else .ok (plugin, internals, ⟨errorInternalError, none, some s, false⟩)

def finishChunk (threadsDisabled : Bool) (process : ProcessMessage α) (plugin : PluginMemory α)
    (internals : MsgProcInternals) (a : Alloc) (c : Chunk) (s : HeapStream) : PostOutcome α :=
  if c.isLast then
    if s.stream.capacity ≠ s.stream.position then
      .ok (plugin, { internals with dataIn := some s }, .quiet errorInternalError)
    else
      handOver threadsDisabled process plugin { internals with dataIn := none } a
        ⟨s.block, s.stream.sealLength.resetPosition⟩
  else .ok (plugin, { internals with dataIn := some s }, .quiet channelRcOk)

def storeChunk (g : Growth) (threadsDisabled : Bool) (process : ProcessMessage α)
    (plugin : PluginMemory α) (internals : MsgProcInternals) (a : Alloc) (c : Chunk)
    (s : HeapStream) : PostOutcome α :=
  if s.block ∉ plugin.heap.live then .error .gone
  else
    match s.stream.ensureRemainingCapacity g a.ensureRemaining c.data.length with
    | none =>
        match plugin.heap.free s.block with
        | none => .error .gone
        | some heap =>
            .ok ({ plugin with heap := heap }, { internals with dataIn := none },
              .quiet channelRcNoMemory)
    | some ⟨stream, hroom⟩ =>
        finishChunk threadsDisabled process plugin internals a c
          ⟨s.block, stream.write c.data hroom⟩

def channelClientPostMessage (g : Growth) (threadsDisabled : Bool) (process : ProcessMessage α)
    (plugin : PluginMemory α) (internals : MsgProcInternals) (a : Alloc) (c : Chunk) :
    PostOutcome α :=
  if c.isControl then .ok (plugin, internals, .quiet channelRcOk)
  else
    match openDataIn g a c plugin.heap internals.dataIn with
    | .error stop => .error stop
    | .ok none => .ok (plugin, internals, .quiet channelRcNoMemory)
    | .ok (some (heap, none)) =>
        .ok ({ plugin with heap := heap }, { internals with dataIn := none },
          .quiet channelRcNoMemory)
    | .ok (some (heap, some s)) =>
        storeChunk g threadsDisabled process { plugin with heap := heap } internals a c s

/-- One turn of the loop in `channel_client_thread_proc`; `fails` says whether
`MessageQueue_Wait` or `MessageQueue_Peek` fails in it. -/
def threadTurn (process : ProcessMessage α) (fails : Bool) (plugin : PluginMemory α)
    (internals : MsgProcInternals) : PostOutcome α :=
  if internals.thread ≠ some .waiting then .error .disabled
  else if fails then
    .ok (plugin, { internals with thread := some (.exited errorInternalError) },
      .quiet errorInternalError)
  else
    match internals.queue with
    | [] => .error .disabled
    | none :: queue =>
        .ok (plugin, { internals with queue := queue, thread := some (.exited channelRcOk) },
          .quiet channelRcOk)
    | some s :: queue =>
        match cliprdrOrderRecv process plugin s with
        | .error stop => .error stop
        | .ok (error, plugin) =>
            .ok (plugin, { internals with
              queue := queue
              thread := some (if error ≠ 0 then .exited error else .waiting) },
              ⟨error, some s, none, false⟩)

def MsgProcInternals.blocks (internals : MsgProcInternals) : List ℕ :=
  (internals.queue.filterMap id ++ internals.dataIn.toList).map HeapStream.block

/-- `MessageQueue_Free` frees the streams of the queue through `free_msg`. -/
def channelClientHandlerFree (plugin : PluginMemory α) (internals : MsgProcInternals) :
    Except Stop (PluginMemory α) :=
  match plugin.heap.freeAll internals.blocks with
  | none => .error .gone
  | some heap => .ok { plugin with heap := heap }

/-- What happens to the channel. `connected` says whether the channel could be opened and
the handler created, and `disconnected` whether the quit message could be posted. `joined` is
the end of the wait for the thread, with the error of a wait that fails. `written` is
`CHANNEL_EVENT_WRITE_COMPLETE` or `CHANNEL_EVENT_WRITE_CANCELLED`. -/
inductive ChannelInput where
  | connected (created : Bool)
  | dataReceived (a : Alloc) (c : Chunk)
  | turn (fails : Bool)
  | abandonedTurn (n : ℕ) (fails : Bool)
  | strayTurn
  | send (packets : List Bytes)
  | written (block : ℕ)
  | disconnected (postQuit : Bool)
  | joined (waitFailed : Option UInt32)

/-- The end of `channel_client_quit_handler`. -/
def endHandler (s : ChannelMemory α) (internals : MsgProcInternals) :
    Except Stop (ChannelMemory α × StepOutput) :=
  match channelClientHandlerFree s.plugin internals with
  | .error stop => .error stop
  | .ok plugin =>
      let threadLeft := decide (internals.thread = some .waiting)
      .ok (⟨plugin, none, false, s.abandoned, s.stray || threadLeft⟩,
        ⟨channelRcOk, none, none, threadLeft⟩)

/-- The events of the channel come from one thread, which stands still while it waits for
the message thread. The transport hands back only what it has. -/
def channelEvent (g : Growth) (threadsDisabled : Bool) (process : ProcessMessage α)
    (s : ChannelMemory α) : ChannelInput → Except Stop (ChannelMemory α × StepOutput)
  | .connected created =>
      if s.quitting ∨ s.msgsHandle.isSome then .error .disabled
      else
        .ok ({ s with
          msgsHandle :=
            if created then some ⟨none, [], if threadsDisabled then none else some .waiting⟩
            else none }, .quiet channelRcOk)
  | .dataReceived a c =>
      if s.quitting then .error .disabled
      else
        match s.msgsHandle with
        | none => .ok (s, .quiet channelRcOk)
        | some internals =>
            (channelClientPostMessage g threadsDisabled process s.plugin internals a c).map
              fun r => ({ s with plugin := r.1, msgsHandle := some r.2.1 }, r.2.2)
  | .turn fails =>
      match s.msgsHandle with
      | none => .error .disabled
      | some internals =>
          (threadTurn process fails s.plugin internals).map
            fun r => ({ s with plugin := r.1, msgsHandle := some r.2.1 }, r.2.2)
  | .abandonedTurn n fails =>
      match s.abandoned[n]? with
      | none => .error .disabled
      | some internals =>
          (threadTurn process fails s.plugin internals).map
            fun r => ({ s with plugin := r.1, abandoned := s.abandoned.set n r.2.1 }, r.2.2)
  | .strayTurn => .error (if s.stray then .gone else .disabled)
  | .send packets => .ok ({ s with plugin := s.plugin.sendAll packets }, .quiet channelRcOk)
  | .written block =>
      if block ∉ s.plugin.inFlight then .error .disabled
      else
        match s.plugin.heap.free block with
        | none => .error .gone
        | some heap =>
            .ok ({ s with
              plugin := { s.plugin with
                heap := heap
                inFlight := s.plugin.inFlight.erase block } }, .quiet channelRcOk)
  | .disconnected postQuit =>
      if s.quitting then .error .disabled
      else
        match s.msgsHandle with
        | none => .ok (s, .quiet channelRcOk)
        | some internals =>
            if threadsDisabled = false ∧ postQuit then
              .ok ({ s with
                msgsHandle := some { internals with queue := internals.queue ++ [none] }
                quitting := true }, .quiet channelRcOk)
            else endHandler s internals
  | .joined waitFailed =>
      match s.quitting, s.msgsHandle with
      | true, some internals =>
          match waitFailed with
          | some error =>
              .ok ({ s with
                msgsHandle := none
                quitting := false
                abandoned := internals :: s.abandoned }, .quiet error)
          | none =>
              if internals.thread = some .waiting then .error .disabled
              else endHandler s internals
      | _, _ => .error .disabled

def channelStep (g : Growth) (threadsDisabled : Bool) (process : ProcessMessage α) :
    Step (ChannelMemory α) ChannelInput StepOutput :=
  fun s i => (channelEvent g threadsDisabled process s i).toOption

def ChannelMemory.initial (userdata : α) : ChannelMemory α :=
  ⟨⟨.empty, [], userdata⟩, none, false, [], false⟩

def HeapStream.isShort (s : HeapStream) : Bool := (readHeader s.stream.unread).isNone

def StepOutput.lost (o : StepOutput) : List ℕ :=
  ((o.handled.filter HeapStream.isShort).toList ++ o.unposted.toList).map HeapStream.block

def lostBlocks (t : Trace ChannelInput StepOutput) : List ℕ := t.flatMap (·.2.lost)

def ChannelMemory.abandonedBlocks (s : ChannelMemory α) : Multiset ℕ :=
  (s.abandoned.flatMap MsgProcInternals.blocks : List ℕ)

def ChannelMemory.references (s : ChannelMemory α) : Multiset ℕ :=
  s.plugin.inFlight +
    ((s.msgsHandle.elim 0 fun internals => (internals.blocks : Multiset ℕ)) + s.abandonedBlocks)

/-- A function never touches a freed block, and its result is as `P` says. -/
def Safe {β : Type} (P : β → Prop) : Except Stop β → Prop
  | .ok b => P b
  | .error stop => stop ≠ .gone

variable {g : Growth} {threadsDisabled : Bool} {process : ProcessMessage α}
  {plugin : PluginMemory α} {internals : MsgProcInternals} {a : Alloc} {c : Chunk}
  {s : HeapStream} {owners : Multiset ℕ}

theorem Safe.mono {β : Type} {P Q : β → Prop} {r : Except Stop β} (h : Safe P r)
    (hPQ : ∀ b, P b → Q b) : Safe Q r := by
  cases r with
  | ok b => exact hPQ b h
  | error stop => exact h

theorem Safe.map {β γ : Type} {P : γ → Prop} {f : β → γ} {r : Except Stop β}
    (h : Safe (fun b => P (f b)) r) : Safe P (r.map f) := by
  cases r with
  | ok b => exact h
  | error stop => exact h

theorem owned_sendAll (h : Owned plugin.heap (plugin.inFlight + owners)) (packets : List Bytes) :
    Owned (plugin.sendAll packets).heap ((plugin.sendAll packets).inFlight + owners) := by
  induction packets generalizing plugin with
  | nil => exact h
  | cons packet packets ih =>
      apply ih
      have halloc := h.alloc
      rwa [← Multiset.cons_add, Multiset.cons_coe] at halloc

theorem lost_handled (rc : UInt32) (s : HeapStream) :
    (StepOutput.mk rc (some s) none false).lost = if s.isShort then [s.block] else [] := by
  cases hshort : s.isShort with
  | true => simp [StepOutput.lost, Option.filter, hshort]
  | false => simp [StepOutput.lost, Option.filter, hshort]

/-- The stream is freed or lost. -/
theorem orderRecv_owned (process : ProcessMessage α)
    (h : Owned plugin.heap (s.block ::ₘ (plugin.inFlight + owners))) :
    Safe (fun r => Owned r.2.heap
        (r.2.inFlight + (((StepOutput.mk r.1 (some s) none false).lost : Multiset ℕ) + owners)))
      (cliprdrOrderRecv process plugin s) := by
  rw [cliprdrOrderRecv, if_neg (not_not_intro h.mem)]
  cases hread : readHeader s.stream.unread with
  | none =>
      have hshort : s.isShort = true := by rw [HeapStream.isShort, hread, Option.isNone_none]
      change Owned plugin.heap _
      rw [lost_handled, if_pos hshort, Multiset.coe_singleton, Multiset.singleton_add,
        Multiset.add_cons]
      exact h
  | some message =>
      obtain ⟨header, body⟩ := message
      have hlost (rc : UInt32) : (StepOutput.mk rc (some s) none false).lost = [] := by
        rw [lost_handled, HeapStream.isShort, hread, Option.isNone_some, if_neg Bool.false_ne_true]
      simp only
      cases process plugin.userdata header body with
      | none => exact Stop.noConfusion
      | some r =>
          obtain ⟨error, packets, userdata⟩ := r
          rw [← Multiset.add_cons] at h
          obtain ⟨before, hbefore⟩ : ∃ before : PluginMemory α,
              before = { plugin with userdata := userdata } := ⟨_, rfl⟩
          have hsent : Owned (before.sendAll packets).heap
              ((before.sendAll packets).inFlight + s.block ::ₘ owners) :=
            owned_sendAll (hbefore ▸ h) packets
          rw [Multiset.add_cons] at hsent
          obtain ⟨heap, hfree, howned⟩ := hsent.free
          simp only [← hbefore, hfree, Safe]
          rw [hlost, Multiset.coe_nil, zero_add]
          exact howned

theorem block_of_openDataIn {heap : Heap} {dataIn : Option HeapStream}
    (h : Owned heap ((dataIn.toList.map HeapStream.block : List ℕ) + owners)) :
    Safe (fun r => ∀ heap' dataIn', r = some (heap', dataIn') →
        Owned heap' ((dataIn'.toList.map HeapStream.block : List ℕ) + owners))
      (openDataIn g a c heap dataIn) := by
  unfold openDataIn
  by_cases hfirst : c.isFirst = true
  · rw [if_pos hfirst]
    cases dataIn with
    | some s =>
        have hmem : s.block ∈ heap.live := by
          rw [h.live]
          simp
        simp only [hmem, not_true, if_false]
        intro heap' dataIn' hr
        obtain ⟨stream, -, hstream⟩ := Option.map_eq_some_iff.mp hr
        obtain ⟨rfl, rfl⟩ := Prod.mk.inj hstream
        exact h
    | none =>
        simp only
        split
        · intro heap' dataIn' hr
          obtain ⟨rfl, rfl⟩ := Prod.mk.inj (Option.some.inj hr)
          exact h
        · intro heap' dataIn' hr
          obtain ⟨rfl, rfl⟩ := Prod.mk.inj (Option.some.inj hr)
          simpa using h.alloc
  · rw [if_neg hfirst]
    intro heap' dataIn' hr
    obtain ⟨rfl, rfl⟩ := Prod.mk.inj (Option.some.inj hr)
    exact h

abbrev Holds (owners : Multiset ℕ) (plugin : PluginMemory α) (internals : MsgProcInternals) :
    Prop :=
  Owned plugin.heap (plugin.inFlight + (internals.blocks + owners))

theorem blocks_dataIn (internals : MsgProcInternals) (dataIn : Option HeapStream) :
    (({ internals with dataIn := dataIn } : MsgProcInternals).blocks : Multiset ℕ) =
      (dataIn.toList.map HeapStream.block : List ℕ) +
        (({ internals with dataIn := none } : MsgProcInternals).blocks : Multiset ℕ) := by
  simp only [MsgProcInternals.blocks, List.map_append, ← Multiset.coe_add]
  cases dataIn with
  | none => simp
  | some s => simp [add_comm]

theorem blocks_queue (internals : MsgProcInternals) (s : HeapStream) :
    (({ internals with queue := internals.queue ++ [some s] } : MsgProcInternals).blocks :
      Multiset ℕ) = s.block ::ₘ internals.blocks := by
  rw [Multiset.cons_coe, Multiset.coe_eq_coe]
  simp only [MsgProcInternals.blocks, List.filterMap_append, List.map_append, List.append_assoc]
  exact List.perm_middle

abbrev Keeps (owners : Multiset ℕ) (r : PluginMemory α × MsgProcInternals × StepOutput) : Prop :=
  Holds (r.2.2.lost + owners) r.1 r.2.1

theorem lost_quiet (rc : UInt32) : (StepOutput.quiet rc).lost = [] := rfl

theorem handOver_owned
    (h : Owned plugin.heap (s.block ::ₘ (plugin.inFlight + (internals.blocks + owners)))) :
    Safe (Keeps owners) (handOver threadsDisabled process plugin internals a s) := by
  rw [handOver]
  split_ifs with hthreads hpost
  · have hrecv := orderRecv_owned process h
    cases hresult : cliprdrOrderRecv process plugin s with
    | error stop =>
        rw [hresult] at hrecv
        exact hrecv
    | ok r =>
        rw [hresult] at hrecv
        obtain ⟨error, plugin'⟩ := r
        change Owned _ _ at hrecv
        change Owned _ _
        simp only [lost_handled] at hrecv ⊢
        exact hrecv.of_eq (by abel)
  · change Owned plugin.heap _
    rw [blocks_queue, lost_quiet, Multiset.coe_nil, zero_add, Multiset.cons_add, Multiset.add_cons]
    exact h
  · change Owned plugin.heap _
    have hlost (rc : UInt32) : (StepOutput.mk rc none (some s) false).lost = [s.block] := rfl
    rw [hlost, Multiset.coe_singleton, Multiset.singleton_add, Multiset.add_cons,
      Multiset.add_cons]
    exact h

theorem finishChunk_owned
    (h : Owned plugin.heap (s.block ::ₘ (plugin.inFlight +
      (({ internals with dataIn := none } : MsgProcInternals).blocks + owners)))) :
    Safe (Keeps owners) (finishChunk threadsDisabled process plugin internals a c s) := by
  have hback : Owned plugin.heap (plugin.inFlight +
      (({ internals with dataIn := some s } : MsgProcInternals).blocks + owners)) := by
    rw [blocks_dataIn, Option.toList_some, List.map_singleton, Multiset.coe_singleton,
      Multiset.singleton_add, Multiset.cons_add, Multiset.add_cons]
    exact h
  rw [finishChunk]
  split_ifs with hlast hfull
  · change Owned _ _
    rwa [lost_quiet, Multiset.coe_nil, zero_add]
  · exact handOver_owned h
  · change Owned _ _
    rwa [lost_quiet, Multiset.coe_nil, zero_add]

theorem storeChunk_owned
    (h : Owned plugin.heap (s.block ::ₘ (plugin.inFlight +
      (({ internals with dataIn := none } : MsgProcInternals).blocks + owners)))) :
    Safe (Keeps owners) (storeChunk g threadsDisabled process plugin internals a c s) := by
  rw [storeChunk, if_neg (not_not_intro h.mem)]
  cases s.stream.ensureRemainingCapacity g a.ensureRemaining c.data.length with
  | none =>
      obtain ⟨heap, hfree, howned⟩ := h.free
      simp only [hfree]
      change Owned heap _
      rwa [lost_quiet, Multiset.coe_nil, zero_add]
  | some stream => exact finishChunk_owned h

theorem post_owned (h : Holds owners plugin internals) :
    Safe (Keeps owners)
      (channelClientPostMessage g threadsDisabled process plugin internals a c) := by
  have hquiet (rc : UInt32) : Keeps owners (plugin, internals, .quiet rc) := by
    change Owned _ _
    rwa [lost_quiet, Multiset.coe_nil, zero_add]
  rw [channelClientPostMessage]
  split_ifs with hcontrol
  · exact hquiet channelRcOk
  · have hopened : Owned plugin.heap
        ((internals.dataIn.toList.map HeapStream.block : List ℕ) + (plugin.inFlight +
          (({ internals with dataIn := none } : MsgProcInternals).blocks + owners))) := by
      have hblocks := blocks_dataIn internals internals.dataIn
      change (internals.blocks : Multiset ℕ) = _ at hblocks
      rw [Holds, hblocks, add_assoc, add_left_comm] at h
      exact h
    have hopen := block_of_openDataIn (g := g) (a := a) (c := c) hopened
    cases hresult : openDataIn g a c plugin.heap internals.dataIn with
    | error stop =>
        rw [hresult] at hopen
        exact hopen
    | ok r =>
        rw [hresult] at hopen
        cases r with
        | none => exact hquiet channelRcNoMemory
        | some r =>
            obtain ⟨heap, dataIn⟩ := r
            have howned := hopen heap dataIn rfl
            cases dataIn with
            | none =>
                change Owned heap _
                rw [lost_quiet, Multiset.coe_nil, zero_add]
                simpa using howned
            | some s =>
                apply storeChunk_owned
                simpa using howned

theorem threadTurn_owned (fails : Bool) (h : Holds owners plugin internals) :
    Safe (Keeps owners) (threadTurn process fails plugin internals) := by
  rw [threadTurn]
  split_ifs
  · exact Stop.noConfusion
  · change Owned plugin.heap _
    rwa [lost_quiet, Multiset.coe_nil, zero_add]
  split
  · exact Stop.noConfusion
  · rename_i queue hqueue
    have hblocks : internals.blocks = (⟨internals.dataIn, queue, internals.thread⟩ :
        MsgProcInternals).blocks := by
      rw [MsgProcInternals.blocks, hqueue]
      rfl
    change Owned plugin.heap _
    rw [lost_quiet, Multiset.coe_nil, zero_add]
    rwa [Holds, hblocks] at h
  · rename_i s queue hqueue
    have hblocks : (internals.blocks : Multiset ℕ) =
        s.block ::ₘ (⟨internals.dataIn, queue, internals.thread⟩ : MsgProcInternals).blocks := by
      rw [MsgProcInternals.blocks, hqueue]
      rfl
    rw [Holds, hblocks, Multiset.cons_add, Multiset.add_cons] at h
    have hrecv := orderRecv_owned process h
    cases hresult : cliprdrOrderRecv process plugin s with
    | error stop =>
        rw [hresult] at hrecv
        exact hrecv
    | ok r =>
        rw [hresult] at hrecv
        obtain ⟨error, plugin'⟩ := r
        have hkept : Owned plugin'.heap (plugin'.inFlight +
            ((⟨internals.dataIn, queue, internals.thread⟩ : MsgProcInternals).blocks +
              (((StepOutput.mk error (some s) none false).lost : Multiset ℕ) + owners))) :=
          Owned.of_eq hrecv (by abel)
        exact hkept

theorem endHandler_owned {m : ChannelMemory α}
    (h : Holds (m.abandonedBlocks + owners) m.plugin internals) :
    Safe (fun r => Owned r.1.plugin.heap (r.1.references + (r.2.lost + owners)))
      (endHandler m internals) := by
  rw [Holds, add_left_comm] at h
  obtain ⟨heap, hfree, howned⟩ := h.freeAll
  rw [endHandler, channelClientHandlerFree, hfree]
  change Owned heap (↑m.plugin.inFlight + (0 + m.abandonedBlocks) + (0 + owners))
  rwa [zero_add, zero_add, add_assoc]

theorem references_of_handle {m : ChannelMemory α} (h : m.msgsHandle = some internals) :
    m.references = m.plugin.inFlight + ((internals.blocks : Multiset ℕ) + m.abandonedBlocks) := by
  rw [ChannelMemory.references, h]
  rfl

theorem references_of_none {m : ChannelMemory α} (h : m.msgsHandle = none) :
    m.references = m.plugin.inFlight + m.abandonedBlocks := by
  rw [ChannelMemory.references, h]
  exact congrArg _ (zero_add _)

theorem safe_quiet {m : ChannelMemory α} (rc : UInt32)
    (h : Owned m.plugin.heap (m.references + owners)) :
    Safe (fun r : ChannelMemory α × StepOutput =>
        Owned r.1.plugin.heap (r.1.references + (r.2.lost + owners)))
      (.ok (m, .quiet rc)) := by
  change Owned m.plugin.heap _
  rwa [lost_quiet, Multiset.coe_nil, zero_add]

/-- What the collecting side or the thread does is a step of the channel. -/
theorem safe_internals {m : ChannelMemory α} {r : PostOutcome α}
    (h : Safe (Keeps (m.abandonedBlocks + owners)) r) :
    Safe (fun r : ChannelMemory α × StepOutput =>
        Owned r.1.plugin.heap (r.1.references + (r.2.lost + owners)))
      (r.map fun r => ({ m with plugin := r.1, msgsHandle := some r.2.1 }, r.2.2)) := by
  apply Safe.map
  apply h.mono
  rintro ⟨plugin, internals, o⟩ hkeeps
  refine Owned.of_eq hkeeps ?_
  change _ = plugin.inFlight + ((internals.blocks : Multiset ℕ) + m.abandonedBlocks) + _
  abel

theorem holds_of_handle {m : ChannelMemory α} (hm : m.msgsHandle = some internals)
    (h : Owned m.plugin.heap (m.references + owners)) :
    Holds (m.abandonedBlocks + owners) m.plugin internals := by
  rwa [references_of_handle hm, add_assoc, add_assoc] at h

/-- A turn of an abandoned thread leaves the other internals alone. -/
theorem abandonedTurn_owned {m : ChannelMemory α} {n : ℕ} (fails : Bool)
    (hn : m.abandoned[n]? = some internals)
    (h : Owned m.plugin.heap (m.references + owners)) :
    Safe (fun r => Owned r.1.plugin.heap (r.1.references + (r.2.lost + owners)))
      ((threadTurn process fails m.plugin internals).map
        fun r => ({ m with plugin := r.1, abandoned := m.abandoned.set n r.2.1 }, r.2.2)) := by
  obtain ⟨hlt, hget⟩ := List.getElem?_eq_some_iff.mp hn
  obtain ⟨others, hothers⟩ : ∃ others : Multiset ℕ,
      others = ((m.abandoned.take n).flatMap MsgProcInternals.blocks : List ℕ) +
        ((m.abandoned.drop (n + 1)).flatMap MsgProcInternals.blocks : List ℕ) := ⟨_, rfl⟩
  -- What the list holds when the internals at `n` are replaced.
  have hset : ∀ internals' : MsgProcInternals,
      ((m.abandoned.set n internals').flatMap MsgProcInternals.blocks : Multiset ℕ) =
        internals'.blocks + others := by
    intro internals'
    rw [List.set_eq_take_append_cons_drop, if_pos hlt, List.flatMap_append, List.flatMap_cons,
      ← Multiset.coe_add, ← Multiset.coe_add, hothers]
    abel
  have hholds : m.abandonedBlocks = (internals.blocks : Multiset ℕ) + others := by
    rw [← hset internals, ← hget, List.set_getElem_self, ChannelMemory.abandonedBlocks]
  obtain ⟨current, hcurrent⟩ : ∃ current : Multiset ℕ, current =
      m.msgsHandle.elim 0 fun internals => (internals.blocks : Multiset ℕ) := ⟨_, rfl⟩
  rw [ChannelMemory.references, hholds, ← hcurrent] at h
  have hheld : Holds (current + others + owners) m.plugin internals := h.of_eq (by abel)
  apply Safe.map
  apply (threadTurn_owned fails hheld).mono
  rintro ⟨plugin, internals', o⟩ hkeeps
  change Owned plugin.heap (plugin.inFlight + (m.msgsHandle.elim 0 _ +
    ((m.abandoned.set n internals').flatMap MsgProcInternals.blocks : List ℕ)) + _)
  rw [hset, ← hcurrent]
  exact Owned.of_eq hkeeps (by abel)

/-- A step touches a freed block only where a stray thread runs. -/
theorem event_owned (g : Growth) (threadsDisabled : Bool) (process : ProcessMessage α)
    {m : ChannelMemory α} (h : Owned m.plugin.heap (m.references + owners)) {i : ChannelInput}
    (hi : i = .strayTurn → m.stray = false) :
    Safe (fun r => Owned r.1.plugin.heap (r.1.references + (r.2.lost + owners)))
      (channelEvent g threadsDisabled process m i) := by
  cases i with
  | connected created =>
      simp only [channelEvent]
      by_cases hopen : m.quitting ∨ m.msgsHandle.isSome
      · rw [if_pos hopen]
        exact Stop.noConfusion
      · rw [if_neg hopen]
        have hnone : m.msgsHandle = none := by
          simpa using (not_or.mp hopen).2
        rw [references_of_none hnone] at h
        apply safe_quiet
        cases created with
        | true =>
            simpa [ChannelMemory.references, ChannelMemory.abandonedBlocks,
              MsgProcInternals.blocks] using h
        | false => simpa [ChannelMemory.references, ChannelMemory.abandonedBlocks] using h
  | dataReceived a c =>
      simp only [channelEvent]
      by_cases hquitting : m.quitting = true
      · rw [if_pos hquitting]
        exact Stop.noConfusion
      · rw [if_neg hquitting]
        cases hm : m.msgsHandle with
        | none => exact safe_quiet channelRcOk h
        | some internals => exact safe_internals (post_owned (holds_of_handle hm h))
  | turn fails =>
      simp only [channelEvent]
      cases hm : m.msgsHandle with
      | none => exact Stop.noConfusion
      | some internals => exact safe_internals (threadTurn_owned fails (holds_of_handle hm h))
  | abandonedTurn n fails =>
      simp only [channelEvent]
      cases hn : m.abandoned[n]? with
      | none => exact Stop.noConfusion
      | some internals => exact abandonedTurn_owned fails hn h
  | strayTurn =>
      simp only [channelEvent, hi rfl]
      exact Stop.noConfusion
  | send packets =>
      apply safe_quiet
      rw [ChannelMemory.references, add_assoc] at h
      exact (owned_sendAll h packets).of_eq (add_assoc _ _ _).symm
  | written block =>
      simp only [channelEvent]
      by_cases hblock : block ∈ m.plugin.inFlight
      · rw [if_neg (not_not_intro hblock)]
        have hsplit : (m.plugin.inFlight : Multiset ℕ) =
            block ::ₘ (m.plugin.inFlight.erase block : List ℕ) := by
          rw [← Multiset.coe_erase, Multiset.cons_erase (Multiset.mem_coe.mpr hblock)]
        rw [ChannelMemory.references, hsplit, Multiset.cons_add, Multiset.cons_add] at h
        obtain ⟨heap, hfree, howned⟩ := h.free
        rw [hfree]
        exact safe_quiet channelRcOk howned
      · rw [if_pos hblock]
        exact Stop.noConfusion
  | disconnected postQuit =>
      simp only [channelEvent]
      by_cases hquitting : m.quitting = true
      · rw [if_pos hquitting]
        exact Stop.noConfusion
      · rw [if_neg hquitting]
        cases hm : m.msgsHandle with
        | none => exact safe_quiet channelRcOk h
        | some internals =>
            simp only
            by_cases hpost : threadsDisabled = false ∧ postQuit = true
            · rw [if_pos hpost]
              apply safe_quiet
              rw [references_of_handle hm] at h
              have hblocks : ({ internals with queue := internals.queue ++ [none] } :
                  MsgProcInternals).blocks = internals.blocks := by
                simp [MsgProcInternals.blocks]
              rw [references_of_handle rfl, hblocks]
              exact h
            · rw [if_neg hpost]
              exact endHandler_owned (holds_of_handle hm h)
  | joined waitFailed =>
      simp only [channelEvent]
      cases hquitting : m.quitting with
      | false => exact Stop.noConfusion
      | true =>
          cases hm : m.msgsHandle with
          | none => exact Stop.noConfusion
          | some internals =>
              cases waitFailed with
              | some error =>
                  apply safe_quiet
                  rw [references_of_handle hm] at h
                  refine h.of_eq ?_
                  rw [references_of_none rfl]
                  simp only [ChannelMemory.abandonedBlocks, List.flatMap_cons, Multiset.coe_add]
              | none =>
                  simp only
                  by_cases hwaiting : internals.thread = some .waiting
                  · rw [if_pos hwaiting]
                    exact Stop.noConfusion
                  · rw [if_neg hwaiting]
                    exact endHandler_owned (holds_of_handle hm h)

variable {m m' : ChannelMemory α} {i : ChannelInput} {o : StepOutput}
  {t : Trace ChannelInput StepOutput} {userdata : α}

theorem channelEvent_of_step (h : channelStep g threadsDisabled process m i = some (m', o)) :
    channelEvent g threadsDisabled process m i = .ok (m', o) := by
  rw [channelStep] at h
  cases hevent : channelEvent g threadsDisabled process m i with
  | error stop =>
      rw [hevent] at h
      cases h
  | ok r =>
      rw [hevent] at h
      exact congrArg Except.ok (Option.some.inj h)

/-- In every run each live stream is referred to once or was lost. -/
theorem run_owned (h : Execution (channelStep g threadsDisabled process) (.initial userdata) t m) :
    Owned m.plugin.heap (m.references + (lostBlocks t : Multiset ℕ)) := by
  induction h with
  | nil => exact owned_empty
  | @snoc t m m' i o _ hs ih =>
      have hevent := channelEvent_of_step hs
      have hstray : i = .strayTurn → m.stray = false := by
        rintro rfl
        simp [channelEvent] at hevent
      have hstep := event_owned g threadsDisabled process ih hstray
      rw [hevent] at hstep
      have hlost : (lostBlocks (t ++ [(i, o)]) : Multiset ℕ) = o.lost + lostBlocks t := by
        rw [lostBlocks, List.flatMap_append, ← Multiset.coe_add, add_comm]
        simp [lostBlocks]
      rw [hlost]
      exact hstep

def SameThread (thread : Option ThreadStatus)
    (r : PluginMemory α × MsgProcInternals × StepOutput) : Prop :=
  r.2.1.thread = thread ∧ r.2.2.threadLeft = false

theorem handOver_thread {r : PluginMemory α × MsgProcInternals × StepOutput}
    (h : handOver threadsDisabled process plugin internals a s = .ok r) :
    SameThread internals.thread r := by
  rw [handOver] at h
  split_ifs at h
  · cases hrecv : cliprdrOrderRecv process plugin s with
    | error stop =>
        rw [hrecv] at h
        cases h
    | ok r' =>
        rw [hrecv] at h
        cases h
        exact ⟨rfl, rfl⟩
  · cases h
    exact ⟨rfl, rfl⟩
  · cases h
    exact ⟨rfl, rfl⟩

theorem storeChunk_thread {r : PluginMemory α × MsgProcInternals × StepOutput}
    (h : storeChunk g threadsDisabled process plugin internals a c s = .ok r) :
    SameThread internals.thread r := by
  rw [storeChunk] at h
  split_ifs at h with hlive
  cases hroom : s.stream.ensureRemainingCapacity g a.ensureRemaining c.data.length with
  | none =>
      simp only [hroom] at h
      split at h
      · cases h
      · cases h
        exact ⟨rfl, rfl⟩
  | some stream =>
      simp only [hroom, finishChunk] at h
      split_ifs at h
      · cases h
        exact ⟨rfl, rfl⟩
      · have hsame := handOver_thread h
        exact hsame
      · cases h
        exact ⟨rfl, rfl⟩

theorem post_thread {r : PluginMemory α × MsgProcInternals × StepOutput}
    (h : channelClientPostMessage g threadsDisabled process plugin internals a c = .ok r) :
    SameThread internals.thread r := by
  rw [channelClientPostMessage] at h
  split_ifs at h with hcontrol
  · cases h
    exact ⟨rfl, rfl⟩
  · split at h
    · cases h
    · cases h
      exact ⟨rfl, rfl⟩
    · cases h
      exact ⟨rfl, rfl⟩
    · exact storeChunk_thread h

theorem threadTurn_thread {fails : Bool} {r : PluginMemory α × MsgProcInternals × StepOutput}
    (h : threadTurn process fails plugin internals = .ok r) :
    internals.thread = some .waiting ∧ r.2.2.threadLeft = false := by
  rw [threadTurn] at h
  split_ifs at h with hthread hfails
  · cases h
    exact ⟨not_not.mp hthread, rfl⟩
  · refine ⟨not_not.mp hthread, ?_⟩
    split at h
    · cases h
    · cases h
      rfl
    · split at h
      · cases h
      · cases h
        rfl

/-- Without threads there is none, and a stray thread was left at a disconnect whose quit
message could not be posted. -/
structure ThreadsKnown (threadsDisabled : Bool) (t : Trace ChannelInput StepOutput)
    (m : ChannelMemory α) : Prop where
  disabled : threadsDisabled = true → ∀ internals, m.msgsHandle = some internals →
    internals.thread = none
  stray : m.stray = true ↔ ∃ o, (.disconnected false, o) ∈ t ∧ o.threadLeft = true

theorem ThreadsKnown.quiet (h : ThreadsKnown threadsDisabled t m) (hleft : o.threadLeft = false)
    (hstray : m'.stray = m.stray)
    (hdisabled : threadsDisabled = true → ∀ internals, m'.msgsHandle = some internals →
      internals.thread = none) :
    ThreadsKnown threadsDisabled (t ++ [(i, o)]) m' := by
  refine ⟨hdisabled, ?_⟩
  rw [hstray, h.stray]
  constructor
  · rintro ⟨o', hmem, ho'⟩
    exact ⟨o', List.mem_append_left _ hmem, ho'⟩
  · rintro ⟨o', hmem, ho'⟩
    rcases List.mem_append.mp hmem with hmem | hlast
    · exact ⟨o', hmem, ho'⟩
    · obtain ⟨-, rfl⟩ := Prod.mk.inj (List.mem_singleton.mp hlast)
      rw [hleft] at ho'
      cases ho'

theorem ThreadsKnown.ended (h : ThreadsKnown threadsDisabled t m)
    (hs : endHandler m internals = .ok (m', o))
    (hi : i = .disconnected false ∨ internals.thread ≠ some .waiting) :
    ThreadsKnown threadsDisabled (t ++ [(i, o)]) m' := by
  rw [endHandler] at hs
  cases hfree : channelClientHandlerFree m.plugin internals with
  | error stop =>
      rw [hfree] at hs
      cases hs
  | ok plugin =>
      rw [hfree] at hs
      cases hs
      by_cases hwaiting : internals.thread = some .waiting
      · obtain rfl := hi.resolve_right (not_not_intro hwaiting)
        refine ⟨fun _ _ hnone => absurd hnone (by simp), iff_of_true (by simp [hwaiting]) ?_⟩
        exact ⟨_, List.mem_append_right _ (List.mem_singleton_self _), by simp [hwaiting]⟩
      · apply h.quiet
        · simp [hwaiting]
        · simp [hwaiting]
        · exact fun _ _ hnone => absurd hnone (by simp)

theorem ok_of_map {β γ : Type} {f : β → γ} {r : Except Stop β} {c : γ} (h : r.map f = .ok c) :
    ∃ b, r = .ok b ∧ f b = c := by
  cases r with
  | ok b => exact ⟨b, rfl, Except.ok.inj h⟩
  | error stop => cases h

theorem threadsKnown_step (h : ThreadsKnown threadsDisabled t m)
    (hs : channelEvent g threadsDisabled process m i = .ok (m', o)) :
    ThreadsKnown threadsDisabled (t ++ [(i, o)]) m' := by
  cases i with
  | connected created =>
      simp only [channelEvent] at hs
      split_ifs at hs with hopen hcreated hthreads
      · cases hs
        exact h.quiet rfl rfl fun _ _ hinternals => by cases hinternals; rfl
      · cases hs
        exact h.quiet rfl rfl fun hdisabled => absurd hdisabled hthreads
      · cases hs
        exact h.quiet rfl rfl fun _ _ hnone => absurd hnone (by simp)
  | dataReceived a c =>
      simp only [channelEvent] at hs
      split_ifs at hs
      cases hm : m.msgsHandle with
      | none =>
          rw [hm] at hs
          cases hs
          exact h.quiet rfl rfl h.disabled
      | some internals =>
          simp only [hm] at hs
          obtain ⟨r, hpost, hr⟩ := ok_of_map hs
          cases hr
          obtain ⟨hthread, hleft⟩ := post_thread hpost
          refine h.quiet hleft rfl ?_
          intro hdisabled internals' hinternals
          cases hinternals
          exact hthread.trans (h.disabled hdisabled internals hm)
  | abandonedTurn n fails =>
      simp only [channelEvent] at hs
      cases hn : m.abandoned[n]? with
      | none =>
          rw [hn] at hs
          cases hs
      | some internals =>
          simp only [hn] at hs
          obtain ⟨r, hturn, hr⟩ := ok_of_map hs
          cases hr
          exact h.quiet (threadTurn_thread hturn).2 rfl h.disabled
  | turn fails =>
      simp only [channelEvent] at hs
      cases hm : m.msgsHandle with
      | none =>
          rw [hm] at hs
          cases hs
      | some internals =>
          simp only [hm] at hs
          obtain ⟨r, hturn, hr⟩ := ok_of_map hs
          cases hr
          obtain ⟨hwaiting, hleft⟩ := threadTurn_thread hturn
          refine h.quiet hleft rfl ?_
          intro hdisabled
          rw [h.disabled hdisabled internals hm] at hwaiting
          cases hwaiting
  | strayTurn => cases hs
  | send packets =>
      cases hs
      exact h.quiet rfl rfl h.disabled
  | written block =>
      simp only [channelEvent] at hs
      split_ifs at hs
      split at hs
      · cases hs
      · cases hs
        exact h.quiet rfl rfl h.disabled
  | disconnected postQuit =>
      simp only [channelEvent] at hs
      by_cases hquitting : m.quitting = true
      · rw [if_pos hquitting] at hs
        cases hs
      rw [if_neg hquitting] at hs
      cases hm : m.msgsHandle with
      | none =>
          rw [hm] at hs
          cases hs
          exact h.quiet rfl rfl h.disabled
      | some internals =>
          simp only [hm] at hs
          split_ifs at hs with hpost
          · cases hs
            refine h.quiet rfl rfl ?_
            intro hdisabled
            rw [hpost.1] at hdisabled
            cases hdisabled
          · apply h.ended hs
            cases hpostQuit : postQuit with
            | false => exact Or.inl rfl
            | true =>
                right
                have hdisabled : threadsDisabled = true := by
                  simpa [hpostQuit] using hpost
                rw [h.disabled hdisabled internals hm]
                exact fun hnone => by cases hnone
  | joined waitFailed =>
      simp only [channelEvent] at hs
      split at hs
      · cases waitFailed with
        | some error =>
            cases hs
            exact h.quiet rfl rfl fun _ _ hnone => absurd hnone (by simp)
        | none =>
            simp only at hs
            split_ifs at hs with hwaiting
            exact h.ended hs (Or.inr hwaiting)
      · cases hs

theorem run_threadsKnown
    (h : Execution (channelStep g threadsDisabled process) (.initial userdata) t m) :
    ThreadsKnown threadsDisabled t m := by
  induction h with
  | nil => exact ⟨fun _ _ hnone => absurd hnone (by simp [ChannelMemory.initial]), by
      simp [ChannelMemory.initial]⟩
  | snoc _ hs ih => exact threadsKnown_step ih (channelEvent_of_step hs)

/-- Whatever order things happen in and whatever fails: each live stream is referred to
exactly once, unless its message was too short for its header or could not be posted. Freed
streams are touched only by a message thread that was left behind because the quit message
could not be posted. -/
theorem streams_owned_once (g : Growth) (threadsDisabled : Bool) (process : ProcessMessage α)
    (userdata : α) (t : Trace ChannelInput StepOutput) (m : ChannelMemory α)
    (h : Execution (channelStep g threadsDisabled process) (.initial userdata) t m) :
    m.plugin.heap.live = m.references + (lostBlocks t : Multiset ℕ) ∧
      m.plugin.heap.live.Nodup ∧
      ∀ i, channelEvent g threadsDisabled process m i = .error .gone ↔
        i = .strayTurn ∧ ∃ o, (.disconnected false, o) ∈ t ∧ o.threadLeft = true := by
  have howned := run_owned h
  have hthreads := run_threadsKnown h
  refine ⟨howned.live, howned.live ▸ howned.nodup, fun i => ?_⟩
  rw [← hthreads.stray]
  constructor
  · intro hgone
    have hstray : ¬ (i = .strayTurn → m.stray = false) := by
      intro hi
      have hsafe := event_owned g threadsDisabled process howned hi
      rw [hgone] at hsafe
      exact hsafe rfl
    simpa using hstray
  · rintro ⟨rfl, hstray⟩
    simp only [channelEvent, hstray, if_true]

def MsgProcInternals.erase (internals : MsgProcInternals) (userdata : α) :
    QfClient.MsgProcInternals α :=
  ⟨(internals.queue.filterMap id).map HeapStream.stream, internals.dataIn.map HeapStream.stream,
    userdata⟩

/-- The handler of the plain channel does what `cliprdr_order_recv` does here. -/
def Handles (cfg : ChannelConfig α) (process : ProcessMessage α) : Prop :=
  ∀ (plugin : PluginMemory α) s r, cliprdrOrderRecv process plugin s = .ok r →
    cfg.msgHandler plugin.userdata s.stream = (r.1, r.2.userdata)

def Erases (r : PluginMemory α × MsgProcInternals × StepOutput)
    (r' : QfClient.MsgProcInternals α × PostResult) : Prop :=
  r'.1 = r.2.1.erase r.1.userdata ∧ r'.2.rc = r.2.2.rc

variable {cfg : ChannelConfig α} {r : PluginMemory α × MsgProcInternals × StepOutput}

theorem handOver_erases (hcfg : cfg.threadsDisabled = threadsDisabled)
    (hhandles : Handles cfg process)
    (h : handOver threadsDisabled process plugin internals a s = .ok r) :
    Erases r (QfClient.handOver cfg (internals.erase plugin.userdata) a s.stream) := by
  rw [handOver] at h
  rw [QfClient.handOver, hcfg]
  split_ifs at h with hthreads hpost
  · cases hrecv : cliprdrOrderRecv process plugin s with
    | error stop =>
        rw [hrecv] at h
        cases h
    | ok r' =>
        rw [hrecv] at h
        cases h
        have hsame := hhandles plugin s r' hrecv
        change cfg.msgHandler (internals.erase plugin.userdata).userdata s.stream = _ at hsame
        rw [if_pos hthreads, hsame]
        simp only
        split_ifs
        · exact ⟨rfl, rfl⟩
        · exact ⟨rfl, rfl⟩
  · cases h
    rw [if_neg hthreads, if_pos hpost]
    exact ⟨by simp [MsgProcInternals.erase], rfl⟩
  · cases h
    rw [if_neg hthreads, if_neg hpost]
    exact ⟨rfl, rfl⟩

theorem storeChunk_erases (hcfg : cfg.threadsDisabled = threadsDisabled)
    (hhandles : Handles cfg process)
    (h : storeChunk g threadsDisabled process plugin internals a c s = .ok r) :
    Erases r (QfClient.storeChunk g cfg (internals.erase plugin.userdata) a c s.stream) := by
  rw [storeChunk] at h
  rw [QfClient.storeChunk]
  split_ifs at h with hlive
  cases hroom : s.stream.ensureRemainingCapacity g a.ensureRemaining c.data.length with
  | none =>
      simp only [hroom] at h ⊢
      split at h
      · cases h
      · cases h
        exact ⟨rfl, rfl⟩
  | some stream =>
      simp only [hroom, finishChunk, QfClient.finishChunk] at h ⊢
      split_ifs at h with hlast hfull
      · cases h
        rw [if_pos hlast, if_pos hfull]
        exact ⟨rfl, rfl⟩
      · rw [if_pos hlast, if_neg hfull]
        have herases := handOver_erases hcfg hhandles h
        exact herases
      · cases h
        rw [if_neg hlast]
        exact ⟨rfl, rfl⟩

theorem openDataIn_erases {heap : Heap} {dataIn : Option HeapStream}
    {opened : Option (Heap × Option HeapStream)} (h : openDataIn g a c heap dataIn = .ok opened) :
    QfClient.openDataIn g a c (dataIn.map HeapStream.stream) =
      opened.map fun r => r.2.map HeapStream.stream := by
  unfold openDataIn at h
  unfold QfClient.openDataIn
  by_cases hfirst : c.isFirst = true
  · rw [if_pos hfirst] at h ⊢
    cases dataIn with
    | some s =>
        simp only at h
        split_ifs at h
        obtain rfl := Except.ok.inj h
        simp only [Option.map_some, Option.map_map]
        rfl
    | none =>
        simp only at h
        split at h
        · rename_i hnew
          obtain rfl := Except.ok.inj h
          simp only [Option.map_none, Option.map_some, hnew]
        · rename_i stream hnew
          obtain rfl := Except.ok.inj h
          simp only [Option.map_none, Option.map_some, hnew]
  · rw [if_neg hfirst] at h ⊢
    obtain rfl := Except.ok.inj h
    rfl

/-- A call on the heap is a call of the plain channel. -/
theorem post_erases (hcfg : cfg.threadsDisabled = threadsDisabled) (hhandles : Handles cfg process)
    (h : channelClientPostMessage g threadsDisabled process plugin internals a c = .ok r) :
    Erases r (QfClient.channelClientPostMessage g cfg (internals.erase plugin.userdata) a c) := by
  rw [channelClientPostMessage] at h
  rw [QfClient.channelClientPostMessage]
  split_ifs at h with hcontrol
  · cases h
    rw [if_pos hcontrol]
    exact ⟨rfl, rfl⟩
  · rw [if_neg hcontrol]
    cases hopen : openDataIn g a c plugin.heap internals.dataIn with
    | error stop =>
        rw [hopen] at h
        cases h
    | ok opened =>
        have hplain : QfClient.openDataIn g a c (internals.erase plugin.userdata).dataIn = _ :=
          openDataIn_erases hopen
        rw [hplain]
        rw [hopen] at h
        cases opened with
        | none =>
            cases h
            exact ⟨rfl, rfl⟩
        | some collected =>
            obtain ⟨heap, dataIn⟩ := collected
            cases dataIn with
            | none =>
                cases h
                exact ⟨rfl, rfl⟩
            | some s =>
                have herases := storeChunk_erases hcfg hhandles h
                exact herases

/-- A turn on the heap is a turn of the plain thread. -/
theorem threadTurn_erases (hhandles : Handles cfg process)
    (h : threadTurn process false plugin internals = .ok r) :
    ∃ message, internals.queue = message :: r.2.1.queue ∧
      (r.2.1.thread, r.1.userdata) = ((some (QfClient.threadTurn cfg.msgHandler plugin.userdata
        (message.elim .quit fun s => .data s.stream)).1),
        (QfClient.threadTurn cfg.msgHandler plugin.userdata
          (message.elim .quit fun s => .data s.stream)).2) := by
  rw [threadTurn, if_neg Bool.false_ne_true] at h
  split_ifs at h with hthread
  split at h
  · cases h
  · rename_i queue hqueue
    cases h
    exact ⟨none, hqueue, rfl⟩
  · rename_i s queue hqueue
    cases hrecv : cliprdrOrderRecv process plugin s with
    | error stop =>
        rw [hrecv] at h
        cases h
    | ok r' =>
        rw [hrecv] at h
        cases h
        refine ⟨some s, hqueue, ?_⟩
        have hsame := hhandles plugin s r' hrecv
        simp only [Option.elim_some, QfClient.threadTurn, hsame]

/-- The message functions of the clipboard client, whose state is the data of the plugin. -/
def processClipboard (setup : ClipboardSetup) (content : LocalContent) :
    ProcessMessage ClipboardState := fun state header body =>
  (processMessage setup content state header body).map
    fun handled => (handled.rc, handled.packets, handled.state)

theorem userdata_sendAll (plugin : PluginMemory α) (packets : List Bytes) :
    (plugin.sendAll packets).userdata = plugin.userdata := by
  induction packets generalizing plugin with
  | nil => rfl
  | cons packet packets ih => exact ih _

/-- On the heap, `cliprdr_order_recv` handles a message as `receiveMessage` does. -/
theorem orderRecv_receiveMessage {setup : ClipboardSetup} {content : LocalContent}
    {plugin plugin' : PluginMemory ClipboardState} {error : UInt32}
    (h : cliprdrOrderRecv (processClipboard setup content) plugin s = .ok (error, plugin')) :
    ∃ packets, receiveMessage setup content plugin.userdata s.stream.unread =
      some ⟨error, packets, plugin'.userdata⟩ := by
  rw [cliprdrOrderRecv] at h
  split_ifs at h with hlive
  rw [receiveMessage]
  cases hread : readHeader s.stream.unread with
  | none =>
      simp only [hread] at h
      obtain ⟨rfl, rfl⟩ := Prod.mk.inj (Except.ok.inj h)
      exact ⟨[], rfl⟩
  | some message =>
      obtain ⟨header, body⟩ := message
      simp only [hread, processClipboard] at h
      cases hhandled : processMessage setup content plugin.userdata header body with
      | none =>
          rw [hhandled] at h
          cases h
      | some handled =>
          simp only [hhandled, Option.map_some] at h
          split at h
          · cases h
          · cases h
            refine ⟨handled.packets, ?_⟩
            simp only [userdata_sendAll, hhandled]

/-- A message of three bytes ends the thread, the next one is freed with the queue. -/
def shortSession : List ChannelInput :=
  [.connected true,
    .dataReceived .succeeds ⟨[1, 2, 3], 3, channelFlagFirst ||| channelFlagLast⟩, .turn false,
    .dataReceived .succeeds ⟨packet cbMonitorReady 0 [], 8, channelFlagFirst ||| channelFlagLast⟩,
    .send [packet cbFormatList 0 []], .disconnected true, .joined none, .written 2]

theorem streams_owned_once_short :
    ∃ t m, Execution (channelStep .exact false
        (processClipboard (.session 0xFFFFFFFF) ⟨none, fun _ => none⟩)) (.initial .initial) t m ∧
      m.msgsHandle.isNone = true ∧ m.plugin.heap.live = {0} := by
  have hrun : ∃ t m, run (channelStep .exact false
      (processClipboard (.session 0xFFFFFFFF) ⟨none, fun _ => none⟩)) (.initial .initial)
        shortSession = some (m, t) ∧ m.msgsHandle.isNone = true ∧ m.references = 0 ∧
          lostBlocks t = [0] := ⟨_, _, rfl, rfl, rfl, rfl⟩
  obtain ⟨t, m, hrun, hnone, hreferences, hlost⟩ := hrun
  have h := Execution.of_run hrun
  obtain ⟨hlive, -, -⟩ := streams_owned_once _ _ _ _ _ _ h
  refine ⟨t, m, h, hnone, ?_⟩
  rw [hlive, hreferences, hlost]
  rfl

end QfClient.StreamMemory
