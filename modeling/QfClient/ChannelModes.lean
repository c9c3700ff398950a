import QfClient.ChannelReassembly
import QfClient.Machine

/-!
# Threaded and unthreaded delivery

With threads the caller of `channelClientPostMessage` is a producer and
`channelClientThreadProc` the consumer of one queue. The machine below interleaves
them in any order, up to the quit message. Whatever the order, the thread has run
its loop on a prefix of the messages that the same chunks hand over without
threads, so the two lists differ only after the first failure of the handler.
-/

namespace QfClient

open WinPR

variable {α : Type}

def QueueMessage.stream? : QueueMessage → Option WStream
  | .data s => some s
  | .quit => none

def dataMessages (messages : List QueueMessage) : List WStream :=
  messages.filterMap QueueMessage.stream?

def threadTurn (msgHandler : α → WStream → UInt32 × α) (userdata : α) :
    QueueMessage → ThreadStatus × α
  | .quit => (.exited channelRcOk, userdata)
  | .data s =>
      let r := msgHandler userdata s
      (if r.1 ≠ 0 then .exited r.1 else .waiting, r.2)

def threadLoop (msgHandler : α → WStream → UInt32 × α) (userdata : α)
    (messages : List QueueMessage) : Option (ThreadStatus × α × List QueueMessage) :=
  channelClientThreadProc (fun u s => some (msgHandler u s)) userdata messages

variable {msgHandler : α → WStream → UInt32 × α} {u u' : α}

theorem dataMessages_append (ms ms' : List QueueMessage) :
    dataMessages (ms ++ ms') = dataMessages ms ++ dataMessages ms' := List.filterMap_append

@[simp] theorem dataMessages_map_data (ss : List WStream) :
    dataMessages (ss.map .data) = ss := by
  induction ss with
  | nil => rfl
  | cons s ss ih => exact congrArg (s :: ·) ih

theorem threadLoop_data (s : WStream) (ms : List QueueMessage) :
    threadLoop msgHandler u (.data s :: ms) =
      if (msgHandler u s).1 ≠ 0 then some (.exited (msgHandler u s).1, (msgHandler u s).2, ms)
      else threadLoop msgHandler (msgHandler u s).2 ms := rfl

/-- The loop is its turns, one message after the other. -/
theorem threadLoop_cons (m : QueueMessage) (ms : List QueueMessage) :
    threadLoop msgHandler u (m :: ms) =
      match threadTurn msgHandler u m with
      | (.waiting, u') => threadLoop msgHandler u' ms
      | (.exited e, u') => some (.exited e, u', ms) := by
  cases m with
  | quit => rfl
  | data s =>
      rw [threadLoop_data]
      by_cases he : (msgHandler u s).1 ≠ 0
      · simp only [threadTurn, if_pos he]
      · simp only [threadTurn, if_neg he]

/-- Messages after others reach the loop if it still waits then. -/
theorem threadLoop_append (ms ms' : List QueueMessage) :
    threadLoop msgHandler u (ms ++ ms') =
      match threadLoop msgHandler u ms with
      | none => none
      | some (.waiting, u', _) => threadLoop msgHandler u' ms'
      | some (.exited e, u', rest) => some (.exited e, u', rest ++ ms') := by
  induction ms generalizing u with
  | nil => rfl
  | cons m ms ih =>
      rw [List.cons_append, threadLoop_cons, threadLoop_cons]
      cases hm : threadTurn msgHandler u m with
      | mk status u₁ =>
          cases status with
          | waiting => exact ih
          | exited e => rfl

theorem threadLoop_append_of_waiting {ms : List QueueMessage} (ms' : List QueueMessage)
    (h : threadLoop msgHandler u ms = some (.waiting, u', [])) :
    threadLoop msgHandler u (ms ++ ms') = threadLoop msgHandler u' ms' := by
  rw [threadLoop_append, h]

theorem threadLoop_append_of_exited {ms rest : List QueueMessage} {e : UInt32}
    (ms' : List QueueMessage) (h : threadLoop msgHandler u ms = some (.exited e, u', rest)) :
    threadLoop msgHandler u (ms ++ ms') = some (.exited e, u', rest ++ ms') := by
  rw [threadLoop_append, h]

/-- A turn after the messages already taken. -/
theorem threadLoop_snoc {ms : List QueueMessage} (m : QueueMessage)
    (h : threadLoop msgHandler u ms = some (.waiting, u', [])) :
    threadLoop msgHandler u (ms ++ [m]) =
      some ((threadTurn msgHandler u' m).1, (threadTurn msgHandler u' m).2, []) := by
  rw [threadLoop_append_of_waiting [m] h, threadLoop_cons]
  cases hm : threadTurn msgHandler u' m with
  | mk status u₁ =>
      cases status with
      | waiting => rfl
      | exited e => rfl

def handled (msgHandler : α → WStream → UInt32 × α) (userdata : α) :
    Option WStream → UInt32 × α
  | none => (0, userdata)
  | some s => msgHandler userdata s

/-- Both modes collect and complete the same messages. Without threads the
handler runs in the call; with threads the message is queued. -/
structure SameCall (msgHandler : α → WStream → UInt32 × α) (p q : MsgProcInternals α)
    (direct queued : MsgProcInternals α × PostResult) : Prop where
  dataIn : direct.1.dataIn = queued.1.dataIn
  handed : direct.2.handed = queued.2.handed
  error : direct.2.handlerError = (handled msgHandler p.userdata direct.2.handed).1
  userdata : direct.1.userdata = (handled msgHandler p.userdata direct.2.handed).2
  queue : queued.1.queue = q.queue ++ queued.2.handed.toList
  untouched : queued.1.userdata = q.userdata

variable {g : Growth} {p q : MsgProcInternals α} {a : Alloc} {c : Chunk}

theorem handOver_modes (s : WStream) (hd : p.dataIn = q.dataIn) (ha : a.messagePost = true) :
    SameCall msgHandler p q (handOver ⟨true, msgHandler⟩ p a s)
      (handOver ⟨false, msgHandler⟩ q a s) := by
  have hq : handOver ⟨false, msgHandler⟩ q a s =
      ({ q with queue := q.queue ++ [s] }, ⟨channelRcOk, some s, 0⟩) := by
    simp [handOver, ha]
  rw [hq]
  by_cases he : (msgHandler p.userdata s).1 = 0
  · have hp : handOver ⟨true, msgHandler⟩ p a s =
        ({ p with userdata := (msgHandler p.userdata s).2 }, ⟨channelRcOk, some s, 0⟩) := by
      simp [handOver, he]
    rw [hp]
    exact ⟨hd, rfl, he.symm, rfl, rfl, rfl⟩
  · have hp : handOver ⟨true, msgHandler⟩ p a s =
        ({ p with userdata := (msgHandler p.userdata s).2 },
          ⟨errorInternalError, some s, (msgHandler p.userdata s).1⟩) := by
      simp [handOver, he]
    rw [hp]
    exact ⟨hd, rfl, rfl, rfl, rfl, rfl⟩

/-- Where nothing is handed over, the mode does not matter. -/
theorem sameCall_of_none {d : Option WStream} {rc : UInt32} :
    SameCall msgHandler p q ({ p with dataIn := d }, ⟨rc, none, 0⟩)
      ({ q with dataIn := d }, ⟨rc, none, 0⟩) :=
  ⟨rfl, rfl, rfl, rfl, (List.append_nil _).symm, rfl⟩

theorem finishChunk_modes (s : WStream) (ha : a.messagePost = true) :
    SameCall msgHandler p q (finishChunk ⟨true, msgHandler⟩ p a c s)
      (finishChunk ⟨false, msgHandler⟩ q a c s) := by
  simp only [finishChunk]
  split_ifs
  · exact sameCall_of_none
  · obtain ⟨h₁, h₂, h₃, h₄, h₅, h₆⟩ : SameCall msgHandler { p with dataIn := none }
        { q with dataIn := none } _ _ := handOver_modes s.sealLength.resetPosition rfl ha
    exact ⟨h₁, h₂, h₃, h₄, h₅, h₆⟩
  · exact sameCall_of_none

theorem post_modes (hd : p.dataIn = q.dataIn) (ha : a.messagePost = true) :
    SameCall msgHandler p q (channelClientPostMessage g ⟨true, msgHandler⟩ p a c)
      (channelClientPostMessage g ⟨false, msgHandler⟩ q a c) := by
  have hsame : ∀ rc, SameCall msgHandler p q (p, ⟨rc, none, 0⟩) (q, ⟨rc, none, 0⟩) :=
    fun rc => ⟨hd, rfl, rfl, rfl, (List.append_nil _).symm, rfl⟩
  cases hc : c.isControl with
  | true =>
      rw [post_control hc, post_control hc]
      exact hsame channelRcOk
  | false =>
      simp only [channelClientPostMessage, hc, Bool.false_eq_true, if_false, ← hd]
      cases openDataIn g a c p.dataIn with
      | none => exact hsame channelRcNoMemory
      | some d =>
          cases d with
          | none => exact sameCall_of_none
          | some s =>
              simp only [storeChunk]
              cases s.ensureRemainingCapacity g a.ensureRemaining c.data.length with
              | none => exact sameCall_of_none
              | some s₁ => exact finishChunk_modes _ ha

inductive QuitStatus where
  | running
  | posted
  | taken
  deriving DecidableEq

/-- A handler with threads: its internals, the quit message of
`channel_client_quit_handler` behind all others, and the thread. -/
structure ThreadedChannel (α : Type) where
  internals : MsgProcInternals α
  quit : QuitStatus
  thread : ThreadStatus

def ThreadedChannel.start (userdata : α) : ThreadedChannel α :=
  ⟨⟨[], none, userdata⟩, .running, .waiting⟩

def ThreadedChannel.messages (s : ThreadedChannel α) : List QueueMessage :=
  s.internals.queue.map .data ++ if s.quit = .posted then [.quit] else []

inductive ChannelInput where
  | post (c : Chunk)
  | quit
  | take
  deriving DecidableEq

/-- One step, with the message it passes to the handler. After the quit message
the handle is freed, so nothing is posted behind it. -/
def threadedStep (g : Growth) (msgHandler : α → WStream → UInt32 × α) :
    Machine.Step (ThreadedChannel α) ChannelInput (Option WStream)
  | s, .post c =>
      if s.quit = .running then
        some ({ s with internals :=
          (channelClientPostMessage g ⟨false, msgHandler⟩ s.internals .succeeds c).1 }, none)
      else none
  | s, .quit => if s.quit = .running then some ({ s with quit := .posted }, none) else none
  | s, .take =>
      if s.thread = .waiting then
        match s.internals.queue with
        | m :: queue =>
            let r := threadTurn msgHandler s.internals.userdata (.data m)
            some ({ s with
              internals := { s.internals with queue := queue, userdata := r.2 }
              thread := r.1 }, some m)
        | [] =>
            if s.quit = .posted then
              let r := threadTurn msgHandler s.internals.userdata .quit
              some ({ s with
                internals := { s.internals with userdata := r.2 }
                quit := .taken
                thread := r.1 }, none)
            else none
      else none

def ChannelInput.chunk? : ChannelInput → Option Chunk
  | .post c => some c
  | _ => none

abbrev ChannelTrace := Machine.Trace ChannelInput (Option WStream)

def postedChunks (t : ChannelTrace) : List Chunk := t.filterMap (fun e => e.1.chunk?)

def handledMessages (t : ChannelTrace) : List WStream := t.filterMap Prod.snd

def unthreadedRun (g : Growth) (msgHandler : α → WStream → UInt32 × α) (userdata : α)
    (cs : List Chunk) : MsgProcInternals α × List PostResult :=
  postAll g ⟨true, msgHandler⟩ ⟨[], none, userdata⟩ (calls cs)

def untilFirstError : List PostResult → List WStream
  | [] => []
  | r :: rs => r.handed.toList ++ if r.handlerError ≠ 0 then [] else untilFirstError rs

/-- Nothing is left to do for the thread: the queue is drained, or it has left its loop. -/
def ThreadedChannel.Done (s : ThreadedChannel α) : Prop :=
  s.internals.queue = [] ∨ s.thread ≠ .waiting

/-- After any interleaving: the thread has run its loop on the messages `taken`,
and these with the messages in the queue are those handed over without threads. -/
structure TakenFrom (g : Growth) (msgHandler : α → WStream → UInt32 × α) (userdata : α)
    (t : ChannelTrace) (s : ThreadedChannel α) (taken : List QueueMessage) : Prop where
  dataIn : (unthreadedRun g msgHandler userdata (postedChunks t)).1.dataIn = s.internals.dataIn
  loop : threadLoop msgHandler userdata taken = some (s.thread, s.internals.userdata, [])
  handled : handledMessages t = dataMessages taken
  handed : taken ++ s.messages =
    (handedOver (unthreadedRun g msgHandler userdata (postedChunks t)).2).map .data ++
      if s.quit = .running then [] else [.quit]

theorem unthreadedRun_snoc (userdata : α) (cs : List Chunk) (c : Chunk) :
    let r := unthreadedRun g msgHandler userdata cs
    let r' := channelClientPostMessage g ⟨true, msgHandler⟩ r.1 .succeeds c
    unthreadedRun g msgHandler userdata (cs ++ [c]) = (r'.1, r.2 ++ [r'.2]) := by
  simp only [unthreadedRun, calls, List.map_append, postAll_append]
  rfl

theorem postedChunks_snoc (t : ChannelTrace) (i : ChannelInput) (o : Option WStream) :
    postedChunks (t ++ [(i, o)]) = postedChunks t ++ i.chunk?.toList :=
  Machine.filterMap_snoc _ t (i, o)

theorem handledMessages_snoc (t : ChannelTrace) (i : ChannelInput) (o : Option WStream) :
    handledMessages (t ++ [(i, o)]) = handledMessages t ++ o.toList :=
  Machine.filterMap_snoc _ t (i, o)

theorem messages_of_running {s : ThreadedChannel α} (hq : s.quit = .running) :
    s.messages = s.internals.queue.map .data := by
  rw [ThreadedChannel.messages, hq, if_neg (by simp), List.append_nil]

/-- What was handed over before the quit message. -/
theorem TakenFrom.handed_of_running {userdata : α} {t : ChannelTrace} {s : ThreadedChannel α}
    {taken : List QueueMessage} (h : TakenFrom g msgHandler userdata t s taken)
    (hq : s.quit = .running) :
    taken ++ s.internals.queue.map .data =
      (handedOver (unthreadedRun g msgHandler userdata (postedChunks t)).2).map .data := by
  have hall := h.handed
  rw [messages_of_running hq, if_pos hq, List.append_nil] at hall
  exact hall

theorem takenFrom_post {userdata : α} {t : ChannelTrace} {s : ThreadedChannel α}
    {taken : List QueueMessage} (h : TakenFrom g msgHandler userdata t s taken)
    (hq : s.quit = .running) (c : Chunk) :
    TakenFrom g msgHandler userdata (t ++ [(.post c, none)]) { s with internals :=
      (channelClientPostMessage g ⟨false, msgHandler⟩ s.internals .succeeds c).1 } taken := by
  have hsame : SameCall msgHandler _ _
      (channelClientPostMessage g ⟨true, msgHandler⟩
        (unthreadedRun g msgHandler userdata (postedChunks t)).1 .succeeds c)
      (channelClientPostMessage g ⟨false, msgHandler⟩ s.internals .succeeds c) :=
    post_modes h.dataIn rfl
  have hposted : postedChunks (t ++ [(.post c, none)]) = postedChunks t ++ [c] :=
    postedChunks_snoc t (.post c) none
  constructor
  · rw [hposted, unthreadedRun_snoc]
    exact hsame.dataIn
  · rw [hsame.untouched]
    exact h.loop
  · rw [handledMessages_snoc, h.handled, Option.toList_none, List.append_nil]
  · have hmessages : ThreadedChannel.messages { s with internals :=
        (channelClientPostMessage g ⟨false, msgHandler⟩ s.internals .succeeds c).1 } = _ :=
      messages_of_running hq
    rw [hposted, unthreadedRun_snoc, hmessages, if_pos hq, List.append_nil, hsame.queue]
    simp only
    rw [handedOver_append, handedOver_cons, handedOver_nil, List.append_nil, hsame.handed,
      List.map_append, List.map_append, ← List.append_assoc, h.handed_of_running hq]

theorem takenFrom_quit {userdata : α} {t : ChannelTrace} {s : ThreadedChannel α}
    {taken : List QueueMessage} (h : TakenFrom g msgHandler userdata t s taken)
    (hq : s.quit = .running) :
    TakenFrom g msgHandler userdata (t ++ [(.quit, none)]) { s with quit := .posted } taken := by
  have hposted : postedChunks (t ++ [(.quit, none)]) = postedChunks t := by
    rw [postedChunks_snoc]
    exact List.append_nil _
  constructor
  · rw [hposted]
    exact h.dataIn
  · exact h.loop
  · rw [handledMessages_snoc, h.handled, Option.toList_none, List.append_nil]
  · rw [hposted, ← h.handed_of_running hq]
    simp [ThreadedChannel.messages]

/-- The thread takes the oldest message, data or quit. -/
theorem takenFrom_take {userdata : α} {t : ChannelTrace} {s s' : ThreadedChannel α}
    {taken : List QueueMessage} {m : QueueMessage}
    (h : TakenFrom g msgHandler userdata t s taken) (hw : s.thread = .waiting)
    (hmessages : s.messages = m :: s'.messages)
    (hquit : s'.quit = .running ↔ s.quit = .running)
    (hdata : s'.internals.dataIn = s.internals.dataIn)
    (hturn : (s'.thread, s'.internals.userdata) =
      threadTurn msgHandler s.internals.userdata m) :
    TakenFrom g msgHandler userdata (t ++ [(.take, m.stream?)]) s' (taken ++ [m]) := by
  have hposted : postedChunks (t ++ [(.take, m.stream?)]) = postedChunks t := by
    rw [postedChunks_snoc]
    exact List.append_nil _
  constructor
  · rw [hposted, hdata]
    exact h.dataIn
  · have hloop := h.loop
    rw [hw] at hloop
    rw [threadLoop_snoc m hloop, ← hturn]
  · rw [handledMessages_snoc, h.handled, dataMessages_append]
    exact congrArg _ (Machine.filterMap_singleton _ m).symm
  · rw [hposted, List.append_assoc, List.singleton_append, ← hmessages, h.handed]
    simp only [hquit]

theorem takenFrom_step {userdata : α} {t : ChannelTrace} {s s' : ThreadedChannel α}
    {i : ChannelInput} {o : Option WStream} {taken : List QueueMessage}
    (h : TakenFrom g msgHandler userdata t s taken)
    (hs : threadedStep g msgHandler s i = some (s', o)) :
    ∃ taken', TakenFrom g msgHandler userdata (t ++ [(i, o)]) s' taken' := by
  cases i with
  | post c =>
      simp only [threadedStep] at hs
      split_ifs at hs with hq
      obtain ⟨rfl, rfl⟩ := Prod.mk.inj (Option.some.inj hs)
      exact ⟨taken, takenFrom_post h hq c⟩
  | quit =>
      simp only [threadedStep] at hs
      split_ifs at hs with hq
      obtain ⟨rfl, rfl⟩ := Prod.mk.inj (Option.some.inj hs)
      exact ⟨taken, takenFrom_quit h hq⟩
  | take =>
      simp only [threadedStep] at hs
      by_cases hw : s.thread = .waiting
      · rw [if_pos hw] at hs
        cases hqueue : s.internals.queue with
        | cons m queue =>
            simp only [hqueue] at hs
            obtain ⟨rfl, rfl⟩ := Prod.mk.inj (Option.some.inj hs)
            refine ⟨_, takenFrom_take (m := .data m) h hw ?_ Iff.rfl rfl rfl⟩
            simp [ThreadedChannel.messages, hqueue]
        | nil =>
            simp only [hqueue] at hs
            split_ifs at hs with hq
            obtain ⟨rfl, rfl⟩ := Prod.mk.inj (Option.some.inj hs)
            refine ⟨_, takenFrom_take (m := .quit) h hw ?_ ?_ rfl rfl⟩
            · simp [ThreadedChannel.messages, hqueue, hq]
            · simp [hq]
      · rw [if_neg hw] at hs
        cases hs

theorem takenFrom_of_execution {userdata : α} {t : ChannelTrace} {s : ThreadedChannel α}
    (h : Machine.Execution (threadedStep g msgHandler) (.start userdata) t s) :
    ∃ taken, TakenFrom g msgHandler userdata t s taken := by
  induction h with
  | nil => exact ⟨[], rfl, rfl, rfl, rfl⟩
  | snoc _ hs ih =>
      obtain ⟨taken, htaken⟩ := ih
      exact takenFrom_step htaken hs

/-- Once the thread is done, the loop over everything leaves the messages that
are still in the queue. -/
theorem TakenFrom.loop_all {userdata : α} {t : ChannelTrace} {s : ThreadedChannel α}
    {taken : List QueueMessage} (h : TakenFrom g msgHandler userdata t s taken)
    (hdone : s.Done) :
    ∃ status u' rest, threadLoop msgHandler userdata (taken ++ s.messages) =
        some (status, u', rest) ∧ dataMessages rest = dataMessages s.messages := by
  have hloop := h.loop
  cases hthread : s.thread with
  | exited e =>
      rw [hthread] at hloop
      exact ⟨_, _, _, threadLoop_append_of_exited _ hloop, rfl⟩
  | waiting =>
      rw [hthread] at hloop
      have hqueue : s.internals.queue = [] := hdone.resolve_right (not_not_intro hthread)
      rw [threadLoop_append_of_waiting _ hloop, ThreadedChannel.messages, hqueue]
      split_ifs
      · exact ⟨_, _, _, rfl, rfl⟩
      · exact ⟨_, _, _, rfl, rfl⟩

/-- The loop over what the calls hand over stops where a call failed: what it
leaves in the queue is what follows the first failure. -/
theorem untilFirstError_of_threadLoop (cs : List Chunk) {tail rest : List QueueMessage}
    {status : ThreadStatus} (htail : dataMessages tail = [])
    (h : threadLoop msgHandler p.userdata
      ((handedOver (postAll g ⟨true, msgHandler⟩ p (calls cs)).2).map .data ++ tail) =
        some (status, u', rest)) :
    handedOver (postAll g ⟨true, msgHandler⟩ p (calls cs)).2 =
      untilFirstError (postAll g ⟨true, msgHandler⟩ p (calls cs)).2 ++ dataMessages rest := by
  induction cs generalizing p with
  | nil =>
      have hsuffix : ∀ {ms : List QueueMessage}, dataMessages ms = [] →
          ∀ {v}, threadLoop msgHandler v ms = some (status, u', rest) →
            dataMessages rest = [] := by
        intro ms hms v hv
        cases ms with
        | nil =>
            simp only [threadLoop, channelClientThreadProc, Option.some.injEq,
              Prod.mk.injEq] at hv
            rw [← hv.2.2]
            rfl
        | cons m ms =>
            cases m with
            | data s => simp [dataMessages, QueueMessage.stream?] at hms
            | quit =>
                simp only [threadLoop, channelClientThreadProc, Option.some.injEq,
                  Prod.mk.injEq] at hv
                rw [← hv.2.2]
                exact hms
      simp only [calls, List.map_nil, postAll, handedOver_nil, List.nil_append] at h ⊢
      rw [hsuffix htail h]
      rfl
  | cons c cs ih =>
      obtain ⟨-, -, herr, hud, -, -⟩ : SameCall msgHandler p p
          (channelClientPostMessage g ⟨true, msgHandler⟩ p .succeeds c)
          (channelClientPostMessage g ⟨false, msgHandler⟩ p .succeeds c) := post_modes rfl rfl
      simp only [calls, List.map_cons, postAll] at h ⊢
      simp only [calls] at ih
      generalize channelClientPostMessage g ⟨true, msgHandler⟩ p Alloc.succeeds c = r at *
      rw [handedOver_cons] at h ⊢
      rw [untilFirstError]
      cases hhand : r.2.handed with
      | none =>
          rw [hhand] at herr hud h
          have hz : ¬ r.2.handlerError ≠ 0 := not_not_intro herr
          rw [if_neg hz, Option.toList_none, List.nil_append, List.nil_append]
          apply ih
          rw [hud]
          exact h
      | some s =>
          rw [hhand] at herr hud h
          simp only [handled] at herr hud
          rw [Option.toList_some, List.singleton_append, List.map_cons, List.cons_append,
            threadLoop_data, ← herr, ← hud] at h
          by_cases hz : r.2.handlerError ≠ 0
          · rw [if_pos hz] at h ⊢
            simp only [Option.some.injEq, Prod.mk.injEq] at h
            rw [← h.2.2, dataMessages_append, dataMessages_map_data, htail]
            simp
          · rw [if_neg hz] at h ⊢
            rw [Option.toList_some, List.singleton_append, List.singleton_append,
              List.cons_append, ih h]

theorem untilFirstError_of_no_error {rs : List PostResult}
    (h : ∀ r ∈ rs, r.handlerError = 0) : untilFirstError rs = handedOver rs := by
  induction rs with
  | nil => rfl
  | cons r rs ih =>
      have hz : ¬ r.handlerError ≠ 0 := not_not_intro (h r (List.mem_cons_self ..))
      rw [untilFirstError, if_neg hz, handedOver_cons,
        ih fun r' hr' => h r' (List.mem_cons_of_mem _ hr')]

/-- Whatever the interleaving, once the queue is drained or the thread has left
its loop, the handler has been given the messages of the unthreaded mode up to
the first on which it failed; without a failure, exactly those. -/
theorem threaded_handles_unthreaded {α : Type} (g : Growth)
    (msgHandler : α → WStream → UInt32 × α) (userdata : α) {t : ChannelTrace}
    {s : ThreadedChannel α}
    (h : Machine.Execution (threadedStep g msgHandler) (.start userdata) t s) (hdone : s.Done) :
    handledMessages t =
        untilFirstError (unthreadedRun g msgHandler userdata (postedChunks t)).2 ∧
      ((∀ r ∈ (unthreadedRun g msgHandler userdata (postedChunks t)).2, r.handlerError = 0) →
        handledMessages t =
          handedOver (unthreadedRun g msgHandler userdata (postedChunks t)).2) := by
  obtain ⟨taken, htaken⟩ := takenFrom_of_execution h
  obtain ⟨status, u', rest, hloop, hrest⟩ := htaken.loop_all hdone
  have hhanded := congrArg dataMessages htaken.handed
  have htail : dataMessages (if s.quit = .running then [] else [QueueMessage.quit]) = [] := by
    split_ifs <;> rfl
  rw [htaken.handed] at hloop
  have hcut := untilFirstError_of_threadLoop (p := ⟨[], none, userdata⟩) _ htail hloop
  rw [dataMessages_append, dataMessages_append, dataMessages_map_data, htail,
    List.append_nil] at hhanded
  have heq : handledMessages t =
      untilFirstError (unthreadedRun g msgHandler userdata (postedChunks t)).2 := by
    rw [htaken.handled]
    apply List.append_cancel_right
    rw [hhanded, ← hrest]
    exact hcut
  exact ⟨heq, fun hok => heq.trans (untilFirstError_of_no_error hok)⟩

/-- The second of three messages fails while the third is already queued. -/
theorem threaded_handles_unthreaded_example :
    let msgHandler : ℕ → WStream → UInt32 × ℕ := fun n _ => (if n = 1 then 5 else 0, n + 1)
    ∃ (t : ChannelTrace) (s : ThreadedChannel ℕ),
      Machine.Execution (threadedStep Growth.exact msgHandler) (.start 0) t s ∧ s.Done ∧
        (handledMessages t).map WStream.unread = [[1], [2]] ∧
        handledMessages t =
          untilFirstError (unthreadedRun Growth.exact msgHandler 0 (postedChunks t)).2 ∧
        (handedOver (unthreadedRun Growth.exact msgHandler 0 (postedChunks t)).2).length = 3 := by
  intro msgHandler
  let inputs : List ChannelInput := [.post ⟨[1], 1, 3⟩, .post ⟨[2], 1, 3⟩, .take,
    .post ⟨[3], 1, 3⟩, .take]
  have hrun : ∃ s t, Machine.run (threadedStep Growth.exact msgHandler) (.start 0) inputs =
      some (s, t) ∧ s.thread = .exited 5 ∧ (handledMessages t).map WStream.unread = [[1], [2]] ∧
      (handedOver (unthreadedRun Growth.exact msgHandler 0 (postedChunks t)).2).length = 3 :=
    ⟨_, _, rfl, rfl, rfl, rfl⟩
  obtain ⟨s, t, hrun, hexit, hunread, hlen⟩ := hrun
  have hdone : s.Done := Or.inr (by rw [hexit]; exact fun h => ThreadStatus.noConfusion h)
  have hexec := Machine.Execution.of_run hrun
  exact ⟨t, s, hexec, hdone, hunread,
    (threaded_handles_unthreaded Growth.exact msgHandler 0 hexec hdone).1, hlen⟩

/-- Every interleaving can be finished: the thread alone reaches the end of the queue. -/
theorem threaded_drains (g : Growth) (msgHandler : α → WStream → UInt32 × α)
    (s : ThreadedChannel α) :
    ∃ t s', Machine.Execution (threadedStep g msgHandler) s t s' ∧ s'.Done ∧
      postedChunks t = [] := by
  generalize hn : s.internals.queue.length = n
  induction n generalizing s with
  | zero => exact ⟨[], s, .nil, Or.inl (List.length_eq_zero_iff.mp hn), rfl⟩
  | succ n ih =>
      by_cases hw : s.thread = .waiting
      · cases hqueue : s.internals.queue with
        | nil => exact ⟨[], s, .nil, Or.inl hqueue, rfl⟩
        | cons m queue =>
            let r := threadTurn msgHandler s.internals.userdata (.data m)
            let s₁ : ThreadedChannel α := { s with
              internals := { s.internals with queue := queue, userdata := r.2 }
              thread := r.1 }
            have hs : threadedStep g msgHandler s .take = some (s₁, some m) := by
              simp only [threadedStep, if_pos hw, hqueue]
              rfl
            have hlen : queue.length = n := by
              rw [hqueue, List.length_cons] at hn
              omega
            obtain ⟨t, s', hexec, hdone, hposted⟩ := ih s₁ hlen
            exact ⟨_, s', .cons hs hexec, hdone, hposted⟩
      · exact ⟨[], s, .nil, Or.inr hw, rfl⟩

end QfClient
