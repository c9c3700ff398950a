import QfClient.ChannelReassembly

/-!
# Messages that follow broken fragments

A first chunk that finds a stream left behind by a broken message reuses it
without moving its position back. The next message is therefore delivered
exactly when that stream holds no bytes and ends up with the announced
capacity, and a message that is handed over starts with the bytes that were
buffered when its first chunk arrived.
-/

namespace QfClient

open WinPR

variable {α : Type} {g : Growth} {cfg : ChannelConfig α} {p : MsgProcInternals α} {a : Alloc}
  {c : Chunk}

/-- What a first chunk that announces `total` bytes finds: no stream, or one that
holds no bytes and has room for exactly `total` once its capacity is ensured. -/
def ReadyFor (g : Growth) (p : MsgProcInternals α) (total : ℕ) : Prop :=
  p.dataIn = none ∨ ∃ s s', p.dataIn = some s ∧ s.position = 0 ∧
    s.ensureCapacity g true total = some s' ∧ s'.capacity = total

def DeliversOnce (m : Bytes) (rs : List PostResult) : Prop :=
  ∃ s, handedOver rs = [s] ∧ s.unread = m

theorem deliversOnce_iff_readyFor {m : Bytes} {cs : List Chunk} (h : IsFragmentation m cs)
    (hm : m ≠ []) :
    DeliversOnce m (postAll g cfg p (calls cs)).2 ↔ ReadyFor g p m.length := by
  cases hp : p.dataIn with
  | none =>
      obtain ⟨-, ⟨s, hhand, hsealed⟩, -⟩ := post_fragmentation (g := g) cfg h hm hp
      exact iff_of_true ⟨s, hhand, hsealed.2.2⟩ (Or.inl hp)
  | some s =>
      obtain ⟨s₁, hs₁⟩ := WStream.ensureCapacity_isSome (s := s) g m.length
      obtain ⟨hpos, hwr, hle, -⟩ := WStream.ensureCapacity_eq_some g hs₁
      have hopen : ∀ c ∈ cs.head?, openDataIn g Alloc.succeeds c p.dataIn = some (some s₁) := by
        intro c hc
        obtain ⟨hfirst, htotal⟩ := h.head hc
        simp only [openDataIn, if_pos hfirst, hp, htotal]
        exact congrArg (Option.map some) hs₁
      obtain ⟨s', hw, -, hfit, hfull, hne⟩ := h.store cfg s₁ hopen
      have hpos' : s'.position = s.position + m.length := by
        rw [← WStream.length_written, hw, List.length_append, WStream.length_written, hpos]
      constructor
      · rintro ⟨s₂, hhand, hunread⟩
        have hcap : s'.capacity = s'.position := by
          by_contra hcap
          rw [hne hcap] at hhand
          cases hhand
        rw [(hfull hcap).2.1, List.singleton_inj] at hhand
        rw [← hhand, WStream.unread_seal, hw, List.append_left_eq_self] at hunread
        have hzero : s.position = 0 := by
          rw [← hpos, ← WStream.length_written, hunread]
          rfl
        exact Or.inr ⟨s, s₁, hp, hzero, hs₁, by rw [← hfit (by omega)]; omega⟩
      · rintro (hnone | ⟨s₂, s₃, hs₂, hzero, hs₃, hcap⟩)
        · rw [hp] at hnone
          cases hnone
        · obtain rfl : s = s₂ := Option.some.inj (hp.symm.trans hs₂)
          obtain rfl : s₁ = s₃ := Option.some.inj (hs₁.symm.trans hs₃)
          have hs' : s'.capacity = s'.position := by rw [hfit (by omega)]; omega
          refine ⟨_, (hfull hs').2.1, ?_⟩
          have hnil : s₁.written = [] := by
            rw [← List.length_eq_zero_iff, WStream.length_written]
            omega
          rw [WStream.unread_seal, hw, hnil, List.nil_append]

/-- The bytes a call put into the buffer: those of a data chunk that did not run
out of memory. -/
def storedData (c : Chunk) (r : PostResult) : Bytes :=
  if c.isControl ∨ r.rc = channelRcNoMemory then [] else c.data

def storedBytes (is : List (Alloc × Chunk)) (rs : List PostResult) : Bytes :=
  (is.zip rs).flatMap (fun x => storedData x.1.2 x.2)

def lastHanded (rs : List PostResult) : Option WStream := rs.getLast?.bind PostResult.handed

theorem storeChunk_tracks {s : WStream} {b : Bytes} (hc : c.isControl = false)
    (hs : s.written = b) :
    (∀ s', (storeChunk g cfg p a c s).1.dataIn = some s' →
        s'.written = b ++ storedData c (storeChunk g cfg p a c s).2) ∧
      ∀ s', (storeChunk g cfg p a c s).2.handed = some s' →
        s'.unread = b ++ storedData c (storeChunk g cfg p a c s).2 := by
  have hrc : errorInternalError ≠ channelRcNoMemory ∧ channelRcOk ≠ channelRcNoMemory := by decide
  cases he : s.ensureRemainingCapacity g a.ensureRemaining c.data.length with
  | none => simp [storeChunk, he]
  | some s₁ =>
      obtain ⟨s₂, hstore, hw, -, -⟩ := storeChunk_appends cfg (p := p) he
      obtain ⟨hdata, hrc', hhand⟩ := handOver_spec cfg (p := { p with dataIn := none })
        (a := a) s₂.sealLength.resetPosition
      rw [hs] at hw
      rw [hstore, finishChunk]
      split_ifs with hl hcap
      · refine ⟨?_, fun s' h => absurd h (by simp)⟩
        rintro s' h
        obtain rfl := Option.some.inj h
        rw [hw, storedData, if_neg (by simp [hc, hrc.1])]
      · refine ⟨fun s' h => absurd (hdata.symm.trans h) (by simp), ?_⟩
        intro s' h
        rw [hhand s' h, WStream.unread_seal, hw, storedData, if_neg (by simp [hc, hrc'])]
      · refine ⟨?_, fun s' h => absurd h (by simp)⟩
        rintro s' h
        obtain rfl := Option.some.inj h
        rw [hw, storedData, if_neg (by simp [hc, hrc.2])]

/-- One call: with `b` in the buffer before it, and in the stream it opens. -/
theorem post_tracks (cfg : ChannelConfig α) {b : Bytes}
    (hp : ∀ s, p.dataIn = some s → s.written = b)
    (ho : c.isControl = false →
      ∀ s, openDataIn g a c p.dataIn = some (some s) → s.written = b) :
    (∀ s, (channelClientPostMessage g cfg p a c).1.dataIn = some s →
        s.written = b ++ storedData c (channelClientPostMessage g cfg p a c).2) ∧
      ∀ s, (channelClientPostMessage g cfg p a c).2.handed = some s →
        s.unread = b ++ storedData c (channelClientPostMessage g cfg p a c).2 := by
  cases hc : c.isControl with
  | true =>
      rw [post_control hc, storedData, if_pos (Or.inl hc), List.append_nil]
      exact ⟨hp, by simp⟩
  | false =>
      cases hopen : openDataIn g a c p.dataIn with
      | none =>
          have hpost : channelClientPostMessage g cfg p a c =
              (p, ⟨channelRcNoMemory, none, 0⟩) := by
            simp [channelClientPostMessage, hc, hopen]
          rw [hpost, storedData, if_pos (Or.inr rfl), List.append_nil]
          exact ⟨hp, by simp⟩
      | some d =>
          cases d with
          | none =>
              have hpost : channelClientPostMessage g cfg p a c =
                  ({ p with dataIn := none }, ⟨channelRcNoMemory, none, 0⟩) := by
                simp [channelClientPostMessage, hc, hopen]
              rw [hpost]
              exact ⟨by simp, by simp⟩
          | some s =>
              rw [post_of_open cfg hc hopen]
              exact storeChunk_tracks hc (ho hc s hopen)

/-- Calls without a further first chunk only append to the buffer. -/
theorem postAll_tracks (cfg : ChannelConfig α) (is : List (Alloc × Chunk)) {b : Bytes}
    (hrest : ∀ i ∈ is, i.2.startsMessage = false)
    (hp : ∀ s, p.dataIn = some s → s.written = b) :
    ∀ s, lastHanded (postAll g cfg p is).2 = some s →
      s.unread = b ++ storedBytes is (postAll g cfg p is).2 := by
  induction is generalizing p b with
  | nil => simp [postAll, lastHanded]
  | cons i is ih =>
      obtain ⟨a, c⟩ := i
      have ho : c.isControl = false →
          ∀ s, openDataIn g a c p.dataIn = some (some s) → s.written = b := by
        intro hc s hs
        have hfirst : c.isFirst = false := by
          simpa [Chunk.startsMessage, hc] using hrest (a, c) (List.mem_cons_self ..)
        rw [openDataIn_rest hfirst] at hs
        exact hp s (Option.some.inj hs)
      obtain ⟨hdata, hhand⟩ := post_tracks cfg hp ho
      intro s hs
      cases is with
      | nil =>
          simpa [postAll, storedBytes] using hhand s hs
      | cons j is =>
          have hnext := ih (fun i hi => hrest i (List.mem_cons_of_mem _ hi)) hdata s
            (by simpa [postAll, lastHanded] using hs)
          rw [hnext, List.append_assoc]
          rfl

/-- A message that is handed over is what was buffered when its first chunk
arrived, followed by the data of its own chunks. -/
theorem handed_eq_buffered_append (is : List (Alloc × Chunk)) (hfirst : c.startsMessage = true)
    (hrest : ∀ i ∈ is, i.2.startsMessage = false) {s : WStream}
    (hs : lastHanded (postAll g cfg p ((a, c) :: is)).2 = some s) :
    s.unread = p.buffered ++ storedBytes ((a, c) :: is) (postAll g cfg p ((a, c) :: is)).2 := by
  have hp : ∀ s, p.dataIn = some s → s.written = p.buffered := by
    intro s hs
    rw [MsgProcInternals.buffered, hs]
  have ho : c.isControl = false →
      ∀ s, openDataIn g a c p.dataIn = some (some s) → s.written = p.buffered := by
    intro hc s hs
    have hfirst : c.isFirst = true := by simpa [Chunk.startsMessage, hc] using hfirst
    cases hd : p.dataIn with
    | none =>
        simp only [openDataIn, if_pos hfirst, hd, Option.some.injEq] at hs
        split_ifs at hs
        rw [(WStream.new_eq_some hs).2.2.1, MsgProcInternals.buffered, hd]
    | some d =>
        simp only [openDataIn, if_pos hfirst, hd] at hs
        obtain ⟨s', hs', hss'⟩ := Option.map_eq_some_iff.mp hs
        obtain rfl := Option.some.inj hss'
        rw [(WStream.ensureCapacity_eq_some g hs').2.1, MsgProcInternals.buffered, hd]
  obtain ⟨hdata, hhand⟩ := post_tracks cfg hp ho
  cases is with
  | nil => simpa [postAll, storedBytes] using hhand s hs
  | cons j is =>
      have hnext := postAll_tracks (g := g) cfg (j :: is) hrest hdata s
        (by simpa [postAll, lastHanded] using hs)
      rw [hnext, List.append_assoc]
      rfl

/-- Recovery, exactly. After any history, the next message is delivered once and
byte for byte if and only if the buffer is ready for it; and a message handed
over consists of the data of its own chunks if and only if nothing was buffered
when its first chunk arrived. -/
theorem recovery_iff {α : Type} (g : Growth) (cfg : ChannelConfig α) (p : MsgProcInternals α)
    (history : List (Alloc × Chunk)) :
    (∀ m cs, IsFragmentation m cs → m ≠ [] →
      (DeliversOnce m (postAll g cfg (postAll g cfg p history).1 (calls cs)).2 ↔
        ReadyFor g (postAll g cfg p history).1 m.length)) ∧
    ∀ pre a c is s, history = pre ++ (a, c) :: is → c.startsMessage = true →
      (∀ i ∈ is, i.2.startsMessage = false) →
      lastHanded (postAll g cfg p history).2 = some s →
      (s.unread = storedBytes ((a, c) :: is)
          (postAll g cfg (postAll g cfg p pre).1 ((a, c) :: is)).2 ↔
        (postAll g cfg p pre).1.buffered = []) := by
  refine ⟨fun m cs h hm => deliversOnce_iff_readyFor h hm, ?_⟩
  rintro pre a c is s rfl hfirst hrest hs
  have hlast : lastHanded (postAll g cfg (postAll g cfg p pre).1 ((a, c) :: is)).2 = some s := by
    rwa [postAll_append, lastHanded, List.getLast?_append_of_ne_nil _ (by simp [postAll])] at hs
  rw [handed_eq_buffered_append is hfirst hrest hlast, List.append_left_eq_self]

/-- After a whole message the buffer is ready for the next one. -/
theorem recovery_iff_after_message :
    let cfg : ChannelConfig Unit := ⟨false, fun u _ => (0, u)⟩
    let p : MsgProcInternals Unit := ⟨[], none, ()⟩
    let q := (postAll Growth.exact cfg p (calls [⟨[1, 2], 2, 0x13⟩])).1
    (DeliversOnce [7] (postAll Growth.exact cfg q (calls [⟨[7], 1, 0x13⟩])).2 ↔
        ReadyFor Growth.exact q 1) ∧ ReadyFor Growth.exact q 1 :=
  ⟨(recovery_iff Growth.exact ⟨false, fun u _ => (0, u)⟩ ⟨[], none, ()⟩
      (calls [⟨[1, 2], 2, 0x13⟩])).1 [7] [⟨[7], 1, 0x13⟩]
      ⟨rfl, by decide, by decide, ⟨_, _, rfl, by decide, by decide⟩,
        ⟨[], _, rfl, by decide, by decide⟩⟩ (by decide), Or.inl rfl⟩

/-- A message cut off after one of its two bytes makes the next message, a
single byte, fill the stream that was left behind: both bytes are handed over
as one message. -/
theorem recovery_fails_after_partial_message :
    let cfg : ChannelConfig Unit := ⟨false, fun u _ => (0, u)⟩
    let history := calls [⟨[1], 2, 0x11⟩]
    let rs := (postAll Growth.exact cfg (postAll Growth.exact cfg ⟨[], none, ()⟩ history).1
      (calls [⟨[7], 1, 0x13⟩])).2
    IsFragmentation [7] [⟨[7], 1, 0x13⟩] ∧ (handedOver rs).map WStream.unread = [[1, 7]] ∧
      ¬ DeliversOnce [7] rs := by
  refine ⟨⟨rfl, by decide, by decide, ⟨_, _, rfl, by decide, by decide⟩,
    ⟨[], _, rfl, by decide, by decide⟩⟩, by decide, ?_⟩
  rintro ⟨s, hs, hunread⟩
  have hmap := congrArg (List.map WStream.unread) hs
  rw [List.map_singleton, hunread] at hmap
  exact absurd hmap (by decide)

end QfClient
