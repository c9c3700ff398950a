import QfClient.Channel

/-!
# Reassembly of fragmented messages

A message is fragmented when its chunks, read in order, carry its bytes, each
announces its length, the first one and only it has the first flag, and the
last one and only it has the last flag. The run of calls over a fragmentation
is analysed for any stream that the first chunk finds or opens, so that the
same lemma serves a clean buffer and one that a broken message left behind.
-/

namespace QfClient

open WinPR

structure IsFragmentation (m : Bytes) (cs : List Chunk) : Prop where
  data : cs.flatMap Chunk.data = m
  total : ∀ c ∈ cs, c.totalLength.toNat = m.length
  isData : ∀ c ∈ cs, c.isControl = false
  first : ∃ c rest, cs = c :: rest ∧ c.isFirst = true ∧ ∀ c' ∈ rest, c'.isFirst = false
  last : ∃ init c, cs = init ++ [c] ∧ c.isLast = true ∧ ∀ c' ∈ init, c'.isLast = false

/-- The chunks of the messages one after the other, with suspend and resume
chunks inserted anywhere. -/
def IsMessageSequence (ms : List Bytes) (cs : List Chunk) : Prop :=
  ∃ css, List.Forall₂ IsFragmentation ms css ∧
    cs.filter (fun c => !c.isControl) = css.flatten

def calls (cs : List Chunk) : List (Alloc × Chunk) := cs.map (fun c => (Alloc.succeeds, c))

def PostResult.Ok (r : PostResult) : Prop := r.rc = channelRcOk ∨ r.handlerError ≠ 0

/-- Streams that were handed over are in the queue, or the handler was called with them, in
this order. -/
structure Delivered {α : Type} (cfg : ChannelConfig α) (p p' : MsgProcInternals α)
    (streams : List WStream) : Prop where
  queued : cfg.threadsDisabled = false →
    p'.queue = p.queue ++ streams ∧ p'.userdata = p.userdata
  handled : cfg.threadsDisabled = true → p'.queue = p.queue ∧
    p'.userdata = streams.foldl (fun userdata s => (cfg.msgHandler userdata s).2) p.userdata

variable {α : Type} {g : Growth} {cfg : ChannelConfig α} {p p' p'' : MsgProcInternals α}
  {a : Alloc} {c : Chunk} {streams streams' : List WStream}

theorem delivered_nil (d : Option WStream) : Delivered cfg p { p with dataIn := d } [] :=
  ⟨fun _ => ⟨(List.append_nil _).symm, rfl⟩, fun _ => ⟨rfl, rfl⟩⟩

theorem Delivered.append (h : Delivered cfg p p' streams) (h' : Delivered cfg p' p'' streams') :
    Delivered cfg p p'' (streams ++ streams') where
  queued hthreads := by
    obtain ⟨hqueue, huserdata⟩ := h.queued hthreads
    obtain ⟨hqueue', huserdata'⟩ := h'.queued hthreads
    rw [hqueue', hqueue, List.append_assoc]
    exact ⟨rfl, huserdata'.trans huserdata⟩
  handled hthreads := by
    obtain ⟨hqueue, huserdata⟩ := h.handled hthreads
    obtain ⟨hqueue', huserdata'⟩ := h'.handled hthreads
    rw [huserdata', huserdata, List.foldl_append]
    exact ⟨hqueue'.trans hqueue, rfl⟩

theorem delivered_handOver (s : WStream) :
    Delivered cfg p (handOver cfg p a s).1 (handOver cfg p a s).2.handed.toList := by
  simp only [handOver]
  split_ifs with hthreads herror hpost
  · exact ⟨fun h => absurd (hthreads.symm.trans h) (by simp), fun _ => ⟨rfl, rfl⟩⟩
  · exact ⟨fun h => absurd (hthreads.symm.trans h) (by simp), fun _ => ⟨rfl, rfl⟩⟩
  · exact ⟨fun _ => ⟨rfl, rfl⟩, fun h => absurd h hthreads⟩
  · exact delivered_nil p.dataIn

theorem delivered_post (cfg : ChannelConfig α) (p : MsgProcInternals α) (a : Alloc) (c : Chunk) :
    Delivered cfg p (channelClientPostMessage g cfg p a c).1
      (channelClientPostMessage g cfg p a c).2.handed.toList := by
  rw [channelClientPostMessage]
  split_ifs
  · exact delivered_nil p.dataIn
  · split
    · exact delivered_nil p.dataIn
    · exact delivered_nil none
    · rename_i s _
      rw [storeChunk]
      split
      · exact delivered_nil none
      · rw [finishChunk]
        split_ifs
        · exact delivered_nil _
        · exact (delivered_nil none).append (delivered_handOver _)
        · exact delivered_nil _

/-- This holds of any calls, also of those that fail. -/
theorem delivered_postAll (cfg : ChannelConfig α) (p : MsgProcInternals α)
    (calls : List (Alloc × Chunk)) :
    Delivered cfg p (postAll g cfg p calls).1 (handedOver (postAll g cfg p calls).2) := by
  induction calls generalizing p with
  | nil => exact delivered_nil p.dataIn
  | cons call calls ih =>
      obtain ⟨a, c⟩ := call
      rw [postAll, handedOver_cons]
      exact (delivered_post cfg p a c).append (ih _)

theorem calls_append (cs cs' : List Chunk) : calls (cs ++ cs') = calls cs ++ calls cs' :=
  List.map_append

/-- All chunks of a message stored behind the stream `s` that its first chunk
finds or opens. -/
theorem store_message (cfg : ChannelConfig α) (init : List Chunk) (l : Chunk)
    (p : MsgProcInternals α) (s : WStream)
    (hdata : ∀ c ∈ init ++ [l], c.isControl = false)
    (hrest : ∀ c ∈ (init ++ [l]).tail, c.isFirst = false)
    (hinit : ∀ c ∈ init, c.isLast = false) (hlast : l.isLast = true)
    (hopen : ∀ c ∈ (init ++ [l]).head?,
      openDataIn g Alloc.succeeds c p.dataIn = some (some s)) :
    ∃ s' : WStream, s'.written = s.written ++ (init ++ [l]).flatMap Chunk.data ∧
      s.capacity ≤ s'.capacity ∧
      (s.position + ((init ++ [l]).flatMap Chunk.data).length ≤ s.capacity →
        s'.capacity = s.capacity) ∧
      (s'.capacity = s'.position →
        (postAll g cfg p (calls (init ++ [l]))).1.dataIn = none ∧
        handedOver (postAll g cfg p (calls (init ++ [l]))).2 =
          [s'.sealLength.resetPosition] ∧
        ∀ r ∈ (postAll g cfg p (calls (init ++ [l]))).2, r.Ok) ∧
      (s'.capacity ≠ s'.position →
        handedOver (postAll g cfg p (calls (init ++ [l]))).2 = []) := by
  induction init generalizing p s with
  | nil =>
      have hpost := post_of_open cfg (hdata l (by simp)) (hopen l (by simp))
      obtain ⟨s₁, hs₁⟩ := WStream.ensureRemainingCapacity_isSome (s := s) g l.data.length
      obtain ⟨s', hstore, hw, hle, hfit⟩ := storeChunk_appends cfg (p := p)
        (a := Alloc.succeeds) hs₁
      have hfin := finishChunk_last cfg (p := p) (s := s') hlast
        (rfl : Alloc.succeeds.messagePost = true)
      refine ⟨s', by simpa using hw, hle, fun h => hfit (by simpa using h), ?_, ?_⟩
      · intro hfull
        obtain ⟨hnone, hhand, hok⟩ := hfin.1 hfull
        refine ⟨?_, ?_, ?_⟩
        · simpa [calls, postAll, hpost, hstore] using hnone
        · simp [calls, postAll, hpost, hstore, handedOver_cons, hhand]
        · simpa [calls, postAll, hpost, hstore, PostResult.Ok] using hok
      · intro hne
        simp [calls, postAll, hpost, hstore, handedOver_cons, hfin.2 hne]
  | cons c init ih =>
      have hpost := post_of_open cfg (hdata c (by simp)) (hopen c (by simp))
      obtain ⟨s₁, hs₁⟩ := WStream.ensureRemainingCapacity_isSome (s := s) g c.data.length
      obtain ⟨s₂, hstore, hw, hle, hfit⟩ := storeChunk_appends cfg (p := p)
        (a := Alloc.succeeds) hs₁
      have hcall : channelClientPostMessage g cfg p Alloc.succeeds c =
          ({ p with dataIn := some s₂ }, ⟨channelRcOk, none, 0⟩) := by
        rw [hpost, hstore, finishChunk, if_neg (by simp [hinit c])]
      have hnext : ∀ c' ∈ (init ++ [l]).head?,
          openDataIn g Alloc.succeeds c' (some s₂) = some (some s₂) := by
        intro c' hc'
        exact openDataIn_rest (hrest c' (List.mem_of_mem_head? hc')) _
      obtain ⟨s', hw', hle', hfit', hfull, hne⟩ := ih { p with dataIn := some s₂ } s₂
        (fun c' h => hdata c' (List.mem_cons_of_mem _ h))
        (fun c' h => hrest c' (List.mem_of_mem_tail h))
        (fun c' h => hinit c' (List.mem_cons_of_mem _ h)) hnext
      have hpos : s₂.position = s.position + c.data.length := by
        rw [← WStream.length_written, hw, List.length_append, WStream.length_written]
      refine ⟨s', ?_, hle.trans hle', ?_, ?_, ?_⟩
      · rw [hw', hw, List.cons_append, List.flatMap_cons, List.append_assoc]
      · intro hfits
        rw [List.cons_append, List.flatMap_cons, List.length_append] at hfits
        rw [hfit' (by rw [hpos, hfit (by omega)]; omega), hfit (by omega)]
      · intro h
        obtain ⟨hnone, hhand, hok⟩ := hfull h
        simp only [List.cons_append, calls, List.map_cons, postAll, hcall] at hnone hhand hok ⊢
        refine ⟨hnone, by rw [handedOver_cons, hhand]; rfl, ?_⟩
        exact List.forall_mem_cons.mpr ⟨Or.inl rfl, hok⟩
      · intro h
        have hhand := hne h
        simp only [List.cons_append, calls, List.map_cons, postAll, hcall] at hhand ⊢
        rw [handedOver_cons, hhand]
        rfl

/-- The stored message for a fragmentation, whatever its first chunk opens. -/
theorem IsFragmentation.store {m : Bytes} {cs : List Chunk} (h : IsFragmentation m cs)
    (cfg : ChannelConfig α)
    (s : WStream) (hopen : ∀ c ∈ cs.head?,
      openDataIn g Alloc.succeeds c p.dataIn = some (some s)) :
    ∃ s' : WStream, s'.written = s.written ++ m ∧ s.capacity ≤ s'.capacity ∧
      (s.position + m.length ≤ s.capacity → s'.capacity = s.capacity) ∧
      (s'.capacity = s'.position →
        (postAll g cfg p (calls cs)).1.dataIn = none ∧
        handedOver (postAll g cfg p (calls cs)).2 = [s'.sealLength.resetPosition] ∧
        ∀ r ∈ (postAll g cfg p (calls cs)).2, r.Ok) ∧
      (s'.capacity ≠ s'.position → handedOver (postAll g cfg p (calls cs)).2 = []) := by
  obtain ⟨init, l, rfl, hlast, hinit⟩ := h.last
  obtain ⟨c, rest, hcs, _, hrest⟩ := h.first
  have hstore := store_message cfg init l p s h.isData (by rwa [hcs]) hinit hlast hopen
  rwa [h.data] at hstore

/-- The stream handed over for the message `m`: read position 0, length sealed
to its length, and its bytes. -/
def IsSealed (m : Bytes) (s : WStream) : Prop :=
  s.position = 0 ∧ s.length = m.length ∧ s.unread = m

theorem isSealed_of_written {m : Bytes} {s : WStream} (h : s.written = m) :
    IsSealed m s.sealLength.resetPosition := by
  refine ⟨rfl, ?_, by rw [WStream.unread_seal, h]⟩
  rw [← h, WStream.length_written]
  rfl

/-- The first chunk of a message says so, and tells its length. -/
theorem IsFragmentation.head {m : Bytes} {cs : List Chunk} (h : IsFragmentation m cs) {c : Chunk}
    (hc : c ∈ cs.head?) : c.isFirst = true ∧ c.totalLength.toNat = m.length := by
  obtain ⟨c', rest, rfl, hfirst, -⟩ := h.first
  obtain rfl : c' = c := Option.some.inj hc
  exact ⟨hfirst, h.total c' List.mem_cons_self⟩

/-- One fragmented message that finds no stream. -/
theorem post_fragmentation (cfg : ChannelConfig α) {m : Bytes} {cs : List Chunk}
    (h : IsFragmentation m cs) (hm : m ≠ []) (hp : p.dataIn = none) :
    (postAll g cfg p (calls cs)).1.dataIn = none ∧
      (∃ s, handedOver (postAll g cfg p (calls cs)).2 = [s] ∧ IsSealed m s) ∧
      ∀ r ∈ (postAll g cfg p (calls cs)).2, r.Ok := by
  obtain ⟨s, hs⟩ := WStream.new_isSome (List.length_pos_iff.mpr hm)
  obtain ⟨hpos, hcap, hwr, -⟩ := WStream.new_eq_some hs
  have hopen : ∀ c ∈ cs.head?, openDataIn g Alloc.succeeds c p.dataIn = some (some s) := by
    intro c hc
    obtain ⟨hfirst, htotal⟩ := h.head hc
    simp only [openDataIn, if_pos hfirst, hp, htotal, hs]
    rfl
  obtain ⟨s', hw, -, hfit, hfull, -⟩ := h.store cfg s hopen
  rw [hwr, List.nil_append] at hw
  have hfull' : s'.capacity = s'.position := by
    rw [hfit (by omega), hcap, ← WStream.length_written, hw]
  obtain ⟨hnone, hhand, hok⟩ := hfull hfull'
  exact ⟨hnone, ⟨_, hhand, isSealed_of_written hw⟩, hok⟩

/-- Control chunks do nothing, wherever they stand. -/
theorem postAll_filter_control (cfg : ChannelConfig α) (cs : List Chunk) :
    (postAll g cfg p (calls cs)).1 =
        (postAll g cfg p (calls (cs.filter (fun c => !c.isControl)))).1 ∧
      handedOver (postAll g cfg p (calls cs)).2 =
        handedOver (postAll g cfg p (calls (cs.filter (fun c => !c.isControl)))).2 ∧
      ((∀ r ∈ (postAll g cfg p (calls (cs.filter (fun c => !c.isControl)))).2, r.Ok) →
        ∀ r ∈ (postAll g cfg p (calls cs)).2, r.Ok) := by
  induction cs generalizing p with
  | nil => exact ⟨rfl, rfl, id⟩
  | cons c cs ih =>
      cases hc : c.isControl with
      | true =>
          have hfilter : (c :: cs).filter (fun c => !c.isControl) =
              cs.filter (fun c => !c.isControl) := List.filter_cons_of_neg (by simp [hc])
          obtain ⟨hst, hhand, hok⟩ := ih (p := p)
          rw [hfilter]
          simp only [calls, List.map_cons, postAll, post_control hc] at hst hhand hok ⊢
          refine ⟨hst, by rw [handedOver_cons, hhand]; rfl, fun h => ?_⟩
          exact List.forall_mem_cons.mpr ⟨Or.inl rfl, hok h⟩
      | false =>
          have hfilter : (c :: cs).filter (fun c => !c.isControl) =
              c :: cs.filter (fun c => !c.isControl) := List.filter_cons_of_pos (by simp [hc])
          obtain ⟨hst, hhand, hok⟩ :=
            ih (p := (channelClientPostMessage g cfg p Alloc.succeeds c).1)
          rw [hfilter]
          simp only [calls, List.map_cons, postAll] at hst hhand hok ⊢
          refine ⟨hst, by rw [handedOver_cons, handedOver_cons, hhand], fun h => ?_⟩
          obtain ⟨h₁, h₂⟩ := List.forall_mem_cons.mp h
          exact List.forall_mem_cons.mpr ⟨h₁, hok h₂⟩

/-- The fragmentations of several messages, posted one after the other. -/
theorem post_fragmentations (cfg : ChannelConfig α) {ms : List Bytes} {css : List (List Chunk)}
    (h : List.Forall₂ IsFragmentation ms css) (hm : ∀ m ∈ ms, m ≠ []) (hp : p.dataIn = none) :
    (postAll g cfg p (calls css.flatten)).1.dataIn = none ∧
      List.Forall₂ IsSealed ms (handedOver (postAll g cfg p (calls css.flatten)).2) ∧
      ∀ r ∈ (postAll g cfg p (calls css.flatten)).2, r.Ok := by
  induction h generalizing p with
  | nil => exact ⟨hp, .nil, by simp [calls, postAll]⟩
  | @cons m cs ms css hfrag _ ih =>
      obtain ⟨hnone, ⟨s, hhand, hsealed⟩, hok⟩ :=
        post_fragmentation (g := g) cfg hfrag (hm m (by simp)) hp
      obtain ⟨hnone', hhand', hok'⟩ := ih (fun m h => hm m (List.mem_cons_of_mem _ h)) hnone
      rw [List.flatten_cons, calls_append, postAll_append]
      refine ⟨hnone', ?_, ?_⟩
      · rw [handedOver_append, hhand]
        exact .cons hsealed hhand'
      · intro r hr
        exact (List.mem_append.mp hr).elim (hok r) (hok' r)

/-- The messages of a fragmented sequence are handed over in order, byte for byte, to the
queue or to the handler, and nothing is left behind. -/
theorem reassembly_of_messageSequence {α : Type} (g : Growth) (cfg : ChannelConfig α)
    (p : MsgProcInternals α) (ms : List Bytes) (cs : List Chunk)
    (hm : ∀ m ∈ ms, m ≠ []) (hcs : IsMessageSequence ms cs) (hp : p.dataIn = none) :
    List.Forall₂ IsSealed ms (handedOver (postAll g cfg p (calls cs)).2) ∧
      Delivered cfg p (postAll g cfg p (calls cs)).1
        (handedOver (postAll g cfg p (calls cs)).2) ∧
      (∀ r ∈ (postAll g cfg p (calls cs)).2, r.rc = channelRcOk ∨ r.handlerError ≠ 0) ∧
      (postAll g cfg p (calls cs)).1.dataIn = none := by
  obtain ⟨css, hfrag, hfilter⟩ := hcs
  obtain ⟨hst, hhand, hok⟩ := postAll_filter_control (g := g) (p := p) cfg cs
  obtain ⟨hnone, hsealed, hok'⟩ := post_fragmentations (g := g) cfg hfrag hm hp
  rw [hfilter] at hst hhand hok
  exact ⟨by rwa [hhand], delivered_postAll cfg p _, hok hok', by rwa [hst]⟩

/-- Two messages, the first cut in two around a suspend chunk. -/
theorem reassembly_of_two_messages :
    let cfg : ChannelConfig Unit := ⟨false, fun u _ => (0, u)⟩
    let r := postAll Growth.exact cfg ⟨[], none, ()⟩ (calls [⟨[1, 2], 3, 0x11⟩, ⟨[], 0, 0x20⟩,
      ⟨[3], 3, 0x12⟩, ⟨[4], 1, 0x13⟩])
    List.Forall₂ IsSealed [[1, 2, 3], [4]] r.1.queue ∧
      ∀ result ∈ r.2, result.rc = channelRcOk ∨ result.handlerError ≠ 0 := by
  have h₁ : IsFragmentation [1, 2, 3] [⟨[1, 2], 3, 0x11⟩, ⟨[3], 3, 0x12⟩] :=
    ⟨rfl, by decide, by decide, ⟨_, _, rfl, by decide, by decide⟩,
      ⟨[⟨[1, 2], 3, 0x11⟩], _, rfl, by decide, by decide⟩⟩
  have h₂ : IsFragmentation [4] [⟨[4], 1, 0x13⟩] :=
    ⟨rfl, by decide, by decide, ⟨_, _, rfl, by decide, by decide⟩,
      ⟨[], _, rfl, by decide, by decide⟩⟩
  obtain ⟨hsealed, hdelivered, hok, -⟩ := reassembly_of_messageSequence Growth.exact
    ⟨false, fun u _ => (0, u)⟩ ⟨[], none, ()⟩ [[1, 2, 3], [4]]
    [⟨[1, 2], 3, 0x11⟩, ⟨[], 0, 0x20⟩, ⟨[3], 3, 0x12⟩, ⟨[4], 1, 0x13⟩] (by decide)
    ⟨_, .cons h₁ (.cons h₂ .nil), rfl⟩ rfl
  rw [← List.nil_append (handedOver _)] at hsealed
  exact ⟨by rwa [(hdelivered.queued rfl).1], hok⟩

end QfClient
