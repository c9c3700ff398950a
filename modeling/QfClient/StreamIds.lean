import QfClient.Slot

/-!
# Stream ids

`next_remote_stream_id` counts modulo 2^32 and skips zero, so every wrap of the counter
uses up one count more than ids are drawn. The ids run from one to 2^32 - 1 and then
start again with one.
-/

namespace QfClient

/-- `m_next_stream_id` after `n` calls of `next_remote_stream_id`. -/
def streamCounter : ℕ → UInt32
  | 0 => 1
  | n + 1 => (nextRemoteStreamId (streamCounter n)).2

/-- What a call of `next_remote_stream_id` returns after `n` others. -/
def streamIdAt (n : ℕ) : UInt32 := (nextRemoteStreamId (streamCounter n)).1

theorem nextRemoteStreamId_snd (next : UInt32) :
    (nextRemoteStreamId next).2 = (nextRemoteStreamId next).1 + 1 := by
  unfold nextRemoteStreamId
  split_ifs
  · rfl
  · rfl

theorem toNat_nextRemoteStreamId (next : UInt32) :
    (nextRemoteStreamId next).1.toNat = if next.toNat = 0 then 1 else next.toNat := by
  unfold nextRemoteStreamId
  by_cases hzero : next = 0
  · rw [if_pos hzero, hzero]
    rfl
  · have hne : next.toNat ≠ 0 := fun he => hzero (UInt32.toNat_inj.mp he)
    rw [if_neg hzero, if_neg hne]

theorem streamCounter_succ (n : ℕ) : streamCounter (n + 1) = streamIdAt n + 1 :=
  nextRemoteStreamId_snd (streamCounter n)

/-- The number of a call gives its id. -/
theorem toNat_streamIdAt (n : ℕ) : (streamIdAt n).toNat = n % (2 ^ 32 - 1) + 1 := by
  induction n with
  | zero => rfl
  | succ n ih =>
      have hcounter : (streamCounter (n + 1)).toNat = (n % (2 ^ 32 - 1) + 2) % 2 ^ 32 := by
        rw [streamCounter_succ, UInt32.toNat_add, ih]
        rfl
      rw [streamIdAt, toNat_nextRemoteStreamId, hcounter]
      -- The last id of a round takes the counter to zero, which is skipped.
      by_cases hlast : n % (2 ^ 32 - 1) = 2 ^ 32 - 2
      · rw [if_pos (by omega)]
        omega
      · rw [if_neg (by omega)]
        omega

theorem streamIdAt_ne_zero (n : ℕ) : streamIdAt n ≠ 0 := by
  intro hzero
  have hid := toNat_streamIdAt n
  rw [hzero] at hid
  exact absurd hid (Nat.succ_ne_zero _).symm

/-- Two calls draw the same id if and only if whole rounds lie between them. -/
theorem streamIdAt_eq_iff (m n : ℕ) :
    streamIdAt m = streamIdAt n ↔ m % (2 ^ 32 - 1) = n % (2 ^ 32 - 1) := by
  rw [← UInt32.toNat_inj, toNat_streamIdAt, toNat_streamIdAt, Nat.add_right_cancel_iff]

theorem streamIdAt_ne {first m n : ℕ} (hm : first ≤ m) (hmn : m < n)
    (hn : n < first + (2 ^ 32 - 1)) : streamIdAt m ≠ streamIdAt n := by
  rw [ne_eq, streamIdAt_eq_iff]
  omega

/-- Before the counter wraps. -/
theorem toNat_streamIdAt_of_lt {n : ℕ} (h : n < 2 ^ 32 - 1) : (streamIdAt n).toNat = 1 + n := by
  rw [toNat_streamIdAt, Nat.mod_eq_of_lt h, Nat.add_comm]

theorem toNat_streamCounter_of_lt {n : ℕ} (h : n < 2 ^ 32 - 1) :
    (streamCounter n).toNat = 1 + n := by
  cases n with
  | zero => rfl
  | succ n =>
      rw [streamCounter_succ, UInt32.toNat_add, toNat_streamIdAt_of_lt (Nat.lt_of_succ_lt h)]
      have hone : (1 : UInt32).toNat = 1 := rfl
      omega

end QfClient
