import QfClient.PointerCoordinates
import Mathlib.Data.Nat.Bitwise

/-!
# The rotation of the wheel

The server reads the nine bits under `WheelRotationMask` as a signed number. `wheelEvent`
sets the sign next to the magnitude of the delta, which has to be complemented for that,
and cuts off the bits of the delta above the nine instead of clamping it.
-/

namespace QfClient

variable {delta : Int32} {flags : UInt16}

/-- The rotation in the flags of a message, a number of nine bits whose sign is
`PTR_FLAGS_WHEEL_NEGATIVE`. -/
def wheelRotation (flags : UInt16) : ℤ :=
  if flags &&& ptrFlagsWheelNegative = 0 then (flags &&& wheelRotationMask).toNat
  else (flags &&& wheelRotationMask).toNat - 512

theorem toNat_and_wheelRotationMask (flags : UInt16) :
    (flags &&& wheelRotationMask).toNat = flags.toNat % 512 :=
  (UInt16.toNat_and _ _).trans (Nat.and_two_pow_sub_one_eq_mod _ 9)

theorem wheelRotation_eq (flags : UInt16) :
    wheelRotation flags = if flags.toNat % 512 < 256 then (flags.toNat % 512 : ℤ)
      else (flags.toNat % 512 : ℤ) - 512 := by
  have hsign : flags &&& ptrFlagsWheelNegative = 0 ↔ flags.toNat % 512 < 256 := by
    have hand : (flags &&& ptrFlagsWheelNegative).toNat = flags.toNat / 256 % 2 * 256 := by
      rw [UInt16.toNat_and]
      exact (Nat.and_two_pow _ 8).trans (congrArg (· * 256) (Nat.toNat_testBit _ 8))
    rw [← UInt16.toNat_inj, hand]
    have hzero : (0 : UInt16).toNat = 0 := rfl
    omega
  unfold wheelRotation
  simp only [hsign, toNat_and_wheelRotationMask, Int.natCast_mod, Nat.cast_ofNat]

/-- The nine bits of the flags, with the bits that `base` sets besides the delta. -/
theorem toNat_or_rotation (base narrowed : UInt16) :
    (base ||| (narrowed &&& wheelRotationMask)).toNat % 512 =
      base.toNat % 512 ||| narrowed.toNat % 512 := by
  rw [UInt16.toNat_or, toNat_and_wheelRotationMask]
  exact (Nat.or_mod_two_pow (n := 9)).trans (by rw [Nat.mod_mod])

theorem toNat_narrow (delta : Int32) (h : 0 ≤ delta.toInt) :
    (delta.toUInt32.toUInt16.toNat % 512 : ℤ) = delta.toInt % 512 := by
  have hnat : delta.toUInt32.toNat = delta.toInt.toNat :=
    Int32.toNat_toUInt32_of_le (Int32.le_iff_toInt_le.mpr h)
  rw [UInt32.toNat_toUInt16, hnat]
  omega

theorem toInt_neg_of_ne (h : delta ≠ Int32.minValue) : (-delta).toInt = -delta.toInt := by
  have hmin : delta.toInt ≠ -2 ^ 31 := fun he => h (Int32.toInt_inj.mp he)
  have hle := delta.le_toInt
  have hlt := delta.toInt_lt
  rw [Int32.toInt_neg]
  exact Int.bmod_eq_of_le_mul_two (by omega) (by omega)

theorem or_sign {bits : ℕ} (h : bits < 512) : 256 ||| bits = 256 + bits % 256 := by
  have hlow (low : ℕ) (hlow : low < 256) : 256 ||| low = 256 + low :=
    (Nat.two_pow_add_eq_or_of_lt (i := 8) hlow 1).symm
  rcases Nat.lt_or_ge bits 256 with hsmall | hlarge
  · rw [hlow bits hsmall, Nat.mod_eq_of_lt hsmall]
  · obtain ⟨low, rfl⟩ := Nat.exists_eq_add_of_le hlarge
    have hlt : low < 256 := by omega
    rw [← hlow low hlt, ← Nat.or_assoc, Nat.or_self, hlow low hlt]
    omega

def rotationOf (d : ℤ) : ℤ :=
  if d < 0 then -d % 256 - 256 else if d % 512 < 256 then d % 512 else d % 512 - 512

theorem wheelRotation_of_flags (h : wheelFlags delta = some flags) :
    wheelRotation flags = rotationOf delta.toInt := by
  have hzero : (0 : Int32).toInt = 0 := rfl
  rw [wheelRotation_eq]
  unfold wheelFlags at h
  split_ifs at h with hneg hmin
  · obtain rfl := Option.some_inj.mp h
    rw [Int32.lt_iff_toInt_lt, hzero] at hneg
    have hnarrow := toNat_narrow (-delta) (by rw [toInt_neg_of_ne hmin]; omega)
    rw [toInt_neg_of_ne hmin] at hnarrow
    have hbits := toNat_or_rotation (ptrFlagsWheel ||| ptrFlagsWheelNegative)
      (-delta).toUInt32.toUInt16
    have hbase : (ptrFlagsWheel ||| ptrFlagsWheelNegative).toNat % 512 = 256 := rfl
    rw [hbase, or_sign (Nat.mod_lt _ (by omega))] at hbits
    rw [rotationOf, if_pos hneg]
    split_ifs <;> omega
  · obtain rfl := Option.some_inj.mp h
    rw [Int32.lt_iff_toInt_lt, hzero, not_lt] at hneg
    have hnarrow := toNat_narrow delta hneg
    have hbits := toNat_or_rotation ptrFlagsWheel delta.toUInt32.toUInt16
    have hbase : ptrFlagsWheel.toNat % 512 = 0 := rfl
    rw [hbase, Nat.zero_or] at hbits
    rw [rotationOf, if_neg (not_lt.mpr hneg)]
    split_ifs <;> omega

def SendsFlags (delta : Int32) (flags : UInt16) : Prop :=
  ∀ view position, wheelEvent view ⟨delta, position⟩ = sendAt view position flags

theorem sendAt_origin : ∃ view position, ∀ flags, ∃ x y,
    sendAt view position flags = some (some ⟨flags, x, y⟩) := by
  have hinside : AxisInside hundredItem hundredDesktop 0 :=
    .of_size_le (by decide +kernel) (by norm_num) (by decide +kernel)
  obtain ⟨map, hmap⟩ := hinside.exists_correct
  refine ⟨⟨hundredItem, hundredItem, some ⟨hundredDesktop, hundredDesktop⟩⟩, ⟨0, 0⟩,
    fun flags => ⟨map.toUInt16, map.toUInt16, ?_⟩⟩
  exact sendAt_eq_some_iff.mpr ⟨map, map, hmap.mapped, hmap.mapped, rfl⟩

theorem sendsFlags_iff : SendsFlags delta flags ↔ wheelFlags delta = some flags := by
  constructor
  · intro hsends
    obtain ⟨view, position, horigin⟩ := sendAt_origin
    obtain ⟨x, y, hsent⟩ := horigin flags
    have hevent := hsends view position
    rw [hsent] at hevent
    cases hflags : wheelFlags delta with
    | none =>
        rw [wheelEvent, hflags] at hevent
        cases hevent
    | some flags' =>
        obtain ⟨x', y', hsent'⟩ := horigin flags'
        have hwheel : wheelEvent view ⟨delta, position⟩ = sendAt view position flags' := by
          rw [wheelEvent, hflags]
          rfl
        rw [hwheel, hsent'] at hevent
        have hmessage := Option.some_inj.mp (Option.some_inj.mp hevent)
        exact congrArg some (congrArg MouseMessage.flags hmessage)
  · intro hflags view position
    rw [wheelEvent, hflags]
    rfl

/-- Every delta of the set is sent clamped to the nine bits; its direction is kept, and a
larger delta is no smaller rotation. -/
structure WheelCorrect (deltas : Set Int32) : Prop where
  clamped : ∀ delta ∈ deltas, ∃ flags, SendsFlags delta flags ∧
    wheelRotation flags = max (-256) (min 255 delta.toInt)
  direction : ∀ delta ∈ deltas, ∀ flags, SendsFlags delta flags →
    (0 < delta.toInt → 0 < wheelRotation flags) ∧ (delta.toInt < 0 → wheelRotation flags < 0)
  mono : ∀ delta ∈ deltas, ∀ delta' ∈ deltas, ∀ flags flags', SendsFlags delta flags →
    SendsFlags delta' flags' → delta.toInt ≤ delta'.toInt →
    wheelRotation flags ≤ wheelRotation flags'

/-- The deltas whose bits under the mask happen to be those of the clamped delta. -/
def RotationExact (delta : Int32) : Prop :=
  (0 ≤ delta.toInt ∧ (delta.toInt ≤ 255 ∨ delta.toInt % 512 = 255)) ∨
    delta.toInt = -128 ∨ (delta.toInt < 0 ∧ 256 ∣ delta.toInt ∧ delta ≠ Int32.minValue)

theorem rotationOf_eq_iff (d : ℤ) :
    rotationOf d = max (-256) (min 255 d) ↔
      (0 ≤ d ∧ (d ≤ 255 ∨ d % 512 = 255)) ∨ d = -128 ∨ (d < 0 ∧ 256 ∣ d) := by
  unfold rotationOf
  split_ifs with hneg hlow
  · omega
  · omega
  · omega

theorem clamped_iff : (∃ flags, SendsFlags delta flags ∧
    wheelRotation flags = max (-256) (min 255 delta.toInt)) ↔ RotationExact delta := by
  have hmin : delta = Int32.minValue ↔ delta.toInt = -2 ^ 31 := Int32.toInt_inj.symm
  constructor
  · rintro ⟨flags, hsends, hrotation⟩
    rw [sendsFlags_iff] at hsends
    rw [wheelRotation_of_flags hsends, rotationOf_eq_iff] at hrotation
    have hne : delta ≠ Int32.minValue := by
      intro he
      rw [(wheelFlags_eq_none_iff delta).mpr he] at hsends
      cases hsends
    unfold RotationExact
    tauto
  · intro hexact
    have hne : delta ≠ Int32.minValue := by
      unfold RotationExact at hexact
      rw [ne_eq, hmin] at hexact ⊢
      omega
    obtain ⟨flags, hflags⟩ :=
      Option.ne_none_iff_exists'.mp (mt (wheelFlags_eq_none_iff delta).mp hne)
    refine ⟨flags, sendsFlags_iff.mpr hflags, ?_⟩
    rw [wheelRotation_of_flags hflags, rotationOf_eq_iff]
    unfold RotationExact at hexact
    tauto

/-- A set of deltas is sent correctly if and only if every delta meets the condition. -/
theorem wheel_rotation_iff (deltas : Set Int32) :
    WheelCorrect deltas ↔ ∀ delta ∈ deltas, RotationExact delta := by
  constructor
  · intro hcorrect delta hdelta
    exact clamped_iff.mp (hcorrect.clamped delta hdelta)
  · intro hexact
    have hclamped := fun delta hdelta => clamped_iff.mpr (hexact delta hdelta)
    have hrotation : ∀ delta ∈ deltas, ∀ flags, SendsFlags delta flags →
        wheelRotation flags = max (-256) (min 255 delta.toInt) := by
      intro delta hdelta flags hsends
      obtain ⟨sent, hsent, hrotation⟩ := hclamped delta hdelta
      rw [sendsFlags_iff] at hsends hsent
      rwa [Option.some_inj.mp (hsends.symm.trans hsent)]
    refine ⟨hclamped, fun delta hdelta flags hsends => ?_,
      fun delta hdelta delta' hdelta' flags flags' hsends hsends' hle => ?_⟩
    · rw [hrotation delta hdelta flags hsends]
      omega
    · rw [hrotation delta hdelta flags hsends, hrotation delta' hdelta' flags' hsends']
      omega

/-- One notch down is read as a rotation by 136, and a fast scroll up by two notches and a
bit turns into the largest rotation down. -/
theorem wheel_rotation_wrong :
    (∃ flags, SendsFlags (-120) flags ∧ wheelRotation flags = -136) ∧
      (∃ flags, SendsFlags 256 flags ∧ wheelRotation flags = -256) ∧
      (∃ flags, SendsFlags 512 flags ∧ wheelRotation flags = 0) ∧
      ¬ WheelCorrect {-120} ∧ ¬ WheelCorrect {256} ∧ ¬ WheelCorrect {512} := by
  refine ⟨⟨_, sendsFlags_iff.mpr rfl, by decide⟩, ⟨_, sendsFlags_iff.mpr rfl, by decide⟩,
    ⟨_, sendsFlags_iff.mpr rfl, by decide⟩, ?_, ?_, ?_⟩
  all_goals
    intro hcorrect
    have hexact := clamped_iff.mp (hcorrect.clamped _ rfl)
    revert hexact
    unfold RotationExact
    decide

end QfClient
