import Mathlib.Data.List.Basic
import Mathlib.Tactic.Common

/-!
# Text in UTF-8 and UTF-16

The two encodings of a text, the strict decoder of UTF-16, and how their lengths
compare: a text takes at least as many bytes in UTF-8 as code units in UTF-16, and
as many only when every character is ASCII.
-/

namespace Unicode

def utf8 (text : List Char) : List UInt8 := text.flatMap String.utf8EncodeChar

def utf16Char (c : Char) : List UInt16 :=
  if c.toNat < 0x10000 then [UInt16.ofNat c.toNat]
  else
    [UInt16.ofNat (0xD800 + (c.toNat - 0x10000) / 0x400),
      UInt16.ofNat (0xDC00 + (c.toNat - 0x10000) % 0x400)]

def utf16 (text : List Char) : List UInt16 := text.flatMap utf16Char

def isLead (unit : UInt16) : Bool := 0xD800 ≤ unit.toNat && unit.toNat < 0xDC00

def isTrail (unit : UInt16) : Bool := 0xDC00 ≤ unit.toNat && unit.toNat < 0xE000

/-- The text of well-formed code units; an unpaired surrogate is no text. -/
def decodeUtf16 : List UInt16 → Option (List Char)
  | [] => some []
  | unit :: units =>
      if isLead unit then
        match units with
        | [] => none
        | trail :: units =>
            if isTrail trail then
              (decodeUtf16 units).map
                (Char.ofNat (0x10000 + (unit.toNat - 0xD800) * 0x400 + (trail.toNat - 0xDC00)) :: ·)
            else none
      else if isTrail unit then none
      else (decodeUtf16 units).map (Char.ofNat unit.toNat :: ·)

def IsAscii (text : List Char) : Prop := ∀ c ∈ text, c.toNat < 128

instance (text : List Char) : Decidable (IsAscii text) :=
  List.decidableBAll (fun c : Char => c.toNat < 128) text

variable {c : Char} {text : List Char} {unit trail : UInt16} {units : List UInt16}

@[simp] theorem utf8_nil : utf8 [] = [] := rfl

@[simp] theorem utf8_cons (c : Char) (text : List Char) :
    utf8 (c :: text) = String.utf8EncodeChar c ++ utf8 text := List.flatMap_cons

@[simp] theorem utf16_nil : utf16 [] = [] := rfl

@[simp] theorem utf16_cons (c : Char) (text : List Char) :
    utf16 (c :: text) = utf16Char c ++ utf16 text := List.flatMap_cons

/-- A character is a scalar value: no surrogate and below `0x110000`. -/
theorem toNat_ranges (c : Char) :
    c.toNat < 0xD800 ∨ 0xDFFF < c.toNat ∧ c.toNat < 0x110000 := c.valid

theorem toNat_ofNat_of_valid {n : ℕ} (h : n.isValidChar) : (Char.ofNat n).toNat = n := by
  rw [Char.ofNat, dif_pos h]
  rfl

theorem toNat_unit {n : ℕ} (h : n < 0x10000) : (UInt16.ofNat n).toNat = n :=
  UInt16.toNat_ofNat_of_lt' h

theorem isLead_iff : isLead unit = true ↔ 0xD800 ≤ unit.toNat ∧ unit.toNat < 0xDC00 := by
  simp [isLead]

theorem isTrail_iff : isTrail unit = true ↔ 0xDC00 ≤ unit.toNat ∧ unit.toNat < 0xE000 := by
  simp [isTrail]

theorem decodeUtf16_unit (hlead : ¬ isLead unit = true) (htrail : ¬ isTrail unit = true)
    (units : List UInt16) :
    decodeUtf16 (unit :: units) = (decodeUtf16 units).map (Char.ofNat unit.toNat :: ·) := by
  rw [decodeUtf16.eq_def]
  simp only [hlead, htrail, if_false, Bool.false_eq_true]

theorem decodeUtf16_pair (hlead : isLead unit = true) (htrail : isTrail trail = true)
    (units : List UInt16) :
    decodeUtf16 (unit :: trail :: units) = (decodeUtf16 units).map
      (Char.ofNat (0x10000 + (unit.toNat - 0xD800) * 0x400 + (trail.toNat - 0xDC00)) :: ·) := by
  rw [decodeUtf16.eq_def]
  simp only [hlead, htrail, if_true]

/-- The units of a character are decoded back to it, whatever follows. -/
theorem decodeUtf16_utf16Char (c : Char) (units : List UInt16) :
    decodeUtf16 (utf16Char c ++ units) = (decodeUtf16 units).map (c :: ·) := by
  have hranges := toNat_ranges c
  by_cases hbmp : c.toNat < 0x10000
  · have hunit := toNat_unit hbmp
    have hlead : ¬ isLead (UInt16.ofNat c.toNat) = true := by
      rw [isLead_iff, hunit]
      omega
    have htrail : ¬ isTrail (UInt16.ofNat c.toNat) = true := by
      rw [isTrail_iff, hunit]
      omega
    rw [utf16Char, if_pos hbmp, List.singleton_append, decodeUtf16_unit hlead htrail, hunit,
      Char.ofNat_toNat]
  · have hfirst : (UInt16.ofNat (0xD800 + (c.toNat - 0x10000) / 0x400)).toNat =
        0xD800 + (c.toNat - 0x10000) / 0x400 := toNat_unit (by omega)
    have hsecond : (UInt16.ofNat (0xDC00 + (c.toNat - 0x10000) % 0x400)).toNat =
        0xDC00 + (c.toNat - 0x10000) % 0x400 := toNat_unit (by omega)
    have hlead : isLead (UInt16.ofNat (0xD800 + (c.toNat - 0x10000) / 0x400)) = true := by
      rw [isLead_iff, hfirst]
      omega
    have htrail : isTrail (UInt16.ofNat (0xDC00 + (c.toNat - 0x10000) % 0x400)) = true := by
      rw [isTrail_iff, hsecond]
      omega
    have hvalue : 0x10000 + (0xD800 + (c.toNat - 0x10000) / 0x400 - 0xD800) * 0x400 +
        (0xDC00 + (c.toNat - 0x10000) % 0x400 - 0xDC00) = c.toNat := by
      omega
    rw [utf16Char, if_neg hbmp, List.cons_append, List.singleton_append,
      decodeUtf16_pair hlead htrail, hfirst, hsecond, hvalue, Char.ofNat_toNat]

theorem decodeUtf16_utf16 (text : List Char) : decodeUtf16 (utf16 text) = some text := by
  induction text with
  | nil => rfl
  | cons c text ih => rw [utf16_cons, decodeUtf16_utf16Char, ih, Option.map_some]

/-- A unit outside the surrogates encodes the character of its value. -/
theorem utf16Char_ofNat_unit (hlead : ¬ isLead unit = true) (htrail : ¬ isTrail unit = true) :
    utf16Char (Char.ofNat unit.toNat) = [unit] := by
  rw [isLead_iff] at hlead
  rw [isTrail_iff] at htrail
  have hlt := unit.toNat_lt
  have hvalid : unit.toNat.isValidChar := by
    change _ ∨ _
    omega
  rw [utf16Char, toNat_ofNat_of_valid hvalid, if_pos (by simpa using hlt), UInt16.ofNat_toNat]

theorem utf16Char_ofNat_pair (hlead : isLead unit = true) (htrail : isTrail trail = true) :
    utf16Char (Char.ofNat
      (0x10000 + (unit.toNat - 0xD800) * 0x400 + (trail.toNat - 0xDC00))) = [unit, trail] := by
  rw [isLead_iff] at hlead
  rw [isTrail_iff] at htrail
  set n := 0x10000 + (unit.toNat - 0xD800) * 0x400 + (trail.toNat - 0xDC00) with hn
  have hvalid : n.isValidChar := by
    change _ ∨ _
    omega
  have hfirst : 0xD800 + (n - 0x10000) / 0x400 = unit.toNat := by omega
  have hsecond : 0xDC00 + (n - 0x10000) % 0x400 = trail.toNat := by omega
  rw [utf16Char, toNat_ofNat_of_valid hvalid, if_neg (by omega), hfirst, hsecond,
    UInt16.ofNat_toNat, UInt16.ofNat_toNat]

/-- The decoder accepts exactly the encodings. -/
theorem decodeUtf16_eq_some_iff : decodeUtf16 units = some text ↔ units = utf16 text := by
  constructor
  · intro h
    induction units using decodeUtf16.induct generalizing text with
    | case1 =>
        obtain rfl := Option.some.inj h
        rfl
    | case2 unit hlead => simp [decodeUtf16, hlead] at h
    | case3 unit hlead trail units htrail ih =>
        rw [decodeUtf16_pair hlead htrail] at h
        obtain ⟨rest, hrest, rfl⟩ := Option.map_eq_some_iff.mp h
        rw [utf16_cons, utf16Char_ofNat_pair hlead htrail, ih hrest]
        rfl
    | case4 unit hlead trail units htrail =>
        rw [decodeUtf16.eq_def] at h
        simp [hlead, htrail] at h
    | case5 unit units hlead htrail =>
        rw [decodeUtf16.eq_def] at h
        simp [hlead, htrail] at h
    | case6 unit units hlead htrail ih =>
        rw [decodeUtf16_unit hlead htrail] at h
        obtain ⟨rest, hrest, rfl⟩ := Option.map_eq_some_iff.mp h
        rw [utf16_cons, utf16Char_ofNat_unit hlead htrail, ih hrest]
        rfl
  · rintro rfl
    exact decodeUtf16_utf16 text

theorem zero_mem_utf16Char_iff : 0 ∈ utf16Char c ↔ c.toNat = 0 := by
  have hranges := toNat_ranges c
  have hzero : ∀ {n : ℕ}, n < 0x10000 → (0 = UInt16.ofNat n ↔ n = 0) := by
    intro n hn
    rw [← UInt16.toNat_inj, toNat_unit hn, UInt16.toNat_zero]
    omega
  by_cases hbmp : c.toNat < 0x10000
  · rw [utf16Char, if_pos hbmp, List.mem_singleton, hzero hbmp]
  · rw [utf16Char, if_neg hbmp, List.mem_pair, hzero (by omega), hzero (by omega)]
    omega

theorem zero_notMem_utf16 (h : ∀ c ∈ text, c.toNat ≠ 0) : 0 ∉ utf16 text := by
  intro hmem
  obtain ⟨c, hc, hzero⟩ := List.mem_flatMap.mp hmem
  exact h c hc (zero_mem_utf16Char_iff.mp hzero)

theorem length_utf16Char_le (c : Char) : (utf16Char c).length ≤ c.utf8Size := by
  have hpos := c.utf8Size_pos
  by_cases hbmp : c.toNat < 0x10000
  · rw [utf16Char, if_pos hbmp]
    exact hpos
  · rw [utf16Char, if_neg hbmp]
    have hsize : c.utf8Size = 4 := by
      simp only [Char.utf8Size, UInt32.le_iff_toNat_le]
      change (if c.toNat ≤ 0x7F then _ else if c.toNat ≤ 0x7FF then _ else
        if c.toNat ≤ 0xFFFF then _ else _) = _
      rw [if_neg (by omega), if_neg (by omega), if_neg (by omega)]
    simp [hsize]

theorem length_utf16Char_eq_iff : (utf16Char c).length = c.utf8Size ↔ c.toNat < 128 := by
  have hsize : c.utf8Size = if c.toNat ≤ 0x7F then 1 else if c.toNat ≤ 0x7FF then 2 else
      if c.toNat ≤ 0xFFFF then 3 else 4 := by
    simp only [Char.utf8Size, UInt32.le_iff_toNat_le]
    rfl
  rw [hsize, utf16Char]
  split_ifs <;> simp <;> omega

theorem length_utf16_le (text : List Char) : (utf16 text).length ≤ (utf8 text).length := by
  induction text with
  | nil => exact Nat.le_refl _
  | cons c text ih =>
      have hc := length_utf16Char_le c
      simp only [utf16_cons, utf8_cons, List.length_append, String.length_utf8EncodeChar]
      omega

theorem length_utf16_eq_iff : (utf16 text).length = (utf8 text).length ↔ IsAscii text := by
  induction text with
  | nil => simp [IsAscii]
  | cons c text ih =>
      have hc := length_utf16Char_le c
      have hchar := @length_utf16Char_eq_iff c
      have htext := length_utf16_le text
      simp only [utf16_cons, utf8_cons, List.length_append, String.length_utf8EncodeChar,
        IsAscii, List.forall_mem_cons]
      rw [← hchar]
      constructor
      · intro h
        exact ⟨by omega, ih.mp (by omega)⟩
      · rintro ⟨hhead, htail⟩
        have hlen := ih.mpr htail
        omega

theorem length_utf16Char_pos (c : Char) : 0 < (utf16Char c).length := by
  rw [utf16Char]
  split_ifs <;> simp

theorem utf8_eq_nil_iff : utf8 text = [] ↔ text = [] := by
  cases text with
  | nil => simp
  | cons c text =>
      refine iff_of_false (fun h => ?_) (List.cons_ne_nil _ _)
      rw [utf8_cons, List.append_eq_nil_iff] at h
      exact String.utf8EncodeChar_ne_nil h.1

theorem utf16_eq_nil_iff : utf16 text = [] ↔ text = [] := by
  cases text with
  | nil => simp
  | cons c text =>
      have hpos := length_utf16Char_pos c
      refine iff_of_false (fun h => ?_) (List.cons_ne_nil _ _)
      rw [utf16_cons, List.append_eq_nil_iff] at h
      rw [h.1] at hpos
      exact absurd hpos (Nat.lt_irrefl 0)

/-- The longest beginning of a text that takes at most `room` bytes. -/
def fitUtf8 : ℕ → List Char → List Char
  | _, [] => []
  | room, c :: text =>
      if c.utf8Size ≤ room then c :: fitUtf8 (room - c.utf8Size) text else []

theorem fitUtf8_leading (room : ℕ) (text : List Char) : fitUtf8 room text <+: text := by
  induction text generalizing room with
  | nil => exact List.nil_prefix
  | cons c text ih =>
      rw [fitUtf8]
      split_ifs
      · exact List.cons_prefix_cons.mpr ⟨rfl, ih _⟩
      · exact List.nil_prefix

theorem length_utf8_fitUtf8_le (room : ℕ) (text : List Char) :
    (utf8 (fitUtf8 room text)).length ≤ room := by
  induction text generalizing room with
  | nil => exact Nat.zero_le _
  | cons c text ih =>
      rw [fitUtf8]
      split_ifs with hc
      · have hrest := ih (room - c.utf8Size)
        rw [utf8_cons, List.length_append, String.length_utf8EncodeChar]
        omega
      · exact Nat.zero_le _

theorem fitUtf8_eq_self_iff {room : ℕ} :
    fitUtf8 room text = text ↔ (utf8 text).length ≤ room := by
  constructor
  · intro h
    rw [← h]
    exact length_utf8_fitUtf8_le room text
  · intro h
    induction text generalizing room with
    | nil => rfl
    | cons c text ih =>
        rw [utf8_cons, List.length_append, String.length_utf8EncodeChar] at h
        rw [fitUtf8, if_pos (by omega), ih (by omega)]

/-- The encoding of a character is no beginning of that of another one. -/
theorem utf8EncodeChar_append_inj {c d : Char} {a b : List UInt8}
    (h : String.utf8EncodeChar c ++ a = String.utf8EncodeChar d ++ b) : c = d ∧ a = b := by
  have hsame := congrArg (fun bytes => bytes.toByteArray.utf8DecodeChar? 0) h
  simp only [List.toByteArray_append, ByteArray.utf8DecodeChar?_utf8EncodeChar_append] at hsame
  obtain rfl := Option.some.inj hsame
  exact ⟨rfl, List.append_cancel_left h⟩

/-- What is left of a text that is cut is a text only if it is cut between characters. -/
theorem fitUtf8_eq_of_take {room : ℕ} {kept : List Char}
    (h : utf8 kept = (utf8 text).take room) : fitUtf8 room text = kept := by
  induction text generalizing room kept with
  | nil =>
      rw [utf8_nil, List.take_nil, utf8_eq_nil_iff] at h
      rw [h, fitUtf8]
  | cons c text ih =>
      have hpos := c.utf8Size_pos
      cases kept with
      | nil =>
          have hlength := congrArg List.length h
          rw [utf8_nil, utf8_cons, List.length_take, List.length_append,
            String.length_utf8EncodeChar, List.length_nil] at hlength
          rw [fitUtf8, if_neg (by omega)]
      | cons d kept =>
          have hwhole : String.utf8EncodeChar d ++ (utf8 kept ++ (utf8 (c :: text)).drop room) =
              String.utf8EncodeChar c ++ utf8 text := by
            rw [← List.append_assoc, ← utf8_cons, h, List.take_append_drop, utf8_cons]
          obtain ⟨rfl, -⟩ := utf8EncodeChar_append_inj hwhole
          have hlength := congrArg List.length h
          have hsize : (String.utf8EncodeChar d).length = d.utf8Size :=
            String.length_utf8EncodeChar _
          rw [utf8_cons, utf8_cons, List.length_take, List.length_append, List.length_append,
            hsize] at hlength
          rw [utf8_cons, utf8_cons, List.take_append, hsize,
            List.take_of_length_le (by omega)] at h
          rw [fitUtf8, if_pos (by omega), ih (List.append_cancel_left h)]

theorem ofNat_byte_ne_zero {n : ℕ} (hlt : n < 256) (hne : n ≠ 0) : ¬ 0 = UInt8.ofNat n := by
  rw [← UInt8.toNat_inj, UInt8.toNat_ofNat_of_lt' hlt, UInt8.toNat_zero]
  omega

theorem zero_notMem_utf8EncodeChar (h : c.toNat ≠ 0) : 0 ∉ String.utf8EncodeChar c := by
  have hval : c.val.toNat = c.toNat := rfl
  simp only [String.utf8EncodeChar, hval]
  split_ifs with hone htwo hthree
  · rw [List.mem_singleton]
    exact ofNat_byte_ne_zero (by omega) h
  -- Every byte of a longer sequence has its first bit set.
  all_goals simp only [List.mem_cons, List.not_mem_nil, or_false, not_or]
  · exact ⟨ofNat_byte_ne_zero (by omega) (by omega), ofNat_byte_ne_zero (by omega) (by omega)⟩
  · exact ⟨ofNat_byte_ne_zero (by omega) (by omega), ofNat_byte_ne_zero (by omega) (by omega),
      ofNat_byte_ne_zero (by omega) (by omega)⟩
  · exact ⟨ofNat_byte_ne_zero (by omega) (by omega), ofNat_byte_ne_zero (by omega) (by omega),
      ofNat_byte_ne_zero (by omega) (by omega), ofNat_byte_ne_zero (by omega) (by omega)⟩

theorem zero_notMem_utf8 (h : ∀ c ∈ text, c.toNat ≠ 0) : 0 ∉ utf8 text := by
  intro hmem
  obtain ⟨c, hc, hzero⟩ := List.mem_flatMap.mp hmem
  exact zero_notMem_utf8EncodeChar (h c hc) hzero

end Unicode
