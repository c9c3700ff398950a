import QfClient.TextRoundTrip
import QfClient.Unicode

/-!
# Reading a Format List

A list of short names is a sequence of 36 byte entries, and one of long names a
sequence of ids with terminated UTF-16 names. `cliprdr_read_format_list` goes twice
through the long names, once to count them and once to read them into an array of
that size. The allocator and the converter to UTF-8 are parameters.
-/

namespace QfClient

open LittleEndian Unicode

def cbAsciiNames : UInt16 := 4

/-- What `cliprdr_read_format_list` calls: `calloc` for the array, `strndup` for an ASCII
name, and `ConvertWCharNToUtf8Alloc`. -/
structure NameReader where
  calloc : ℕ → Bool
  strndup : Bytes → Bool
  convertWCharN : List UInt16 → Option String

/-- Allocations succeed, and the converter fails on code units that are no text. -/
structure NameReader.Strict (reader : NameReader) : Prop where
  calloc : ∀ count, reader.calloc count = true
  strndup : ∀ name, reader.strndup name = true
  convertWCharN : ∀ units, reader.convertWCharN units = (decodeUtf16 units).map String.ofList

/-- The code units in front of the first NUL, which `_wcsnlen` counts. -/
def wcharName (bytes : Bytes) : List UInt16 := (char16Units bytes).takeWhile (· ≠ 0)

/-- The name of a short entry from its block of 32 bytes. The result of `strndup` is
a byte string; as a name it has one character for each byte. -/
def readShortName (reader : NameReader) (asciiNames : Bool) (block : Bytes) :
    Except UInt32 (Option String) :=
  if asciiNames then
    if block.head? = some 0 then .ok none
    else
      let name := (block.take 31).takeWhile (· ≠ 0)
      if reader.strndup name then
        .ok (some (String.ofList (name.map (fun byte => Char.ofNat byte.toNat))))
      else .error channelRcNoMemory
  else if (char16Units block).head? = some 0 then .ok none
  else
    match reader.convertWCharN (wcharName (block.take 32)) with
    | none => .error errorInternalError
    | some name => .ok (some name)

def readShortEntry (reader : NameReader) (asciiNames : Bool) (entry : UInt32 × Bytes) :
    Except UInt32 CliprdrFormat :=
  match readShortName reader asciiNames entry.2 with
  | .error error => .error error
  | .ok name => .ok ⟨entry.1, name⟩

/-- The loop over the short entries; `left` of the formats in the array are still zero. -/
def readShortFormats (reader : NameReader) (asciiNames : Bool) :
    ℕ → Bytes → Except UInt32 (List CliprdrFormat)
  | 0, bytes => if 4 ≤ bytes.length then .error errorInternalError else .ok []
  | left + 1, bytes =>
      if bytes.length < 4 then .ok (List.replicate (left + 1) ⟨0, none⟩)
      else if (bytes.drop 4).length < 32 then .error errorInternalError
      else
        match readShortEntry reader asciiNames (uint32At bytes 0, (bytes.drop 4).take 32) with
        | .error error => .error error
        | .ok format =>
            (readShortFormats reader asciiNames left (bytes.drop 36)).map (format :: ·)

def wcharNameSize (bytes : Bytes) : ℕ := 2 * ((wcharName bytes).length + 1)

/-- The first pass. -/
def countLongFormats (bytes : Bytes) : Option ℕ :=
  if bytes.length = 0 then some 0
  else if bytes.length < 4 then none
  else if (bytes.drop 4).length < wcharNameSize (bytes.drop 4) then none
  else (countLongFormats (bytes.drop (4 + wcharNameSize (bytes.drop 4)))).map (· + 1)
termination_by bytes.length
decreasing_by
  rw [List.length_drop]
  omega

def readLongEntry (reader : NameReader) (entry : UInt32 × List UInt16) :
    Except UInt32 CliprdrFormat :=
  if entry.2 = [] then .ok ⟨entry.1, none⟩
  else
    match reader.convertWCharN entry.2 with
    | none => .error errorInternalError
    | some name => .ok ⟨entry.1, some name⟩

/-- The second pass. -/
def readLongFormats (reader : NameReader) : ℕ → Bytes → Except UInt32 (List CliprdrFormat)
  | 0, bytes => if 4 ≤ bytes.length then .error errorInternalError else .ok []
  | left + 1, bytes =>
      if bytes.length < 4 then .ok (List.replicate (left + 1) ⟨0, none⟩)
      else if (bytes.drop 4).length < wcharNameSize (bytes.drop 4) then .error errorInternalError
      else
        match readLongEntry reader (uint32At bytes 0, wcharName (bytes.drop 4)) with
        | .error error => .error error
        | .ok format =>
            (readLongFormats reader left (bytes.drop (4 + wcharNameSize (bytes.drop 4)))).map
              (format :: ·)

/-- `bytes` is what remains of the stream behind the header. -/
def cliprdrReadFormatList (reader : NameReader) (header : ClipboardHeader)
    (useLongFormatNames : Bool) (bytes : Bytes) : Except UInt32 (List CliprdrFormat) :=
  let asciiNames : Bool := header.msgFlags &&& cbAsciiNames ≠ 0
  if bytes.length < header.dataLen.toNat then .error errorInvalidData
  else
    let sub := bytes.take header.dataLen.toNat
    if header.dataLen = 0 then .ok []
    else if !useLongFormatNames then
      let numFormats := sub.length / 36
      if numFormats = 0 ∨ reader.calloc numFormats = false then .error channelRcNoMemory
      else readShortFormats reader asciiNames numFormats sub
    else
      match countLongFormats sub with
      | none => .error errorInternalError
      | some numFormats =>
          if numFormats = 0 ∨ reader.calloc numFormats = false then .error channelRcNoMemory
          else readLongFormats reader numFormats sub

def shortEntry (entry : UInt32 × Bytes) : Bytes := leUInt32 entry.1 ++ entry.2

def longEntry (entry : UInt32 × List UInt16) : Bytes :=
  leUInt32 entry.1 ++ (entry.2 ++ [0]).flatMap leUInt16

variable {reader : NameReader} {asciiNames : Bool} {bytes rest : Bytes}

def readEntries {α : Type} (read : α → Except UInt32 CliprdrFormat) :
    List α → Except UInt32 (List CliprdrFormat)
  | [] => .ok []
  | entry :: entries =>
      match read entry with
      | .error error => .error error
      | .ok format => (readEntries read entries).map (format :: ·)

@[simp] theorem length_longEntry (entry : UInt32 × List UInt16) :
    (longEntry entry).length = 4 + 2 * (entry.2.length + 1) := by
  simp only [longEntry, List.length_append, length_leUInt32,
    length_flatMap_of_length length_leUInt16, List.length_singleton]

theorem length_char16Units (bytes : Bytes) : (char16Units bytes).length = bytes.length / 2 := by
  induction bytes using char16Units.induct with
  | case1 low high rest ih =>
      rw [char16Units, List.length_cons, ih, List.length_cons, List.length_cons]
      omega
  | case2 bytes hshort =>
      cases bytes with
      | nil => rfl
      | cons low bytes =>
          cases bytes with
          | nil => simp [char16Units]
          | cons high rest => exact absurd rfl (hshort low high rest)

theorem leUInt16_pair (low high : UInt8) : leUInt16 (UInt16.ofNat (leNat [low, high])) =
    [low, high] := by
  have hread : leUInt16 (uint16At [low, high] 0) = ([low, high].drop 0).take 2 :=
    leUInt16_uint16At (by simp)
  simpa only [uint16At, List.drop_zero, List.take_succ_cons, List.take_nil] using hread

theorem flatMap_take_char16Units (bytes : Bytes) {n : ℕ} (h : 2 * n ≤ bytes.length) :
    ((char16Units bytes).take n).flatMap leUInt16 = bytes.take (2 * n) := by
  induction n generalizing bytes with
  | zero => simp
  | succ n ih =>
      match bytes, h with
      | low :: high :: rest, h =>
          have hrest : 2 * n ≤ rest.length := by
            simp only [List.length_cons] at h
            omega
          rw [char16Units, List.take_succ_cons, List.flatMap_cons, leUInt16_pair, ih rest hrest]
          rfl

theorem wcharName_zero_notMem (bytes : Bytes) : 0 ∉ wcharName bytes := by
  intro hmem
  have hne := List.mem_takeWhile_imp hmem
  simp at hne

/-- A terminated name stands in the bytes as far as `wcharNameSize` says. -/
theorem take_wcharNameSize (h : wcharNameSize bytes ≤ bytes.length) :
    bytes.take (wcharNameSize bytes) = (wcharName bytes ++ [0]).flatMap leUInt16 := by
  have hsize : wcharNameSize bytes = 2 * ((wcharName bytes).length + 1) := rfl
  rw [hsize, ← flatMap_take_char16Units bytes (by rwa [← hsize])]
  congr 1
  have hlt : (wcharName bytes).length < (char16Units bytes).length := by
    rw [length_char16Units]
    omega
  have hsplit := List.takeWhile_append_dropWhile (p := (· ≠ (0 : UInt16))) (l := char16Units bytes)
  cases hdrop : (char16Units bytes).dropWhile (· ≠ (0 : UInt16)) with
  | nil =>
      rw [hdrop, List.append_nil] at hsplit
      rw [wcharName, hsplit] at hlt
      exact absurd hlt (lt_irrefl _)
  | cons unit units =>
      have hzero : unit = 0 := by
        have hnot := List.head?_dropWhile_not (· ≠ (0 : UInt16)) (char16Units bytes)
        rw [hdrop] at hnot
        simpa using hnot
      rw [hdrop, hzero, List.append_cons] at hsplit
      have htake := congrArg (List.take ((wcharName bytes).length + 1)) hsplit
      rw [List.take_left' (by simp [wcharName])] at htake
      exact htake.symm

theorem wcharName_longName {units : List UInt16} (h : 0 ∉ units) (rest : Bytes) :
    wcharName ((units ++ [0]).flatMap leUInt16 ++ rest) = units := by
  have hunits : char16Units ((units ++ [0]).flatMap leUInt16 ++ rest) =
      units ++ 0 :: char16Units rest := by
    induction units with
    | nil => exact char16Units_leUInt16 0 rest
    | cons unit units ih =>
        rw [List.cons_append, List.flatMap_cons, List.append_assoc, char16Units_leUInt16,
          ih (fun hmem => h (List.mem_cons_of_mem _ hmem))]
        rfl
  rw [wcharName, hunits, List.takeWhile_append_of_pos]
  · simp
  · intro unit hunit
    have hne : unit ≠ 0 := by
      rintro rfl
      exact h hunit
    simpa using hne

def NulFree (entries : List (UInt32 × List UInt16)) : Prop := ∀ entry ∈ entries, 0 ∉ entry.2

theorem longEntry_split (hid : 4 ≤ bytes.length)
    (hname : wcharNameSize (bytes.drop 4) ≤ (bytes.drop 4).length) :
    bytes = longEntry (uint32At bytes 0, wcharName (bytes.drop 4)) ++
      bytes.drop (4 + wcharNameSize (bytes.drop 4)) := by
  have hhead : leUInt32 (uint32At bytes 0) = bytes.take 4 := by
    rw [leUInt32_uint32At (by omega), List.drop_zero]
  rw [longEntry, hhead, ← take_wcharNameSize hname, List.append_assoc, ← List.drop_drop,
    List.take_append_drop, List.take_append_drop]

section LongEntry

variable {entry : UInt32 × List UInt16}

theorem drop_four_longEntry (entry : UInt32 × List UInt16) (rest : Bytes) :
    (longEntry entry ++ rest).drop 4 = (entry.2 ++ [0]).flatMap leUInt16 ++ rest := by
  rw [longEntry, List.append_assoc, List.drop_left' (length_leUInt32 entry.1)]

theorem uint32At_longEntry (entry : UInt32 × List UInt16) (rest : Bytes) :
    uint32At (longEntry entry ++ rest) 0 = entry.1 := by
  rw [longEntry, List.append_assoc, uint32At_zero]

theorem wcharName_longEntry (h : 0 ∉ entry.2) (rest : Bytes) :
    wcharName ((longEntry entry ++ rest).drop 4) = entry.2 := by
  rw [drop_four_longEntry, wcharName_longName h]

theorem four_add_wcharNameSize (h : 0 ∉ entry.2) (rest : Bytes) :
    4 + wcharNameSize ((longEntry entry ++ rest).drop 4) = (longEntry entry).length := by
  rw [wcharNameSize, wcharName_longEntry h, length_longEntry]

theorem length_drop_four_longEntry (entry : UInt32 × List UInt16) (rest : Bytes) :
    ((longEntry entry ++ rest).drop 4).length + 4 = (longEntry entry).length + rest.length := by
  have hlen := length_longEntry entry
  rw [List.length_drop, List.length_append]
  omega

end LongEntry

/-- The first pass succeeds on sequences of entries, and counts them. -/
theorem countLongFormats_eq_some_iff {count : ℕ} :
    countLongFormats bytes = some count ↔
      ∃ entries, NulFree entries ∧ bytes = entries.flatMap longEntry ∧ count = entries.length := by
  constructor
  · intro h
    induction bytes using countLongFormats.induct generalizing count with
    | case1 bytes hempty =>
        rw [countLongFormats, if_pos hempty] at h
        obtain rfl := Option.some.inj h
        exact ⟨[], by simp [NulFree], List.length_eq_zero_iff.mp hempty, rfl⟩
    | case2 bytes hempty hshort =>
        rw [countLongFormats, if_neg hempty, if_pos hshort] at h
        exact absurd h (by simp)
    | case3 bytes hempty hshort hcut =>
        rw [countLongFormats, if_neg hempty, if_neg hshort, if_pos hcut] at h
        exact absurd h (by simp)
    | case4 bytes hempty hshort hcut ih =>
        rw [countLongFormats, if_neg hempty, if_neg hshort, if_neg hcut] at h
        obtain ⟨others, hothers, rfl⟩ := Option.map_eq_some_iff.mp h
        obtain ⟨entries, hfree, hbytes, hcount⟩ := ih hothers
        have hsplit := longEntry_split (by omega) (not_lt.mp hcut)
        refine ⟨(uint32At bytes 0, wcharName (bytes.drop 4)) :: entries, ?_, ?_, ?_⟩
        · exact List.forall_mem_cons.mpr ⟨wcharName_zero_notMem _, hfree⟩
        · rw [List.flatMap_cons, ← hbytes]
          exact hsplit
        · rw [hcount, List.length_cons]
  · rintro ⟨entries, hfree, rfl, rfl⟩
    induction entries with
    | nil =>
        rw [countLongFormats]
        rfl
    | cons entry entries ih =>
        obtain ⟨hentry, hentries⟩ := List.forall_mem_cons.mp hfree
        have hsize := four_add_wcharNameSize hentry (entries.flatMap longEntry)
        have hlen := length_longEntry entry
        have hdrop := length_drop_four_longEntry entry (entries.flatMap longEntry)
        rw [List.flatMap_cons, countLongFormats, if_neg (by rw [List.length_append]; omega),
          if_neg (by rw [List.length_append]; omega), if_neg (by omega), hsize,
          List.drop_left' rfl, ih hentries, Option.map_some, List.length_cons]

theorem readLongFormats_entries {entries : List (UInt32 × List UInt16)} (hfree : NulFree entries) :
    readLongFormats reader entries.length (entries.flatMap longEntry) =
      readEntries (readLongEntry reader) entries := by
  induction entries with
  | nil => rfl
  | cons entry entries ih =>
      obtain ⟨hentry, hentries⟩ := List.forall_mem_cons.mp hfree
      have hsize := four_add_wcharNameSize hentry (entries.flatMap longEntry)
      have hlen := length_longEntry entry
      have hdrop := length_drop_four_longEntry entry (entries.flatMap longEntry)
      rw [List.flatMap_cons, List.length_cons, readLongFormats,
        if_neg (by rw [List.length_append]; omega), if_neg (by omega), hsize,
        uint32At_longEntry, wcharName_longEntry hentry, List.drop_left' rfl, ih hentries]
      rfl

/-- The reader of long names accepts exactly the sequences of entries, and what it makes
of them is what it makes of each entry: both passes see the same entries. -/
theorem readFormatList_long_iff (reader : NameReader) (header : ClipboardHeader)
    (bytes : Bytes) (formats : List CliprdrFormat) :
    cliprdrReadFormatList reader header true bytes = .ok formats ↔
      header.dataLen.toNat ≤ bytes.length ∧
        ∃ entries, NulFree entries ∧
          bytes.take header.dataLen.toNat = entries.flatMap longEntry ∧
          (entries = [] ∨ reader.calloc entries.length = true) ∧
          readEntries (readLongEntry reader) entries = .ok formats := by
  by_cases hlen : bytes.length < header.dataLen.toNat
  · rw [cliprdrReadFormatList, if_pos hlen]
    exact iff_of_false (by simp) (fun h => by omega)
  rw [cliprdrReadFormatList, if_neg hlen]
  simp only [Bool.not_true, Bool.false_eq_true, if_false]
  by_cases hzero : header.dataLen = 0
  · rw [if_pos hzero, hzero]
    constructor
    · intro h
      cases h
      exact ⟨Nat.zero_le _, [], by simp [NulFree], rfl, Or.inl rfl, rfl⟩
    · rintro ⟨-, entries, -, hentries, -, hread⟩
      have hnil : entries = [] := by
        cases entries with
        | nil => rfl
        | cons entry entries =>
            have hlength := congrArg List.length hentries
            rw [List.flatMap_cons, List.length_append, length_longEntry, UInt32.toNat_zero,
              List.take_zero, List.length_nil] at hlength
            omega
      rw [hnil] at hread
      exact hread
  rw [if_neg hzero]
  set sub := bytes.take header.dataLen.toNat with hsub
  have hpos : 0 < sub.length := by
    rw [hsub, List.length_take]
    have hne : header.dataLen.toNat ≠ 0 := fun h => hzero (UInt32.toNat_inj.mp h)
    omega
  constructor
  · intro h
    cases hcount : countLongFormats sub with
    | none => simp [hcount] at h
    | some numFormats =>
        obtain ⟨entries, hfree, hbytes, rfl⟩ := countLongFormats_eq_some_iff.mp hcount
        simp only [hcount] at h
        by_cases hcalloc : entries.length = 0 ∨ reader.calloc entries.length = false
        · rw [if_pos hcalloc] at h
          cases h
        · rw [if_neg hcalloc, hbytes, readLongFormats_entries hfree] at h
          obtain ⟨-, hcalloc⟩ := not_or.mp hcalloc
          exact ⟨not_lt.mp hlen, entries, hfree, hbytes, Or.inr (by simpa using hcalloc), h⟩
  · rintro ⟨-, entries, hfree, hbytes, hcalloc, hread⟩
    have hne : entries ≠ [] := by
      rintro rfl
      rw [hbytes] at hpos
      exact absurd hpos (lt_irrefl _)
    have hcount := countLongFormats_eq_some_iff.mpr ⟨entries, hfree, hbytes, rfl⟩
    have hroom : ¬ (entries.length = 0 ∨ reader.calloc entries.length = false) := by
      rw [not_or]
      exact ⟨fun h => hne (List.length_eq_zero_iff.mp h), by simp [hcalloc.resolve_left hne]⟩
    simp only [hcount]
    rw [if_neg hroom, hbytes, readLongFormats_entries hfree]
    exact hread

def Blocks (entries : List (UInt32 × Bytes)) : Prop := ∀ entry ∈ entries, entry.2.length = 32

section Short

variable {entry : UInt32 × Bytes} {entries : List (UInt32 × Bytes)} {tail : Bytes}

theorem length_shortEntry (h : entry.2.length = 32) : (shortEntry entry).length = 36 := by
  rw [shortEntry, List.length_append, length_leUInt32, h]

theorem length_shortEntries (h : Blocks entries) (tail : Bytes) :
    (entries.flatMap shortEntry ++ tail).length = 36 * entries.length + tail.length := by
  rw [List.length_append]
  congr 1
  induction entries with
  | nil => rfl
  | cons entry entries ih =>
      obtain ⟨hentry, hentries⟩ := List.forall_mem_cons.mp h
      rw [List.flatMap_cons, List.length_append, length_shortEntry hentry, ih hentries,
        List.length_cons]
      omega

theorem length_div_shortEntries (h : Blocks entries) {tail : Bytes} (htail : tail.length < 36) :
    (entries.flatMap shortEntry ++ tail).length / 36 = entries.length := by
  rw [length_shortEntries h]
  omega

/-- Any bytes are as many entries as fit, and a rest that is no entry. -/
theorem exists_shortEntries (bytes : Bytes) :
    ∃ entries tail, Blocks entries ∧ tail.length < 36 ∧
      bytes = entries.flatMap shortEntry ++ tail := by
  induction hn : bytes.length using Nat.strong_induction_on generalizing bytes with
  | _ n ih =>
      by_cases hshort : bytes.length < 36
      · exact ⟨[], bytes, by simp [Blocks], hshort, rfl⟩
      · have hrest : (bytes.drop 36).length < n := by
          rw [List.length_drop]
          omega
        obtain ⟨entries, tail, hblocks, htail, hbytes⟩ := ih _ hrest (bytes.drop 36) rfl
        refine ⟨(uint32At bytes 0, (bytes.drop 4).take 32) :: entries, tail, ?_, htail, ?_⟩
        · refine List.forall_mem_cons.mpr ⟨?_, hblocks⟩
          rw [List.length_take, List.length_drop]
          omega
        · have hid : leUInt32 (uint32At bytes 0) = bytes.take 4 := by
            rw [leUInt32_uint32At (by omega), List.drop_zero]
          have hblock : (bytes.drop 4).drop 32 = bytes.drop 36 := by rw [List.drop_drop]
          rw [List.flatMap_cons, List.append_assoc, ← hbytes, shortEntry, hid, ← hblock,
            List.append_assoc, List.take_append_drop, List.take_append_drop]

/-- One turn of the loop over the short entries. -/
theorem readShortFormats_cons (h : entry.2.length = 32) (left : ℕ) (rest : Bytes) :
    readShortFormats reader asciiNames (left + 1) (shortEntry entry ++ rest) =
      match readShortEntry reader asciiNames entry with
      | .error error => .error error
      | .ok format => (readShortFormats reader asciiNames left rest).map (format :: ·) := by
  have hlen := length_shortEntry h
  have hid : uint32At (shortEntry entry ++ rest) 0 = entry.1 := by
    rw [shortEntry, List.append_assoc, uint32At_zero]
  have hblock : ((shortEntry entry ++ rest).drop 4).take 32 = entry.2 := by
    rw [shortEntry, List.append_assoc, List.drop_left' (length_leUInt32 entry.1),
      List.take_left' h]
  rw [readShortFormats, if_neg (by rw [List.length_append]; omega),
    if_neg (by rw [List.length_drop, List.length_append]; omega), hid, hblock,
    List.drop_left' hlen]

theorem readShortFormats_entries (hblocks : Blocks entries) (htail : tail.length < 4) :
    readShortFormats reader asciiNames entries.length (entries.flatMap shortEntry ++ tail) =
      readEntries (readShortEntry reader asciiNames) entries := by
  induction entries with
  | nil =>
      rw [List.flatMap_nil, List.nil_append, List.length_nil, readShortFormats,
        if_neg (by omega)]
      rfl
  | cons entry entries ih =>
      obtain ⟨hentry, hentries⟩ := List.forall_mem_cons.mp hblocks
      rw [List.flatMap_cons, List.append_assoc, List.length_cons, readShortFormats_cons hentry,
        ih hentries]
      rfl

/-- More than three bytes behind the last entry are an error. -/
theorem readShortFormats_tail (hblocks : Blocks entries) (htail : 4 ≤ tail.length)
    (formats : List CliprdrFormat) :
    readShortFormats reader asciiNames entries.length (entries.flatMap shortEntry ++ tail) ≠
      .ok formats := by
  induction entries generalizing formats with
  | nil =>
      rw [List.flatMap_nil, List.nil_append, List.length_nil, readShortFormats, if_pos htail]
      simp
  | cons entry entries ih =>
      obtain ⟨hentry, hentries⟩ := List.forall_mem_cons.mp hblocks
      rw [List.flatMap_cons, List.append_assoc, List.length_cons, readShortFormats_cons hentry]
      cases readShortEntry reader asciiNames entry with
      | error error => simp
      | ok format =>
          intro h
          cases hrest : readShortFormats reader asciiNames entries.length
              (entries.flatMap shortEntry ++ tail) with
          | error error => simp [hrest, Except.map] at h
          | ok others => exact ih hentries others hrest

end Short

/-- The reader of short names accepts exactly the sequences of at least one entry, with at
most three bytes behind them, and the list of no bytes. -/
theorem readFormatList_short_iff (reader : NameReader) (header : ClipboardHeader)
    (bytes : Bytes) (formats : List CliprdrFormat) :
    cliprdrReadFormatList reader header false bytes = .ok formats ↔
      header.dataLen.toNat ≤ bytes.length ∧
        ∃ entries tail, Blocks entries ∧ tail.length < 4 ∧
          bytes.take header.dataLen.toNat = entries.flatMap shortEntry ++ tail ∧
          (header.dataLen = 0 ∨ entries ≠ [] ∧ reader.calloc entries.length = true) ∧
          readEntries (readShortEntry reader (header.msgFlags &&& cbAsciiNames ≠ 0)) entries =
            .ok formats := by
  by_cases hlen : bytes.length < header.dataLen.toNat
  · rw [cliprdrReadFormatList, if_pos hlen]
    exact iff_of_false (by simp) (fun h => by omega)
  rw [cliprdrReadFormatList, if_neg hlen]
  simp only [Bool.not_false, if_true]
  by_cases hzero : header.dataLen = 0
  · rw [if_pos hzero, hzero, UInt32.toNat_zero, List.take_zero]
    constructor
    · intro h
      cases h
      exact ⟨Nat.zero_le _, [], [], by simp [Blocks], by simp, rfl, Or.inl rfl, rfl⟩
    · rintro ⟨-, entries, tail, hblocks, -, hentries, -, hread⟩
      have hlength := congrArg List.length hentries
      rw [length_shortEntries hblocks, List.length_nil] at hlength
      obtain rfl := List.length_eq_zero_iff.mp (show entries.length = 0 by omega)
      exact hread
  rw [if_neg hzero]
  set sub := bytes.take header.dataLen.toNat with hsub
  constructor
  · intro h
    obtain ⟨entries, tail, hblocks, htail, hbytes⟩ := exists_shortEntries sub
    have hcount : sub.length / 36 = entries.length := by
      rw [hbytes, length_div_shortEntries hblocks htail]
    rw [hcount] at h
    by_cases hroom : entries.length = 0 ∨ reader.calloc entries.length = false
    · rw [if_pos hroom] at h
      cases h
    · rw [if_neg hroom, hbytes] at h
      have hshort : tail.length < 4 := by
        by_contra hlong
        exact readShortFormats_tail hblocks (not_lt.mp hlong) formats h
      rw [readShortFormats_entries hblocks hshort] at h
      obtain ⟨hne, hcalloc⟩ := not_or.mp hroom
      refine ⟨not_lt.mp hlen, entries, tail, hblocks, hshort, hbytes, Or.inr ⟨?_, ?_⟩, h⟩
      · exact fun hnil => hne (List.length_eq_zero_iff.mpr hnil)
      · simpa using hcalloc
  · rintro ⟨-, entries, tail, hblocks, htail, hbytes, hroom, hread⟩
    obtain ⟨hne, hcalloc⟩ := hroom.resolve_left hzero
    have hcount : sub.length / 36 = entries.length := by
      rw [hbytes, length_div_shortEntries hblocks (by omega)]
    have hroom : ¬ (entries.length = 0 ∨ reader.calloc entries.length = false) := by
      rw [not_or]
      exact ⟨fun h => hne (List.length_eq_zero_iff.mp h), by simp [hcalloc]⟩
    rw [hcount, if_neg hroom, hbytes, readShortFormats_entries hblocks htail]
    exact hread

/-- The reader accepts exactly these lists. Long names are a sequence of entries that end
with a NUL. Short names are a sequence of blocks with at most three bytes behind it, but not
those bytes alone. Either way the result is what each entry is read as. -/
theorem format_lists_accepted (reader : NameReader) (header : ClipboardHeader) (bytes : Bytes)
    (formats : List CliprdrFormat) :
    (cliprdrReadFormatList reader header true bytes = .ok formats ↔
      header.dataLen.toNat ≤ bytes.length ∧
        ∃ entries, NulFree entries ∧
          bytes.take header.dataLen.toNat = entries.flatMap longEntry ∧
          (entries = [] ∨ reader.calloc entries.length = true) ∧
          readEntries (readLongEntry reader) entries = .ok formats) ∧
    (cliprdrReadFormatList reader header false bytes = .ok formats ↔
      header.dataLen.toNat ≤ bytes.length ∧
        ∃ entries tail, Blocks entries ∧ tail.length < 4 ∧
          bytes.take header.dataLen.toNat = entries.flatMap shortEntry ++ tail ∧
          (header.dataLen = 0 ∨ entries ≠ [] ∧ reader.calloc entries.length = true) ∧
          readEntries (readShortEntry reader (header.msgFlags &&& cbAsciiNames ≠ 0)) entries =
            .ok formats) :=
  ⟨readFormatList_long_iff reader header bytes formats,
    readFormatList_short_iff reader header bytes formats⟩

end QfClient
