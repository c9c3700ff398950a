import Mathlib.Data.List.Basic
import Mathlib.Tactic.Common

/-!
# Qt strings and paths

A `QString` is its sequence of UTF-16 code units. The path functions follow the
documented behaviour on Unix: a path is absolute when it starts with a slash or
with a colon, which names a resource; `QDir::filePath` leaves an absolute name
alone and puts a relative one below the directory; `QDir::cleanPath` drops
empty components and resolves the dot components.
-/

namespace Qt

abbrev QString := List UInt16

def ofAscii (s : String) : QString := s.toList.map (fun c => UInt16.ofNat c.toNat)

def slash : UInt16 := 0x2F

def backslash : UInt16 := 0x5C

def colon : UInt16 := 0x3A

def dot : QString := [0x2E]

def dotDot : QString := [0x2E, 0x2E]

/-- `split('/', Qt::SkipEmptyParts)`. -/
def splitSkipEmpty (path : QString) : List QString := (path.splitOn slash).filter (· ≠ [])

def join (parts : List QString) : QString := [slash].intercalate parts

/-- `path.section('/', 0, 0)`. -/
def firstSection (path : QString) : QString := (path.splitOn slash).headD []

def isAbsolutePath (path : QString) : Bool :=
  path.head? = some slash || path.head? = some colon

/-- `QDir(root).filePath(name)`. -/
def filePath (root name : QString) : QString :=
  if isAbsolutePath name then name else root ++ slash :: name

/-- The components of a path with the dot components resolved against those
already kept, the last one first. -/
def resolveDots (rooted : Bool) : List QString → List QString → List QString
  | kept, [] => kept.reverse
  | kept, part :: parts =>
      if part = dot then resolveDots rooted kept parts
      else if part = dotDot then
        match kept with
        | [] => resolveDots rooted (if rooted then [] else [dotDot]) parts
        | last :: kept =>
            if last = dotDot then resolveDots rooted (dotDot :: last :: kept) parts
            else resolveDots rooted kept parts
      else resolveDots rooted (part :: kept) parts

def cleanPath (path : QString) : QString :=
  let rooted := path.head? = some slash
  let parts := resolveDots rooted [] (splitSkipEmpty path)
  if rooted then slash :: join parts
  else if parts = [] ∧ path ≠ [] then dot
  else join parts

/-- `QString::fromUtf16` of a string with a given length. A byte order mark in front
gives the order of the bytes and is dropped. -/
def fromUtf16Sized : List UInt16 → QString
  | [] => []
  | unit :: rest =>
      if unit = 0xFEFF then rest
      else if unit = 0xFFFE then rest.map (fun (u : UInt16) => (u <<< 8) ||| (u >>> 8))
      else unit :: rest

/-- The same function for a string that ends at its first NUL. -/
def fromUtf16 (units : List UInt16) : QString := fromUtf16Sized (units.takeWhile (· ≠ 0))

/-- No byte order mark stands in front. -/
structure Unmarked (units : List UInt16) : Prop where
  noMark : units.head? ≠ some 0xFEFF
  noSwappedMark : units.head? ≠ some 0xFFFE

theorem Unmarked.fromUtf16Sized {units : List UInt16} (h : Unmarked units) :
    fromUtf16Sized units = units := by
  cases units with
  | nil => rfl
  | cons unit units =>
      have hmark : unit ≠ 0xFEFF := fun he => h.noMark (congrArg some he)
      have hswapped : unit ≠ 0xFFFE := fun he => h.noSwappedMark (congrArg some he)
      rw [Qt.fromUtf16Sized, if_neg hmark, if_neg hswapped]

theorem Unmarked.takeWhile {units : List UInt16} (h : Unmarked units) (p : UInt16 → Bool) :
    Unmarked (units.takeWhile p) := by
  cases units with
  | nil => exact h
  | cons unit units =>
      by_cases hunit : p unit = true
      · rw [List.takeWhile_cons_of_pos hunit]
        exact ⟨h.noMark, h.noSwappedMark⟩
      · rw [List.takeWhile_cons_of_neg hunit]
        exact ⟨by simp, by simp⟩

/-- A component that names an entry of a directory. -/
structure IsPlain (part : QString) : Prop where
  ne_nil : part ≠ []
  ne_dot : part ≠ dot
  ne_dotDot : part ≠ dotDot
  slash_notMem : slash ∉ part

theorem notMem_of_mem_splitOn {path part : QString} (h : part ∈ path.splitOn slash) :
    slash ∉ part := by
  induction path generalizing part with
  | nil =>
      obtain rfl : part = [] := by simpa using h
      exact List.not_mem_nil
  | cons u path ih =>
      rw [List.splitOn_cons_eq_if_modifyHead] at h
      split_ifs at h with hu
      · rcases List.mem_cons.mp h with rfl | h
        · exact List.not_mem_nil
        · exact ih h
      · cases hs : path.splitOn slash with
        | nil => exact absurd hs (List.splitOn_ne_nil _ _)
        | cons first rest =>
            rw [hs, List.modifyHead_cons] at h
            rcases List.mem_cons.mp h with rfl | h
            · have hfirst : slash ∉ first := ih (by simp [hs])
              simp only [List.mem_cons, not_or]
              exact ⟨fun he => hu (by simp [he]), hfirst⟩
            · exact ih (by simp [hs, h])

theorem splitSkipEmpty_spec {path part : QString} (h : part ∈ splitSkipEmpty path) :
    part ≠ [] ∧ slash ∉ part := by
  obtain ⟨hmem, hne⟩ := List.mem_filter.mp h
  exact ⟨by simpa using hne, notMem_of_mem_splitOn hmem⟩

/-- The first component of a path that does not start with a slash. -/
theorem splitSkipEmpty_cons {u : UInt16} (path : QString) (hu : u ≠ slash) :
    ∃ tail parts, splitSkipEmpty (u :: path) = (u :: tail) :: parts := by
  rw [splitSkipEmpty, List.splitOn_cons_eq_if_modifyHead, if_neg (by simpa using hu)]
  cases hs : path.splitOn slash with
  | nil => exact absurd hs (List.splitOn_ne_nil _ _)
  | cons first rest =>
      refine ⟨first, rest.filter (· ≠ []), ?_⟩
      rw [List.modifyHead_cons, List.filter_cons_of_pos (by simp)]

theorem splitOn_join {parts : List QString} (h : ∀ part ∈ parts, slash ∉ part)
    (hne : parts ≠ []) : (join parts).splitOn slash = parts :=
  List.splitOn_intercalate slash h hne

theorem firstSection_join {part : QString} {parts : List QString}
    (h : ∀ q ∈ part :: parts, slash ∉ q) : firstSection (join (part :: parts)) = part := by
  rw [firstSection, splitOn_join h (List.cons_ne_nil _ _)]
  rfl

@[simp] theorem join_singleton (part : QString) : join [part] = part :=
  List.intercalate_singleton

theorem head?_join {u : UInt16} {tail : QString} (parts : List QString) :
    (join ((u :: tail) :: parts)).head? = some u := by
  cases parts with
  | nil => rfl
  | cons q qs => rfl

theorem head?_join_ne_slash {u : UInt16} {tail : QString} (parts : List QString) (hu : u ≠ slash) :
    (join ((u :: tail) :: parts)).head? ≠ some slash := by
  rw [head?_join]
  simpa using hu

theorem splitSkipEmpty_join {parts : List QString} (h : ∀ part ∈ parts, IsPlain part) :
    splitSkipEmpty (join parts) = parts := by
  cases parts with
  | nil => rfl
  | cons part parts =>
      rw [splitSkipEmpty, splitOn_join (fun q hq => (h q hq).slash_notMem) (List.cons_ne_nil _ _),
        List.filter_eq_self]
      intro q hq
      simpa using (h q hq).ne_nil

theorem resolveDots_plain {rooted : Bool} {kept parts : List QString}
    (h : ∀ part ∈ parts, IsPlain part) :
    resolveDots rooted kept parts = kept.reverse ++ parts := by
  induction parts generalizing kept with
  | nil => simp [resolveDots]
  | cons part parts ih =>
      have hpart := h part (by simp)
      have hrest := @ih (part :: kept) (fun q hq => h q (List.mem_cons_of_mem _ hq))
      simp only [resolveDots, if_neg hpart.ne_dot, if_neg hpart.ne_dotDot, hrest,
        List.reverse_cons, List.append_assoc, List.singleton_append]

/-- A relative path of plain components is clean. -/
theorem cleanPath_join {u : UInt16} {tail : QString} {parts : List QString}
    (h : ∀ part ∈ (u :: tail) :: parts, IsPlain part) (hu : u ≠ slash) :
    cleanPath (join ((u :: tail) :: parts)) = join ((u :: tail) :: parts) := by
  have hhead : (join ((u :: tail) :: parts)).head? ≠ some slash := head?_join_ne_slash parts hu
  simp only [cleanPath, splitSkipEmpty_join h, resolveDots_plain h, hhead, decide_false, if_false,
    List.reverse_nil, List.nil_append]
  simp

/-- `path` is `root`, a slash and then components that name entries. -/
def StrictlyBelow (root path : QString) : Prop :=
  ∃ parts : List QString, parts ≠ [] ∧ (∀ part ∈ parts, IsPlain part) ∧
    path = root ++ slash :: join parts

theorem StrictlyBelow.slash_mem {root path : QString} (h : StrictlyBelow root path) :
    slash ∈ path := by
  obtain ⟨parts, -, -, rfl⟩ := h
  simp

end Qt
