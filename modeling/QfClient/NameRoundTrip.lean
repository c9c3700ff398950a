import QfClient.FileCapture
import QfClient.RemotePath

/-!
# Names there and back

`clipboardDisplayName` spells the way from a selected file to one below it with
backslashes, and `safeRemoteRelativePath` turns such a name into a relative path again.
The two agree on a name unless it has a backslash in it already or looks like that of
a drive.
-/

namespace QfClient

open Qt

/-- The name of the root and the components below it, with backslashes between them. -/
def announcedName (rootName : QString) (names : List QString) : QString :=
  rootName ++ names.flatMap (backslash :: ·)

/-- The file is the root itself, or `names` lead to it from there. -/
inductive LiesAt (root : QFileInfo) : QFileInfo → List QString → Prop
  | root : LiesAt root root []
  | below {file : QFileInfo} {names : List QString} : names ≠ [] →
      file.path.head? = some slash → components file.path = components root.path ++ names →
      LiesAt root file names

variable {root dir file : QFileInfo} {rootName name : QString} {names : List QString}

theorem LiesAt.names_isPlain (h : LiesAt root file names) : ∀ name ∈ names, IsPlain name := by
  cases h with
  | root => exact fun name hname => absurd hname List.not_mem_nil
  | below _ _ hcomponents =>
      intro name hname
      apply components_isPlain file.path
      rw [hcomponents]
      exact List.mem_append_right _ hname

theorem LiesAt.components_eq (h : LiesAt root file names) :
    components file.path = components root.path ++ names := by
  cases h with
  | root => rw [List.append_nil]
  | below _ _ hcomponents => exact hcomponents

theorem LiesAt.head_eq (h : LiesAt root file names) (hroot : root.path.head? = some slash) :
    file.path.head? = some slash := by
  cases h with
  | root => exact hroot
  | below _ hhead _ => exact hhead

/-- What the walk through a root comes by lies below it. -/
theorem AtOrBelow.liesAt (h : AtOrBelow root file) (hroot : root.path.head? = some slash) :
    ∃ names, LiesAt root file names := by
  induction h with
  | refl => exact ⟨[], .root⟩
  | @entry dir size entries name child _ _ _ _ hname ih =>
      obtain ⟨names, hdir⟩ := ih
      have hpath : dirFilePath dir.absoluteFilePath name.1 =
          slash :: join (components dir.path ++ [name.1]) :=
        dirFilePath_absoluteFilePath (hdir.head_eq hroot) hname
      have hplain : ∀ part ∈ components dir.path ++ [name.1], IsPlain part :=
        components_append_isPlain dir.path (by simpa using name.2)
      refine ⟨names ++ [name.1], .below (by simp) ?_ ?_⟩
      · exact congrArg List.head? hpath
      · rw [hpath, components_join hplain, hdir.components_eq, List.append_assoc]

theorem slash_notMem_fileName (path : QString) : slash ∉ fileName path := by
  unfold fileName
  cases hsplit : path.splitOn slash with
  | nil => exact List.not_mem_nil
  | cons first rest =>
      have hmem : (first :: rest).getLastD [] ∈ path.splitOn slash := by
        rw [hsplit, List.getLastD_cons]
        exact List.getLastD_mem_cons
      exact notMem_of_mem_splitOn hmem

/-- What does not occur need not be replaced. -/
theorem replace_of_notMem {part : QString} {before after : UInt16} (h : before ∉ part) :
    part.map (fun u => if u = before then after else u) = part := by
  have hid : part.map (fun u => if u = before then after else u) = part.map id := by
    apply List.map_congr_left
    intro u hu
    have hne : u ≠ before := fun he => h (he ▸ hu)
    exact if_neg hne
  rw [hid, List.map_id]

theorem map_backslash (hroot : slash ∉ rootName) (hnames : ∀ name ∈ names, IsPlain name) :
    (rootName ++ names.flatMap (slash :: ·)).map (fun u => if u = slash then backslash else u) =
      announcedName rootName names := by
  rw [List.map_append, replace_of_notMem hroot, announcedName]
  congr 1
  induction names with
  | nil => rfl
  | cons name names ih =>
      rw [List.flatMap_cons, List.flatMap_cons, List.map_append,
        ih fun q hq => hnames q (List.mem_cons_of_mem _ hq), List.map_cons, if_pos rfl,
        replace_of_notMem (hnames name List.mem_cons_self).slash_notMem]

/-- A file is announced by the name of the root and the components below it. -/
theorem clipboardDisplayName_eq (hroot : root.path.head? = some slash)
    (hfile : LiesAt root file names) :
    clipboardDisplayName root file = announcedName root.fileName names := by
  have hname : slash ∉ root.fileName := slash_notMem_fileName root.path
  rw [← map_backslash hname hfile.names_isPlain]
  cases hfile with
  | root =>
      simp only [clipboardDisplayName]
      rw [if_neg (not_not_intro rfl), List.flatMap_nil, List.append_nil]
  | below hne hhead hcomponents =>
      have hdiffer : root.absoluteFilePath ≠ file.absoluteFilePath := by
        intro heq
        have hsame := congrArg components heq
        rw [QFileInfo.absoluteFilePath, QFileInfo.absoluteFilePath,
          components_absoluteFilePath hroot, components_absoluteFilePath hhead,
          hcomponents] at hsame
        exact hne (List.self_eq_append_right.mp hsame)
      have hrelative : relativeFilePath root.absoluteFilePath file.absoluteFilePath = join names :=
        relativeFilePath_below hroot hhead hne hcomponents
      simp only [clipboardDisplayName]
      rw [if_pos hdiffer, hrelative, slash_cons_join hne]

theorem mem_of_mem_join {u : UInt16} {parts : List QString} (h : u ∈ join parts) :
    u = slash ∨ ∃ part ∈ parts, u ∈ part := by
  cases parts with
  | nil => exact absurd h List.not_mem_nil
  | cons part parts =>
      rw [join_cons, List.mem_append, List.mem_flatMap] at h
      rcases h with h | ⟨next, hnext, h⟩
      · exact Or.inr ⟨part, List.mem_cons_self, h⟩
      · rcases List.mem_cons.mp h with rfl | h
        · exact Or.inl rfl
        · exact Or.inr ⟨next, List.mem_cons_of_mem _ hnext, h⟩

theorem mem_join_of_mem {u : UInt16} {part : QString} {parts : List QString} (hpart : part ∈ parts)
    (h : u ∈ part) : u ∈ join parts := by
  cases parts with
  | nil => cases hpart
  | cons first parts =>
      rw [join_cons, List.mem_append, List.mem_flatMap]
      rcases List.mem_cons.mp hpart with rfl | hpart
      · exact Or.inl h
      · exact Or.inr ⟨part, hpart, List.mem_cons_of_mem _ h⟩

theorem mem_of_mem_splitSkipEmpty {u : UInt16} {path part : QString}
    (hpart : part ∈ splitSkipEmpty path) (h : u ∈ part) : u ∈ path := by
  have hjoin : join (path.splitOn slash) = path := List.intercalate_splitOn slash
  rw [← hjoin]
  exact mem_join_of_mem (List.mem_of_mem_filter hpart) h

theorem backslash_notMem_normalizeSeparators (name : QString) :
    backslash ∉ normalizeSeparators name := by
  intro hmem
  obtain ⟨u, -, hu⟩ := List.mem_map.mp hmem
  split_ifs at hu with hback
  · exact absurd hu (by decide)
  · exact hback hu

/-- A path made of a name has no backslash. -/
theorem backslash_notMem_safeRemoteRelativePath (name : QString) :
    backslash ∉ safeRemoteRelativePath name := by
  by_cases hempty : safeRemoteRelativePath name = []
  · rw [hempty]
    exact List.not_mem_nil
  · obtain ⟨u, tail, parts, hpath, hsplit, -⟩ := safeRemoteRelativePath_spec hempty
    rw [hpath, ← hsplit]
    intro hmem
    rcases mem_of_mem_join hmem with hslash | ⟨part, hpart, hback⟩
    · exact absurd hslash (by decide)
    · exact backslash_notMem_normalizeSeparators name (mem_of_mem_splitSkipEmpty hpart hback)

/-- Without backslashes in its components an announced name becomes their path. -/
theorem normalizeSeparators_announcedName (h : ∀ part ∈ rootName :: names, backslash ∉ part) :
    normalizeSeparators (announcedName rootName names) = join (rootName :: names) := by
  have hroot := h rootName List.mem_cons_self
  rw [join_cons, announcedName, normalizeSeparators, List.map_append, ← normalizeSeparators,
    normalizeSeparators, replace_of_notMem hroot]
  congr 1
  have hnames : ∀ name ∈ names, backslash ∉ name :=
    fun name hname => h name (List.mem_cons_of_mem _ hname)
  clear h
  induction names with
  | nil => rfl
  | cons name names ih =>
      have hname := hnames name List.mem_cons_self
      rw [List.flatMap_cons, List.flatMap_cons, List.map_append, List.map_cons,
        replace_of_notMem hname, if_pos rfl,
        ih fun q hq => hnames q (List.mem_cons_of_mem _ hq)]

theorem join_getElem?_one {part : QString} (parts : List QString) (hne : part ≠ []) :
    (join (part :: parts))[1]? = some colon ↔ part[1]? = some colon := by
  rw [join_cons]
  match part with
  | [] => exact absurd rfl hne
  | [u] =>
      cases parts with
      | nil => simp
      | cons next parts =>
          rw [List.flatMap_cons]
          exact iff_of_false (fun h => absurd (Option.some.inj h) (by decide)) (by simp)
  | u :: v :: rest => rfl

/-- A name with a colon in second place is taken for one of a drive. -/
theorem safeRemoteRelativePath_drive {name : QString}
    (h : (normalizeSeparators name)[1]? = some colon) : safeRemoteRelativePath name = [] := by
  obtain ⟨hlength, -⟩ := List.getElem?_eq_some_iff.mp h
  exact if_pos (Or.inr ⟨hlength, h⟩)

/-- A path of plain components is kept, unless it looks like one of a drive. -/
theorem safeRemoteRelativePath_of_join {name part : QString} {parts : List QString}
    (hname : normalizeSeparators name = join (part :: parts))
    (hplain : ∀ q ∈ part :: parts, IsPlain q) (hdrive : part[1]? ≠ some colon) :
    safeRemoteRelativePath name = join (part :: parts) := by
  have hpart := hplain part List.mem_cons_self
  cases part with
  | nil => exact absurd rfl hpart.ne_nil
  | cons u tail =>
      have hu : u ≠ slash := fun he => hpart.slash_notMem (by simp [he])
      have hhead : (join ((u :: tail) :: parts)).head? ≠ some slash := head?_join_ne_slash parts hu
      have hcolon : (join ((u :: tail) :: parts))[1]? ≠ some colon :=
        mt (join_getElem?_one parts (List.cons_ne_nil _ _)).mp hdrive
      have hdots : ¬ ∃ q ∈ (u :: tail) :: parts, q = dot ∨ q = dotDot := by
        rintro ⟨q, hq, rfl | rfl⟩
        · exact (hplain _ hq).ne_dot rfl
        · exact (hplain _ hq).ne_dotDot rfl
      simp only [safeRemoteRelativePath, hname, splitSkipEmpty_join hplain]
      rw [if_neg (not_or.mpr ⟨hhead, fun h => hcolon h.2⟩), if_neg (List.cons_ne_nil _ _),
        if_neg hdots, cleanPath_join hplain hu]

/-- Without a root name every file is rejected. -/
theorem safeRemoteRelativePath_unnamed (names : List QString) :
    safeRemoteRelativePath (announcedName [] names) = [] := by
  cases names with
  | nil => rfl
  | cons name names =>
      have hhead : (normalizeSeparators (announcedName [] (name :: names))).head? = some slash :=
        rfl
      rw [safeRemoteRelativePath]
      exact if_pos (Or.inl hhead)

/-- The way to a file at or below a selected root arrives unchanged if and only if no
name on it has a backslash and the one of the root has no colon in second place. -/
theorem announced_path_arrives_iff (hroot : root.path.head? = some slash)
    (hname : IsPlain root.fileName) (hfile : LiesAt root file names) :
    safeRemoteRelativePath (clipboardDisplayName root file) = join (root.fileName :: names) ↔
      (∀ part ∈ root.fileName :: names, backslash ∉ part) ∧ root.fileName[1]? ≠ some colon := by
  have hplain : ∀ part ∈ root.fileName :: names, IsPlain part := by
    intro part hpart
    rcases List.mem_cons.mp hpart with rfl | hpart
    · exact hname
    · exact hfile.names_isPlain part hpart
  rw [clipboardDisplayName_eq hroot hfile]
  constructor
  · intro heq
    have hback : ∀ part ∈ root.fileName :: names, backslash ∉ part := by
      intro part hpart hmem
      have hnot := backslash_notMem_safeRemoteRelativePath (announcedName root.fileName names)
      rw [heq] at hnot
      exact hnot (mem_join_of_mem hpart hmem)
    refine ⟨hback, fun hcolon => ?_⟩
    have hnormalized := normalizeSeparators_announcedName hback
    have hdrive : (normalizeSeparators (announcedName root.fileName names))[1]? = some colon := by
      rw [hnormalized]
      exact (join_getElem?_one names hname.ne_nil).mpr hcolon
    rw [safeRemoteRelativePath_drive hdrive] at heq
    have hempty := splitSkipEmpty_join hplain
    rw [← heq] at hempty
    exact absurd hempty (by simp [splitSkipEmpty])
  · rintro ⟨hback, hcolon⟩
    exact safeRemoteRelativePath_of_join (normalizeSeparators_announcedName hback) hplain hcolon

theorem announced_path_arrives_two_components :
    safeRemoteRelativePath (clipboardDisplayName ⟨ofAscii "/d/r", none⟩
      ⟨ofAscii "/d/r/x/y", none⟩) = ofAscii "r/x/y" := by
  have hfile : LiesAt ⟨ofAscii "/d/r", none⟩ ⟨ofAscii "/d/r/x/y", none⟩
      [ofAscii "x", ofAscii "y"] := .below (by decide) (by decide) (by decide)
  have hname : IsPlain (QFileInfo.fileName ⟨ofAscii "/d/r", none⟩) :=
    ⟨by decide, by decide, by decide, by decide⟩
  exact (announced_path_arrives_iff (by decide) hname hfile).mpr ⟨by decide, by decide⟩

/-- The name `a:b` is rejected, and a backslash in a name becomes a directory. -/
theorem announced_path_does_not_arrive :
    IsPlain (QFileInfo.fileName ⟨ofAscii "/d/a:b", none⟩) ∧
      safeRemoteRelativePath (clipboardDisplayName ⟨ofAscii "/d/a:b", none⟩
        ⟨ofAscii "/d/a:b", none⟩) = [] ∧
      LiesAt ⟨ofAscii "/d/r", none⟩ ⟨ofAscii "/d/r/x\\y", none⟩ [ofAscii "x\\y"] ∧
      safeRemoteRelativePath (clipboardDisplayName ⟨ofAscii "/d/r", none⟩
        ⟨ofAscii "/d/r/x\\y", none⟩) = join [ofAscii "r", ofAscii "x", ofAscii "y"] ∧
      ¬ ∀ (root file : QFileInfo) (names : List QString), root.path.head? = some slash →
        IsPlain root.fileName → LiesAt root file names →
          safeRemoteRelativePath (clipboardDisplayName root file) =
            join (root.fileName :: names) := by
  have hname : IsPlain (QFileInfo.fileName ⟨ofAscii "/d/a:b", none⟩) :=
    ⟨by decide, by decide, by decide, by decide⟩
  have hrejected : safeRemoteRelativePath (clipboardDisplayName ⟨ofAscii "/d/a:b", none⟩
      ⟨ofAscii "/d/a:b", none⟩) = [] := by decide
  refine ⟨hname, hrejected, .below (by decide) (by decide) (by decide), by decide, fun hall => ?_⟩
  have harrives := hall ⟨ofAscii "/d/a:b", none⟩ _ [] (by decide) hname .root
  rw [hrejected] at harrives
  exact absurd harrives (by decide)

/-- A root that is given with a slash at its end has no name, and nothing of it arrives. -/
theorem trailing_slash_rejected (hroot : root.path.head? = some slash)
    (htrailing : root.path.getLast? = some slash) (hfile : LiesAt root file names) :
    safeRemoteRelativePath (clipboardDisplayName root file) = [] := by
  have hname : root.fileName = [] := by
    obtain ⟨front, hfront⟩ := List.getLast?_eq_some_iff.mp htrailing
    rw [QFileInfo.fileName, fileName, hfront, List.splitOn_append_cons_self]
    simp
  rw [clipboardDisplayName_eq hroot hfile, hname, safeRemoteRelativePath_unnamed]

end QfClient
