import Mathlib.Data.List.Induction
import QfClient.Qt

/-!
# Paths of files and directories

What `QFileInfo` and `QDir` make of the path of a file. An absolute path stands for
its components, those left when the dot components are resolved, and its absolute file
path spells them out; a slash at the end is kept.
-/

namespace Qt

def fileName (path : QString) : QString := (path.splitOn slash).getLastD []

/-- `QFileInfo(path).absoluteFilePath()` of a path that is absolute. -/
def absoluteFilePath (path : QString) : QString :=
  let clean := cleanPath path
  if path.getLast? = some slash ∧ clean.getLast? ≠ some slash then clean ++ [slash] else clean

/-- `QDir(dir).filePath(name)`, where `QDir` drops the slash at the end. -/
def dirFilePath (dir name : QString) : QString :=
  filePath (if dir.getLast? = some slash then dir.dropLast else dir) name

def dropCommon : List QString → List QString → List QString × List QString
  | dirElt :: dirElts, fileElt :: fileElts =>
      if dirElt = fileElt then dropCommon dirElts fileElts
      else (dirElt :: dirElts, fileElt :: fileElts)
  | dirElts, fileElts => (dirElts, fileElts)

/-- `QDir(dir).relativeFilePath(path)`. -/
def relativeFilePath (dir path : QString) : QString :=
  let dir := cleanPath dir
  let file := cleanPath path
  if isAbsolutePath file = false ∨ isAbsolutePath dir = false then file
  else
    let elts := dropCommon (splitSkipEmpty dir) (splitSkipEmpty file)
    let result := elts.1.flatMap (fun _ => dotDot ++ [slash]) ++ join elts.2
    if result = [] then dot else result

def components (path : QString) : List QString := resolveDots true [] (splitSkipEmpty path)

/-- The file that `names` lead to from `path`, one directory after the other. -/
def descend (path : QString) (names : List QString) : QString :=
  names.foldl (fun path name => dirFilePath (absoluteFilePath path) name) path

variable {path name : QString} {names parts : List QString}

theorem resolveDots_isPlain {kept : List QString} (hkept : ∀ part ∈ kept, IsPlain part)
    (hparts : ∀ part ∈ parts, part ≠ [] ∧ slash ∉ part) :
    ∀ part ∈ resolveDots true kept parts, IsPlain part := by
  induction parts generalizing kept with
  | nil =>
      intro part hpart
      exact hkept part (List.mem_reverse.mp hpart)
  | cons part parts ih =>
      obtain ⟨hne, hslash⟩ := hparts part List.mem_cons_self
      have hrest : ∀ q ∈ parts, q ≠ [] ∧ slash ∉ q :=
        fun q hq => hparts q (List.mem_cons_of_mem _ hq)
      simp only [resolveDots]
      split_ifs with hdot hdotDot
      · exact ih hkept hrest
      · cases kept with
        | nil => exact ih hkept hrest
        | cons last kept =>
            have hlast := hkept last List.mem_cons_self
            simp only [if_neg hlast.ne_dotDot]
            exact ih (fun q hq => hkept q (List.mem_cons_of_mem _ hq)) hrest
      · refine ih (fun q hq => ?_) hrest
        rcases List.mem_cons.mp hq with rfl | hq
        · exact ⟨hne, hdot, hdotDot, hslash⟩
        · exact hkept q hq

theorem components_isPlain (path : QString) : ∀ part ∈ components path, IsPlain part :=
  resolveDots_isPlain (fun _ h => absurd h List.not_mem_nil) (fun _ h => splitSkipEmpty_spec h)

theorem components_append_isPlain (path : QString) (h : ∀ name ∈ names, IsPlain name) :
    ∀ part ∈ components path ++ names, IsPlain part := by
  intro part hpart
  rcases List.mem_append.mp hpart with hpart | hpart
  · exact components_isPlain path part hpart
  · exact h part hpart

theorem splitSkipEmpty_append (front rest : QString) :
    splitSkipEmpty (front ++ slash :: rest) = splitSkipEmpty front ++ splitSkipEmpty rest := by
  rw [splitSkipEmpty, List.splitOn_append_cons_self, List.filter_append]
  rfl

theorem splitSkipEmpty_slash (rest : QString) :
    splitSkipEmpty (slash :: rest) = splitSkipEmpty rest :=
  splitSkipEmpty_append [] rest

theorem components_join (h : ∀ part ∈ parts, IsPlain part) :
    components (slash :: join parts) = parts := by
  rw [components, splitSkipEmpty_slash, splitSkipEmpty_join h, resolveDots_plain h]
  rfl

theorem join_concat (hne : parts ≠ []) (name : QString) :
    join (parts ++ [name]) = join parts ++ slash :: name := by
  induction parts with
  | nil => exact absurd rfl hne
  | cons part parts ih =>
      cases parts with
      | nil => simp [join, List.intercalate_cons_cons]
      | cons next parts =>
          have hrest := ih (List.cons_ne_nil _ _)
          simp only [join, List.cons_append, List.intercalate_cons_cons] at hrest ⊢
          rw [hrest]
          simp

theorem cleanPath_rooted (h : path.head? = some slash) :
    cleanPath path = slash :: join (components path) := by
  rw [cleanPath]
  simp [h, components]

/-- No component ends in a slash. -/
theorem getLast?_join (h : ∀ part ∈ parts, IsPlain part) :
    (join parts).getLast? ≠ some slash := by
  induction parts using List.reverseRecOn with
  | nil => simp [join]
  | append_singleton parts part ih =>
      have hpart := h part (by simp)
      have hlast : ∀ front : QString, (front ++ part).getLast? ≠ some slash := by
        intro front hlast
        rw [List.getLast?_append_of_ne_nil _ hpart.ne_nil] at hlast
        exact hpart.slash_notMem (List.mem_of_getLast? hlast)
      by_cases hne : parts = []
      · subst hne
        simpa using hlast []
      · rw [join_concat hne, List.append_cons]
        exact hlast _

/-- The absolute file path spells out the components, with or without a slash behind. -/
theorem absoluteFilePath_cases (h : path.head? = some slash) :
    absoluteFilePath path = slash :: join (components path) ∨
      (components path ≠ [] ∧
        absoluteFilePath path = slash :: join (components path) ++ [slash]) := by
  rw [absoluteFilePath, cleanPath_rooted h]
  split_ifs with hslash
  · right
    refine ⟨fun hnil => hslash.2 ?_, rfl⟩
    rw [hnil]
    rfl
  · exact Or.inl rfl

theorem head?_absoluteFilePath (h : path.head? = some slash) :
    (absoluteFilePath path).head? = some slash := by
  rcases absoluteFilePath_cases h with heq | ⟨-, heq⟩
  · exact congrArg List.head? heq
  · exact congrArg List.head? heq

theorem splitSkipEmpty_absoluteFilePath (h : path.head? = some slash) :
    splitSkipEmpty (absoluteFilePath path) = components path := by
  rcases absoluteFilePath_cases h with heq | ⟨-, heq⟩
  · rw [heq, splitSkipEmpty_slash, splitSkipEmpty_join (components_isPlain path)]
  · rw [heq, splitSkipEmpty_append, splitSkipEmpty_slash,
      splitSkipEmpty_join (components_isPlain path)]
    exact List.append_nil _

theorem absoluteFilePath_join (h : ∀ part ∈ parts, IsPlain part) :
    absoluteFilePath (slash :: join parts) = slash :: join parts := by
  rw [absoluteFilePath, cleanPath_rooted rfl, components_join h]
  exact if_neg fun hslash => hslash.2 hslash.1

/-- The path of an entry of a directory. -/
theorem dirFilePath_absoluteFilePath (h : path.head? = some slash)
    (hname : isAbsolutePath name = false) :
    dirFilePath (absoluteFilePath path) name = slash :: join (components path ++ [name]) := by
  have hfile : ∀ dir : QString, filePath dir name = dir ++ slash :: name := by
    intro dir
    rw [filePath, hname, if_neg (by simp)]
  rw [dirFilePath, hfile]
  rcases absoluteFilePath_cases h with heq | ⟨hne, heq⟩
  · rw [heq]
    by_cases hne : components path = []
    · simp [hne, join]
    · have hlast : (slash :: join (components path)).getLast? ≠ some slash := by
        have hjoin := getLast?_join (components_isPlain path)
        cases hcons : join (components path) with
        | nil =>
            have hsplit := splitSkipEmpty_join (components_isPlain path)
            rw [hcons] at hsplit
            exact absurd hsplit.symm hne
        | cons u rest =>
            rw [hcons] at hjoin
            rwa [List.getLast?_cons_cons]
      rw [if_neg hlast, join_concat hne, List.cons_append]
  · rw [heq, List.getLast?_concat, if_pos rfl, List.dropLast_concat, join_concat hne,
      List.cons_append]

theorem descend_cons (path name : QString) (names : List QString) :
    descend path (name :: names) = descend (dirFilePath (absoluteFilePath path) name) names := rfl

/-- Below its start a path is absolute and spells out the names that were followed. -/
theorem descend_eq (h : path.head? = some slash) (hne : names ≠ [])
    (hnames : ∀ name ∈ names, IsPlain name ∧ isAbsolutePath name = false) :
    descend path names = slash :: join (components path ++ names) := by
  induction names generalizing path with
  | nil => exact absurd rfl hne
  | cons name names ih =>
      obtain ⟨hplain, habs⟩ := hnames name List.mem_cons_self
      rw [descend_cons, dirFilePath_absoluteFilePath h habs]
      have hparts : ∀ part ∈ components path ++ [name], IsPlain part :=
        components_append_isPlain path (by simpa using hplain)
      by_cases hnil : names = []
      · rw [hnil]
        rfl
      · rw [ih rfl hnil fun q hq => hnames q (List.mem_cons_of_mem _ hq), components_join hparts,
          List.append_assoc, List.singleton_append]

/-- The names can be read off the absolute file path. -/
theorem splitSkipEmpty_descend (h : path.head? = some slash)
    (hnames : ∀ name ∈ names, IsPlain name ∧ isAbsolutePath name = false) :
    splitSkipEmpty (absoluteFilePath (descend path names)) = components path ++ names := by
  by_cases hnil : names = []
  · subst hnil
    rw [List.append_nil]
    exact splitSkipEmpty_absoluteFilePath h
  · have hparts := components_append_isPlain path fun name hname => (hnames name hname).1
    rw [descend_eq h hnil hnames, absoluteFilePath_join hparts, splitSkipEmpty_slash,
      splitSkipEmpty_join hparts]

theorem absoluteFilePath_descend_head (h : path.head? = some slash)
    (hnames : ∀ name ∈ names, IsPlain name ∧ isAbsolutePath name = false) :
    (absoluteFilePath (descend path names)).head? = some slash := by
  by_cases hnil : names = []
  · subst hnil
    exact head?_absoluteFilePath h
  · apply head?_absoluteFilePath
    rw [descend_eq h hnil hnames]
    rfl

/-- A name that is taken for a resource leads out of the directory. -/
theorem descend_resource (path : QString) (front : List QString) (hplain : IsPlain name)
    (hname : isAbsolutePath name = true) :
    (absoluteFilePath (descend path (front ++ [name]))).head? ≠ some slash := by
  have hdescend : descend path (front ++ [name]) = name := by
    rw [descend, List.foldl_append]
    exact if_pos hname
  rw [hdescend]
  cases name with
  | nil => exact absurd rfl hplain.ne_nil
  | cons u tail =>
      have hu : u ≠ slash := fun he => hplain.slash_notMem (by simp [he])
      have hparts : ∀ part ∈ [u :: tail], IsPlain part := by
        intro part hpart
        rwa [List.mem_singleton.mp hpart]
      have hclean : cleanPath (u :: tail) = u :: tail := by
        have hjoin := cleanPath_join hparts hu
        rwa [join_singleton] at hjoin
      rw [absoluteFilePath, hclean, if_neg fun hslash => hslash.2 hslash.1, List.head?_cons]
      exact fun he => hu (Option.some.inj he)

theorem components_absoluteFilePath (h : path.head? = some slash) :
    components (absoluteFilePath path) = components path := by
  rw [components, splitSkipEmpty_absoluteFilePath h, resolveDots_plain (components_isPlain path)]
  rfl

theorem cleanPath_absoluteFilePath (h : path.head? = some slash) :
    cleanPath (absoluteFilePath path) = slash :: join (components path) := by
  rw [cleanPath_rooted (head?_absoluteFilePath h), components_absoluteFilePath h]

theorem dropCommon_append (parts more : List QString) :
    dropCommon parts (parts ++ more) = ([], more) := by
  induction parts with
  | nil => cases more <;> rfl
  | cons part parts ih => rw [List.cons_append, dropCommon, if_pos rfl, ih]

/-- The components with a slash in front of each. -/
theorem slash_cons_join (hne : parts ≠ []) :
    slash :: join parts = parts.flatMap (slash :: ·) := by
  induction parts with
  | nil => exact absurd rfl hne
  | cons part parts ih =>
      cases parts with
      | nil => rw [join_singleton, List.flatMap_singleton]
      | cons next parts =>
          rw [List.flatMap_cons, ← ih (List.cons_ne_nil _ _), join, List.intercalate_cons_cons]
          simp [join]

theorem join_cons (part : QString) (parts : List QString) :
    join (part :: parts) = part ++ parts.flatMap (slash :: ·) := by
  have hjoin := slash_cons_join (List.cons_ne_nil part parts)
  rw [List.flatMap_cons, List.cons_append] at hjoin
  exact (List.cons.inj hjoin).2

/-- The relative path of a file below a directory is the names that lead to it. -/
theorem relativeFilePath_below {dir file : QString} (hdir : dir.head? = some slash)
    (hfile : file.head? = some slash) (hne : names ≠ [])
    (hbelow : components file = components dir ++ names) :
    relativeFilePath (absoluteFilePath dir) (absoluteFilePath file) = join names := by
  have hnames : ∀ name ∈ names, IsPlain name := by
    intro name hname
    apply components_isPlain file
    rw [hbelow]
    exact List.mem_append_right _ hname
  have hsplit : ∀ path, splitSkipEmpty (slash :: join (components path)) = components path := by
    intro path
    rw [splitSkipEmpty_slash, splitSkipEmpty_join (components_isPlain path)]
  have hdrop : dropCommon (components dir) (components file) = ([], names) := by
    rw [hbelow, dropCommon_append]
  have habs : ∀ tail : QString, isAbsolutePath (slash :: tail) = true := fun _ => rfl
  have hjoin : join names ≠ [] := by
    intro hnil
    have hback := splitSkipEmpty_join hnames
    rw [hnil] at hback
    exact hne hback.symm
  simp only [relativeFilePath, cleanPath_absoluteFilePath hdir, cleanPath_absoluteFilePath hfile,
    habs, hsplit, hdrop, List.flatMap_nil, List.nil_append]
  rw [if_neg (by simp), if_neg hjoin]

end Qt
