import QfClient.FirstWins
import QfClient.LocalClipboard
import QfClient.Paths

/-!
# Capturing the selected files

`dataChangedCallback` walks the files and directories that the URLs of a new content
name and records an entry for each file it comes by, unless one with the same local path
is there already. `acceptedFiles` are the roots of the walk. The walk through a root
comes by the files of its `listing`, so all the walks together amount to adding one list
of candidates in which the first of a path wins.
-/

namespace QfClient

open Qt FirstWins

abbrev EntryName := {name : QString // IsPlain name}

/-- A file or a directory; there are no symbolic links. Sockets and devices are
special. -/
inductive FileNode where
  | file (size : UInt64)
  | special
  | directory (size : UInt64) (entries : List (EntryName × FileNode))

namespace FileNode

def isFile : FileNode → Bool
  | file _ => true
  | _ => false

def isDir : FileNode → Bool
  | directory _ _ => true
  | _ => false

def size : FileNode → UInt64
  | file size => size
  | special => 0
  | directory size _ => size

def find : FileNode → List QString → Option FileNode
  | node, [] => some node
  | directory _ entries, name :: rest =>
      match entries.find? (fun entry => entry.1.1 = name) with
      | some entry => entry.2.find rest
      | none => none
  | _, _ :: _ => none

end FileNode

structure QFileInfo where
  path : QString
  node : Option FileNode

namespace QFileInfo

/-- `QFileInfo(path)` on the disk with the root directory `disk`; a path without a slash
in front names nothing on it. -/
def of (disk : FileNode) (path : QString) : QFileInfo :=
  ⟨path, if path.head? = some slash then disk.find (components path) else none⟩

variable (fileInfo : QFileInfo)

def absoluteFilePath : QString := Qt.absoluteFilePath fileInfo.path

def fileName : QString := Qt.fileName fileInfo.path

def isFile : Bool := fileInfo.node.any FileNode.isFile

def isDir : Bool := fileInfo.node.any FileNode.isDir

def size : UInt64 := fileInfo.node.elim 0 FileNode.size

end QFileInfo

/-- `entryList(QDir::Files | QDir::Dirs | QDir::NoDotAndDotDot)`. Without `QDir::Hidden`
and `QDir::System` it leaves out hidden entries and special files. -/
def listed (entry : EntryName × FileNode) : Bool :=
  entry.1.1.head? ≠ dot.head? && (entry.2.isFile || entry.2.isDir)

def clipboardDisplayName (root fileInfo : QFileInfo) : QString :=
  let displayName :=
    if root.absoluteFilePath ≠ fileInfo.absoluteFilePath then
      root.fileName ++ slash :: relativeFilePath root.absoluteFilePath fileInfo.absoluteFilePath
    else root.fileName
  displayName.map (fun u => if u = slash then backslash else u)

def clipboardFileInfo (root fileInfo : QFileInfo) : ClipboardInfoFile where
  displayName := clipboardDisplayName root fileInfo
  localPath := fileInfo.absoluteFilePath
  total := fileInfo.size
  isDirectory := fileInfo.isDir

/-- `find_if` on `local_path_`, and `push_back` when nothing is found. -/
def recordFile (root fileInfo : QFileInfo) (files : List ClipboardInfoFile) :
    List ClipboardInfoFile :=
  addNew ClipboardInfoFile.localPath files (clipboardFileInfo root fileInfo)

mutual

def appendClipboardInfoFile (root : QFileInfo) (path : QString) :
    FileNode → List ClipboardInfoFile → List ClipboardInfoFile
  | .file size, files => recordFile root ⟨path, some (.file size)⟩ files
  | .special, files => recordFile root ⟨path, some .special⟩ files
  | .directory size entries, files =>
      appendEntryList root (Qt.absoluteFilePath path) entries
        (recordFile root ⟨path, some (.directory size entries)⟩ files)

def appendEntryList (root : QFileInfo) (dir : QString) :
    List (EntryName × FileNode) → List ClipboardInfoFile → List ClipboardInfoFile
  | [], files => files
  | (name, child) :: rest, files =>
      if listed (name, child) then
        -- `filePath` takes a name with a colon in front for a resource, which does not exist.
        if isAbsolutePath name.1 then
          appendEntryList root dir rest (recordFile root ⟨dirFilePath dir name.1, none⟩ files)
        else
          appendEntryList root dir rest
            (appendClipboardInfoFile root (dirFilePath dir name.1) child files)
      else appendEntryList root dir rest files

end

def acceptedFile (disk : FileNode) (url : QUrl) : Option (QFileInfo × FileNode) :=
  match url.toLocalFile with
  | none => none
  | some path =>
      let file := QFileInfo.of disk path
      match file.node with
      | none => none
      | some node => if !file.isDir && !file.isFile then none else some (file, node)

def captureUrl (disk : FileNode) (files : List ClipboardInfoFile) (url : QUrl) :
    List ClipboardInfoFile :=
  match acceptedFile disk url with
  | none => files
  | some (file, node) => appendClipboardInfoFile file file.path node files

def captureUrls (disk : FileNode) (urls : List QUrl) : List ClipboardInfoFile :=
  urls.foldl (captureUrl disk) []

def acceptedFiles (disk : FileNode) (urls : List QUrl) : List QFileInfo :=
  urls.filterMap (fun url => (acceptedFile disk url).map Prod.fst)

mutual

/-- The files that a walk comes by, parents first, each with the names that lead to it. -/
def FileNode.listing : FileNode → List (List QString × Option FileNode)
  | .file size => [([], some (.file size))]
  | .special => [([], some .special)]
  | .directory size entries => ([], some (.directory size entries)) :: entriesListing entries

def entriesListing : List (EntryName × FileNode) → List (List QString × Option FileNode)
  | [] => []
  | (name, child) :: rest =>
      if listed (name, child) then
        (if isAbsolutePath name.1 then [([name.1], none)]
          else child.listing.map (fun item => (name.1 :: item.1, item.2))) ++ entriesListing rest
      else entriesListing rest

end

def candidate (root : QFileInfo) (path : QString) (item : List QString × Option FileNode) :
    ClipboardInfoFile :=
  clipboardFileInfo root ⟨descend path item.1, item.2⟩

def candidates (root : QFileInfo) : List ClipboardInfoFile :=
  match root.node with
  | none => []
  | some node => node.listing.map (candidate root root.path)

variable {root dir fileInfo : QFileInfo} {path : QString} {node : FileNode}
  {names : List QString} {item : List QString × Option FileNode}

/-- A walk adds the candidates of its listing. -/
theorem appendClipboardInfoFile_eq (root : QFileInfo) (path : QString) (node : FileNode)
    (files : List ClipboardInfoFile) :
    appendClipboardInfoFile root path node files =
      addAll ClipboardInfoFile.localPath files (node.listing.map (candidate root path)) := by
  induction path, node, files using appendClipboardInfoFile.induct root
    (motive_2 := fun dir entries files => ∀ path, dir = Qt.absoluteFilePath path →
      appendEntryList root dir entries files =
        addAll ClipboardInfoFile.localPath files
          ((entriesListing entries).map (candidate root path))) with
  | case1 path size files => rfl
  | case2 path files => rfl
  | case3 path size entries files ih =>
      rw [appendClipboardInfoFile, FileNode.listing, List.map_cons, addAll_cons, ih path rfl]
      rfl
  | case4 dir files => rfl
  | case5 dir name child rest files hlisted habs ih =>
      rename_i path hdir
      rw [appendEntryList, if_pos hlisted, if_pos habs, ih path hdir, entriesListing,
        if_pos hlisted, if_pos habs, List.map_append, addAll_append, hdir]
      rfl
  | case6 dir name child rest files hlisted habs ih₁ ih₂ =>
      rename_i path hdir
      rw [appendEntryList, if_pos hlisted, if_neg habs, ih₂ path hdir, ih₁, entriesListing,
        if_pos hlisted, if_neg habs, List.map_append, addAll_append, List.map_map, hdir]
      rfl
  | case7 dir name child rest files hlisted ih =>
      rename_i path hdir
      rw [appendEntryList, if_neg hlisted, ih path hdir, entriesListing, if_neg hlisted]

theorem listing_nil_mem (node : FileNode) : ([], some node) ∈ node.listing := by
  cases node with
  | file size => exact List.mem_singleton.mpr rfl
  | special => exact List.mem_singleton.mpr rfl
  | directory size entries => exact List.mem_cons_self

theorem mem_entriesListing {entries : List (EntryName × FileNode)} :
    item ∈ entriesListing entries ↔ ∃ entry ∈ entries, listed entry = true ∧
      if isAbsolutePath entry.1.1 then item = ([entry.1.1], none)
      else ∃ item' ∈ entry.2.listing, item = (entry.1.1 :: item'.1, item'.2) := by
  induction entries with
  | nil => simp [entriesListing]
  | cons entry rest ih =>
      obtain ⟨name, child⟩ := entry
      rw [entriesListing, List.exists_mem_cons_iff]
      by_cases hlisted : listed (name, child) = true
      · rw [if_pos hlisted, List.mem_append, ih]
        refine or_congr ?_ Iff.rfl
        rw [iff_true_intro hlisted, true_and]
        split_ifs
        · rw [List.mem_singleton]
        · rw [List.mem_map]
          exact exists_congr fun item' => and_congr_right fun _ => eq_comm
      · rw [if_neg hlisted, ih, eq_false hlisted, false_and, false_or]

/-- A file below a directory is in the listing of an entry. -/
theorem mem_listing_cons {name : QString} {x : Option FileNode}
    (h : (name :: names, x) ∈ node.listing) : ∃ size entries, node = .directory size entries ∧
      (name :: names, x) ∈ entriesListing entries := by
  cases node with
  | file size => exact absurd h (by simp [FileNode.listing])
  | special => exact absurd h (by simp [FileNode.listing])
  | directory size entries =>
      rw [FileNode.listing, List.mem_cons] at h
      exact ⟨size, entries, rfl, h.resolve_left (by simp)⟩

theorem mem_listing_nil {x : Option FileNode} (h : ([], x) ∈ node.listing) : x = some node := by
  cases node with
  | file size => simpa [FileNode.listing] using h
  | special => simpa [FileNode.listing] using h
  | directory size entries =>
      rw [FileNode.listing, List.mem_cons] at h
      rcases h with heq | hmem
      · exact (Prod.mk.inj heq).2
      · obtain ⟨entry, -, -, hitem⟩ := mem_entriesListing.mp hmem
        split_ifs at hitem
        · exact absurd hitem (by simp)
        · obtain ⟨item', -, heq⟩ := hitem
          exact absurd heq (by simp)

/-- The second file is the first one or is below it, on a way through listed entries. -/
inductive AtOrBelow (root : QFileInfo) : QFileInfo → Prop
  | refl : AtOrBelow root root
  | entry {dir : QFileInfo} {size : UInt64} {entries : List (EntryName × FileNode)}
      {name : EntryName} {child : FileNode} (hdir : AtOrBelow root dir)
      (hnode : dir.node = some (.directory size entries)) (hmem : (name, child) ∈ entries)
      (hlisted : listed (name, child) = true) (hname : isAbsolutePath name.1 = false) :
      AtOrBelow root ⟨dirFilePath dir.absoluteFilePath name.1, some child⟩

theorem AtOrBelow.trans (h : AtOrBelow root dir) (h' : AtOrBelow dir fileInfo) :
    AtOrBelow root fileInfo := by
  induction h' with
  | refl => exact h
  | entry _ hnode hmem hlisted hname ih => exact .entry ih hnode hmem hlisted hname

def Followed (names : List QString) : Prop :=
  ∀ name ∈ names, IsPlain name ∧ isAbsolutePath name = false

/-- A listed file is below the root of the listing, or it is a resource. -/
theorem atOrBelow_of_mem_listing (path : QString) (h : item ∈ node.listing) :
    (AtOrBelow ⟨path, some node⟩ ⟨descend path item.1, item.2⟩ ∧ Followed item.1) ∨
      ∃ front name, item.1 = front ++ [name] ∧ IsPlain name ∧ isAbsolutePath name = true := by
  obtain ⟨names, x⟩ := item
  induction names generalizing node path with
  | nil =>
      left
      rw [mem_listing_nil h]
      exact ⟨.refl, fun name hname => absurd hname List.not_mem_nil⟩
  | cons name names ih =>
      obtain ⟨size, entries, rfl, hmem⟩ := mem_listing_cons h
      obtain ⟨⟨entry, child⟩, hentry, hlisted, hitem⟩ := mem_entriesListing.mp hmem
      simp only at hitem
      split_ifs at hitem with habs
      · obtain ⟨hnames, rfl⟩ := Prod.mk.inj hitem
        obtain ⟨rfl, rfl⟩ := List.cons.inj hnames
        exact Or.inr ⟨[], entry.1, rfl, entry.2, habs⟩
      · obtain ⟨⟨rest, x'⟩, hrest, heq⟩ := hitem
        obtain ⟨hnames, rfl⟩ := Prod.mk.inj heq
        obtain ⟨rfl, rfl⟩ := List.cons.inj hnames
        have hname : isAbsolutePath entry.1 = false := by simpa using habs
        rcases ih (dirFilePath (Qt.absoluteFilePath path) entry.1) hrest with
          ⟨hbelow, hfollowed⟩ | ⟨front, name, rfl, hplain⟩
        · left
          have hstep : AtOrBelow ⟨path, some (.directory size entries)⟩
              ⟨dirFilePath (Qt.absoluteFilePath path) entry.1, some child⟩ :=
            .entry .refl rfl hentry hlisted hname
          refine ⟨hstep.trans hbelow, fun q hq => ?_⟩
          rcases List.mem_cons.mp hq with rfl | hq
          · exact ⟨entry.2, hname⟩
          · exact hfollowed q hq
        · exact Or.inr ⟨entry.1 :: front, name, rfl, hplain⟩

theorem listing_append {more : List QString} {x : Option FileNode} {sub : FileNode}
    (h : (names, some sub) ∈ node.listing) (hsub : (more, x) ∈ sub.listing) :
    (names ++ more, x) ∈ node.listing := by
  induction names generalizing node with
  | nil =>
      obtain rfl := Option.some.inj (mem_listing_nil h)
      exact hsub
  | cons name names ih =>
      obtain ⟨size, entries, rfl, hmem⟩ := mem_listing_cons h
      obtain ⟨entry, hentry, hlisted, hitem⟩ := mem_entriesListing.mp hmem
      rw [List.cons_append, FileNode.listing]
      apply List.mem_cons_of_mem
      refine mem_entriesListing.mpr ⟨entry, hentry, hlisted, ?_⟩
      split_ifs at hitem ⊢ with habs
      · exact absurd hitem (by simp)
      · obtain ⟨⟨rest, x'⟩, hrest, heq⟩ := hitem
        obtain ⟨hnames, rfl⟩ := Prod.mk.inj heq
        obtain ⟨rfl, rfl⟩ := List.cons.inj hnames
        exact ⟨(names ++ more, x), ih hrest, rfl⟩

/-- A file below a root is in its listing. -/
theorem mem_listing_of_atOrBelow (hroot : root.node = some node) (h : AtOrBelow root fileInfo) :
    ∃ names, fileInfo.path = descend root.path names ∧ Followed names ∧
      (names, fileInfo.node) ∈ node.listing := by
  induction h with
  | refl =>
      refine ⟨[], rfl, fun name hname => absurd hname List.not_mem_nil, ?_⟩
      rw [hroot]
      exact listing_nil_mem node
  | @entry dir size entries name child hdir hnode hmem hlisted hname ih =>
      obtain ⟨names, hpath, hfollowed, hlisting⟩ := ih
      refine ⟨names ++ [name.1], ?_, fun q hq => ?_, ?_⟩
      · rw [QFileInfo.absoluteFilePath, hpath, descend, descend, List.foldl_append]
        rfl
      · rcases List.mem_append.mp hq with hq | hq
        · exact hfollowed q hq
        · rw [List.mem_singleton.mp hq]
          exact ⟨name.2, hname⟩
      · rw [hnode] at hlisting
        refine listing_append hlisting ?_
        rw [FileNode.listing]
        apply List.mem_cons_of_mem
        refine mem_entriesListing.mpr ⟨(name, child), hmem, hlisted, ?_⟩
        rw [if_neg (by simp [hname])]
        exact ⟨([], some child), listing_nil_mem child, rfl⟩

/-- An item of the entries' listing is inside the listing of one entry. -/
theorem entriesListing_split {entries : List (EntryName × FileNode)}
    {pre post : List (List QString × Option FileNode)}
    (h : entriesListing entries = pre ++ item :: post) :
    item.1.length = 1 ∨ ∃ entry ∈ entries, ∃ front sub item' rest,
      entry.2.listing = sub ++ item' :: rest ∧ item = (entry.1.1 :: item'.1, item'.2) ∧
      pre = front ++ sub.map (fun item => (entry.1.1 :: item.1, item.2)) := by
  induction entries generalizing pre with
  | nil => exact absurd h (by simp [entriesListing])
  | cons entry entries ih =>
      obtain ⟨name, child⟩ := entry
      rw [entriesListing] at h
      have hlater : ∀ pre', entriesListing entries = pre' ++ item :: post →
          ∀ front, pre = front ++ pre' →
          item.1.length = 1 ∨ ∃ entry ∈ (name, child) :: entries, ∃ front sub item' rest,
            entry.2.listing = sub ++ item' :: rest ∧ item = (entry.1.1 :: item'.1, item'.2) ∧
            pre = front ++ sub.map (fun item => (entry.1.1 :: item.1, item.2)) := by
        rintro pre' hpre' front rfl
        refine (ih hpre').imp_right ?_
        rintro ⟨entry, hentry, front', sub, item', rest, hsub, hitem, rfl⟩
        exact ⟨entry, List.mem_cons_of_mem _ hentry, front ++ front', sub, item', rest, hsub, hitem,
          by rw [List.append_assoc]⟩
      split_ifs at h with hlisted habs
      · cases pre with
        | nil =>
            obtain ⟨rfl, -⟩ := List.cons.inj h
            exact Or.inl rfl
        | cons x pre =>
            obtain ⟨rfl, hrest⟩ := List.cons.inj h
            exact hlater pre hrest [([name.1], none)] rfl
      · rcases List.append_eq_append_iff.mp h with ⟨front, hpre, hrest⟩ | ⟨middle, hfirst, hmiddle⟩
        · exact hlater front hrest _ hpre
        · cases middle with
          | nil => exact hlater [] hmiddle.symm pre (List.append_nil pre).symm
          | cons x middle =>
              obtain ⟨rfl, -⟩ := List.cons.inj hmiddle
              obtain ⟨sub, later, hsub, rfl, hlater'⟩ := List.map_eq_append_iff.mp hfirst
              obtain ⟨item', rest, rfl, rfl, -⟩ := List.map_eq_cons_iff.mp hlater'
              exact Or.inr ⟨(name, child), List.mem_cons_self, [], sub, item', rest, hsub, rfl, rfl⟩
      · exact hlater pre h [] rfl

/-- Before a file below it the listing has the directory itself. -/
theorem directory_first {name : QString} {names : List QString} {x : Option FileNode}
    {pre post : List (List QString × Option FileNode)}
    (h : node.listing = pre ++ (name :: names, x) :: post) :
    ∃ size entries pre', node = .directory size entries ∧ pre = ([], some node) :: pre' ∧
      entriesListing entries = pre' ++ (name :: names, x) :: post := by
  have hmem : (name :: names, x) ∈ node.listing := by
    rw [h]
    simp
  obtain ⟨size, entries, rfl, -⟩ := mem_listing_cons hmem
  cases pre with
  | nil => exact absurd (List.cons.inj h).1 (by simp)
  | cons y pre =>
      obtain ⟨rfl, hentries⟩ := List.cons.inj h
      exact ⟨size, entries, pre, rfl, rfl, hentries⟩

/-- Before a file the listing has all the directories that lead to it. -/
theorem parents_first {pre post : List (List QString × Option FileNode)}
    (h : node.listing = pre ++ item :: post) {front more : List QString}
    (hitem : item.1 = front ++ more) (hmore : more ≠ []) : front ∈ pre.map Prod.fst := by
  obtain ⟨names, x⟩ := item
  obtain rfl : names = front ++ more := hitem
  induction front generalizing node pre post with
  | nil =>
      obtain ⟨name, more, rfl⟩ := List.exists_cons_of_ne_nil hmore
      obtain ⟨size, entries, pre, rfl, rfl, -⟩ := directory_first h
      exact List.mem_cons_self
  | cons name front ih =>
      obtain ⟨size, entries, pre, rfl, rfl, hentries⟩ := directory_first h
      rcases entriesListing_split hentries with
        hone | ⟨entry, -, before, sub, item', rest, hsub, heq, rfl⟩
      · have hnone : front ++ more = [] := List.eq_nil_of_length_eq_zero (Nat.succ.inj hone)
        exact absurd (List.append_eq_nil_iff.mp hnone).2 hmore
      · obtain ⟨hnames, rfl⟩ := Prod.mk.inj heq
        obtain ⟨rfl, hrest⟩ := List.cons.inj hnames
        obtain ⟨names', x'⟩ := item'
        obtain rfl : names' = front ++ more := hrest.symm
        obtain ⟨parent, hparent, rfl⟩ := List.mem_map.mp (ih hsub)
        refine List.mem_cons_of_mem _ ?_
        rw [List.map_append, List.map_map]
        exact List.mem_append_right _ (List.mem_map.mpr ⟨parent, hparent, rfl⟩)

variable {disk : FileNode} {urls : List QUrl}

theorem acceptedFile_spec {url : QUrl} {file : QFileInfo}
    (h : acceptedFile disk url = some (file, node)) :
    file.node = some node ∧ file.path.head? = some slash := by
  rw [acceptedFile] at h
  split at h
  · exact absurd h (by simp)
  · rename_i path hlocal
    simp only at h
    split at h
    · exact absurd h (by simp)
    · rename_i node' hnode
      split_ifs at h
      obtain ⟨rfl, rfl⟩ := Prod.mk.inj (Option.some.inj h)
      refine ⟨hnode, ?_⟩
      by_contra hhead
      have hnone : (QFileInfo.of disk path).node = none := if_neg hhead
      rw [hnone] at hnode
      exact absurd hnode (by simp)

theorem acceptedFiles_spec (h : root ∈ acceptedFiles disk urls) :
    ∃ node, root.node = some node ∧ root.path.head? = some slash := by
  obtain ⟨url, -, hurl⟩ := List.mem_filterMap.mp h
  obtain ⟨⟨file, node⟩, haccept, rfl⟩ := Option.map_eq_some_iff.mp hurl
  exact ⟨node, acceptedFile_spec haccept⟩

/-- All the walks together: the first candidate of a path wins. -/
theorem captureUrls_eq (disk : FileNode) (urls : List QUrl) :
    captureUrls disk urls =
      addAll ClipboardInfoFile.localPath [] ((acceptedFiles disk urls).flatMap candidates) := by
  have hloop : ∀ files, urls.foldl (captureUrl disk) files =
      addAll ClipboardInfoFile.localPath files
        ((acceptedFiles disk urls).flatMap candidates) := by
    induction urls with
    | nil => exact fun files => rfl
    | cons url urls ih =>
        intro files
        rw [List.foldl_cons, ih, captureUrl, acceptedFiles, acceptedFiles, List.filterMap_cons]
        cases haccept : acceptedFile disk url with
        | none => rfl
        | some selected =>
            obtain ⟨file, node⟩ := selected
            simp only [Option.map_some, List.flatMap_cons, addAll_append,
              appendClipboardInfoFile_eq, candidates, (acceptedFile_spec haccept).1]
  exact hloop []

end QfClient
