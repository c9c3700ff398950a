import QfClient.FileCapture

/-!
# What is captured

Nothing at or below a selected root is missing from the captured list. Where several
roots are above one path, the first of them names it, and it is there once.
-/

namespace QfClient

open Qt FirstWins

variable {root dir fileInfo : QFileInfo} {path : QString} {node : FileNode}
  {names : List QString} {item : List QString × Option FileNode} {disk : FileNode}
  {urls : List QUrl}

/-- Some file at or below the root has this absolute path. -/
def Above (root : QFileInfo) (path : QString) : Prop :=
  ∃ file, AtOrBelow root file ∧ file.absoluteFilePath = path

def FirstAbove (roots : List QFileInfo) (root : QFileInfo) (path : QString) : Prop :=
  ∃ before after, roots = before ++ root :: after ∧ Above root path ∧
    ∀ root' ∈ before, ¬ Above root' path

/-- Nothing at or below a root is missing; each path is there once, under the name that
the first root above it gives it; and a directory comes before what is below it, where
the first root above the two is the same. -/
structure Captured (roots : List QFileInfo) (files : List ClipboardInfoFile) : Prop where
  complete : ∀ root ∈ roots, ∀ file, AtOrBelow root file →
    ∃ first, FirstAbove roots first file.absoluteFilePath ∧ ∃ entry ∈ files,
      entry.localPath = file.absoluteFilePath ∧ entry.displayName = clipboardDisplayName first file
  once : (files.map ClipboardInfoFile.localPath).Nodup
  parentsFirst : ∀ root dir file, FirstAbove roots root file.absoluteFilePath →
    AtOrBelow root dir → AtOrBelow dir file → dir.absoluteFilePath ≠ file.absoluteFilePath →
    ∃ parent entry, [parent, entry].Sublist files ∧ parent.localPath = dir.absoluteFilePath ∧
      entry.localPath = file.absoluteFilePath

/-- The candidates of a root have the paths that the root is above; the others are
resources. -/
theorem candidates_localPath {roots : List QFileInfo}
    (hroots : ∀ root ∈ roots, ∃ node, root.node = some node ∧ root.path.head? = some slash)
    (hroot : root ∈ roots) (hpath : path.head? = some slash) :
    path ∈ (candidates root).map ClipboardInfoFile.localPath ↔ Above root path := by
  obtain ⟨node, hnode, hhead⟩ := hroots root hroot
  have hself : (⟨root.path, some node⟩ : QFileInfo) = root := by
    rw [← hnode]
  rw [candidates, hnode]
  simp only [List.map_map, List.mem_map, Function.comp]
  constructor
  · rintro ⟨item, hitem, rfl⟩
    rcases atOrBelow_of_mem_listing root.path hitem with
      ⟨hbelow, -⟩ | ⟨front, name, heq, hplain, habs⟩
    · rw [hself] at hbelow
      exact ⟨_, hbelow, rfl⟩
    · refine absurd hpath ?_
      rw [candidate, clipboardFileInfo, QFileInfo.absoluteFilePath, heq]
      exact descend_resource root.path front hplain habs
  · rintro ⟨file, hbelow, rfl⟩
    obtain ⟨names, hfile, -, hmem⟩ := mem_listing_of_atOrBelow hnode hbelow
    refine ⟨(names, file.node), hmem, ?_⟩
    rw [QFileInfo.absoluteFilePath, hfile]
    rfl

/-- The name of a candidate is given by its root and its path. -/
theorem candidates_displayName {entry : ClipboardInfoFile} (h : entry ∈ candidates root)
    (hpath : entry.localPath = fileInfo.absoluteFilePath) :
    entry.displayName = clipboardDisplayName root fileInfo := by
  rw [candidates] at h
  split at h
  · exact absurd h List.not_mem_nil
  · obtain ⟨item, -, rfl⟩ := List.mem_map.mp h
    have habs : QFileInfo.absoluteFilePath ⟨descend root.path item.1, item.2⟩ =
        fileInfo.absoluteFilePath := hpath
    rw [candidate, clipboardFileInfo, clipboardDisplayName, habs, clipboardDisplayName]

theorem absoluteFilePath_head (hnode : root.node = some node)
    (hhead : root.path.head? = some slash) (h : AtOrBelow root fileInfo) :
    fileInfo.absoluteFilePath.head? = some slash := by
  obtain ⟨names, hpath, hfollowed, -⟩ := mem_listing_of_atOrBelow hnode h
  rw [QFileInfo.absoluteFilePath, hpath]
  exact absoluteFilePath_descend_head hhead hfollowed

/-- Each path has a first root above it. -/
theorem exists_firstAbove {roots : List QFileInfo} (hroot : root ∈ roots) (h : Above root path) :
    ∃ first, FirstAbove roots first path := by
  induction roots with
  | nil => exact absurd hroot List.not_mem_nil
  | cons head roots ih =>
      by_cases hhead : Above head path
      · exact ⟨head, [], roots, rfl, hhead, fun _ hmem => absurd hmem List.not_mem_nil⟩
      · rcases List.mem_cons.mp hroot with rfl | hroot
        · exact absurd h hhead
        · obtain ⟨first, before, after, rfl, hfirst, hbefore⟩ := ih hroot
          refine ⟨first, head :: before, after, rfl, hfirst, fun root' hmem => ?_⟩
          rcases List.mem_cons.mp hmem with rfl | hmem
          · exact hhead
          · exact hbefore root' hmem

theorem FirstAbove.mem {roots : List QFileInfo} (h : FirstAbove roots root path) :
    root ∈ roots := by
  obtain ⟨before, after, rfl, -, -⟩ := h
  simp

/-- The first candidate of a path comes from the first root that is above it. -/
theorem firstAbove_candidate {roots : List QFileInfo}
    (hroots : ∀ root ∈ roots, ∃ node, root.node = some node ∧ root.path.head? = some slash)
    (hpath : path.head? = some slash) (h : FirstAbove roots root path) :
    ∃ before pre entry post after, candidates root = pre ++ entry :: post ∧
      roots.flatMap candidates = (before ++ pre) ++ entry :: (post ++ after) ∧
      entry.localPath = path ∧ path ∉ (before ++ pre).map ClipboardInfoFile.localPath := by
  obtain ⟨before, after, rfl, habove, hbefore⟩ := h
  have hroot : root ∈ before ++ root :: after := by simp
  obtain ⟨pre, entry, post, hsplit, hentry, hpre⟩ :=
    exists_first ((candidates_localPath hroots hroot hpath).mpr habove)
  refine ⟨before.flatMap candidates, pre, entry, post, after.flatMap candidates, hsplit, ?_, hentry,
    ?_⟩
  · simp [hsplit]
  · rw [List.map_append, List.mem_append]
    rintro (hmem | hmem)
    · obtain ⟨entry', hentry', hlocal⟩ := List.mem_map.mp hmem
      obtain ⟨root', hroot', hcandidate⟩ := List.mem_flatMap.mp hentry'
      refine hbefore root' hroot' ?_
      rw [← candidates_localPath hroots (List.mem_append_left _ hroot') hpath]
      exact List.mem_map.mpr ⟨entry', hcandidate, hlocal⟩
    · exact hpre hmem

theorem atOrBelow_node (hnode : root.node = some node) (h : AtOrBelow root fileInfo) :
    ∃ found, fileInfo.node = some found := by
  cases h with
  | refl => exact ⟨node, hnode⟩
  | @entry _ _ _ _ child => exact ⟨child, rfl⟩

/-- A listed file is known by its absolute path. -/
theorem listing_names_inj (hhead : root.path.head? = some slash) (hnames : Followed names)
    (hitem : item ∈ node.listing)
    (heq : Qt.absoluteFilePath (descend root.path item.1) =
      Qt.absoluteFilePath (descend root.path names)) : item.1 = names := by
  rcases atOrBelow_of_mem_listing root.path hitem with
    ⟨-, hfollowed⟩ | ⟨front, name, hresource, hplain, habs⟩
  · have hsplit := congrArg splitSkipEmpty heq
    rw [splitSkipEmpty_descend hhead hfollowed, splitSkipEmpty_descend hhead hnames] at hsplit
    exact List.append_cancel_left hsplit
  · have hout := descend_resource root.path front hplain habs
    rw [← hresource, heq] at hout
    exact absurd (absoluteFilePath_descend_head hhead hnames) hout

/-- The directories above a file come before it among the candidates of a root. -/
theorem candidates_parents_first (hnode : root.node = some node)
    (hhead : root.path.head? = some slash) (hdir : AtOrBelow root dir)
    (hfile : AtOrBelow dir fileInfo) (hne : dir.absoluteFilePath ≠ fileInfo.absoluteFilePath)
    {pre post : List ClipboardInfoFile} {entry : ClipboardInfoFile}
    (hsplit : candidates root = pre ++ entry :: post)
    (hentry : entry.localPath = fileInfo.absoluteFilePath) :
    dir.absoluteFilePath ∈ pre.map ClipboardInfoFile.localPath := by
  obtain ⟨names, hdirPath, hdirNames, -⟩ := mem_listing_of_atOrBelow hnode hdir
  obtain ⟨found, hfound⟩ := atOrBelow_node hnode hdir
  obtain ⟨more, hfilePath, hmoreNames, -⟩ := mem_listing_of_atOrBelow hfound hfile
  have hpath : fileInfo.path = descend root.path (names ++ more) := by
    rw [hfilePath, hdirPath, descend, descend, descend, List.foldl_append]
  have hmore : more ≠ [] := by
    rintro rfl
    exact hne (congrArg Qt.absoluteFilePath hfilePath.symm)
  rw [candidates, hnode] at hsplit
  obtain ⟨pre', rest, hlisting, rfl, hrest⟩ := List.map_eq_append_iff.mp hsplit
  obtain ⟨item, post', rfl, rfl, -⟩ := List.map_eq_cons_iff.mp hrest
  have hfollowed : Followed (names ++ more) := fun name hname =>
    (List.mem_append.mp hname).elim (hdirNames name) (hmoreNames name)
  have hitem : item ∈ node.listing := by
    rw [hlisting]
    simp
  have hnames : item.1 = names ++ more := by
    apply listing_names_inj hhead hfollowed hitem
    rw [← hpath]
    exact hentry
  obtain ⟨parent, hparent, hparentNames⟩ := List.mem_map.mp (parents_first hlisting hnames hmore)
  rw [List.map_map]
  refine List.mem_map.mpr ⟨parent, hparent, ?_⟩
  rw [QFileInfo.absoluteFilePath, hdirPath, ← hparentNames]
  rfl

/-- What the loop over the URLs captures. -/
theorem captured_captureUrls (disk : FileNode) (urls : List QUrl) :
    Captured (acceptedFiles disk urls) (captureUrls disk urls) := by
  have hroots : ∀ root ∈ acceptedFiles disk urls,
      ∃ node, root.node = some node ∧ root.path.head? = some slash :=
    fun _ hroot => acceptedFiles_spec hroot
  rw [captureUrls_eq]
  constructor
  · intro root hroot file hfile
    obtain ⟨node, hnode, hhead⟩ := hroots root hroot
    have hpath := absoluteFilePath_head hnode hhead hfile
    obtain ⟨first, hfirst⟩ := exists_firstAbove hroot ⟨file, hfile, rfl⟩
    obtain ⟨before, pre, entry, post, after, hsplit, hall, hentry, hnew⟩ :=
      firstAbove_candidate hroots hpath hfirst
    have hmem : entry ∈ candidates first := by
      rw [hsplit]
      simp
    refine ⟨first, hfirst, entry, ?_, hentry, candidates_displayName hmem hentry⟩
    rw [hall]
    apply mem_addAll
    rwa [hentry]
  · exact addAll_nodup (by simp) _
  · intro root dir file hfirst hdir hfile hne
    obtain ⟨node, hnode, hhead⟩ := hroots root hfirst.mem
    have hpath := absoluteFilePath_head hnode hhead (hdir.trans hfile)
    obtain ⟨before, pre, entry, post, after, hsplit, hall, hentry, hnew⟩ :=
      firstAbove_candidate hroots hpath hfirst
    have hparent := candidates_parents_first hnode hhead hdir hfile hne hsplit hentry
    have hearlier : dir.absoluteFilePath ∈ (before ++ pre).map ClipboardInfoFile.localPath := by
      rw [List.map_append]
      exact List.mem_append_right _ hparent
    obtain ⟨parent, hlocal, hsublist⟩ :=
      sublist_addAll hearlier (show entry.localPath ∉ _ by rwa [hentry])
    rw [hall]
    exact ⟨parent, entry, hsublist, hlocal, hentry⟩

theorem captureUrls_perm {urls' : List QUrl} (h : urls'.Perm urls) :
    path ∈ (captureUrls disk urls').map ClipboardInfoFile.localPath ↔
      path ∈ (captureUrls disk urls).map ClipboardInfoFile.localPath := by
  rw [captureUrls_eq, captureUrls_eq]
  exact addAll_keys_perm ((h.filterMap _).flatMap_right candidates)

/-- After a change of the local clipboard to a content with URLs the captured list has
everything that is listed at or below the accepted files, and the order of the URLs
decides only the order and the names of the entries, not which files they are about. -/
theorem selection_captured (disk : FileNode) (files : List ClipboardInfoFile) (mimeData : MimeData)
    (hurls : mimeData.hasUrls = true) :
    Captured (acceptedFiles disk mimeData.urls)
        (dataChangedCallback (captureUrls disk) true false files mimeData).1 ∧
      ∀ urls', urls'.Perm mimeData.urls → ∀ path,
        path ∈ (dataChangedCallback (captureUrls disk) true false files
            { mimeData with urls := urls' }).1.map ClipboardInfoFile.localPath ↔
          path ∈ (dataChangedCallback (captureUrls disk) true false files
            mimeData).1.map ClipboardInfoFile.localPath := by
  have hfiles : ∀ content : MimeData, content.hasUrls = true →
      (dataChangedCallback (captureUrls disk) true false files content).1 =
        captureUrls disk content.urls := by
    intro content hcontent
    rw [dataChangedCallback, if_neg (by simp), if_neg (by simp), if_pos hcontent]
    simp only
    split_ifs <;> rfl
  rw [hfiles mimeData hurls]
  refine ⟨captured_captureUrls disk mimeData.urls, fun urls' hperm path => ?_⟩
  rw [hfiles { mimeData with urls := urls' } hurls]
  exact captureUrls_perm hperm

def sharedDisk : FileNode :=
  .directory 4096 [(⟨ofAscii "a", by decide, by decide, by decide, by decide⟩,
    .directory 4096 [(⟨ofAscii ".h", by decide, by decide, by decide, by decide⟩, .file 1),
      (⟨ofAscii "b", by decide, by decide, by decide, by decide⟩, .file 3)])]

def selection (paths : List QString) : MimeData where
  hasText := false
  text := []
  hasImage := false
  imageData := ⟨true, none, none⟩
  hasUrls := true
  urls := paths.map (fun path => ⟨some path⟩)

theorem selection_captured_directory :
    Captured (acceptedFiles sharedDisk [⟨some (ofAscii "/a")⟩])
      (dataChangedCallback (captureUrls sharedDisk) true false []
        (selection [ofAscii "/a"])).1 :=
  (selection_captured sharedDisk [] (selection [ofAscii "/a"]) rfl).1

def NamedByEachRoot (roots : List QFileInfo) (files : List ClipboardInfoFile) : Prop :=
  ∀ root ∈ roots, ∀ file, AtOrBelow root file → ∃ entry ∈ files,
    entry.localPath = file.absoluteFilePath ∧ entry.displayName = clipboardDisplayName root file

/-- A directory and a file in it are selected. The file has only the name below the
directory when the directory comes first, and comes before the directory when it comes
first itself; the hidden file is in neither list. -/
theorem overlapping_selection_names_once :
    captureUrls sharedDisk (selection [ofAscii "/a", ofAscii "/a/b"]).urls =
        [⟨ofAscii "a", ofAscii "/a", 4096, true⟩, ⟨ofAscii "a\\b", ofAscii "/a/b", 3, false⟩] ∧
      captureUrls sharedDisk (selection [ofAscii "/a/b", ofAscii "/a"]).urls =
        [⟨ofAscii "b", ofAscii "/a/b", 3, false⟩, ⟨ofAscii "a", ofAscii "/a", 4096, true⟩] ∧
      ¬ NamedByEachRoot
        (acceptedFiles sharedDisk (selection [ofAscii "/a", ofAscii "/a/b"]).urls)
        (captureUrls sharedDisk (selection [ofAscii "/a", ofAscii "/a/b"]).urls) := by
  have hfirst : captureUrls sharedDisk (selection [ofAscii "/a", ofAscii "/a/b"]).urls =
      [⟨ofAscii "a", ofAscii "/a", 4096, true⟩, ⟨ofAscii "a\\b", ofAscii "/a/b", 3, false⟩] := by
    decide
  refine ⟨hfirst, by decide, fun hnamed => ?_⟩
  have hroot : QFileInfo.of sharedDisk (ofAscii "/a/b") ∈
      acceptedFiles sharedDisk (selection [ofAscii "/a", ofAscii "/a/b"]).urls :=
    List.mem_cons_of_mem _ List.mem_cons_self
  obtain ⟨entry, hentry, hpath, hname⟩ := hnamed _ hroot _ .refl
  have hown : clipboardDisplayName (.of sharedDisk (ofAscii "/a/b"))
      (.of sharedDisk (ofAscii "/a/b")) = ofAscii "b" := by decide
  have habs : (QFileInfo.of sharedDisk (ofAscii "/a/b")).absoluteFilePath = ofAscii "/a/b" := by
    decide
  rw [hfirst] at hentry
  rw [habs] at hpath
  rw [hown] at hname
  rcases List.mem_cons.mp hentry with rfl | hentry
  · exact absurd hpath (by decide)
  · obtain rfl := List.mem_singleton.mp hentry
    exact absurd hname (by decide)

end QfClient
