import QfClient.CapturedFiles
import QfClient.FileListWire
import QfClient.NameRoundTrip

/-!
# The names in the descriptors

The captured list has one entry for every local path. The name that the server sees of
an entry is made of the way from a root to the file and cut to what a descriptor holds,
and different files may be given the same one.
-/

namespace QfClient

open Qt FirstWins

/-- A file that the walk through a root comes by, with the names that lead to it. -/
structure Visit where
  root : QFileInfo
  names : List QString
  node : Option FileNode

namespace Visit

variable (v : Visit)

def found : QString := descend v.root.path v.names

def path : QString := Qt.absoluteFilePath v.found

def entry : ClipboardInfoFile := clipboardFileInfo v.root ⟨v.found, v.node⟩

/-- The name of the root and the names that lead to the file, or, where the last of them
is taken for a resource, the relative path that Qt gives of that. -/
def announced : QString :=
  if v.found.head? = some slash then announcedName v.root.fileName v.names
  else (v.root.fileName ++ slash :: relativeFilePath v.root.absoluteFilePath v.path).map
    (fun u => if u = slash then backslash else u)

end Visit

def visits (roots : List QFileInfo) : List Visit :=
  roots.flatMap (fun root =>
    match root.node with
    | none => []
    | some node => node.listing.map (fun item => ⟨root, item.1, item.2⟩))

def recordedVisits (roots : List QFileInfo) : List Visit := addAll Visit.path [] (visits roots)

/-- As much of a name as a descriptor holds, up to a NUL. -/
def heldName (name : QString) : QString := (name.take 259).takeWhile (· ≠ 0)

/-- Entries with different local paths have descriptors with different names. -/
def NamesDistinct (files : List ClipboardInfoFile) : Prop :=
  ∀ file ∈ files, ∀ other ∈ files, file.localPath ≠ other.localPath →
    ∀ descriptor descriptor', describeFile file = some descriptor →
      describeFile other = some descriptor' → descriptor.name ≠ descriptor'.name

variable {disk : FileNode} {urls : List QUrl} {roots : List QFileInfo} {root : QFileInfo}
  {v w : Visit} {name rootName : QString} {names : List QString}

theorem candidates_eq_visits (roots : List QFileInfo) :
    roots.flatMap candidates = (visits roots).map Visit.entry := by
  rw [visits, List.map_flatMap]
  apply List.flatMap_congr
  intro root _
  unfold candidates
  cases root.node with
  | none => rfl
  | some node =>
      simp only [List.map_map]
      rfl

theorem captureUrls_visits (disk : FileNode) (urls : List QUrl) :
    captureUrls disk urls = (recordedVisits (acceptedFiles disk urls)).map Visit.entry := by
  rw [captureUrls_eq, candidates_eq_visits]
  exact addAll_map Visit.entry [] (visits (acceptedFiles disk urls))

theorem mem_visits (h : v ∈ visits roots) :
    ∃ node, v.root ∈ roots ∧ v.root.node = some node ∧ (v.names, v.node) ∈ node.listing := by
  obtain ⟨root, hroot, hv⟩ := List.mem_flatMap.mp h
  cases hnode : root.node with
  | none =>
      simp only [hnode] at hv
      cases hv
  | some node =>
      simp only [hnode] at hv
      obtain ⟨item, hitem, rfl⟩ := List.mem_map.mp hv
      exact ⟨node, hroot, hnode, hitem⟩

/-- The names lead below the root or to a resource. -/
theorem visit_cases (h : v ∈ visits roots)
    (hroots : ∀ root ∈ roots, root.path.head? = some slash) :
    (v.found.head? = some slash ∧ v.root.path.head? = some slash ∧
        LiesAt ⟨v.root.path, none⟩ ⟨v.found, none⟩ v.names) ∨
      (v.path.head? ≠ some slash ∧ v.found.head? ≠ some slash ∧
        v.root.path.head? = some slash) := by
  obtain ⟨node, hroot, hnode, hitem⟩ := mem_visits h
  have hhead := hroots v.root hroot
  rcases atOrBelow_of_mem_listing v.root.path hitem with
    ⟨-, hfollowed⟩ | ⟨front, name, hnames, hplain, habs⟩
  · left
    by_cases hnil : v.names = []
    · have hfound : v.found = v.root.path := by
        rw [Visit.found, hnil]
        rfl
      rw [hfound, hnil]
      exact ⟨hhead, hhead, .root⟩
    · have hfound : v.found = slash :: join (components v.root.path ++ v.names) :=
        descend_eq hhead hnil hfollowed
      have hparts :=
        components_append_isPlain v.root.path fun name hname => (hfollowed name hname).1
      refine ⟨congrArg List.head? hfound, hhead, .below hnil (congrArg List.head? hfound) ?_⟩
      rw [hfound, components_join hparts]
  · right
    have hresource := descend_resource v.root.path front hplain habs
    have hpath : v.path.head? ≠ some slash := by
      have hlast : v.names = front ++ [name] := hnames
      rw [Visit.path, Visit.found, hlast]
      exact hresource
    exact ⟨hpath, fun hfound => hpath (head?_absoluteFilePath hfound), hhead⟩

/-- What a captured file is announced as. -/
theorem entry_displayName (h : v ∈ visits roots)
    (hroots : ∀ root ∈ roots, root.path.head? = some slash) :
    v.entry.displayName = v.announced := by
  rcases visit_cases h hroots with ⟨hfound, hhead, hlies⟩ | ⟨hpath, hfound, hhead⟩
  · have hname : clipboardDisplayName ⟨v.root.path, none⟩ ⟨v.found, none⟩ =
        announcedName (fileName v.root.path) v.names := clipboardDisplayName_eq hhead hlies
    rw [Visit.announced, if_pos hfound]
    exact hname
  · have hdiffer : v.root.absoluteFilePath ≠ v.path := by
      intro heq
      rw [← heq] at hpath
      exact hpath (head?_absoluteFilePath hhead)
    rw [Visit.announced, if_neg hfound]
    have hlong : (if v.root.absoluteFilePath ≠ v.path then
        v.root.fileName ++ slash :: relativeFilePath v.root.absoluteFilePath v.path
        else v.root.fileName) =
        v.root.fileName ++ slash :: relativeFilePath v.root.absoluteFilePath v.path :=
      if_pos hdiffer
    exact congrArg _ hlong

/-- The name in a descriptor is the beginning of the display name. -/
theorem descriptor_name {file : ClipboardInfoFile} {descriptor : FileDescriptor}
    (h : describeFile file = some descriptor) : descriptor.name = heldName file.displayName := by
  obtain ⟨rest, hbuffer⟩ := toList_qfCopyFileDescriptorName h
  rw [FileDescriptor.name, hbuffer, heldName]
  induction file.displayName.take 259 with
  | nil => rfl
  | cons unit units ih =>
      rw [List.cons_append, List.takeWhile_cons, List.takeWhile_cons, ih]

theorem namesDistinct_iff (files : List ClipboardInfoFile) :
    NamesDistinct files ↔ ∀ file ∈ files, ∀ other ∈ files, file.localPath ≠ other.localPath →
      heldName file.displayName ≠ heldName other.displayName := by
  constructor
  · intro h file hfile other hother hne
    obtain ⟨descriptor, hdescriptor⟩ := Option.isSome_iff_exists.mp (describeFile_isSome file)
    obtain ⟨descriptor', hdescriptor'⟩ := Option.isSome_iff_exists.mp (describeFile_isSome other)
    rw [← descriptor_name hdescriptor, ← descriptor_name hdescriptor']
    exact h file hfile other hother hne descriptor descriptor' hdescriptor hdescriptor'
  · intro h file hfile other hother hne descriptor descriptor' hdescriptor hdescriptor'
    rw [descriptor_name hdescriptor, descriptor_name hdescriptor']
    exact h file hfile other hother hne

theorem acceptedFiles_head (disk : FileNode) (urls : List QUrl) :
    ∀ root ∈ acceptedFiles disk urls, root.path.head? = some slash := by
  intro root hroot
  obtain ⟨node, -, hhead⟩ := acceptedFiles_spec hroot
  exact hhead

theorem mem_visits_of_recorded (h : v ∈ recordedVisits roots) : v ∈ visits roots :=
  (mem_of_mem_addAll h).resolve_left List.not_mem_nil

theorem recorded_displayName (disk : FileNode) (urls : List QUrl)
    (h : v ∈ recordedVisits (acceptedFiles disk urls)) : v.entry.displayName = v.announced :=
  entry_displayName (mem_visits_of_recorded h) (acceptedFiles_head disk urls)

/-- The descriptor of a captured file holds the beginning of what the file is announced as. -/
theorem recorded_descriptor_name (disk : FileNode) (urls : List QUrl)
    (h : v ∈ recordedVisits (acceptedFiles disk urls)) {descriptor : FileDescriptor}
    (hdescriptor : describeFile v.entry = some descriptor) :
    descriptor.name = heldName v.announced := by
  rw [descriptor_name hdescriptor, recorded_displayName disk urls h]

theorem recordedVisits_nodup (roots : List QFileInfo) :
    ((recordedVisits roots).map Visit.path).Nodup := by
  have hnil : (([] : List Visit).map Visit.path).Nodup := List.nodup_nil
  exact addAll_nodup hnil (visits roots)

theorem namesDistinct_captureUrls_iff (disk : FileNode) (urls : List QUrl) :
    NamesDistinct (captureUrls disk urls) ↔
      ∀ v ∈ recordedVisits (acceptedFiles disk urls),
        ∀ w ∈ recordedVisits (acceptedFiles disk urls), v.path ≠ w.path →
          heldName v.announced ≠ heldName w.announced := by
  rw [captureUrls_visits, namesDistinct_iff]
  constructor
  · intro h v hv w hw hne
    rw [← recorded_displayName disk urls hv, ← recorded_displayName disk urls hw]
    exact h _ (List.mem_map_of_mem hv) _ (List.mem_map_of_mem hw) hne
  · intro h file hfile other hother hne
    obtain ⟨v, hv, rfl⟩ := List.mem_map.mp hfile
    obtain ⟨w, hw, rfl⟩ := List.mem_map.mp hother
    rw [recorded_displayName disk urls hv, recorded_displayName disk urls hw]
    exact h v hv w hw hne

structure Visit.Spelled (v : Visit) : Prop where
  found : v.found.head? = some slash
  backslash_notMem : ∀ part ∈ v.root.fileName :: v.names, backslash ∉ part
  nul_notMem : 0 ∉ v.announced
  fits : v.announced.length ≤ 259

theorem announcedName_eq_intercalate (rootName : QString) (names : List QString) :
    announcedName rootName names = [backslash].intercalate (rootName :: names) := by
  unfold announcedName
  induction names generalizing rootName with
  | nil => rw [List.flatMap_nil, List.append_nil, List.intercalate_singleton]
  | cons name names ih =>
      rw [List.flatMap_cons, List.intercalate_cons_cons, ← ih name, List.append_assoc,
        List.singleton_append, List.cons_append]

theorem announcedName_injective {rootName' : QString} {names' : List QString}
    (h : ∀ part ∈ rootName :: names, backslash ∉ part)
    (h' : ∀ part ∈ rootName' :: names', backslash ∉ part)
    (heq : announcedName rootName names = announcedName rootName' names') :
    rootName = rootName' ∧ names = names' := by
  have hsplit := congrArg (List.splitOn backslash) heq
  rw [announcedName_eq_intercalate, announcedName_eq_intercalate,
    List.splitOn_intercalate backslash h (List.cons_ne_nil _ _),
    List.splitOn_intercalate backslash h' (List.cons_ne_nil _ _)] at hsplit
  exact List.cons.inj hsplit

theorem Visit.Spelled.heldName_eq (h : v.Spelled) : heldName v.announced = v.announced := by
  rw [heldName, List.take_of_length_le h.fits, List.takeWhile_eq_self_iff]
  intro unit hunit
  have hne : unit ≠ 0 := fun he => h.nul_notMem (he ▸ hunit)
  simpa using hne

/-- Roots with different names, and names without backslashes that fit a descriptor, keep
the entries apart. -/
theorem names_distinct_of_spelled
    (hspelled : ∀ v ∈ recordedVisits (acceptedFiles disk urls), v.Spelled)
    (hroots : ∀ root ∈ acceptedFiles disk urls, ∀ root' ∈ acceptedFiles disk urls,
      root.fileName = root'.fileName → root.path = root'.path) :
    NamesDistinct (captureUrls disk urls) := by
  have hroot : ∀ v ∈ recordedVisits (acceptedFiles disk urls),
      v.root ∈ acceptedFiles disk urls := by
    intro v hv
    obtain ⟨node, hmem, -⟩ := mem_visits (mem_visits_of_recorded hv)
    exact hmem
  rw [namesDistinct_captureUrls_iff]
  intro v hv w hw hne heq
  have hsv := hspelled v hv
  have hsw := hspelled w hw
  rw [hsv.heldName_eq, hsw.heldName_eq, Visit.announced, Visit.announced, if_pos hsv.found,
    if_pos hsw.found] at heq
  obtain ⟨hrootName, hnames⟩ :=
    announcedName_injective hsv.backslash_notMem hsw.backslash_notMem heq
  have hpath := hroots v.root (hroot v hv) w.root (hroot w hw) hrootName
  apply hne
  change Qt.absoluteFilePath (descend v.root.path v.names) =
    Qt.absoluteFilePath (descend w.root.path w.names)
  rw [hpath, hnames]

/-- The captured list has one entry for each path that the walks come by, named after the
first way to it; the names in the descriptors keep two entries, and all of them, apart if and
only if those ways, spelled out and cut to what a descriptor holds, do; and that is so when
the roots have different names and all names are spelled out in full. -/
theorem descriptor_names_distinct_iff (disk : FileNode) (urls : List QUrl) :
    captureUrls disk urls = (recordedVisits (acceptedFiles disk urls)).map Visit.entry ∧
      ((recordedVisits (acceptedFiles disk urls)).map Visit.path).Nodup ∧
      (∀ v ∈ recordedVisits (acceptedFiles disk urls), v.entry.displayName = v.announced) ∧
      (∀ v ∈ recordedVisits (acceptedFiles disk urls),
        ∀ w ∈ recordedVisits (acceptedFiles disk urls), ∀ descriptor descriptor',
          describeFile v.entry = some descriptor → describeFile w.entry = some descriptor' →
            (descriptor.name ≠ descriptor'.name ↔
              heldName v.announced ≠ heldName w.announced)) ∧
      (NamesDistinct (captureUrls disk urls) ↔
        ∀ v ∈ recordedVisits (acceptedFiles disk urls),
          ∀ w ∈ recordedVisits (acceptedFiles disk urls), v.path ≠ w.path →
            heldName v.announced ≠ heldName w.announced) ∧
      ((∀ v ∈ recordedVisits (acceptedFiles disk urls), v.Spelled) →
        (∀ root ∈ acceptedFiles disk urls, ∀ root' ∈ acceptedFiles disk urls,
          root.fileName = root'.fileName → root.path = root'.path) →
        NamesDistinct (captureUrls disk urls)) := by
  refine ⟨captureUrls_visits disk urls, recordedVisits_nodup _,
    fun v hv => recorded_displayName disk urls hv,
    fun v hv w hw descriptor descriptor' hd hd' => ?_,
    namesDistinct_captureUrls_iff disk urls, names_distinct_of_spelled⟩
  rw [recorded_descriptor_name disk urls hv hd, recorded_descriptor_name disk urls hw hd']

theorem isPlain_a : IsPlain (ofAscii "a") := ⟨by decide, by decide, by decide, by decide⟩

theorem isPlain_b : IsPlain (ofAscii "b") := ⟨by decide, by decide, by decide, by decide⟩

theorem isPlain_x : IsPlain (ofAscii "x") := ⟨by decide, by decide, by decide, by decide⟩

def namesakesDisk : FileNode :=
  .directory 4096
    [(⟨ofAscii "a", isPlain_a⟩, .directory 4096 [(⟨ofAscii "x", isPlain_x⟩, .file 1)]),
      (⟨ofAscii "b", isPlain_b⟩, .directory 4096 [(⟨ofAscii "x", isPlain_x⟩, .file 2)])]

/-- Selected together, both are announced under the name they share. -/
theorem namesakes_share_descriptor_name :
    captureUrls namesakesDisk (selection [ofAscii "/a/x", ofAscii "/b/x"]).urls =
        [⟨ofAscii "x", ofAscii "/a/x", 1, false⟩, ⟨ofAscii "x", ofAscii "/b/x", 2, false⟩] ∧
      ¬ NamesDistinct
        (captureUrls namesakesDisk (selection [ofAscii "/a/x", ofAscii "/b/x"]).urls) := by
  have hcaptured : captureUrls namesakesDisk (selection [ofAscii "/a/x", ofAscii "/b/x"]).urls =
      [⟨ofAscii "x", ofAscii "/a/x", 1, false⟩, ⟨ofAscii "x", ofAscii "/b/x", 2, false⟩] := by
    decide
  refine ⟨hcaptured, fun hdistinct => ?_⟩
  rw [hcaptured, namesDistinct_iff] at hdistinct
  exact hdistinct _ List.mem_cons_self _ (List.mem_cons_of_mem _ List.mem_cons_self) (by decide) rfl

end QfClient
