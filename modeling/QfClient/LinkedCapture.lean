import QfClient.CapturedFiles
import QfClient.Ways

/-!
# Capturing through symbolic links

A symbolic link is listed like the file that it leads to, so the walk through a root
follows it, under a path that does not resolve it. Here the disk is a graph whose nodes
are the real files. The walk ends where the graph below the root unfolds to a finite
tree, and then captures that tree.
-/

namespace QfClient

open Qt FirstWins Ways

/-- A real file or directory; the entries of a directory name others, a symbolic link
the one that it leads to. -/
inductive LinkedNode (ι : Type*) where
  | file (size : UInt64)
  | special
  | directory (size : UInt64) (entries : List (EntryName × ι))

abbrev FileGraph (ι : Type*) := ι → LinkedNode ι

/-- What the file info of a node tells without going into it. -/
def LinkedNode.outside {ι : Type*} : LinkedNode ι → FileNode
  | .file size => .file size
  | .special => .special
  | .directory size _ => .directory size []

namespace FileGraph

variable {ι : Type*} (graph : FileGraph ι)

/-- The loop over the entries of a directory; `call` is the recursive call. -/
def appendEntryList (root : QFileInfo)
    (call : QString → ι → List ClipboardInfoFile → Option (List ClipboardInfoFile))
    (dir : QString) : List (EntryName × ι) → List ClipboardInfoFile →
      Option (List ClipboardInfoFile)
  | [], files => some files
  | (name, i) :: rest, files =>
      if listed (name, (graph i).outside) then
        if isAbsolutePath name.1 then
          appendEntryList root call dir rest
            (recordFile root ⟨dirFilePath dir name.1, none⟩ files)
        else
          (call (dirFilePath dir name.1) i files).bind (appendEntryList root call dir rest)
      else appendEntryList root call dir rest files

/-- `none` says that the calls nest deeper than `depth`. -/
def appendClipboardInfoFile (root : QFileInfo) :
    ℕ → QString → ι → List ClipboardInfoFile → Option (List ClipboardInfoFile)
  | 0, _, _, _ => none
  | depth + 1, path, i, files =>
      let files := recordFile root ⟨path, some (graph i).outside⟩ files
      match graph i with
      | .directory _ entries =>
          graph.appendEntryList root (appendClipboardInfoFile root depth)
            (Qt.absoluteFilePath path) entries files
      | _ => some files

def capture (depth : ℕ) (path : QString) (i : ι) : Option (List ClipboardInfoFile) :=
  graph.appendClipboardInfoFile ⟨path, some (graph i).outside⟩ depth path i []

/-- The walk goes on from a directory to the file that one of its entries names. -/
def Follows (i : ι) (name : QString) (j : ι) : Prop :=
  ∃ size entries entryName, graph i = .directory size entries ∧ (entryName, j) ∈ entries ∧
    listed (entryName, (graph j).outside) = true ∧ isAbsolutePath entryName.1 = false ∧
    entryName.1 = name

/-- The entry is about the real file `k`, which it names by a way from the root. -/
def StandsFor (path : QString) (i : ι) (entry : ClipboardInfoFile) (k : ι) : Prop :=
  ∃ names, Way graph.Follows i names k ∧
    entry.localPath = Qt.absoluteFilePath (descend path names)

/-- The walk comes to an end. -/
def Terminates (path : QString) (i : ι) : Prop := ∃ depth, (graph.capture depth path i).isSome

/-- No two entries are about the same real file. -/
def RecordsOnce (path : QString) (i : ι) : Prop :=
  ∀ depth files, graph.capture depth path i = some files →
    files.Pairwise (fun entry other => ¬ ∃ k, graph.StandsFor path i entry k ∧
      graph.StandsFor path i other k)

/-- The entries of a directory with what can be walked through unfolded by `call`. -/
def unfoldEntries (call : ι → Option FileNode) :
    List (EntryName × ι) → Option (List (EntryName × FileNode))
  | [] => some []
  | (name, i) :: rest =>
      if listed (name, (graph i).outside) = true ∧ isAbsolutePath name.1 = false then
        (call i).bind (fun child => (unfoldEntries call rest).map ((name, child) :: ·))
      else (unfoldEntries call rest).map ((name, (graph i).outside) :: ·)

/-- The tree that the walk goes through, if it is no deeper than `depth`. -/
def unfold : ℕ → ι → Option FileNode
  | 0, _ => none
  | depth + 1, i =>
      match graph i with
      | .file size => some (.file size)
      | .special => some .special
      | .directory size entries =>
          (graph.unfoldEntries (unfold depth) entries).map (.directory size)

variable {graph} {root : QFileInfo} {path : QString} {i j k : ι} {depth : ℕ}
  {entries : List (EntryName × ι)} {names : List QString} {node : FileNode}

theorem listed_congr {name : EntryName} {child other : FileNode}
    (hfile : child.isFile = other.isFile) (hdir : child.isDir = other.isDir) :
    listed (name, child) = listed (name, other) := by
  unfold listed
  rw [hfile, hdir]

/-- The root of the tree is of the kind of the file. -/
theorem unfold_outside (h : graph.unfold depth i = some node) :
    node.isFile = (graph i).outside.isFile ∧ node.isDir = (graph i).outside.isDir := by
  cases depth with
  | zero => cases h
  | succ depth =>
      rw [unfold] at h
      split at h
      · rename_i size hnode
        rw [← Option.some.inj h, hnode]
        exact ⟨rfl, rfl⟩
      · rename_i hnode
        rw [← Option.some.inj h, hnode]
        exact ⟨rfl, rfl⟩
      · rename_i size entries hnode
        obtain ⟨children, -, rfl⟩ := Option.map_eq_some_iff.mp h
        rw [hnode]
        exact ⟨rfl, rfl⟩

/-- The loop goes through the unfolded entries. -/
theorem appendEntryList_eq (root : QFileInfo) (depth : ℕ) (dir : QString)
    (entries : List (EntryName × ι)) (files : List ClipboardInfoFile) :
    graph.appendEntryList root
        (fun path i files => (graph.unfold depth i).map
          (fun node => QfClient.appendClipboardInfoFile root path node files)) dir entries files =
      (graph.unfoldEntries (graph.unfold depth) entries).map
        (fun unfolded => QfClient.appendEntryList root dir unfolded files) := by
  induction entries generalizing files with
  | nil => rfl
  | cons entry rest ih =>
      obtain ⟨name, i⟩ := entry
      rw [appendEntryList, unfoldEntries]
      by_cases hlisted : listed (name, (graph i).outside) = true
      · rw [if_pos hlisted]
        by_cases habs : isAbsolutePath name.1 = true
        · rw [if_pos habs, if_neg (fun h => by simp [habs] at h), ih, Option.map_map]
          congr 1
          funext unfolded
          rw [Function.comp, QfClient.appendEntryList, if_pos hlisted, if_pos habs]
        · rw [if_neg habs, if_pos ⟨hlisted, by simpa using habs⟩]
          cases hchild : graph.unfold depth i with
          | none => rfl
          | some child =>
              obtain ⟨hfile, hdir⟩ := unfold_outside hchild
              rw [Option.map_some, Option.bind_some, Option.bind_some, ih, Option.map_map]
              congr 1
              funext unfolded
              rw [Function.comp, QfClient.appendEntryList,
                if_pos ((listed_congr hfile hdir).trans hlisted), if_neg habs]
      · rw [if_neg hlisted, if_neg (fun h => hlisted h.1), ih, Option.map_map]
        congr 1
        funext unfolded
        rw [Function.comp, QfClient.appendEntryList, if_neg hlisted]

/-- The walk through the graph is the one through the tree that it unfolds to. -/
theorem appendClipboardInfoFile_unfold (root : QFileInfo) (depth : ℕ) (path : QString) (i : ι)
    (files : List ClipboardInfoFile) :
    graph.appendClipboardInfoFile root depth path i files =
      (graph.unfold depth i).map
        (fun node => QfClient.appendClipboardInfoFile root path node files) := by
  induction depth generalizing path i files with
  | zero => rfl
  | succ depth ih =>
      have hcall : graph.appendClipboardInfoFile root depth = fun path i files =>
          (graph.unfold depth i).map
            (fun node => QfClient.appendClipboardInfoFile root path node files) := by
        funext path i files
        exact ih path i files
      rw [appendClipboardInfoFile, unfold, hcall]
      cases hnode : graph i with
      | file size => rfl
      | special => rfl
      | directory size entries =>
          simp only
          rw [appendEntryList_eq, Option.map_map]
          congr 1

theorem capture_eq (graph : FileGraph ι) (depth : ℕ) (path : QString) (i : ι) :
    graph.capture depth path i = (graph.unfold depth i).map (fun node =>
      addAll ClipboardInfoFile.localPath []
        (node.listing.map (candidate ⟨path, some (graph i).outside⟩ path))) := by
  rw [capture, appendClipboardInfoFile_unfold]
  congr 1
  funext node
  exact appendClipboardInfoFile_eq _ path node []

theorem unfoldEntries_mem {call : ι → Option FileNode}
    {unfolded : List (EntryName × FileNode)} {name : EntryName}
    (h : graph.unfoldEntries call entries = some unfolded) (hmem : (name, i) ∈ entries)
    (hlisted : listed (name, (graph i).outside) = true) (hname : isAbsolutePath name.1 = false) :
    ∃ child, call i = some child ∧ (name, child) ∈ unfolded := by
  induction entries generalizing unfolded with
  | nil => cases hmem
  | cons entry rest ih =>
      obtain ⟨name', i'⟩ := entry
      rw [unfoldEntries] at h
      split_ifs at h with hfollowed
      · obtain ⟨child, hchild, hrest⟩ := Option.bind_eq_some_iff.mp h
        obtain ⟨unfolded', hunfolded, rfl⟩ := Option.map_eq_some_iff.mp hrest
        rcases List.mem_cons.mp hmem with heq | hmem
        · obtain ⟨rfl, rfl⟩ := Prod.mk.inj heq
          exact ⟨child, hchild, List.mem_cons_self⟩
        · obtain ⟨child', hchild', hmem'⟩ := ih hunfolded hmem
          exact ⟨child', hchild', List.mem_cons_of_mem _ hmem'⟩
      · obtain ⟨unfolded', hunfolded, rfl⟩ := Option.map_eq_some_iff.mp h
        rcases List.mem_cons.mp hmem with heq | hmem
        · obtain ⟨rfl, rfl⟩ := Prod.mk.inj heq
          exact absurd ⟨hlisted, hname⟩ hfollowed
        · obtain ⟨child', hchild', hmem'⟩ := ih hunfolded hmem
          exact ⟨child', hchild', List.mem_cons_of_mem _ hmem'⟩

theorem unfoldEntries_none {call : ι → Option FileNode}
    (h : graph.unfoldEntries call entries = none) :
    ∃ name j, (name, j) ∈ entries ∧ listed (name, (graph j).outside) = true ∧
      isAbsolutePath name.1 = false ∧ call j = none := by
  induction entries with
  | nil => cases h
  | cons entry rest ih =>
      obtain ⟨name, i⟩ := entry
      have hlater : graph.unfoldEntries call rest = none →
          ∃ name' j, (name', j) ∈ (name, i) :: rest ∧ listed (name', (graph j).outside) = true ∧
            isAbsolutePath name'.1 = false ∧ call j = none := by
        intro hrest
        obtain ⟨name', j, hmem, hfollowed⟩ := ih hrest
        exact ⟨name', j, List.mem_cons_of_mem _ hmem, hfollowed⟩
      rw [unfoldEntries] at h
      split_ifs at h with hfollowed
      · cases hchild : call i with
        | none => exact ⟨name, i, List.mem_cons_self, hfollowed.1, hfollowed.2, hchild⟩
        | some child =>
            rw [hchild, Option.bind_some, Option.map_eq_none_iff] at h
            exact hlater h
      · rw [Option.map_eq_none_iff] at h
        exact hlater h

/-- A file on a way is in the listing of the tree, which is deeper than the way is long. -/
theorem way_listing (hway : Way graph.Follows i names k) (h : graph.unfold depth i = some node) :
    (∃ child, (names, some child) ∈ node.listing) ∧ names.length < depth := by
  induction hway generalizing depth node with
  | nil i =>
      cases depth with
      | zero => cases h
      | succ depth => exact ⟨⟨node, listing_nil_mem node⟩, Nat.succ_pos depth⟩
  | @cons i j k name names hstep _ ih =>
      obtain ⟨size, entries, entryName, hnode, hmem, hlisted, hname, rfl⟩ := hstep
      cases depth with
      | zero => cases h
      | succ depth =>
          rw [unfold, hnode] at h
          obtain ⟨unfolded, hunfolded, rfl⟩ := Option.map_eq_some_iff.mp h
          obtain ⟨child, hchild, hmem'⟩ := unfoldEntries_mem hunfolded hmem hlisted hname
          obtain ⟨⟨found, hfound⟩, hlength⟩ := ih hchild
          obtain ⟨hfile, hdir⟩ := unfold_outside hchild
          refine ⟨⟨found, ?_⟩, Nat.succ_lt_succ hlength⟩
          rw [FileNode.listing]
          apply List.mem_cons_of_mem
          refine mem_entriesListing.mpr
            ⟨(entryName, child), hmem', (listed_congr hfile hdir).trans hlisted, ?_⟩
          rw [if_neg (by simp [hname])]
          exact ⟨(names, some found), hfound, rfl⟩

/-- A walk that does not end in time is on a way as long as the time. -/
theorem exists_way_of_unfold_none (h : graph.unfold depth i = none) :
    ∃ names k, Way graph.Follows i names k ∧ names.length = depth := by
  induction depth generalizing i with
  | zero => exact ⟨[], i, .nil i, rfl⟩
  | succ depth ih =>
      rw [unfold] at h
      split at h
      · cases h
      · cases h
      · rename_i size entries hnode
        obtain ⟨name, j, hmem, hlisted, hname, hnone⟩ :=
          unfoldEntries_none (Option.map_eq_none_iff.mp h)
        obtain ⟨names, k, hway, rfl⟩ := ih hnone
        exact ⟨name.1 :: names, k,
          .cons ⟨size, entries, name, hnode, hmem, hlisted, hname, rfl⟩ hway, rfl⟩

theorem followed_of_way (hway : Way graph.Follows i names k) : Followed names := by
  induction hway with
  | nil => exact fun name hname => absurd hname List.not_mem_nil
  | cons hstep _ ih =>
      obtain ⟨size, entries, entryName, -, -, -, hname, rfl⟩ := hstep
      intro name hmem
      rcases List.mem_cons.mp hmem with rfl | hmem
      · exact ⟨entryName.2, hname⟩
      · exact ih name hmem

theorem terminates_iff : graph.Terminates path i ↔ ∃ depth, (graph.unfold depth i).isSome := by
  apply exists_congr
  intro depth
  rw [capture_eq, Option.isSome_map]

/-- Without a cycle no way is as long as there are files, so the walk has ended by then;
around a cycle some way is longer than any walk that ends is deep. -/
theorem terminates_iff_acyclic [Finite ι] (path : QString) (i : ι) :
    graph.Terminates path i ↔ Acyclic graph.Follows i := by
  rw [terminates_iff]
  constructor
  · rintro ⟨depth, hsome⟩ front j hfront more hmore
    obtain ⟨node, hnode⟩ := Option.isSome_iff_exists.mp hsome
    by_contra hne
    obtain ⟨bs, hbs, hlong⟩ := hmore.around hne depth
    have hshort := (way_listing (hfront.append hbs) hnode).2
    rw [List.length_append] at hshort
    omega
  · intro hacyclic
    refine ⟨Nat.card ι, ?_⟩
    cases hunfold : graph.unfold (Nat.card ι) i with
    | some node => rfl
    | none =>
        obtain ⟨names, k, hway, hlength⟩ := exists_way_of_unfold_none hunfold
        obtain ⟨front, j, more, hfront, hmore, hne⟩ := hway.exists_cycle hlength.ge
        exact absurd (hacyclic front j hfront more hmore) hne

/-- The files on all ways have entries. -/
theorem recorded_of_way (hway : Way graph.Follows i names k) {files : List ClipboardInfoFile}
    (h : graph.capture depth path i = some files) :
    ∃ entry ∈ files, entry.localPath = Qt.absoluteFilePath (descend path names) := by
  rw [capture_eq] at h
  obtain ⟨node, hnode, rfl⟩ := Option.map_eq_some_iff.mp h
  obtain ⟨⟨child, hchild⟩, -⟩ := way_listing hway hnode
  apply List.mem_map.mp
  rw [addAll_keys]
  right
  rw [List.map_map]
  exact List.mem_map.mpr ⟨(names, some child), hchild, rfl⟩

theorem recordsOnce_of_unambiguous (h : Unambiguous graph.Follows i) :
    graph.RecordsOnce path i := by
  intro depth files hfiles
  rw [capture_eq] at hfiles
  obtain ⟨node, -, rfl⟩ := Option.map_eq_some_iff.mp hfiles
  have hnodup : ((addAll ClipboardInfoFile.localPath [] (node.listing.map
      (candidate ⟨path, some (graph i).outside⟩ path))).map ClipboardInfoFile.localPath).Nodup :=
    addAll_nodup (by simp) _
  rw [List.Nodup, List.pairwise_map] at hnodup
  refine hnodup.imp ?_
  rintro entry other hne ⟨k, ⟨names, hway, hentry⟩, ⟨names', hway', hother⟩⟩
  apply hne
  rw [hentry, hother, h names names' k hway hway']

/-- Two ways to a file lead to two entries, since their paths are different. -/
theorem unambiguous_of_recordsOnce (hroot : path.head? = some slash)
    (hterminates : graph.Terminates path i) (honce : graph.RecordsOnce path i) :
    Unambiguous graph.Follows i := by
  obtain ⟨depth, hsome⟩ := hterminates
  obtain ⟨files, hfiles⟩ := Option.isSome_iff_exists.mp hsome
  intro names names' k hway hway'
  obtain ⟨entry, hentry, hpath⟩ := recorded_of_way hway hfiles
  obtain ⟨other, hother, hpath'⟩ := recorded_of_way hway' hfiles
  by_contra hne
  have hdiffer : entry ≠ other := by
    rintro rfl
    have hsplit := congrArg splitSkipEmpty (hpath.symm.trans hpath')
    rw [splitSkipEmpty_descend hroot (followed_of_way hway),
      splitSkipEmpty_descend hroot (followed_of_way hway')] at hsplit
    exact hne (List.append_cancel_left hsplit)
  have hsymm : Std.Symm (fun entry other => ¬ ∃ k, graph.StandsFor path i entry k ∧
      graph.StandsFor path i other k) := by
    constructor
    rintro entry other hnone ⟨k, hk, hk'⟩
    exact hnone ⟨k, hk', hk⟩
  exact (honce depth files hfiles).forall hentry hother hdiffer
    ⟨k, ⟨names, hway, hpath⟩, ⟨names', hway', hpath'⟩⟩

/-- The walk through a root ends if and only if no link below it leads back up; and it
ends with one entry at most for each real file if and only if every one is reached by a
single way. -/
theorem capture_ends_once_iff [Finite ι] (graph : FileGraph ι) (path : QString) (i : ι)
    (hroot : path.head? = some slash) :
    (graph.Terminates path i ↔ Acyclic graph.Follows i) ∧
      (graph.Terminates path i ∧ graph.RecordsOnce path i ↔ Unambiguous graph.Follows i) := by
  refine ⟨terminates_iff_acyclic path i, fun h => unambiguous_of_recordsOnce hroot h.1 h.2, ?_⟩
  intro hunambiguous
  exact ⟨(terminates_iff_acyclic path i).mpr hunambiguous.acyclic,
    recordsOnce_of_unambiguous hunambiguous⟩

end FileGraph

theorem isPlain_f : IsPlain (ofAscii "f") := ⟨by decide, by decide, by decide, by decide⟩

theorem isPlain_l : IsPlain (ofAscii "l") := ⟨by decide, by decide, by decide, by decide⟩

def plainDirectory : FileGraph (Fin 2)
  | 0 => .directory 4096 [(⟨ofAscii "f", isPlain_f⟩, 1)]
  | 1 => .file 3

theorem capture_ends_once_plain :
    plainDirectory.Terminates (ofAscii "/a") 0 ∧ plainDirectory.RecordsOnce (ofAscii "/a") 0 := by
  refine (FileGraph.capture_ends_once_iff plainDirectory (ofAscii "/a") 0 rfl).2.mpr ?_
  have hfile : ∀ names k, Way plainDirectory.Follows 1 names k → names = [] ∧ k = 1 := by
    intro names k hway
    cases hway with
    | nil => exact ⟨rfl, rfl⟩
    | cons hstep _ =>
        obtain ⟨size, entries, name, hnode, -⟩ := hstep
        cases hnode
  have hdirectory : ∀ names k, Way plainDirectory.Follows 0 names k →
      names = [] ∧ k = 0 ∨ names = [ofAscii "f"] ∧ k = 1 := by
    intro names k hway
    cases hway with
    | nil => exact Or.inl ⟨rfl, rfl⟩
    | cons hstep hrest =>
        obtain ⟨size, entries, name, hnode, hmem, -, -, rfl⟩ := hstep
        cases hnode
        obtain ⟨rfl, rfl⟩ := Prod.mk.inj (List.mem_singleton.mp hmem)
        obtain ⟨rfl, rfl⟩ := hfile _ _ hrest
        exact Or.inr ⟨rfl, rfl⟩
  intro names names' k hway hway'
  rcases hdirectory names k hway with ⟨rfl, rfl⟩ | ⟨rfl, rfl⟩
  · rcases hdirectory names' 0 hway' with ⟨rfl, -⟩ | ⟨-, hk⟩
    · rfl
    · exact absurd hk (by decide)
  · rcases hdirectory names' 1 hway' with ⟨-, hk⟩ | ⟨rfl, -⟩
    · exact absurd hk (by decide)
    · rfl

def linkToParent : FileGraph (Fin 1) := fun _ =>
  .directory 4096 [(⟨ofAscii "l", isPlain_l⟩, 0)]

def linkToSibling : FileGraph (Fin 2)
  | 0 => .directory 4096 [(⟨ofAscii "f", isPlain_f⟩, 1), (⟨ofAscii "l", isPlain_l⟩, 1)]
  | 1 => .file 3

/-- The calls go down the link to the parent for ever, and the link to the sibling is
recorded as another file. -/
theorem links_are_walked_through :
    ¬ linkToParent.Terminates (ofAscii "/a") 0 ∧
      linkToSibling.capture 2 (ofAscii "/a") 0 =
        some [⟨ofAscii "a", ofAscii "/a", 4096, true⟩, ⟨ofAscii "a\\f", ofAscii "/a/f", 3, false⟩,
          ⟨ofAscii "a\\l", ofAscii "/a/l", 3, false⟩] ∧
      ¬ linkToSibling.RecordsOnce (ofAscii "/a") 0 := by
  have hparent : ∀ depth, linkToParent.unfold depth 0 = none := by
    intro depth
    induction depth with
    | zero => rfl
    | succ depth ih =>
        rw [FileGraph.unfold]
        change Option.map _ (linkToParent.unfoldEntries (linkToParent.unfold depth) [(_, 0)]) = none
        rw [FileGraph.unfoldEntries, if_pos (by decide), ih]
        rfl
  have hsibling : linkToSibling.capture 2 (ofAscii "/a") 0 =
      some [⟨ofAscii "a", ofAscii "/a", 4096, true⟩, ⟨ofAscii "a\\f", ofAscii "/a/f", 3, false⟩,
        ⟨ofAscii "a\\l", ofAscii "/a/l", 3, false⟩] := by
    decide
  refine ⟨?_, hsibling, fun honce => ?_⟩
  · rw [FileGraph.terminates_iff]
    rintro ⟨depth, hsome⟩
    rw [hparent] at hsome
    cases hsome
  · have hfile : linkToSibling.StandsFor (ofAscii "/a") 0
        ⟨ofAscii "a\\f", ofAscii "/a/f", 3, false⟩ 1 :=
      ⟨[ofAscii "f"], .cons ⟨4096, _, _, rfl, List.mem_cons_self, by decide, by decide, rfl⟩
        (.nil 1), by decide⟩
    have hlink : linkToSibling.StandsFor (ofAscii "/a") 0
        ⟨ofAscii "a\\l", ofAscii "/a/l", 3, false⟩ 1 :=
      ⟨[ofAscii "l"], .cons ⟨4096, _, _, rfl, List.mem_cons_of_mem _ List.mem_cons_self,
        by decide, by decide, rfl⟩ (.nil 1), by decide⟩
    have hpairwise := (List.pairwise_cons.mp (honce 2 _ hsibling)).2
    exact (List.pairwise_cons.mp hpairwise).1 _ List.mem_cons_self ⟨1, hfile, hlink⟩

end QfClient
