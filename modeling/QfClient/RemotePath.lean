import QfClient.Basic

/-!
# Where a remote file is stored

The display name of an announced file comes from the server. The batch stores
the file below its root directory under the path derived from that name, and
publishes the first component of it.
-/

namespace QfClient

open Qt

/-- `normalized.replace("\\", "/")`. -/
def normalizeSeparators (displayName : QString) : QString :=
  displayName.map (fun u => if u = backslash then slash else u)

/-- `safe_remote_relative_path`; the empty path is the rejection. -/
def safeRemoteRelativePath (displayName : QString) : QString :=
  let normalized := normalizeSeparators displayName
  if normalized.head? = some slash ∨
      (2 ≤ normalized.length ∧ normalized[1]? = some colon) then []
  else
    let parts := splitSkipEmpty normalized
    if parts = [] then []
    else if ∃ part ∈ parts, part = dot ∨ part = dotDot then []
    else cleanPath (join parts)

def localPathOf (rootPath relativePath : QString) : QString :=
  filePath rootPath relativePath

def topPathOf (rootPath relativePath : QString) : QString :=
  filePath rootPath (firstSection relativePath)

theorem normalizeSeparators_cons (u : UInt16) (name : QString) :
    normalizeSeparators (u :: name) =
      (if u = backslash then slash else u) :: normalizeSeparators name := rfl

theorem normalizeSeparators_head (name : QString) :
    (normalizeSeparators name).head? = some colon ↔ name.head? = some colon := by
  cases name with
  | nil => rfl
  | cons u name =>
      rw [normalizeSeparators_cons, List.head?_cons, List.head?_cons]
      by_cases hu : u = backslash
      · subst hu
        decide
      · rw [if_neg hu]

/-- An accepted name gives a path of plain components, and its first character
is the colon only when the name starts with one. -/
theorem safeRemoteRelativePath_spec {name : QString}
    (h : safeRemoteRelativePath name ≠ []) :
    ∃ u tail parts, safeRemoteRelativePath name = join ((u :: tail) :: parts) ∧
      splitSkipEmpty (normalizeSeparators name) = (u :: tail) :: parts ∧ u ≠ slash ∧
      (∀ part ∈ (u :: tail) :: parts, IsPlain part) ∧
      (u = colon ↔ name.head? = some colon) := by
  have hhead := normalizeSeparators_head name
  unfold safeRemoteRelativePath at h ⊢
  generalize normalizeSeparators name = normalized at h hhead ⊢
  dsimp only at h ⊢
  split_ifs at h ⊢ with hprefix hempty hdots
  · exact absurd rfl h
  · exact absurd rfl h
  · exact absurd rfl h
  · obtain ⟨hslash, -⟩ := not_or.mp hprefix
    cases normalized with
    | nil => exact absurd rfl hempty
    | cons u path =>
        have hu : u ≠ slash := fun he => hslash (by simp [he])
        obtain ⟨tail, parts, hparts⟩ := splitSkipEmpty_cons path hu
        have hplain : ∀ part ∈ (u :: tail) :: parts, IsPlain part := by
          intro part hpart
          rw [← hparts] at hpart
          obtain ⟨hne, hmem⟩ := splitSkipEmpty_spec hpart
          exact ⟨hne, fun he => hdots ⟨part, hpart, .inl he⟩,
            fun he => hdots ⟨part, hpart, .inr he⟩, hmem⟩
        refine ⟨u, tail, parts, ?_, hparts, hu, hplain, ?_⟩
        · rw [hparts, cleanPath_join hplain hu]
        · rw [← hhead, List.head?_cons, Option.some.injEq]

theorem isAbsolutePath_cons {u : UInt16} (hu : u ≠ slash) (path : QString) :
    isAbsolutePath (u :: path) = true ↔ u = colon := by
  simp [isAbsolutePath, hu]

theorem filePath_relative {root name : QString} (h : isAbsolutePath name ≠ true) :
    filePath root name = root ++ slash :: name := if_neg h

/-- Every path derived from an accepted name lies strictly below the batch root,
exactly when the name does not start with a colon. -/
theorem remote_paths_below_root_iff (rootPath displayName : QString)
    (h : safeRemoteRelativePath displayName ≠ []) :
    (StrictlyBelow rootPath (localPathOf rootPath (safeRemoteRelativePath displayName)) ∧
      StrictlyBelow rootPath (topPathOf rootPath (safeRemoteRelativePath displayName))) ↔
    displayName.head? ≠ some colon := by
  obtain ⟨u, tail, parts, hpath, -, hu, hplain, hcolon⟩ := safeRemoteRelativePath_spec h
  have htop : firstSection (join ((u :: tail) :: parts)) = u :: tail :=
    firstSection_join (fun q hq => (hplain q hq).slash_notMem)
  rw [ne_eq, ← hcolon, hpath, localPathOf, topPathOf, htop]
  constructor
  · rintro ⟨-, hbelow⟩ rfl
    rw [filePath, if_pos ((isAbsolutePath_cons hu tail).mpr rfl)] at hbelow
    exact (hplain (colon :: tail) (by simp)).slash_notMem hbelow.slash_mem
  · intro hne
    have htail : isAbsolutePath (u :: tail) ≠ true := mt (isAbsolutePath_cons hu tail).mp hne
    have hjoin : isAbsolutePath (join ((u :: tail) :: parts)) ≠ true := by
      cases parts with
      | nil => exact htail
      | cons q qs => exact mt (isAbsolutePath_cons hu _).mp hne
    refine ⟨⟨_, List.cons_ne_nil _ _, hplain, filePath_relative hjoin⟩,
      ⟨[u :: tail], List.cons_ne_nil _ _, ?_, ?_⟩⟩
    · intro part hpart
      obtain rfl := List.mem_singleton.mp hpart
      exact hplain _ List.mem_cons_self
    · rw [join_singleton]
      exact filePath_relative htail

theorem remote_paths_below_root_two_components :
    (StrictlyBelow (ofAscii "/b")
        (localPathOf (ofAscii "/b") (safeRemoteRelativePath (ofAscii "a\\b"))) ∧
      StrictlyBelow (ofAscii "/b")
        (topPathOf (ofAscii "/b") (safeRemoteRelativePath (ofAscii "a\\b")))) ↔
    (ofAscii "a\\b").head? ≠ some colon :=
  remote_paths_below_root_iff (ofAscii "/b") (ofAscii "a\\b") (by decide)

/-- The name `:x` is accepted, and names the resource `:x` instead of a file. -/
theorem remote_path_of_colon_name :
    safeRemoteRelativePath (ofAscii ":x") ≠ [] ∧
      ¬ StrictlyBelow (ofAscii "/b")
        (localPathOf (ofAscii "/b") (safeRemoteRelativePath (ofAscii ":x"))) ∧
      ¬ StrictlyBelow (ofAscii "/b")
        (topPathOf (ofAscii "/b") (safeRemoteRelativePath (ofAscii ":x"))) := by
  refine ⟨by decide, fun h => ?_, fun h => ?_⟩
  · exact absurd h.slash_mem (by decide)
  · exact absurd h.slash_mem (by decide)

end QfClient
