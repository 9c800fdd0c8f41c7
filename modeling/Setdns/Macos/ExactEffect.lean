import Setdns.Macos.Confinement

/-!
What apply and close do to the directory when no call fails. Read as a table
from paths to contents, the cleanup drops the owner's files and the writes
enter one file per domain. A temporary file is the later domain's, never an
earlier one's, because the normal form lists fewer labels first.
-/

namespace Setdns.Macos.Resolver

open Text Effects Effects.Program Effects.Directory
open Effects.Directory.Disk
open Effects.Files (IoError ENOENT EISDIR)

abbrev Table : Type := Path → Option Bytes

/-- The resolver directory as a path. -/
abbrev dir : Path := components resolverDir

/-- What is left of a file when the owner's files are dropped. -/
abbrev unmarked (owner : Bytes) (file : Option Bytes) : Option Bytes :=
  file.filter fun c => ¬ Marked owner c

/-- Drop the owner's files from the directory. -/
def purge (owner : Bytes) (t : Table) : Table
  | [] => t []
  | name :: up => if up = dir then unmarked owner (t (name :: up)) else t (name :: up)

/-- Enter one file per domain. -/
def install (owner : Bytes) (servers : List IpAddr) (suffixes : List DomainSuffix) (t : Table) :
    Table :=
  suffixes.foldl (fun t suffix =>
    Function.update t (suffix.domain :: dir) (some (renderResolver owner suffix.domain servers))) t

section Tables

variable {owner : Bytes} {servers : List IpAddr} {t : Table}

@[simp] theorem purge_entry (owner name : Bytes) (t : Table) :
    purge owner t (name :: dir) = unmarked owner (t (name :: dir)) := by
  simp [purge]

theorem purge_other {p : Path} (h : ∀ name, p ≠ name :: dir) : purge owner t p = t p := by
  cases p with
  | nil => rfl
  | cons name up =>
      rw [purge, if_neg]
      rintro rfl
      exact h name rfl

theorem unmarked_eq_some {file : Option Bytes} {c : Bytes} :
    unmarked owner file = some c ↔ file = some c ∧ ¬ Marked owner c := by
  simp [unmarked, Option.filter_eq_some_iff]

@[simp] theorem unmarked_unmarked (file : Option Bytes) :
    unmarked owner (unmarked owner file) = unmarked owner file := by
  simp [unmarked, Option.filter_filter]

theorem unmarked_of_marked {c : Bytes} (h : Marked owner c) : unmarked owner (some c) = none := by
  simp [unmarked, Option.filter, h]

theorem unmarked_of_foreign {c : Bytes} (h : ¬ Marked owner c) :
    unmarked owner (some c) = some c := by
  simp [unmarked, Option.filter, h]

theorem install_other (suffixes : List DomainSuffix) {p : Path}
    (h : ∀ s ∈ suffixes, p ≠ s.domain :: dir) : install owner servers suffixes t p = t p := by
  induction suffixes generalizing t with
  | nil => rfl
  | cons s suffixes ih =>
      obtain ⟨here, rest⟩ := List.forall_mem_cons.mp h
      rw [install, List.foldl_cons, ← install, ih rest, Function.update_of_ne here]

theorem install_entry {suffixes : List DomainSuffix}
    (apart : suffixes.Pairwise fun s s' => s.domain ≠ s'.domain) {s : DomainSuffix}
    (mem : s ∈ suffixes) :
    install owner servers suffixes t (s.domain :: dir) =
      some (renderResolver owner s.domain servers) := by
  induction suffixes generalizing t with
  | nil => cases mem
  | cons s' suffixes ih =>
      obtain ⟨first, rest⟩ := List.pairwise_cons.mp apart
      rw [install, List.foldl_cons, ← install]
      rcases List.mem_cons.mp mem with rfl | mem
      · rw [install_other, Function.update_self]
        intro s' later same
        exact first s' later (List.cons.inj same).1
      · exact ih rest mem

end Tables

section Names

variable {d : Disk} {name : Bytes}

theorem relative_of_fileName (valid : FileName name) : ¬ [slash] <+: name :=
  fun h => valid.noSlash (h.subset List.mem_cons_self)

theorem components_resolverPath (valid : FileName name) :
    components (resolverPath name) = name :: dir := by
  rw [components_relative (relative_of_fileName valid), components_name valid,
    List.singleton_append]

theorem nul_not_mem_resolverDir : nul ∉ resolverDir := by decide

theorem names_resolverPath (valid : FileName name) (there : d.IsDir dir) :
    Names d (resolverPath name) where
  within := by
    rw [components_resolverPath valid]
    exact ⟨there, valid⟩
  noNul := by
    rw [resolverPath_relative (relative_of_fileName valid), List.mem_append, List.mem_cons]
    rintro (h | h | h)
    · exact nul_not_mem_resolverDir h
    · cases h
    · exact valid.noNul h
  isFile := by
    rw [resolverPath_relative (relative_of_fileName valid)]
    exact endsInDir_append _ valid

end Names

section Cleanup

variable {owner path : Bytes} {d : Disk}

/-- What the removal of a marked file does: a directory stops it, everything else
loses the file if it is the owner's. -/
def Unmarks (owner : Bytes) (p : Path) (d : Disk) (r : Except ResolverError Unit) (d' : Disk) :
    Prop :=
  (d.IsDir p ∧ r ≠ .ok ()) ∨
    (¬ d.IsDir p ∧ r = .ok () ∧ SameDirs d d' ∧
      d'.content = Function.update d.content p (unmarked owner (d.content p)))

theorem removeIfOwnerMarked_calm (names : Names d path) :
    Safe calm (fun _ => True) (Unmarks owner (components path) d)
      (removeIfOwnerMarked path owner).run d := by
  have same : Function.update d.content (components path) (d.content (components path)) =
      d.content := Function.update_eq_self _ _
  refine Safe.lift (Safe.calm (by simp) ⟨trivial, ?_⟩)
  cases d.find (components path) with
  | dir there =>
      simp only [perform_read_dir names there, IoError.isNotFound, EISDIR, ENOENT]
      exact ⟨trivial, .inl ⟨there, fun h => by cases h⟩⟩
  | free free =>
      simp only [perform_read_free names free, IoError.isNotFound, decide_true, ite_true]
      refine ⟨trivial, .inr ⟨by simp [free], rfl, SameDirs.rfl, ?_⟩⟩
      rw [← same, content_free free]
      simp
  | file i there =>
      have found := content_file there
      have notDir : ¬ d.IsDir (components path) := by simp [there]
      rw [perform_read_file names found]
      by_cases marked : Marked owner (d.data i)
      · simp only [marked.1, marked.2, ite_true]
        obtain ⟨d', removed, dirs, content⟩ := perform_removeFile names found
        refine Safe.mapErr (Safe.calm (by simp) ⟨trivial, ?_⟩)
        rw [removed]
        refine .inr ⟨notDir, rfl, dirs, ?_⟩
        rw [content, found, unmarked_of_marked marked]
      · have kept : Unmarks owner (components path) d (.ok ()) d := by
          refine .inr ⟨notDir, rfl, SameDirs.rfl, ?_⟩
          rw [found, unmarked_of_foreign marked, ← found, same]
        by_cases utf8 : Utf8 (d.data i)
        · have foreign : ¬ hasOwnerHeader (d.data i) owner = true := fun h => marked ⟨utf8, h⟩
          simp only [utf8, foreign, ite_true]
          exact ⟨trivial, kept⟩
        · simp only [utf8, ite_false, IoError.isNotFound]
          exact ⟨trivial, kept⟩

/-- The entries under the names have lost the owner's files. -/
structure Unmarked (owner : Bytes) (names : List Bytes) (d d' : Disk) : Prop where
  dirs : SameDirs d d'
  entry : ∀ name ∈ names, d'.content (name :: dir) = unmarked owner (d.content (name :: dir))
  other : ∀ p, (∀ name ∈ names, p ≠ name :: dir) → d'.content p = d.content p

theorem Unmarked.cons {name : Bytes} {names : List Bytes} {d₁ d₂ : Disk} (dirs : SameDirs d d₁)
    (content : d₁.content =
      Function.update d.content (name :: dir) (unmarked owner (d.content (name :: dir))))
    (rest : Unmarked owner names d₁ d₂) : Unmarked owner (name :: names) d d₂ where
  dirs := dirs.trans rest.dirs
  entry n mem := by
    by_cases later : n ∈ names
    · rw [rest.entry n later, content]
      by_cases same : n = name
      · subst same
        rw [Function.update_self, unmarked_unmarked]
      · rw [Function.update_of_ne (by simpa using same)]
    · obtain rfl : n = name := (List.mem_cons.mp mem).resolve_right later
      have alone : ∀ n' ∈ names, n :: dir ≠ n' :: dir := by
        rintro n' mem' same
        exact later ((List.cons.inj same).1.symm ▸ mem')
      rw [rest.other _ alone, content, Function.update_self]
  other p h := by
    obtain ⟨first, others⟩ := List.forall_mem_cons.mp h
    rw [rest.other p others, content, Function.update_of_ne first]

theorem cleanupEntries_calm (names : List Bytes) (valid : ∀ name ∈ names, FileName name)
    (there : d.IsDir dir) :
    Safe calm (fun _ => True) (fun r d' =>
      ((∃ name ∈ names, d.IsDir (name :: dir)) ∧ r ≠ .ok ()) ∨
        ((∀ name ∈ names, ¬ d.IsDir (name :: dir)) ∧ r = .ok () ∧ Unmarked owner names d d'))
      (cleanupEntries owner (names.map .ok)).run d := by
  induction names generalizing d with
  | nil => exact ⟨trivial, .inr ⟨by simp, rfl, SameDirs.rfl, by simp, fun _ _ => rfl⟩⟩
  | cons name names ih =>
      obtain ⟨validName, validNames⟩ := List.forall_mem_cons.mp valid
      have removed : Safe calm (fun _ => True) (Unmarks owner (name :: dir) d)
          (removeIfOwnerMarked (resolverPath name) owner).run d := by
        rw [← components_resolverPath validName]
        exact removeIfOwnerMarked_calm (names_resolverPath validName there)
      rw [List.map_cons, cleanupEntries]
      dsimp only
      rw [ite_self]
      refine Safe.tryBind removed ?_ ?_
      · rintro _ d₁ - (⟨_, h⟩ | ⟨notDir, _, dirs, content⟩)
        · exact absurd rfl h
        refine (ih validNames ((dirs dir).mpr there)).post ?_
        rintro r d₂ - (⟨⟨n, mem, isDir⟩, h⟩ | ⟨notDirs, rfl, rest⟩)
        · exact .inl ⟨⟨n, List.mem_cons_of_mem _ mem, (dirs _).mp isDir⟩, h⟩
        · refine .inr ⟨List.forall_mem_cons.mpr ⟨notDir, ?_⟩, rfl, rest.cons dirs content⟩
          exact fun n mem isDir => notDirs n mem ((dirs _).mpr isDir)
      · rintro e d₁ - (⟨isDir, _⟩ | ⟨_, h, _⟩)
        · exact .inl ⟨⟨name, List.mem_cons_self, isDir⟩, by simp⟩
        · cases h

/-- All of the directory has been cleaned. -/
structure Purged (owner : Bytes) (d d' : Disk) : Prop where
  dirs : SameDirs d d'
  content : d'.content = purge owner d.content

/-- No directory lies in the resolver directory. -/
abbrev Flat (d : Disk) : Prop := ∀ name, ¬ d.IsDir (name :: dir)

theorem Unmarked.purged {names : List Bytes} {d' : Disk} (h : Unmarked owner names d d')
    (perm : names.Perm (d.children dir)) : Purged owner d d' := by
  refine ⟨h.dirs, funext fun p => ?_⟩
  by_cases listed : ∃ name ∈ names, p = name :: dir
  · obtain ⟨name, mem, rfl⟩ := listed
    rw [h.entry name mem, purge_entry]
  · push Not at listed
    rw [h.other p listed]
    by_cases child : ∃ name, p = name :: dir
    · obtain ⟨name, rfl⟩ := child
      have free : d.lookup (name :: dir) = none := by
        by_contra present
        exact listed name (perm.mem_iff.mpr ((mem_children d dir name).mpr present)) rfl
      rw [purge_entry, content_free free]
      rfl
    · push Not at child
      rw [purge_other child]

/-- The cleanup fails on a directory among the entries and otherwise drops all of
the owner's files. -/
theorem cleanupOwner_calm (owner : Bytes) (d : Disk) :
    Safe calm (fun _ => True) (fun r d' =>
      ((¬ Flat d ∨ ¬ d.IsDir dir) ∧ r ≠ .ok ()) ∨ (Flat d ∧ r = .ok () ∧ Purged owner d d'))
      (cleanupOwner owner).run d := by
  refine Safe.lift ⟨trivial, fun _ _ => trivial, fun r d' a => ⟨trivial, ?_⟩⟩
  obtain ⟨rfl, ⟨names, perm, there, rfl⟩ | ⟨e, rfl, notDir⟩⟩ :=
    calm_readDir nul_not_mem_resolverDir a
  · have member : ∀ name, name ∈ names ↔ d'.lookup (name :: dir) ≠ none := fun name => by
      rw [perm.mem_iff, mem_children]
    refine (cleanupEntries_calm names (fun name mem => ?_) there).post ?_
    · exact (d'.inside name dir ((member name).mp mem)).2
    rintro r d₁ - (⟨⟨name, _, isDir⟩, h⟩ | ⟨notDirs, rfl, rest⟩)
    · exact .inl ⟨.inl fun flat => flat name isDir, h⟩
    · refine .inr ⟨fun name isDir => ?_, rfl, rest.purged perm⟩
      exact notDirs name ((member name).mpr (by simp [isDir])) isDir
  · dsimp only
    split
    · -- a missing directory has no entries
      have absent : ∀ name, d'.lookup (name :: dir) = none := by
        intro name
        by_contra present
        have there := (d'.inside name dir present).1
        exact notDir there
      refine ⟨trivial, .inr ⟨fun name isDir => ?_, rfl, SameDirs.rfl, funext fun p => ?_⟩⟩
      · cases (absent name).symm.trans isDir
      by_cases child : ∃ name, p = name :: dir
      · obtain ⟨name, rfl⟩ := child
        rw [purge_entry, content_free (absent name)]
        rfl
      · push Not at child
        rw [purge_other child]
    · exact ⟨trivial, .inl ⟨.inr notDir, fun h => by cases h⟩⟩

theorem purge_missing (owner : Bytes) (missing : ¬ d.IsDir dir) :
    purge owner d.content = d.content := by
  funext p
  by_cases child : ∃ name, p = name :: dir
  · obtain ⟨name, rfl⟩ := child
    have absent : d.lookup (name :: dir) = none := by
      by_contra present
      exact missing (d.inside name dir present).1
    rw [purge_entry, content_free absent]
    rfl
  · push Not at child
    exact purge_other child

/-- Without the directory there is nothing to clean up. -/
theorem cleanupOwner_missing (owner : Bytes) (missing : ¬ d.IsDir dir) :
    Safe faulty (fun d' => d' = d) (fun _ d' => d' = d) (cleanupOwner owner).run d := by
  have answered : ∀ r d', faulty.answers d (.readDir resolverDir) r d' →
      d' = d ∧ ∃ e, r = .error e := by
    intro r d' a
    rcases a with a | ⟨e, -, rfl, same⟩ | ⟨⟨_, _, there, -⟩, -⟩
    · obtain ⟨same, ⟨_, -, there, -⟩ | ⟨e, rfl, -⟩⟩ := calm_readDir nul_not_mem_resolverDir a
      · exact absurd there missing
      · exact ⟨same, e, rfl⟩
    · exact ⟨same, e, rfl⟩
    · exact absurd there missing
  refine Safe.lift ⟨rfl, fun d' torn => ?_, fun r d' a => ?_⟩
  · obtain ⟨r, a⟩ := torn_answer torn
    exact (answered r d' a).1
  obtain ⟨rfl, e, rfl⟩ := answered r d' a
  refine ⟨rfl, ?_⟩
  dsimp only
  split <;> exact ⟨rfl, rfl⟩

/-- Nor is that a failure, where the directory can be made. -/
theorem cleanupOwner_unmade (owner : Bytes) (made : (d.makeDirs dir).1 = .ok ())
    (missing : ¬ d.IsDir dir) : Yields calm (cleanupOwner owner).run d (.ok ()) d := by
  refine Safe.lift ⟨trivial, fun _ _ => trivial, fun r d' a => ⟨trivial, ?_⟩⟩
  obtain ⟨order, -, a⟩ := a
  have absent : d.perform order (.readDir resolverDir) = (.error (.os ENOENT), d) := by
    have noNul := nul_not_mem_resolverDir
    rcases missing_of_makeDirs made missing with blocked | ⟨⟨r, reached⟩, free⟩
    · simp only [perform, reach, noNul, ite_false, blocked]
    · simp only [perform, reach, noNul, ite_false, reached]
      cases d.find dir with
      | dir h => exact absurd h missing
      | file i h => cases free.symm.trans h
      | free h => rfl
  obtain ⟨rfl, rfl⟩ := Prod.mk.inj (absent.symm.trans a)
  exact ⟨trivial, rfl, rfl⟩

end Cleanup

section Write

variable {owner domain content : Bytes} {d : Disk}

/-- No file of the owner stands under the name. -/
def NotOwned (owner : Bytes) (d : Disk) (name : Bytes) : Prop :=
  ∀ c, d.content (name :: dir) = some c → ¬ Marked owner c

theorem ensureAbsentOrOwned_calm (owner path : Bytes) (d : Disk) :
    Safe calm (fun _ => True) (fun r d' => d' = d ∧ (r = .ok () →
        d.lookup (components path) = none ∨
          ∃ c, d.content (components path) = some c ∧ Marked owner c))
      (ensureAbsentOrOwned path owner).run d := by
  refine Safe.lift ⟨trivial, fun _ _ => trivial, fun r d' a => ⟨trivial, ?_⟩⟩
  obtain ⟨rfl, found, missing⟩ := faulty_read (.inl a)
  cases r with
  | error source =>
      dsimp only
      split
      · rename_i notFound
        obtain rfl : source = .os ENOENT := by simpa [IoError.isNotFound] using notFound
        exact ⟨trivial, rfl, fun _ => .inl (missing rfl)⟩
      · exact ⟨trivial, rfl, fun h => by cases h⟩
  | ok c =>
      dsimp only
      split
      · rename_i header
        exact ⟨trivial, rfl, fun _ => .inr ⟨c, (found c rfl).1, (found c rfl).2, header⟩⟩
      · exact ⟨trivial, rfl, fun h => by cases h⟩

/-- Where the owner has no file yet, an accepted path is free. -/
theorem ensureAbsentOrOwned_free {name : Bytes}
    (path : components (resolverPath name) = name :: dir) (notOwned : NotOwned owner d name) :
    Safe calm (fun _ => True) (fun r d' => d' = d ∧ (r = .ok () → d.lookup (name :: dir) = none))
      (ensureAbsentOrOwned (resolverPath name) owner).run d := by
  refine (ensureAbsentOrOwned_calm owner _ d).post ?_
  rintro r d' - ⟨same, accepted⟩
  rw [path] at accepted
  refine ⟨same, fun ok => (accepted ok).resolve_right ?_⟩
  rintro ⟨c, there, marked⟩
  exact notOwned c there marked

/-- A domain that a directory entry could be named after, length and NUL aside. -/
structure Relative (domain : Bytes) : Prop where
  nonempty : domain ≠ []
  notDot : domain ≠ [dot]
  notDotDot : domain ≠ [dot, dot]
  noSlash : slash ∉ domain

theorem Relative.components (h : Relative domain) :
    components (resolverPath domain) = domain :: dir := by
  have relative : ¬ [slash] <+: domain := fun h' => h.noSlash (h'.subset List.mem_cons_self)
  rw [components_relative relative, components_part h.noSlash, if_neg, List.singleton_append]
  exact fun h' => h'.elim h.nonempty h.notDot

theorem Relative.components_temp (h : Relative domain) :
    Directory.components (resolverPath (domain ++ tempSuffix)) = (domain ++ tempSuffix) :: dir := by
  have relative : ¬ [slash] <+: domain ++ tempSuffix := fun h' =>
    slash_not_mem_temp h.noSlash (h'.subset List.mem_cons_self)
  rw [components_relative relative, Resolver.components_temp h.noSlash, List.singleton_append]

theorem Relative.fileName (h : Relative domain) (valid : FileName (domain ++ tempSuffix)) :
    FileName domain := by
  obtain ⟨noNul, short⟩ := (fileName_temp_iff h.noSlash).mp valid
  exact ⟨h.nonempty, h.notDot, h.notDotDot, h.noSlash, noNul, short.trans (by decide)⟩

/-- The file is entered under the domain, and both of its paths were free. -/
structure Written (domain content : Bytes) (d d' : Disk) : Prop where
  dirs : SameDirs d d'
  free : d.content (domain :: dir) = none
  content : d'.content = Function.update d.content (domain :: dir) (some content)

theorem writeResolver_calm (content : Bytes) (relative : Relative domain) (there : d.IsDir dir)
    (final : NotOwned owner d domain) (temp : NotOwned owner d (domain ++ tempSuffix)) :
    Safe calm (fun _ => True) (fun r d' => r = .ok () → Written domain content d d')
      (writeResolver owner domain content).run d := by
  refine Safe.tryBind (ensureAbsentOrOwned_free relative.components final) ?_
    (fun e _ _ _ h => by cases h)
  rintro _ d₁ - ⟨rfl, freeFinal⟩
  refine Safe.tryBind (ensureAbsentOrOwned_free relative.components_temp temp) ?_
    (fun e _ _ _ h => by cases h)
  rintro _ d₂ - ⟨rfl, freeTemp⟩
  have freeFinal := freeFinal rfl
  have freeTemp := freeTemp rfl
  by_cases valid : FileName (domain ++ tempSuffix)
  · have namesTemp := names_resolverPath valid there
    have namesFinal := names_resolverPath (relative.fileName valid) there
    have freeTemp' := freeTemp
    rw [← relative.components_temp] at freeTemp'
    obtain ⟨i, d₃, created, dirs₃, handle, empty, content₃⟩ :=
      perform_create namesTemp (by simp [freeTemp'])
    obtain ⟨d₄, written, dirs₄, content₄⟩ := perform_writeAll handle empty content
    have synced : d₄.perform id (.syncAll i) = (.ok (), d₄) := rfl
    have dirs := dirs₃.trans dirs₄
    have notDir : ¬ d₄.IsDir (components (resolverPath domain)) := fun isDir => by
      rw [dirs, relative.components, IsDir, freeFinal] at isDir
      cases isDir
    have there₄ : d₄.content (components (resolverPath (domain ++ tempSuffix))) = some content := by
      rw [content₄, Function.update_self]
    obtain ⟨d₅, renamed, dirs₅, content₅⟩ :=
      perform_rename (namesTemp.mono dirs) (namesFinal.mono dirs) there₄ notDir
    refine (call_yields (by simp) created).mapErr.thenOk ?_
    refine (call_yields (by simp) written).mapErr.thenOk ?_
    refine (call_yields (by simp) synced).mapErr.thenOk ?_
    refine (call_yields (by simp) renamed).mapErr.post ?_
    rintro _ _ - ⟨rfl, rfl⟩ -
    refine ⟨dirs.trans dirs₅, content_free freeFinal, ?_⟩
    rw [content₅, content₄, content₃, relative.components, relative.components_temp,
      Function.update_idem, Function.update_idem]
    congr 1
    exact (Function.update_eq_self_iff).mpr (content_free freeTemp).symm
  · -- the file system does not take the temporary name
    obtain ⟨e, failed⟩ := target_invalid (d := d₂) relative.components_temp valid
    have refused :
        d₂.perform id (.create (resolverPath (domain ++ tempSuffix))) = (.error e, d₂) := by
      simp only [perform, failed]
    exact (call_yields (by simp) refused).mapErr.thenError fun h => by cases h

theorem NotOwned.written {name : Bytes} {d' : Disk} (h : NotOwned owner d name)
    (written : Written domain content d d') (ne : domain ≠ name) : NotOwned owner d' name := by
  intro c there
  rw [written.content, Function.update_of_ne (by simpa using ne.symm)] at there
  exact h c there

/-- No domain is written where a later one has its file or its temporary file. -/
abbrev Apart (suffixes : List DomainSuffix) : Prop :=
  suffixes.Pairwise fun s t => s.domain ≠ t.domain ∧ s.domain ≠ t.domain ++ tempSuffix

theorem writeDomains_calm (servers : List IpAddr) (suffixes : List DomainSuffix)
    (relative : ∀ s ∈ suffixes, Relative s.domain) (apart : Apart suffixes) (there : d.IsDir dir)
    (final : ∀ s ∈ suffixes, NotOwned owner d s.domain)
    (temp : ∀ s ∈ suffixes, NotOwned owner d (s.domain ++ tempSuffix)) :
    Safe calm (fun _ => True) (fun r d' => r = .ok () → SameDirs d d' ∧
        d'.content = install owner servers suffixes d.content ∧
        ∀ s ∈ suffixes, d.content (s.domain :: dir) = none)
      (writeDomains owner servers suffixes).run d := by
  induction suffixes generalizing d with
  | nil => exact ⟨trivial, fun _ => ⟨SameDirs.rfl, rfl, by simp⟩⟩
  | cons s suffixes ih =>
      obtain ⟨relativeHere, relativeRest⟩ := List.forall_mem_cons.mp relative
      obtain ⟨finalHere, finalRest⟩ := List.forall_mem_cons.mp final
      obtain ⟨tempHere, tempRest⟩ := List.forall_mem_cons.mp temp
      obtain ⟨first, rest⟩ := List.pairwise_cons.mp apart
      refine Safe.tryBind (writeResolver_calm _ relativeHere there finalHere tempHere) ?_
        (fun e _ _ _ h => by cases h)
      rintro _ d₁ - here
      have written := here rfl
      refine (ih relativeRest rest ((written.dirs dir).mpr there)
        (fun t mem => (finalRest t mem).written written (first t mem).1)
        (fun t mem => (tempRest t mem).written written (first t mem).2)).post ?_
      intro r d₂ _ h ok
      obtain ⟨dirs, content, free⟩ := h ok
      refine ⟨written.dirs.trans dirs, ?_, List.forall_mem_cons.mpr ⟨written.free, ?_⟩⟩
      · rw [content, written.content]
        rfl
      · intro t mem
        have same := free t mem
        rwa [written.content, Function.update_of_ne] at same
        simpa using (first t mem).1.symm

/-- What a successful apply leaves. -/
structure Applied (config : NormalizedConfig) (d : Disk) (handle : SetDns) (d' : Disk) : Prop where
  handle : handle = ⟨config.owner, config.domains.map DomainSuffix.domain⟩
  flat : Flat d'
  there : d'.IsDir dir
  content : d'.content = install config.owner config.servers config.domains
    (purge config.owner d.content)
  free : ∀ s ∈ config.domains, purge config.owner d.content (s.domain :: dir) = none

theorem Flat.same {d' : Disk} (h : Flat d) (dirs : SameDirs d d') : Flat d' :=
  fun name isDir => h name ((dirs _).mp isDir)

theorem apply_calm {config : NormalizedConfig} (relative : ∀ s ∈ config.domains, Relative s.domain)
    (apart : Apart config.domains) (d : Disk) :
    Safe calm (fun _ => True) (fun r d' => ∀ handle, r = .ok handle → Applied config d handle d')
      (apply config).run d := by
  unfold apply
  split
  · exact ⟨trivial, fun _ h => by cases h⟩
  refine Safe.tryBind (cleanupOwner_calm config.owner d) ?_ (fun e _ _ _ _ h => by cases h)
  rintro _ d₁ - (⟨-, h⟩ | ⟨flat, -, purged⟩)
  · exact absurd rfl h
  rcases made : d₁.makeDirs dir with ⟨e | _, d₂⟩
  · have refused : d₁.perform id (.createDirAll resolverDir) = (.error e, d₂) := by
      rw [← made]
      rfl
    exact (call_yields (by simp) refused).mapErr.thenError fun _ h => by cases h
  have created : d₁.perform id (.createDirAll resolverDir) = (.ok (), d₂) := by
    rw [← made]
    rfl
  refine (call_yields (by simp) created).mapErr.thenOk ?_
  obtain ⟨there, -⟩ := makeDirs_ok made
  have content₂ := makeDirs_content d₁ dir
  have dirs₂ := fun q => makeDirs_dirs d₁ dir (q := q)
  rw [made] at content₂ dirs₂
  have flat₂ : Flat d₂ := by
    intro name isDir
    rcases dirs₂ _ isDir with old | made
    · exact flat name ((purged.dirs _).mp old)
    · exact absurd made.length_le (by simp)
  have notOwned : ∀ name, NotOwned config.owner d₂ name := by
    intro name c found
    rw [content₂, purged.content, purge_entry, unmarked_eq_some] at found
    exact found.2
  refine Safe.tryBind (writeDomains_calm config.servers config.domains relative apart there
    (fun s _ => notOwned s.domain) (fun s _ => notOwned _)) ?_ (fun e _ _ _ _ h => by cases h)
  rintro _ d₃ - written
  obtain ⟨dirs₃, content₃, free⟩ := written rfl
  rw [content₂, purged.content] at content₃ free
  refine Safe.lift (Safe.calm (by simp) (Safe.calm (by simp) ⟨trivial, trivial, ?_⟩))
  rintro _ ⟨⟩
  exact ⟨rfl, flat₂.same dirs₃, (dirs₃ dir).mpr there, content₃, free⟩

end Write

section Close

variable {owner domain : Bytes} {d : Disk}

/-- Taking away a file of the owner is not seen behind a cleanup. -/
theorem purge_update {t : Table} (own : ∀ c, t (domain :: dir) = some c → Marked owner c) :
    purge owner (Function.update t (domain :: dir) none) = purge owner t := by
  funext p
  by_cases here : p = domain :: dir
  · subst here
    rw [purge_entry, purge_entry, Function.update_self]
    cases found : t (domain :: dir) with
    | none => rfl
    | some c => rw [unmarked_of_marked (own c found)]; rfl
  · cases p with
    | nil => simp [purge]
    | cons name up => simp only [purge, Function.update_of_ne here]

theorem removeOwnedFile_calm {path : Bytes} (names : Names d path)
    (notDir : ¬ d.IsDir (components path))
    (own : ∀ c, d.content (components path) = some c → Marked owner c) :
    Safe calm (fun _ => True) (fun r d' => r = .ok () ∧ SameDirs d d' ∧
        d'.content = Function.update d.content (components path) none)
      (removeOwnedFile path owner).run d := by
  refine Safe.lift (Safe.calm (by simp) ⟨trivial, ?_⟩)
  cases d.find (components path) with
  | dir isDir => exact absurd isDir notDir
  | free free =>
      rw [perform_read_free names free]
      refine ⟨trivial, rfl, SameDirs.rfl, ?_⟩
      rw [Function.update_eq_self_iff.mpr (content_free free).symm]
  | file i file =>
      have content := content_file file
      have marked := own _ content
      rw [perform_read_file names content]
      simp only [marked.1, marked.2, ite_true]
      obtain ⟨d', removed, dirs, content'⟩ := perform_removeFile names content
      refine (call_yields (by simp) removed).mapErr.post ?_
      rintro _ _ - ⟨rfl, rfl⟩
      exact ⟨rfl, dirs, content'⟩

theorem removeDomains_calm (domains : List Bytes) (valid : ∀ n ∈ domains, FileName n)
    (there : d.IsDir dir) (flat : Flat d)
    (own : ∀ n ∈ domains, ∀ c, d.content (n :: dir) = some c → Marked owner c) :
    Safe calm (fun _ => True) (fun first d' => first = none ∧ SameDirs d d' ∧
        purge owner d'.content = purge owner d.content)
      (removeDomains owner none domains) d := by
  induction domains generalizing d with
  | nil => exact ⟨trivial, rfl, SameDirs.rfl, rfl⟩
  | cons n domains ih =>
      obtain ⟨validHere, validRest⟩ := List.forall_mem_cons.mp valid
      obtain ⟨ownHere, ownRest⟩ := List.forall_mem_cons.mp own
      have path := components_resolverPath validHere
      refine (safe_bind _ _).mpr ((removeOwnedFile_calm (names_resolverPath validHere there)
        (path ▸ flat n) (path ▸ ownHere)).post ?_)
      rintro r d₁ - ⟨rfl, dirs, content⟩
      rw [path] at content
      have stillOwn : ∀ n' ∈ domains, ∀ c, d₁.content (n' :: dir) = some c → Marked owner c := by
        intro n' mem c found
        rw [content] at found
        by_cases same : n' = n
        · subst same
          simp at found
        · rw [Function.update_of_ne (by simpa using same)] at found
          exact ownRest n' mem c found
      refine (ih validRest ((dirs dir).mpr there) (flat.same dirs) stillOwn).post ?_
      rintro first d₂ - ⟨rfl, dirs₂, content₂⟩
      exact ⟨rfl, dirs.trans dirs₂, by rw [content₂, content, purge_update ownHere]⟩

theorem close_calm (handle : SetDns) (valid : ∀ n ∈ handle.domains, FileName n)
    (there : d.IsDir dir) (flat : Flat d)
    (own : ∀ n ∈ handle.domains, ∀ c, d.content (n :: dir) = some c → Marked handle.owner c) :
    Safe calm (fun _ => True) (fun r d' => r = .ok () ∧ d'.content = purge handle.owner d.content)
      (close handle).run d := by
  refine Safe.lift ((removeDomains_calm handle.domains valid there flat own).post ?_)
  rintro first d₁ - ⟨rfl, dirs₁, content₁⟩
  refine Safe.lift ((cleanupOwner_calm handle.owner d₁).post ?_)
  rintro cleaned d₂ - (⟨unclean, -⟩ | ⟨-, rfl, purged⟩)
  · rcases unclean with notFlat | notDir
    · exact absurd (flat.same dirs₁) notFlat
    · exact absurd ((dirs₁ dir).mpr there) notDir
  refine Safe.lift (Safe.calm (by simp) (Safe.calm (by simp) ⟨trivial, trivial, rfl, ?_⟩))
  exact purged.content.trans content₁

end Close

section Exact

variable {parseDnsName : Bytes → Except Bytes Unit} {config : Config}
variable {normalized : NormalizedConfig}

theorem relative_of_normalized (accepted : config.normalize parseDnsName = .ok normalized)
    {s : DomainSuffix} (mem : s ∈ normalized.domains) (noSlash : slash ∉ s.domain) :
    Relative s.domain ∧ Ascii s.domain := by
  obtain ⟨-, canonical, passed⟩ := normalize_eq_ok accepted
  rw [canonical] at mem
  obtain ⟨wellFormed, ascii⟩ := canonical_wellFormed passed mem
  simp only [not_or] at wellFormed
  obtain ⟨nonempty, notDot, noDot, -, -⟩ := wellFormed
  refine ⟨⟨by simpa using nonempty, notDot, fun h => noDot (h ▸ ⟨[dot], rfl⟩), noSlash⟩, ascii⟩

theorem labelCount_temp (domain : Bytes) :
    labelCount (domain ++ tempSuffix) = labelCount domain + 2 := by
  have dots : (tempSuffix.filter fun byte => byte = dot).length = 2 := by decide
  simp only [labelCount, List.filter_append, List.length_append, dots]

/-- The suffix of a temporary file adds labels, and fewer labels come first. -/
theorem apart_of_normalized (accepted : config.normalize parseDnsName = .ok normalized) :
    Apart normalized.domains := by
  obtain ⟨-, canonical, -⟩ := normalize_eq_ok accepted
  have strict := canonical_strict config.domains
  rw [← canonical, List.pairwise_map] at strict
  refine strict.imp fun {s t} before => ⟨?_, ?_⟩
  · intro same
    have equal : domainCmp t.domain t.domain = .eq := Std.ReflCmp.compare_self
    rw [same, equal] at before
    cases before
  · intro same
    have fewer := labelCount_le (a := s.domain) (b := t.domain) (by rw [before]; rfl)
    rw [same, labelCount_temp] at fewer
    omega

/-- A file of the owner in the resolver directory. -/
def MarkedAt (owner : Bytes) (d : Disk) (p : Path) : Prop :=
  ∃ name c, p = name :: dir ∧ d.content p = some c ∧ Marked owner c

theorem purge_of_not_markedAt {owner : Bytes} {d : Disk} {p : Path} (h : ¬ MarkedAt owner d p) :
    purge owner d.content p = d.content p := by
  by_cases child : ∃ name, p = name :: dir
  · obtain ⟨name, rfl⟩ := child
    rw [purge_entry]
    cases found : d.content (name :: dir) with
    | none => rfl
    | some c => exact unmarked_of_foreign fun marked => h ⟨name, c, rfl, found, marked⟩
  · push Not at child
    exact purge_other child

theorem not_marked_purge {owner name c : Bytes} {t : Table}
    (h : purge owner t (name :: dir) = some c) : ¬ Marked owner c := by
  rw [purge_entry, unmarked_eq_some] at h
  exact h.2

section Applied

variable {d d₁ : Disk} {handle : SetDns}

theorem Applied.marked_iff (applied : Applied normalized d handle d₁)
    (apart : Apart normalized.domains)
    (marked : ∀ s ∈ normalized.domains,
      Marked normalized.owner (renderResolver normalized.owner s.domain normalized.servers))
    (name c : Bytes) :
    d₁.content (name :: dir) = some c ∧ Marked normalized.owner c ↔
      ∃ s ∈ normalized.domains, name = s.domain ∧
        c = renderResolver normalized.owner s.domain normalized.servers := by
  rw [applied.content]
  constructor
  · rintro ⟨found, mark⟩
    by_cases listed : ∃ s ∈ normalized.domains, name = s.domain
    · obtain ⟨s, mem, rfl⟩ := listed
      rw [install_entry (apart.imp And.left) mem] at found
      exact ⟨s, mem, rfl, (Option.some.inj found).symm⟩
    · push Not at listed
      rw [install_other _ fun s mem same => listed s mem (List.cons.inj same).1] at found
      exact absurd mark (not_marked_purge found)
  · rintro ⟨s, mem, rfl, rfl⟩
    exact ⟨install_entry (apart.imp And.left) mem, marked s mem⟩

theorem Applied.frame (applied : Applied normalized d handle d₁) {p : Path}
    (notMarked : ¬ MarkedAt normalized.owner d p) :
    d₁.content p = d.content p ∨
      d.content p = none ∧ ∃ s ∈ normalized.domains, p = s.domain :: dir := by
  by_cases listed : ∃ s ∈ normalized.domains, p = s.domain :: dir
  · obtain ⟨s, mem, rfl⟩ := listed
    exact .inr ⟨(purge_of_not_markedAt notMarked).symm.trans (applied.free s mem), s, mem, rfl⟩
  · push Not at listed
    rw [applied.content, install_other _ listed, purge_of_not_markedAt notMarked]
    exact .inl rfl

theorem Applied.closes (applied : Applied normalized d handle d₁)
    (apart : Apart normalized.domains)
    (marked : ∀ s ∈ normalized.domains,
      Marked normalized.owner (renderResolver normalized.owner s.domain normalized.servers)) :
    Safe calm (fun _ => True)
      (fun r d₂ => r = .ok () ∧ d₂.content = purge normalized.owner d₁.content)
      (close handle).run d₁ := by
  have entry : ∀ s ∈ normalized.domains, d₁.content (s.domain :: dir) =
      some (renderResolver normalized.owner s.domain normalized.servers) := fun s mem => by
    rw [applied.content, install_entry (apart.imp And.left) mem]
  obtain rfl := applied.handle
  refine close_calm ⟨_, _⟩ ?_ applied.there applied.flat ?_
  · intro n mem
    obtain ⟨s, listed, rfl⟩ := List.mem_map.mp mem
    obtain ⟨i, present, -⟩ := exists_file (entry s listed)
    exact (d₁.inside s.domain dir (by simp [present])).2
  · intro n mem c found
    obtain ⟨s, listed, rfl⟩ := List.mem_map.mp mem
    rw [entry s listed] at found
    exact Option.some.inj found ▸ marked s listed

end Applied

/-- After a successful apply the owner's files are one per domain, and after the
close there are none. Neither touches another file. -/
theorem apply_close_exact (accepted : config.normalize parseDnsName = .ok normalized)
    (noSlash : ∀ s ∈ normalized.domains, slash ∉ s.domain) {d d₁ : Disk} {handle : SetDns}
    (applied : Ends calm (apply normalized).run d (.ok handle) d₁) :
    (∀ name c, d₁.content (name :: dir) = some c ∧ Marked normalized.owner c ↔
      ∃ s ∈ normalized.domains, name = s.domain ∧
        c = renderResolver normalized.owner s.domain normalized.servers) ∧
    (∀ p, ¬ MarkedAt normalized.owner d p → d₁.content p = d.content p ∨
      d.content p = none ∧ ∃ s ∈ normalized.domains, p = s.domain :: dir) ∧
    (∃ d₂, Ends calm (close handle).run d₁ (.ok ()) d₂) ∧
    ∀ r d₂, Ends calm (close handle).run d₁ r d₂ → r = .ok () ∧
      (∀ name c, d₂.content (name :: dir) = some c → ¬ Marked normalized.owner c) ∧
      ∀ p, ¬ MarkedAt normalized.owner d₁ p → d₂.content p = d₁.content p := by
  have valid := (normalize_eq_ok accepted).1
  have named := fun s mem => relative_of_normalized accepted mem (noSlash s mem)
  have apart := apart_of_normalized accepted
  have marked := fun s mem => marked_render valid (named s mem).2 normalized.servers
  have effect := (apply_calm (fun s mem => (named s mem).1) apart d).ends applied handle rfl
  have closed := effect.closes apart marked
  refine ⟨effect.marked_iff apart marked, fun p => effect.frame, ?_, fun r d₂ ended => ?_⟩
  · obtain ⟨r, d₂, ended⟩ := exists_ends calm_total (close handle).run d₁
    exact ⟨d₂, (closed.ends ended).1 ▸ ended⟩
  · obtain ⟨ok, content⟩ := closed.ends ended
    refine ⟨ok, fun name c found => ?_, fun p notMarked => ?_⟩
    · rw [content] at found
      exact not_marked_purge found
    · rw [content, purge_of_not_markedAt notMarked]

set_option maxRecDepth 20000 in
/-- The second domain is the first one's temporary file. -/
theorem apply_close_sample : ∃ handle d₁,
    Ends calm (apply (sampleNormalized ["corp", "corp.setdns.tmp"])).run sampleDisk
      (.ok handle) d₁ ∧
    ∀ name c, d₁.content (name :: dir) = some c ∧ Marked (bytes "tests") c ↔
      ∃ s ∈ (sampleNormalized ["corp", "corp.setdns.tmp"]).domains, name = s.domain ∧
        c = renderResolver (bytes "tests") s.domain [.v4 ⟨10, 0, 0, 53⟩] := by
  have accepted : (sampleConfig ["corp", "corp.setdns.tmp"]).normalize rfc2181 =
      .ok (sampleNormalized ["corp", "corp.setdns.tmp"]) := by
    decide
  have returned : (exec (Disk.perform id)
      (apply (sampleNormalized ["corp", "corp.setdns.tmp"])).run sampleDisk).1 =
        .ok ⟨bytes "tests", [bytes "corp", bytes "corp.setdns.tmp"]⟩ := by
    decide
  have applied := returned ▸ ends_exec calm_perform
    (apply (sampleNormalized ["corp", "corp.setdns.tmp"])).run sampleDisk
  exact ⟨_, _, applied, (apply_close_exact accepted (by decide) applied).1⟩

end Exact

end Setdns.Macos.Resolver
