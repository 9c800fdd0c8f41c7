import Setdns.Macos.CrashRecovery

/-!
The cleanup of an owner among the files of others. It reads every entry of the
directory, and stops at the first one that cannot be read for another reason than
that it is missing or no text. A subdirectory is such an entry. Then files of the owner
are left behind, and the apply and the close that run the cleanup fail with it.
-/

namespace Setdns.Macos.Resolver

open Text Effects Effects.Program Effects.Directory
open Effects.Directory.Disk
open Effects.Files (IoError EISDIR)

/-- The call reads one of these files. -/
def Reads (places : Path → Prop) : DirCall → Prop
  | .readToString path => places (components path)
  | _ => False

/-- These files cannot be read, and no other call fails. -/
abbrev guarded (unreadable : Path → Prop) : World DirCall DirCall.Ret Disk :=
  calm.planned (fun c r => ∃ e : IoError, e.isNotFound = false ∧ e ≠ .invalidData ∧
    r = failure e c) (Reads unreadable)

section Property

variable (owner : Bytes) (unreadable : Path → Prop) (d : Disk)

/-- Nothing of others stands at the path. -/
structure Accessible (path : Bytes) : Prop where
  names : Names d path
  notDir : ¬ d.IsDir (components path)
  vacant : Vacant owner d (components path)
  readable : ¬ unreadable (components path)

/-- The cleanup removes all files of the owner, and an apply or a close succeeds unless
something of others stands at one of its own paths. -/
structure Complete : Prop where
  cleanup : ∀ r d', Ends (guarded unreadable) (cleanupOwner owner).run d r d' →
    r = .ok () ∧ ∀ name content, d'.content (name :: dir) = some content → ¬ Marked owner content
  applies : ∀ (parseDnsName : Bytes → Except Bytes Unit) (given : Config)
    (config : NormalizedConfig), given.normalize parseDnsName = .ok config →
    config.owner = owner → config.servers.length ≤ maxns →
    (∀ s ∈ config.domains, Accessible owner unreadable d (resolverPath s.domain) ∧
      Accessible owner unreadable d (tempResolverPath s.domain)) →
    ∀ r d', Ends (guarded unreadable) (apply config).run d r d' → ∃ handle, r = .ok handle
  closes : ∀ handle : SetDns, handle.owner = owner →
    (∀ domain ∈ handle.domains, Accessible owner unreadable d (resolverPath domain)) →
    ∀ r d', Ends (guarded unreadable) (close handle).run d r d' → r = .ok ()

/-- Every entry of the directory can be read as a file. -/
def Passable : Prop :=
  ∀ name, d.lookup (name :: dir) ≠ none → ¬ d.IsDir (name :: dir) ∧ ¬ unreadable (name :: dir)

end Property

section Calls

variable {unreadable : Path → Prop} {owner : Bytes} {names : List Bytes}

theorem removeIfOwnerMarked_free (path owner : Bytes) (free : ¬ unreadable (components path)) :
    Issues (fun c => ¬ Reads unreadable c) (removeIfOwnerMarked path owner).run :=
  removeIfOwnerMarked_issues path owner free id

theorem cleanupEntries_free (owner : Bytes) (valid : ∀ name ∈ names, FileName name)
    (free : ∀ name ∈ names, ¬ unreadable (name :: dir)) :
    Issues (fun c => ¬ Reads unreadable c) (cleanupEntries owner (names.map .ok)).run := by
  refine cleanupEntries_issues owner _ (fun name mem => ?_) fun _ => id
  obtain ⟨_, listed, ⟨⟩⟩ := List.mem_map.mp mem
  show ¬ unreadable (components (resolverPath name))
  rw [components_resolverPath (valid name listed)]
  exact free name listed

theorem writeResolver_free {domain : Bytes} (owner content : Bytes)
    (final : ¬ unreadable (components (resolverPath domain)))
    (temp : ¬ unreadable (components (tempResolverPath domain))) :
    Issues (fun c => ¬ Reads unreadable c) (writeResolver owner domain content).run := by
  refine .tryBind (ensureAbsentOrOwned_issues _ owner final) fun _ => ?_
  refine .tryBind (ensureAbsentOrOwned_issues _ owner temp) fun _ => ?_
  exact .tryBind (.mapErr (.call id)) fun _ => .tryBind (.mapErr (.call id)) fun _ =>
    .tryBind (.mapErr (.call id)) fun _ => .mapErr (.call id)

theorem flushDnsCache_free {α : Type} (result : Except ResolverError α) :
    Issues (fun c => ¬ Reads unreadable c)
      (do flushDnsCache; ExceptT.mk (pure result) : Result α).run :=
  Issues.lift (p := flushDnsCache) ⟨id, fun _ => ⟨id, fun _ => trivial⟩⟩ fun _ => trivial

theorem writeDomains_free (servers : List IpAddr) {suffixes : List DomainSuffix}
    (free : ∀ s ∈ suffixes, ¬ unreadable (finalPlace s) ∧ ¬ unreadable (tempPlace s)) :
    Issues (fun c => ¬ Reads unreadable c) (writeDomains owner servers suffixes).run := by
  induction suffixes with
  | nil => trivial
  | cons s suffixes ih =>
      obtain ⟨⟨final, temp⟩, rest⟩ := List.forall_mem_cons.mp free
      exact .tryBind (writeResolver_free owner _ final temp) fun _ => ih rest

theorem removeOwnedFile_free {path : Bytes} (owner : Bytes)
    (free : ¬ unreadable (components path)) :
    Issues (fun c => ¬ Reads unreadable c) (removeOwnedFile path owner).run := by
  refine Issues.lift (Issues.call free) fun r => ?_
  cases r with
  | error source =>
      dsimp only
      split <;> trivial
  | ok content =>
      dsimp only
      split
      · exact Issues.mapErr (Issues.call id)
      · trivial

theorem removeDomains_free {domains : List Bytes} (first : Option ResolverError)
    (free : ∀ domain ∈ domains, ¬ unreadable (components (resolverPath domain))) :
    Issues (fun c => ¬ Reads unreadable c) (removeDomains owner first domains) := by
  induction domains generalizing first with
  | nil => trivial
  | cons domain domains ih =>
      obtain ⟨here, rest⟩ := List.forall_mem_cons.mp free
      exact (removeOwnedFile_free owner here).bind fun _ => ih _ rest

end Calls

section Guarded

variable {unreadable : Path → Prop} {owner : Bytes} {names : List Bytes} {d d' : Disk}
  {r : Except ResolverError Unit}

theorem guarded_total (unreadable : Path → Prop) : (guarded unreadable).Total :=
  calm_total.planned _ fun c => ⟨failure (.os EISDIR) c, .os EISDIR, rfl, by simp, rfl⟩

theorem guarded_calm {α : Type} {p : Io α} {a : α}
    (free : Issues (fun c => ¬ Reads unreadable c) p) :
    Ends (guarded unreadable) p d a d' ↔ Ends calm p d a d' :=
  free.planned_iff

/-- The listing of the directory gives its entries in some order. -/
theorem listed_entries (there : d.IsDir dir)
    (run : Ends (guarded unreadable) (cleanupOwner owner).run d r d') :
    ∃ names : List Bytes, (∀ name, name ∈ names ↔ d.lookup (name :: dir) ≠ none) ∧
      (∀ name ∈ names, FileName name) ∧
      Ends calm (Dir.readDir resolverDir) d (.ok (names.map .ok)) d ∧
      Ends (guarded unreadable) (cleanupEntries owner (names.map .ok)).run d r d' := by
  obtain ⟨answer, d₁, listed, rest⟩ := Ends.lift_cases run
  rw [guarded_calm (Issues.call id)] at listed
  obtain ⟨rfl, ⟨names, perm, -, rfl⟩ | ⟨e, -, notDir⟩⟩ :=
    calm_readDir nul_not_mem_resolverDir listed.answer
  · have member : ∀ name, name ∈ names ↔ d₁.lookup (name :: dir) ≠ none := fun name => by
      rw [perm.mem_iff, mem_children]
    exact ⟨names, member, fun name mem => (d₁.inside name dir ((member name).mp mem)).2, listed,
      rest⟩
  · exact absurd there notDir

/-- Where every entry can be read, the cleanup does not notice what cannot be read elsewhere. -/
theorem cleanupOwner_guarded (there : d.IsDir dir)
    (free : ∀ name, d.lookup (name :: dir) ≠ none → ¬ unreadable (name :: dir))
    (run : Ends (guarded unreadable) (cleanupOwner owner).run d r d') :
    Ends calm (cleanupOwner owner).run d r d' := by
  obtain ⟨names, member, valid, listed, rest⟩ := listed_entries there run
  have free : ∀ name ∈ names, ¬ unreadable (name :: dir) :=
    fun name mem => free name ((member name).mp mem)
  exact Ends.lift listed ((guarded_calm (cleanupEntries_free owner valid free)).mp rest)

/-- A file that was looked at without an error can be read, and is no directory. -/
theorem removeIfOwnerMarked_guarded {path : Bytes} (names : Names d path)
    (run : Ends (guarded unreadable) (removeIfOwnerMarked path owner).run d (.ok ()) d') :
    (¬ unreadable (components path) ∧ ¬ d.IsDir (components path)) ∧ SameDirs d d' := by
  by_cases free : unreadable (components path)
  · obtain ⟨answer, d₁, read, rest⟩ := Ends.lift_cases run
    rcases read.answer with ⟨-, ⟨e, found, text, rfl⟩, rfl⟩ | ⟨readable, -⟩
    · simp only [Directory.failure, found, text, Bool.false_eq_true, if_false] at rest
      cases rest
    · exact absurd free readable
  · rw [guarded_calm (removeIfOwnerMarked_free path owner free)] at run
    rcases (removeIfOwnerMarked_calm names).ends run with ⟨-, h⟩ | ⟨notDir, -, dirs, -⟩
    · exact absurd rfl h
    · exact ⟨⟨free, notDir⟩, dirs⟩

/-- The loop ends early at an entry that cannot be read. -/
theorem cleanupEntries_blocked (valid : ∀ name ∈ names, FileName name) (there : d.IsDir dir)
    (run : Ends (guarded unreadable) (cleanupEntries owner (names.map .ok)).run d (.ok ()) d') :
    ∀ name ∈ names, ¬ d.IsDir (name :: dir) ∧ ¬ unreadable (name :: dir) := by
  induction names generalizing d with
  | nil => simp
  | cons name names ih =>
      obtain ⟨validHere, validRest⟩ := List.forall_mem_cons.mp valid
      rw [List.map_cons, cleanupEntries] at run
      dsimp only at run
      rw [ite_self] at run
      rcases Ends.tryBind_cases run with ⟨_, d₁, here, rest⟩ | ⟨e, ⟨⟩, -⟩
      obtain ⟨⟨free, notDir⟩, dirs⟩ :=
        removeIfOwnerMarked_guarded (names_resolverPath validHere there) here
      rw [components_resolverPath validHere] at free notDir
      refine List.forall_mem_cons.mpr ⟨⟨notDir, free⟩, fun other mem => ?_⟩
      obtain ⟨later, laterFree⟩ := ih validRest ((dirs dir).mpr there) rest other mem
      exact ⟨fun isDir => later ((dirs _).mpr isDir), laterFree⟩

end Guarded

section Completeness

variable {unreadable : Path → Prop} {owner : Bytes} {d d' : Disk}

theorem Passable.flat (passable : Passable unreadable d) : Flat d :=
  fun name isDir => (passable name (by simp [isDir])).1 isDir

theorem Passable.fewer (passable : Passable unreadable d) (dirs : SameDirs d d')
    (fewer : Fewer d d') : Passable unreadable d' := by
  intro name present
  have before : d.lookup (name :: dir) ≠ none := by
    cases d'.find (name :: dir) with
    | dir isDir => simp [(dirs _).mp isDir]
    | file i there =>
        obtain ⟨i, there, -⟩ := exists_file (fewer _ _ (content_file there))
        simp [there]
    | free free => exact absurd free present
  obtain ⟨notDir, free⟩ := passable name before
  exact ⟨fun isDir => notDir ((dirs _).mp isDir), free⟩

theorem Accessible.fewer {path : Bytes} (access : Accessible owner unreadable d path)
    (dirs : SameDirs d d') (fewer : Fewer d d') : Accessible owner unreadable d' path where
  names := access.names.mono dirs
  notDir isDir := access.notDir ((dirs _).mp isDir)
  vacant content there := access.vacant content (fewer _ _ there)
  readable := access.readable

theorem passable_of_cleaned (there : d.IsDir dir)
    (run : Ends (guarded unreadable) (cleanupOwner owner).run d (.ok ()) d') :
    Passable unreadable d := by
  obtain ⟨names, member, valid, -, rest⟩ := listed_entries there run
  exact fun name present => cleanupEntries_blocked valid there rest name ((member name).mpr present)

theorem Passable.cleans {r : Except ResolverError Unit} (passable : Passable unreadable d)
    (there : d.IsDir dir) (run : Ends (guarded unreadable) (cleanupOwner owner).run d r d') :
    r = .ok () ∧ Purged owner d d' := by
  have calmly := cleanupOwner_guarded there (fun name present => (passable name present).2) run
  rcases (cleanupOwner_calm owner d).ends calmly with ⟨blocked, -⟩ | ⟨-, ok, purged⟩
  · exact absurd blocked (not_or.mpr ⟨not_not.mpr passable.flat, not_not.mpr there⟩)
  · exact ⟨ok, purged⟩

/-- Neither does an apply, if its own paths can be read. -/
theorem apply_guarded {config : NormalizedConfig} {r : Except ResolverError SetDns}
    (passable : Passable unreadable d) (there : d.IsDir dir)
    (free : ∀ s ∈ config.domains, ¬ unreadable (finalPlace s) ∧ ¬ unreadable (tempPlace s))
    (run : Ends (guarded unreadable) (apply config).run d r d') :
    Ends calm (apply config).run d r d' := by
  unfold apply at run ⊢
  split at run
  · rename_i many
    rw [if_pos many]
    cases run
    exact .ret _ _
  rename_i few
  rw [if_neg few]
  have cleans : ∀ r d₁, Ends (guarded unreadable) (cleanupOwner config.owner).run d r d₁ →
      Ends calm (cleanupOwner config.owner).run d r d₁ := fun _ _ =>
    cleanupOwner_guarded there fun name present => (passable name present).2
  rcases Ends.tryBind_cases run with ⟨_, d₁, cleaned, rest⟩ | ⟨e, rfl, failed⟩
  · refine Ends.tryBind (cleans _ _ cleaned) ((guarded_calm ?_).mp rest)
    exact .tryBind (.mapErr (.call id)) fun _ => .tryBind (writeDomains_free _ free) fun _ =>
      flushDnsCache_free (.ok _)
  · exact Ends.tryError (cleans _ _ failed)

theorem removeDomains_succeeds {domains : List Bytes}
    (access : ∀ domain ∈ domains, Accessible owner unreadable d (resolverPath domain)) :
    Safe calm (fun _ => True) (fun first d' => first = none ∧ SameDirs d d' ∧ Fewer d d')
      (removeDomains owner none domains) d := by
  induction domains generalizing d with
  | nil => exact ⟨trivial, rfl, SameDirs.rfl, fun _ _ => id⟩
  | cons domain domains ih =>
      obtain ⟨here, rest⟩ := List.forall_mem_cons.mp access
      refine (safe_bind _ _).mpr
        ((removeOwnedFile_calm here.names here.notDir here.vacant).post ?_)
      rintro _ d₁ - ⟨rfl, dirs, content⟩
      have fewer : Fewer d d₁ := by
        intro p c there
        rw [content] at there
        by_cases same : p = components (resolverPath domain)
        · subst same
          rw [Function.update_self] at there
          cases there
        · rwa [Function.update_of_ne same] at there
      refine (ih fun other mem => (rest other mem).fewer dirs fewer).post ?_
      rintro first d₂ - ⟨none, dirs₂, fewer₂⟩
      exact ⟨none, dirs.trans dirs₂, fun p c there => fewer p c (fewer₂ p c there)⟩

theorem Passable.closes {handle : SetDns} {r : Except ResolverError Unit}
    (passable : Passable unreadable d) (there : d.IsDir dir)
    (access : ∀ domain ∈ handle.domains,
      Accessible handle.owner unreadable d (resolverPath domain))
    (run : Ends (guarded unreadable) (close handle).run d r d') : r = .ok () := by
  obtain ⟨first, d₁, removed, run⟩ := Ends.lift_cases run
  rw [guarded_calm (removeDomains_free none fun domain mem => (access domain mem).readable)]
    at removed
  obtain ⟨rfl, dirs, fewer⟩ := (removeDomains_succeeds access).ends removed
  obtain ⟨cleaned, d₂, swept, run⟩ := Ends.lift_cases run
  obtain ⟨rfl, -⟩ := (passable.fewer dirs fewer).cleans ((dirs dir).mpr there) swept
  obtain ⟨_, d₃, -, last⟩ := Ends.lift_cases run
  cases last
  rfl

theorem complete_of_passable (there : d.IsDir dir) (passable : Passable unreadable d) :
    Complete owner unreadable d where
  cleanup r d' run := by
    obtain ⟨ok, purged⟩ := passable.cleans there run
    refine ⟨ok, fun name content found => ?_⟩
    rw [purged.content] at found
    exact not_marked_purge found
  applies parseDnsName given config accepted owned few access r d' run := by
    subst owned
    have free := fun s mem => And.intro (access s mem).1.readable (access s mem).2.readable
    have writable : ∀ s ∈ config.domains, Writable d s := fun s mem =>
      ⟨(access s mem).1.names, (access s mem).2.names, (access s mem).1.notDir,
        (access s mem).2.notDir⟩
    have made := makeDirs_there there
    obtain ⟨rfl, -⟩ := (apply_succeeds few (by rw [made])
      (fun s mem => marked_of_normalized accepted mem) passable.flat
      (fun s mem => by rw [made]; exact writable s mem) (fun s mem => (access s mem).1.vacant)
      fun s mem => (access s mem).2.vacant).ends (apply_guarded passable there free run)
    exact ⟨_, rfl⟩
  closes handle owned access r d' run := by
    subst owned
    exact passable.closes there access run

/-- The cleanup of an owner is complete if and only if every entry of the directory can be
read as a file. -/
theorem cleanup_complete_iff (owner : Bytes) (unreadable : Path → Prop) (d : Disk)
    (there : d.IsDir dir) : Complete owner unreadable d ↔ Passable unreadable d := by
  refine ⟨fun complete => ?_, complete_of_passable there⟩
  obtain ⟨r, d', run⟩ := exists_ends (guarded_total unreadable) (cleanupOwner owner).run d
  obtain ⟨rfl, -⟩ := complete.cleanup r d' run
  exact passable_of_cleaned there run

end Completeness

section Sample

/-- The sample directory with a subdirectory of somebody else. -/
def sampleNested : Disk :=
  (exec (Disk.perform id) (Dir.createDirAll (resolverPath (bytes "backup"))) sampleDisk).2

theorem sampleNested_impassable : ¬ Passable (fun _ => False) sampleNested := fun passable =>
  (passable (bytes "backup") (by decide)).1 (by decide)

/-- The subdirectory makes the difference. -/
theorem cleanup_complete_sample :
    Complete (bytes "tests") (fun _ => False) sampleDisk ∧
      ¬ Complete (bytes "tests") (fun _ => False) sampleNested := by
  have flat : Flat sampleDisk := flat_of_children (by decide)
  refine ⟨?_, fun complete => ?_⟩
  · exact (cleanup_complete_iff _ _ _ (by decide)).mpr fun name _ => ⟨flat name, id⟩
  · exact sampleNested_impassable ((cleanup_complete_iff _ _ _ (by decide)).mp complete)

theorem subdirectory_stops_cleanup :
    ¬ ∀ (owner : Bytes) (unreadable : Path → Prop) (d : Disk), d.IsDir dir →
      (∀ name content, d.content (name :: dir) = some content → Marked owner content →
        ¬ unreadable (name :: dir)) →
      Complete owner unreadable d := by
  intro always
  have complete := always (bytes "tests") (fun _ => False) sampleNested (by decide)
    fun _ _ _ _ => id
  obtain ⟨r, d', run⟩ := exists_ends (guarded_total _) (cleanupOwner (bytes "tests")).run
    sampleNested
  obtain ⟨rfl, -⟩ := complete.cleanup r d' run
  exact sampleNested_impassable (passable_of_cleaned (by decide) run)

end Sample

end Setdns.Macos.Resolver
