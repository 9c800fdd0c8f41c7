import Setdns.Macos.AtomicApply

/-!
What apply and close return when no call fails, and what they leave in the directory
in either case. An apply is refused at the first domain whose file or temporary file
is in somebody else's place, or whose name the file system does not take. A close is
reported as failed where somebody else's file stands in the place of one of its own.
-/

namespace Setdns.Macos.Resolver

open Text Effects Effects.Program Effects.Directory
open Effects.Directory.Disk
open Effects.Files (IoError ENOENT)

/-- There is room for the file of the domain and for its temporary file. -/
structure Accepts (t : Table) (domain : Bytes) : Prop where
  valid : FileName (domain ++ tempSuffix)
  final : t (domain :: dir) = none
  temp : t ((domain ++ tempSuffix) :: dir) = none

/-- All domains were entered, or those before the first that is not accepted. -/
inductive Entered (owner : Bytes) (servers : List IpAddr) (suffixes : List DomainSuffix)
    (t : Table) : Except ResolverError Unit → Table → Prop
  | all (accepted : ∀ s ∈ suffixes, Accepts t s.domain) :
      Entered owner servers suffixes t (.ok ()) (install owner servers suffixes t)
  | stopped {front back : List DomainSuffix} {s : DomainSuffix} {e : ResolverError}
      (split : suffixes = front ++ s :: back) (accepted : ∀ u ∈ front, Accepts t u.domain)
      (refused : ¬ Accepts t s.domain) :
      Entered owner servers suffixes t (.error e) (install owner servers front t)

section Write

variable {owner domain name content : Bytes} {d : Disk}

theorem ensureAbsentOrOwned_entry (valid : FileName name) (there : d.IsDir dir)
    (notDir : ¬ d.IsDir (name :: dir)) (notOwned : NotOwned owner d name) :
    Safe calm (fun _ => True)
      (fun r d' => d' = d ∧ (r = .ok () ↔ d.content (name :: dir) = none))
      (ensureAbsentOrOwned (resolverPath name) owner).run d := by
  have names := names_resolverPath valid there
  have path := components_resolverPath valid
  refine Safe.lift (Safe.calm (by simp) ⟨trivial, ?_⟩)
  cases d.find (name :: dir) with
  | dir isDir => exact absurd isDir notDir
  | free free =>
      rw [perform_read_free names (path ▸ free)]
      exact ⟨trivial, rfl, fun _ => content_free free, fun _ => rfl⟩
  | file i file =>
      have found := content_file file
      have foreign := notOwned _ found
      rw [perform_read_file names (path ▸ found), found]
      by_cases utf8 : Utf8 (d.data i)
      · have other : ¬ hasOwnerHeader (d.data i) owner = true := fun h => foreign ⟨utf8, h⟩
        simp only [utf8, other, ite_true]
        exact ⟨trivial, rfl, by simp⟩
      · simp only [utf8, ite_false, IoError.isNotFound]
        exact ⟨trivial, rfl, by simp⟩

theorem writeResolver_opens (content : Bytes) (relative : Relative domain) (there : d.IsDir dir)
    (flat : Flat d) (accepts : Accepts d.content domain) :
    Safe calm (fun _ => True) (fun r _ => r = .ok ())
      (writeResolver owner domain content).run d := by
  have namesTemp := names_resolverPath accepts.valid there
  have namesFinal := names_resolverPath (relative.fileName accepts.valid) there
  have free : ∀ name, d.content (name :: dir) = none → NotOwned owner d name :=
    fun name empty c found => by cases empty.symm.trans found
  refine Safe.tryBind (ensureAbsentOrOwned_entry (relative.fileName accepts.valid) there
    (flat domain) (free _ accepts.final)) ?_ ?_
  swap
  · rintro e d₁ - ⟨-, h⟩
    cases h.mpr accepts.final
  rintro _ d₁ - ⟨rfl, -⟩
  refine Safe.tryBind (ensureAbsentOrOwned_entry accepts.valid there (flat _)
    (free _ accepts.temp)) ?_ ?_
  swap
  · rintro e d₂ - ⟨-, h⟩
    cases h.mpr accepts.temp
  rintro _ d₂ - ⟨rfl, -⟩
  have notDir : ∀ name, components (resolverPath name) = name :: dir →
      ¬ d₂.IsDir (components (resolverPath name)) := fun name path => path ▸ flat name
  obtain ⟨i, d₃, created, dirs₃, handle, empty, content₃⟩ :=
    perform_create namesTemp (notDir _ relative.components_temp)
  obtain ⟨d₄, written, dirs₄, content₄⟩ := perform_writeAll handle empty content
  have dirs := dirs₃.trans dirs₄
  have synced : d₄.perform id (.syncAll i) = (.ok (), d₄) := rfl
  have aside : d₄.content (components (resolverPath (domain ++ tempSuffix))) = some content := by
    rw [content₄, Function.update_self]
  obtain ⟨d₅, renamed, -, -⟩ := perform_rename (namesTemp.mono dirs) (namesFinal.mono dirs) aside
    fun isDir => notDir _ relative.components ((dirs _).mp isDir)
  refine (call_yields (by simp) created).mapErr.thenOk ?_
  refine (call_yields (by simp) written).mapErr.thenOk ?_
  refine (call_yields (by simp) synced).mapErr.thenOk ?_
  refine (call_yields (by simp) renamed).mapErr.post ?_
  rintro _ _ - ⟨rfl, -⟩
  rfl

theorem writeResolver_refuses (content : Bytes) (relative : Relative domain) (there : d.IsDir dir)
    (flat : Flat d) (final : NotOwned owner d domain)
    (temp : NotOwned owner d (domain ++ tempSuffix)) (refused : ¬ Accepts d.content domain) :
    Safe calm (fun _ => True) (fun r d' => (∃ e, r = .error e) ∧ d' = d)
      (writeResolver owner domain content).run d := by
  by_cases valid : FileName (domain ++ tempSuffix)
  · refine Safe.tryBind (ensureAbsentOrOwned_entry (relative.fileName valid) there (flat domain)
      final) ?_ fun e _ _ h => ⟨⟨e, rfl⟩, h.1⟩
    rintro ⟨⟩ d₁ - ⟨rfl, freeFinal⟩
    refine Safe.tryBind (ensureAbsentOrOwned_entry valid there (flat _) temp) ?_
      fun e _ _ h => ⟨⟨e, rfl⟩, h.1⟩
    rintro ⟨⟩ d₂ - ⟨rfl, freeTemp⟩
    exact absurd ⟨valid, freeFinal.mp rfl, freeTemp.mp rfl⟩ refused
  · refine Safe.tryBind (ensureAbsentOrOwned_calm owner _ d) ?_ fun e _ _ h => ⟨⟨e, rfl⟩, h.1⟩
    rintro _ d₁ - ⟨rfl, -⟩
    refine Safe.tryBind (ensureAbsentOrOwned_calm owner _ d₁) ?_ fun e _ _ h => ⟨⟨e, rfl⟩, h.1⟩
    rintro _ d₂ - ⟨rfl, -⟩
    -- the file system does not take the temporary name
    obtain ⟨e, failed⟩ := target_invalid (d := d₂) relative.components_temp valid
    have stopped :
        d₂.perform id (.create (resolverPath (domain ++ tempSuffix))) = (.error e, d₂) := by
      simp only [perform, failed]
    exact (call_yields (by simp) stopped).mapErr.thenError ⟨⟨_, rfl⟩, rfl⟩

/-- The file is written exactly if there is room, and otherwise nothing happens. -/
theorem writeResolver_exact (content : Bytes) (relative : Relative domain) (there : d.IsDir dir)
    (flat : Flat d) (final : NotOwned owner d domain)
    (temp : NotOwned owner d (domain ++ tempSuffix)) :
    Safe calm (fun _ => True) (fun r d' =>
        (r = .ok () ∧ Accepts d.content domain ∧ Written domain content d d') ∨
          ((∃ e, r = .error e) ∧ ¬ Accepts d.content domain ∧ d' = d))
      (writeResolver owner domain content).run d := by
  by_cases accepts : Accepts d.content domain
  · have written := writeResolver_calm content relative there final temp
    exact ((writeResolver_opens content relative there flat accepts).and written).post
      fun r d' _ h => .inl ⟨h.1, accepts, h.2 h.1⟩
  · exact (writeResolver_refuses content relative there flat final temp accepts).post
      fun r d' _ h => .inr ⟨h.1, accepts, h.2⟩

/-- An earlier file is in nobody's way. -/
theorem Written.accepts_iff {domain' : Bytes} {d' : Disk} (written : Written domain content d d')
    (final : domain ≠ domain') (temp : domain ≠ domain' ++ tempSuffix) :
    Accepts d'.content domain' ↔ Accepts d.content domain' := by
  have same : ∀ name, domain ≠ name → d'.content (name :: dir) = d.content (name :: dir) :=
    fun name ne => by
      rw [written.content, Function.update_of_ne]
      simpa using ne.symm
  constructor
  · rintro ⟨valid, freeFinal, freeTemp⟩
    exact ⟨valid, same _ final ▸ freeFinal, same _ temp ▸ freeTemp⟩
  · rintro ⟨valid, freeFinal, freeTemp⟩
    exact ⟨valid, (same _ final).trans freeFinal, (same _ temp).trans freeTemp⟩

theorem writeDomains_exact (servers : List IpAddr) (suffixes : List DomainSuffix)
    (relative : ∀ s ∈ suffixes, Relative s.domain) (apart : Apart suffixes) (there : d.IsDir dir)
    (flat : Flat d) (final : ∀ s ∈ suffixes, NotOwned owner d s.domain)
    (temp : ∀ s ∈ suffixes, NotOwned owner d (s.domain ++ tempSuffix)) :
    Safe calm (fun _ => True)
      (fun r d' => SameDirs d d' ∧ Entered owner servers suffixes d.content r d'.content)
      (writeDomains owner servers suffixes).run d := by
  induction suffixes generalizing d with
  | nil => exact ⟨trivial, SameDirs.rfl, .all (by simp)⟩
  | cons s suffixes ih =>
      obtain ⟨relativeHere, relativeRest⟩ := List.forall_mem_cons.mp relative
      obtain ⟨finalHere, finalRest⟩ := List.forall_mem_cons.mp final
      obtain ⟨tempHere, tempRest⟩ := List.forall_mem_cons.mp temp
      obtain ⟨first, rest⟩ := List.pairwise_cons.mp apart
      refine Safe.tryBind (writeResolver_exact _ relativeHere there flat finalHere tempHere) ?_ ?_
      · rintro _ d₁ - (⟨-, accepts, written⟩ | ⟨⟨e, ⟨⟩⟩, -⟩)
        have later : ∀ t ∈ suffixes, Accepts d₁.content t.domain ↔ Accepts d.content t.domain :=
          fun t mem => written.accepts_iff (first t mem).1 (first t mem).2
        refine (ih relativeRest rest ((written.dirs dir).mpr there) (flat.same written.dirs)
          (fun t mem => (finalRest t mem).written written (first t mem).1)
          (fun t mem => (tempRest t mem).written written (first t mem).2)).post ?_
        rintro r d₂ - ⟨dirs, entered⟩
        refine ⟨written.dirs.trans dirs, ?_⟩
        rw [written.content] at entered later
        generalize result : d₂.content = t' at entered
        cases entered with
        | all accepted =>
            exact .all (List.forall_mem_cons.mpr ⟨accepts, fun t mem =>
              (later t mem).mp (accepted t mem)⟩)
        | @stopped front back u e split accepted refused =>
            have among : ∀ t ∈ front ++ [u], t ∈ suffixes := fun t mem => by
              rw [split]
              simp only [List.mem_append, List.mem_cons] at mem ⊢
              tauto
            have before : ∀ t ∈ s :: front, Accepts d.content t.domain :=
              List.forall_mem_cons.mpr ⟨accepts,
                fun t mem => (later t (among t (by simp [mem]))).mp (accepted t mem)⟩
            refine .stopped (congrArg (s :: ·) split) before ?_
            exact fun h => refused ((later u (among u (by simp))).mpr h)
      · rintro e d₁ - (⟨⟨⟩, -⟩ | ⟨-, refused, rfl⟩)
        have none : ∀ t ∈ ([] : List DomainSuffix), Accepts d₁.content t.domain := by simp
        exact ⟨SameDirs.rfl, .stopped (List.nil_append _).symm none refused⟩

end Write

section Apply

variable {config : NormalizedConfig} {d : Disk}

/-- The directory is made where it is missing. -/
theorem createDirAll_exact (flat : Flat d) :
    Safe calm (fun _ => True) (fun r d' => Flat d' ∧ d'.content = d.content ∧
        ((r = .ok () ∧ d'.IsDir dir) ∨ (¬ d.IsDir dir ∧ ∃ e, r = .error e)))
      (mapErr (Dir.createDirAll resolverDir) (mapIo "create" resolverDir)).run d := by
  have content := makeDirs_content d dir
  have dirs := fun q => makeDirs_dirs d dir (q := q)
  have flat' : Flat (d.makeDirs dir).2 := by
    intro name isDir
    rcases dirs _ isDir with old | made
    · exact flat name old
    · exact absurd made.length_le (by simp)
  rcases made : d.makeDirs dir with ⟨e | _, d'⟩
  · have refused : d.perform id (.createDirAll resolverDir) = (.error e, d') := made
    rw [made] at content flat'
    refine (call_yields (by simp) refused).mapErr.post ?_
    rintro _ _ - ⟨rfl, rfl⟩
    refine ⟨flat', content, .inr ⟨fun there => ?_, _, rfl⟩⟩
    cases (makeDirs_there there).symm.trans made
  · have created : d.perform id (.createDirAll resolverDir) = (.ok (), d') := made
    rw [made] at content flat'
    refine (call_yields (by simp) created).mapErr.post ?_
    rintro _ _ - ⟨rfl, rfl⟩
    exact ⟨flat', content, .inl ⟨rfl, (makeDirs_ok made).1⟩⟩

theorem prepare_exact (flat : Flat d) :
    Safe calm (fun _ => True) (fun r d' => Flat d' ∧ d'.content = purge config.owner d.content ∧
        ((r = .ok () ∧ d'.IsDir dir) ∨ (¬ d.IsDir dir ∧ ∃ e, r = .error e)))
      (prepare config).run d := by
  by_cases there : d.IsDir dir
  · refine Safe.tryBind (cleanupOwner_calm config.owner d) ?_ ?_
    · rintro _ d₁ - (⟨-, h⟩ | ⟨-, -, purged⟩)
      · exact absurd rfl h
      refine (createDirAll_exact (flat.same purged.dirs)).post ?_
      rintro r d' - ⟨flat', content, made | ⟨missing, -⟩⟩
      · exact ⟨flat', content.trans purged.content, .inl made⟩
      · exact absurd ((purged.dirs dir).mpr there) missing
    · rintro e d₁ - (⟨notFlat | missing, -⟩ | ⟨-, ⟨⟩, -⟩)
      · exact absurd flat notFlat
      · exact absurd there missing
  · rw [purge_missing config.owner there]
    have untouched := calm_le (cleanupOwner_missing config.owner there)
    refine Safe.tryBind (untouched.imp (fun _ _ => trivial) fun _ _ _ same => same) ?_ ?_
    · rintro _ d₁ - rfl
      exact createDirAll_exact flat
    · rintro e d₁ - rfl
      exact ⟨flat, rfl, .inr ⟨there, e, rfl⟩⟩

/-- How an apply ends. Too many servers are refused before anything is done, and where the
directory cannot be made nothing is there to be removed. -/
inductive ApplyEnds (config : NormalizedConfig) (d : Disk) :
    Except ResolverError SetDns → Disk → Prop
  | rejected {e : ResolverError} (many : maxns < config.servers.length) :
      ApplyEnds config d (.error e) d
  | unmade {e : ResolverError} {d' : Disk} (few : config.servers.length ≤ maxns)
      (missing : ¬ d.IsDir dir) (flat : Flat d') (same : d'.content = d.content) :
      ApplyEnds config d (.error e) d'
  | entered {r : Except ResolverError Unit} {d' : Disk} (few : config.servers.length ≤ maxns)
      (there : d'.IsDir dir) (flat : Flat d')
      (entries : Entered config.owner config.servers config.domains
        (purge config.owner d.content) r d'.content) :
      ApplyEnds config d
        (r.map fun _ => ⟨config.owner, config.domains.map DomainSuffix.domain⟩) d'

theorem apply_ends (relative : ∀ s ∈ config.domains, Relative s.domain)
    (apart : Apart config.domains) (flat : Flat d) :
    Safe calm (fun _ => True) (ApplyEnds config d) (apply config).run d := by
  by_cases many : maxns < config.servers.length
  · rw [apply, if_pos many]
    exact ⟨trivial, .rejected many⟩
  have few := not_lt.mp many
  rw [apply_eq config many]
  refine Safe.tryBind (prepare_exact flat) ?_ ?_
  swap
  · rintro e d₁ - ⟨flat₁, content, ⟨⟨⟩, -⟩ | ⟨missing, -⟩⟩
    exact .unmade few missing flat₁ (content.trans (purge_missing config.owner missing))
  rintro _ d₁ - ⟨flat₁, content, ⟨-, there⟩ | ⟨-, e, ⟨⟩⟩⟩
  have notOwned : ∀ name, NotOwned config.owner d₁ name := by
    intro name c found
    rw [content, purge_entry, unmarked_eq_some] at found
    exact found.2
  refine Safe.tryBind (writeDomains_exact config.servers config.domains relative apart there flat₁
    (fun s _ => notOwned s.domain) (fun s _ => notOwned _)) ?_ ?_
  · rintro _ d₂ - ⟨dirs, entries⟩
    refine Safe.lift (Safe.calm (by simp) (Safe.calm (by simp) ⟨trivial, trivial, ?_⟩))
    exact .entered (r := .ok ()) few ((dirs dir).mpr there) (flat₁.same dirs) (content ▸ entries)
  · rintro e d₂ - ⟨dirs, entries⟩
    exact .entered (r := .error e) few ((dirs dir).mpr there) (flat₁.same dirs) (content ▸ entries)

end Apply

section Close

variable {owner : Bytes} {d : Disk}

theorem removeOwnedFile_exact {name : Bytes} (valid : FileName name) (there : d.IsDir dir)
    (notDir : ¬ d.IsDir (name :: dir)) :
    Safe calm (fun _ => True) (fun r d' => SameDirs d d' ∧
        ((r = .ok () ∧ ¬ Foreign owner d (name :: dir) ∧
            d'.content = Function.update d.content (name :: dir) none) ∨
          ((∃ e, r = .error e) ∧ Foreign owner d (name :: dir) ∧ d' = d)))
      (removeOwnedFile (resolverPath name) owner).run d := by
  have names := names_resolverPath valid there
  have path := components_resolverPath valid
  by_cases foreign : Foreign owner d (name :: dir)
  · obtain ⟨c, found, unmarked⟩ := foreign
    refine Safe.lift (Safe.calm (by simp) ⟨trivial, ?_⟩)
    rw [perform_read_file names (path ▸ found)]
    by_cases utf8 : Utf8 c
    · have other : ¬ hasOwnerHeader c owner = true := fun h => unmarked ⟨utf8, h⟩
      simp only [utf8, other, ite_true]
      exact ⟨trivial, SameDirs.rfl, .inr ⟨⟨_, rfl⟩, ⟨c, found, unmarked⟩, rfl⟩⟩
    · simp only [utf8, ite_false, IoError.isNotFound]
      exact ⟨trivial, SameDirs.rfl, .inr ⟨⟨_, rfl⟩, ⟨c, found, unmarked⟩, rfl⟩⟩
  · have own : ∀ c, d.content (components (resolverPath name)) = some c → Marked owner c := by
      intro c found
      by_contra unmarked
      exact foreign ⟨c, path ▸ found, unmarked⟩
    refine (removeOwnedFile_calm names (path ▸ notDir) own).post ?_
    rintro r d' - ⟨rfl, dirs, content⟩
    exact ⟨dirs, .inl ⟨rfl, foreign, path ▸ content⟩⟩

/-- A removal of a file of the owner makes no other file somebody else's. -/
theorem foreign_removed {name : Bytes} {p : Path} {d' : Disk}
    (own : ¬ Foreign owner d (name :: dir))
    (content : d'.content = Function.update d.content (name :: dir) none) :
    Foreign owner d' p ↔ Foreign owner d p := by
  unfold Foreign
  rw [content]
  by_cases here : p = name :: dir
  · subst here
    rw [Function.update_self]
    exact ⟨fun ⟨_, found, _⟩ => (nomatch found), fun foreign => absurd foreign own⟩
  · rw [Function.update_of_ne here]

theorem removeDomains_exact (domains : List Bytes) (valid : ∀ n ∈ domains, FileName n)
    (there : d.IsDir dir) (flat : Flat d) (first : Option ResolverError) :
    Safe calm (fun _ => True) (fun last d' => SameDirs d d' ∧
        purge owner d'.content = purge owner d.content ∧
        (last.isSome ↔ first.isSome ∨ ∃ n ∈ domains, Foreign owner d (n :: dir)))
      (removeDomains owner first domains) d := by
  induction domains generalizing d first with
  | nil => exact ⟨trivial, SameDirs.rfl, rfl, by simp⟩
  | cons n domains ih =>
      obtain ⟨validHere, validRest⟩ := List.forall_mem_cons.mp valid
      refine (safe_bind _ _).mpr ((removeOwnedFile_exact validHere there (flat n)).post ?_)
      rintro r d₁ - ⟨dirs, ⟨rfl, own, content⟩ | ⟨⟨e, rfl⟩, foreign, rfl⟩⟩
      · refine (ih validRest ((dirs dir).mpr there) (flat.same dirs) _).post ?_
        rintro last d₂ - ⟨dirs₂, purged, failed⟩
        refine ⟨dirs.trans dirs₂, ?_, failed.trans ?_⟩
        · rw [purged, content, purge_update fun c found => ?_]
          by_contra unmarked
          exact own ⟨c, found, unmarked⟩
        · simp only [keepFirst, List.exists_mem_cons_iff, own, false_or,
            foreign_removed own content]
      · refine (ih validRest there flat _).post ?_
        rintro last d₂ - ⟨dirs₂, purged, failed⟩
        refine ⟨dirs₂, purged, failed.trans ?_⟩
        simp [keepFirst, foreign]

/-- Whatever was reported, the owner has no file any more. -/
theorem close_ends (handle : SetDns) (valid : ∀ n ∈ handle.domains, FileName n)
    (there : d.IsDir dir) (flat : Flat d) :
    Safe calm (fun _ => True) (fun r d' => d'.IsDir dir ∧ Flat d' ∧
        d'.content = purge handle.owner d.content ∧
        (r = .ok () ↔ ∀ n ∈ handle.domains, ¬ Foreign handle.owner d (n :: dir)))
      (close handle).run d := by
  refine Safe.lift ((removeDomains_exact handle.domains valid there flat none).post ?_)
  rintro first d₁ - ⟨dirs₁, purged₁, failed⟩
  have there₁ := (dirs₁ dir).mpr there
  have flat₁ := flat.same dirs₁
  refine Safe.lift ((cleanupOwner_calm handle.owner d₁).post ?_)
  rintro cleaned d₂ - (⟨notFlat | missing, -⟩ | ⟨-, rfl, purged⟩)
  · exact absurd flat₁ notFlat
  · exact absurd there₁ missing
  refine Safe.lift (Safe.calm (by simp) (Safe.calm (by simp) ⟨trivial, ?_⟩))
  have after : d₂.IsDir dir ∧ Flat d₂ ∧ d₂.content = purge handle.owner d.content :=
    ⟨(purged.dirs dir).mpr there₁, flat₁.same purged.dirs, purged.content.trans purged₁⟩
  have clean : first = none ↔ ∀ n ∈ handle.domains, ¬ Foreign handle.owner d (n :: dir) := by
    rw [← Option.not_isSome_iff_eq_none, failed]
    simp
  cases first with
  | none => exact ⟨trivial, after.1, after.2.1, after.2.2, by simpa [keepFirst] using clean⟩
  | some e => exact ⟨trivial, after.1, after.2.1, after.2.2, by simpa [keepFirst] using clean⟩

end Close

end Setdns.Macos.Resolver
