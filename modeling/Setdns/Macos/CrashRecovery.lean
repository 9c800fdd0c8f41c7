import Setdns.Macos.Entering

/-!
An apply after one that was killed. A file of the killed run stands finished at
its place or not at all, and both are fine with the next apply. A temporary file
belongs to the owner once its first line is complete. Killed before that, it is
in the way of every later apply.
-/

namespace Setdns.Macos.Resolver

open Text Effects Effects.Program Effects.Directory
open Effects.Directory.Disk
open Effects.Files (IoError ENOENT)

section Remains

/-- A file was there before, is finished, or is a temporary one, as far as it got. -/
def Remnant (owner : Bytes) (servers : List IpAddr) (suffixes : List DomainSuffix) (d : Disk)
    (p : Path) (content : Bytes) : Prop :=
  d.content p = some content ∨ Marked owner content ∨
    ∃ s ∈ suffixes, p = tempPlace s ∧ content <+: renderResolver owner s.domain servers

/-- What an apply has left at any moment. -/
structure Remains (owner : Bytes) (servers : List IpAddr) (suffixes : List DomainSuffix)
    (d₀ d : Disk) : Prop where
  dirs : SameDirs d₀ d
  file : ∀ p content, d.content p = some content → Remnant owner servers suffixes d₀ p content

variable {owner path : Bytes} {servers : List IpAddr} {suffixes : List DomainSuffix}
  {s : DomainSuffix} {d₀ d : Disk}

theorem Remains.refl (owner : Bytes) (servers : List IpAddr) (suffixes : List DomainSuffix)
    (d : Disk) :
    Remains owner servers suffixes d d :=
  ⟨SameDirs.rfl, fun _ _ => .inl⟩

theorem remains_call {α : Type} {Q : α → Disk → Prop} {c : DirCall} {k : DirCall.Ret c → Io α}
    (remains : Remains owner servers suffixes d₀ d) (files : ∀ path, c ≠ .createDirAll path)
    (touched : ∀ r d' p content, faulty.answers d c r d' → Touches d c p →
      d'.content p = some content → Remnant owner servers suffixes d₀ p content)
    (next : ∀ r d', faulty.answers d c r d' → Remains owner servers suffixes d₀ d' →
      Safe faulty (Remains owner servers suffixes d₀) Q (k r) d') :
    Safe faulty (Remains owner servers suffixes d₀) Q (.call c k) d := by
  have kept : ∀ r d', faulty.answers d c r d' → Remains owner servers suffixes d₀ d' := by
    intro r d' a
    refine ⟨remains.dirs.trans (faulty_dirs files a), fun p content there => ?_⟩
    by_cases touches : Touches d c p
    · exact touched r d' p content a touches there
    · exact remains.file p content ((faulty_frame touches a).symm.trans there)
  refine ⟨remains, fun d' torn => ?_, fun r d' a => next r d' a (kept r d' a)⟩
  obtain ⟨r, a⟩ := torn_answer torn
  exact kept r d' a

/-- A call that touches no file. -/
theorem remains_look {α : Type} {Q : α → Disk → Prop} {c : DirCall} {k : DirCall.Ret c → Io α}
    (remains : Remains owner servers suffixes d₀ d) (files : ∀ path, c ≠ .createDirAll path)
    (look : ∀ p, ¬ Touches d c p)
    (next : ∀ r d', faulty.answers d c r d' → Remains owner servers suffixes d₀ d' →
      Safe faulty (Remains owner servers suffixes d₀) Q (k r) d') :
    Safe faulty (Remains owner servers suffixes d₀) Q (.call c k) d :=
  remains_call remains files (fun _ _ p _ _ touches => absurd touches (look p)) next

/-- A program that reads and removes files leaves no more. -/
theorem clearing_remains {α : Type} {p : Io α} (clearing : Issues Clearing p)
    (remains : Remains owner servers suffixes d₀ d) :
    Safe faulty (Remains owner servers suffixes d₀) (fun _ _ => True) p d :=
  clearing_safe clearing (fun _ _ before dirs fewer =>
    ⟨before.dirs.trans dirs, fun p content there =>
      before.file p content (fewer p content there)⟩) remains

theorem create_remains (mem : s ∈ suffixes) (remains : Remains owner servers suffixes d₀ d) :
    Safe faulty (Remains owner servers suffixes d₀)
      (fun r d' => ∀ file, r = .ok file →
        d'.lookup (tempPlace s) = some (.file file) ∧ d'.data file = [])
      (Dir.create (tempResolverPath s.domain)) d := by
  refine remains_call remains (by simp) ?_ fun r d' a kept => ⟨kept, ?_⟩
  · rintro r d' _ content a rfl there
    cases r with
    | error e => exact remains.file _ content ((faulty_create_error a) ▸ there)
    | ok file =>
        rw [faulty_create_content a, Function.update_self] at there
        cases there
        exact .inr (.inr ⟨s, mem, rfl, List.nil_prefix⟩)
  · rintro file ok
    cases r with
    | error e => cases ok
    | ok _ =>
        cases ok
        exact ⟨faulty_create a, faulty_create_empty a⟩

theorem writeAll_remains {file : Nat} (mem : s ∈ suffixes)
    (remains : Remains owner servers suffixes d₀ d)
    (handle : d.lookup (tempPlace s) = some (.file file)) (empty : d.data file = []) :
    Safe faulty (Remains owner servers suffixes d₀)
      (fun r d' => ∀ done, r = .ok done →
        d'.content (tempPlace s) = some (renderResolver owner s.domain servers))
      (Dir.writeAll file (renderResolver owner s.domain servers)) d := by
  refine remains_call remains (by simp) ?_ fun r d' a kept => ⟨kept, ?_⟩
  · intro _ _ p content a touches there
    obtain rfl := d.single p (tempPlace s) file touches handle
    obtain ⟨part, initial, -, written⟩ := faulty_writeAll_content handle empty a
    rw [written, Function.update_self] at there
    exact .inr (.inr ⟨s, mem, rfl, Option.some.inj there ▸ initial⟩)
  · intro _ ok
    obtain ⟨part, -, whole, content⟩ := faulty_writeAll_content handle empty a
    rw [content, Function.update_self]
    cases r with
    | error e => cases ok
    | ok _ => rw [whole rfl]

theorem rename_remains (marked : Marked owner (renderResolver owner s.domain servers))
    (remains : Remains owner servers suffixes d₀ d)
    (finished : d.content (tempPlace s) = some (renderResolver owner s.domain servers)) :
    Safe faulty (Remains owner servers suffixes d₀) (fun _ _ => True)
      (Dir.rename (tempResolverPath s.domain) (resolverPath s.domain)) d := by
  refine remains_call remains (by simp) ?_ fun _ _ _ kept => ⟨kept, trivial⟩
  intro r d' p content a _ there
  cases r with
  | error e => exact remains.file p content ((faulty_rename_error a) ▸ there)
  | ok _ =>
      have there : Function.update (Function.update d.content (tempPlace s) none) (finalPlace s)
          (d.content (tempPlace s)) p = some content :=
        (congrFun (faulty_rename_content a) p).symm.trans there
      by_cases final : p = finalPlace s
      · rw [final, Function.update_self] at there
        obtain rfl := Option.some.inj (finished.symm.trans there)
        exact .inr (.inl marked)
      · rw [Function.update_of_ne final] at there
        by_cases temp : p = tempPlace s
        · rw [temp, Function.update_self] at there
          cases there
        · rw [Function.update_of_ne temp] at there
          exact remains.file p content there

theorem writeResolver_remains (mem : s ∈ suffixes)
    (marked : Marked owner (renderResolver owner s.domain servers))
    (remains : Remains owner servers suffixes d₀ d) :
    Safe faulty (Remains owner servers suffixes d₀) (fun _ _ => True)
      (writeResolver owner s.domain (renderResolver owner s.domain servers)).run d := by
  refine Safe.tryBind (clearing_remains (ensureAbsentOrOwned_clearing _ owner) remains) ?_
    fun _ _ _ _ => trivial
  rintro _ d₁ remains₁ -
  refine Safe.tryBind (clearing_remains (ensureAbsentOrOwned_clearing _ owner) remains₁) ?_
    fun _ _ _ _ => trivial
  rintro _ d₂ remains₂ -
  refine Safe.tryBind (Safe.mapErr_ok (create_remains mem remains₂)) ?_ fun _ _ _ _ => trivial
  intro file d₃ remains₃ created
  obtain ⟨handle, empty⟩ := created file rfl
  refine Safe.tryBind (Safe.mapErr_ok (writeAll_remains mem remains₃ handle empty)) ?_
    fun _ _ _ _ => trivial
  intro _ d₄ remains₄ written
  refine Safe.tryBind
    (M := fun _ d' => d'.content (tempPlace s) = some (renderResolver owner s.domain servers))
    (Safe.mapErr (remains_look remains₄ (by simp) (fun _ => id) fun r d' a kept => ⟨kept, ?_⟩)) ?_
    fun _ _ _ _ => trivial
  · exact (faulty_frame (c := .syncAll file) id a).trans (written _ rfl)
  intro _ d₅ remains₅ finished
  exact Safe.mapErr (rename_remains marked remains₅ finished)

theorem writeDomains_remains {rest : List DomainSuffix}
    (subset : rest ⊆ suffixes)
    (marked : ∀ s ∈ rest, Marked owner (renderResolver owner s.domain servers))
    (remains : Remains owner servers suffixes d₀ d) :
    Safe faulty (Remains owner servers suffixes d₀) (fun _ _ => True)
      (writeDomains owner servers rest).run d := by
  induction rest generalizing d with
  | nil => exact ⟨remains, trivial⟩
  | cons s rest ih =>
      obtain ⟨mem, subset⟩ := List.cons_subset.mp subset
      obtain ⟨markedHere, markedRest⟩ := List.forall_mem_cons.mp marked
      exact Safe.tryBind (writeResolver_remains mem markedHere remains)
        (fun _ _ kept _ => ih subset markedRest kept) fun _ _ _ _ => trivial

/-- The state before the first file is written: no directory has been made, or some, or all. -/
def Prepared (d e : Disk) : Prop := e.makeDirs dir = d.makeDirs dir

theorem Prepared.content (h : Prepared d₀ d) : d.content = d₀.content := by
  rw [← makeDirs_content d dir, h, makeDirs_content]

/-- What an apply has left when it is stopped. Without the directory it has no files to leave. -/
def Stopped (config : NormalizedConfig) (d₀ d : Disk) : Prop :=
  ∃ e, Prepared d₀ e ∧ Remains config.owner config.servers config.domains e d ∧
    (e.IsDir dir ∨ d = e)

theorem written_stopped {config : NormalizedConfig} {e : Disk} (prepared : Prepared d₀ e)
    (there : e.IsDir dir)
    (marked : ∀ s ∈ config.domains,
      Marked config.owner (renderResolver config.owner s.domain config.servers))
    (remains : Remains config.owner config.servers config.domains e d) :
    Safe faulty (Stopped config d₀) (fun _ _ => True)
      (do writeDomains config.owner config.servers config.domains
          flushDnsCache
          pure ⟨config.owner, config.domains.map DomainSuffix.domain⟩ : Result SetDns).run d := by
  refine Safe.imp (I := Remains config.owner config.servers config.domains e) ?_
    (fun _ left => ⟨e, prepared, left, .inl there⟩) fun _ _ _ done => done
  refine Safe.tryBind (writeDomains_remains (List.Subset.refl _) marked remains) ?_
    fun _ _ _ _ => trivial
  rintro _ d₁ remains₁ -
  exact Safe.lift (remains_look remains₁ (by simp) (fun _ => id) fun _ _ _ kept =>
    remains_look kept (by simp) (fun _ => id) fun _ _ _ kept' => ⟨kept', kept', trivial⟩)

/-- Making the directory that is there changes nothing, and otherwise it may break off. -/
theorem createDirAll_prepares {r : Except IoError Unit} {d' : Disk}
    (a : faulty.answers d (.createDirAll resolverDir) r d') :
    Prepared d d' ∧ (r = .ok () → d'.IsDir dir) := by
  rcases a with ⟨order, -, a⟩ | ⟨e, -, rfl, k, rfl⟩ | ⟨broken, -⟩
  · have made : d.makeDirs dir = (r, d') := a
    refine ⟨?_, fun ok => (makeDirs_ok (ok ▸ made)).1⟩
    have again := makeDirs_idem d dir
    rw [made] at again
    exact again.trans made.symm
  · exact ⟨makeDirs_drop d dir k, by simp [Directory.failure]⟩
  · exact broken.elim

theorem apply_stopped {config : NormalizedConfig}
    (marked : ∀ s ∈ config.domains,
      Marked config.owner (renderResolver config.owner s.domain config.servers)) :
    Safe faulty (Stopped config d) (fun _ _ => True) (apply config).run d := by
  have start : Stopped config d d := ⟨d, rfl, .refl _ _ _ d, .inr rfl⟩
  unfold apply
  split
  · exact ⟨start, trivial⟩
  by_cases there : d.IsDir dir
  · have left : ∀ {d'}, Remains config.owner config.servers config.domains d d' →
        Stopped config d d' := fun remains => ⟨d, rfl, remains, .inl there⟩
    have clean := clearing_remains (cleanupOwner_clearing config.owner)
      (Remains.refl config.owner config.servers config.domains d)
    refine Safe.tryBind (clean.imp (fun _ => left) fun _ _ remains _ => remains) ?_
      fun _ _ _ _ => trivial
    rintro _ d₁ - remains₁
    have same : ∀ r d', faulty.answers d₁ (.createDirAll resolverDir) r d' → d' = d₁ :=
      fun r d' a => faulty_createDirAll ((remains₁.dirs dir).mpr there) a
    refine Safe.tryBind (M := fun _ d' => d' = d₁) (Safe.mapErr ⟨left remains₁,
      fun d' torn => ?_, fun r d' a => ⟨same r d' a ▸ left remains₁, same r d' a⟩⟩) ?_
      fun _ _ _ _ => trivial
    · obtain ⟨r, a⟩ := torn_answer torn
      exact same r d' a ▸ left remains₁
    rintro _ _ - rfl
    exact written_stopped rfl there marked remains₁
  · refine Safe.tryBind ((cleanupOwner_missing config.owner there).imp (fun _ same => same ▸ start)
      fun _ _ same _ => same) ?_ fun _ _ _ _ => trivial
    rintro _ d₁ - rfl
    have made : ∀ r d', faulty.answers d₁ (.createDirAll resolverDir) r d' →
        Stopped config d₁ d' :=
      fun r d' a => ⟨d', (createDirAll_prepares a).1, .refl _ _ _ d', .inr rfl⟩
    refine Safe.tryBind (M := fun r d' => r = .ok () → Prepared d₁ d' ∧ d'.IsDir dir)
      (Safe.mapErr ⟨start, fun d' torn => ?_, fun r d' a => ⟨made r d' a, fun ok => ?_⟩⟩) ?_
      fun _ _ _ _ => trivial
    · obtain ⟨r, a⟩ := torn_answer torn
      exact made r d' a
    · obtain ⟨prepared, isDir⟩ := createDirAll_prepares a
      cases r with
      | error e => cases ok
      | ok _ => exact ⟨prepared, isDir rfl⟩
    rintro _ d₂ - ready
    obtain ⟨prepared, isDir⟩ := ready rfl
    exact written_stopped prepared isDir marked (.refl _ _ _ d₂)

end Remains

/-- Both of the domain's paths name a file of an existing directory. -/
structure Writable (d : Disk) (s : DomainSuffix) : Prop where
  final : Names d (resolverPath s.domain)
  temp : Names d (tempResolverPath s.domain)
  notDir : ¬ d.IsDir (finalPlace s)
  notDirTemp : ¬ d.IsDir (tempPlace s)

theorem Writable.mono {d d' : Disk} {s : DomainSuffix} (writable : Writable d s)
    (same : SameDirs d d') : Writable d' s where
  final := writable.final.mono same
  temp := writable.temp.mono same
  notDir isDir := writable.notDir ((same _).mp isDir)
  notDirTemp isDir := writable.notDirTemp ((same _).mp isDir)

section Needs

/-! What a call that succeeds says about its directory. -/

variable {owner : Bytes} {d : Disk}

theorem writeResolver_needs (servers : List IpAddr) (s : DomainSuffix) (d : Disk) :
    Safe faulty (fun _ => True)
      (fun r d' => r = .ok () → SameDirs d d' ∧ Writable d s)
      (writeResolver owner s.domain (renderResolver owner s.domain servers)).run d := by
  refine Safe.tryBind (ensureAbsentOrOwned_vacant owner _ d) ?_ (by simp)
  rintro _ d₁ - ⟨rfl, -⟩
  refine Safe.tryBind (ensureAbsentOrOwned_vacant owner _ d₁) ?_ (by simp)
  rintro _ d₂ - ⟨rfl, -⟩
  refine Safe.tryBind
    (M := fun r d' => ∀ file, r = .ok file →
      SameDirs d₂ d' ∧ Names d₂ (tempResolverPath s.domain) ∧ ¬ d₂.IsDir (tempPlace s))
    (Safe.mapErr ⟨trivial, fun _ _ => trivial, fun r d' a => ⟨trivial, fun file ok => ?_⟩⟩) ?_
    (by simp)
  · cases r with
    | error e => cases ok
    | ok _ =>
        obtain ⟨names, notDir⟩ := faulty_create_names a
        exact ⟨faulty_dirs (by simp) a, names, notDir⟩
  rintro file d₃ - created
  obtain ⟨dirs₃, temp, notDirTemp⟩ := created file rfl
  refine Safe.tryBind (M := fun _ d' => SameDirs d₃ d') (Safe.mapErr ⟨trivial, fun _ _ => trivial,
    fun r d' a => ⟨trivial, faulty_dirs (by simp) a⟩⟩) ?_ (by simp)
  rintro _ d₄ - dirs₄
  refine Safe.tryBind (M := fun _ d' => SameDirs d₄ d') (Safe.mapErr ⟨trivial, fun _ _ => trivial,
    fun r d' a => ⟨trivial, faulty_dirs (by simp) a⟩⟩) ?_ (by simp)
  rintro _ d₅ - dirs₅
  refine Safe.mapErr ⟨trivial, fun _ _ => trivial, fun r d₆ a => ⟨trivial, fun ok => ?_⟩⟩
  cases r with
  | error e => cases ok
  | ok _ =>
      have dirs := (dirs₃.trans dirs₄).trans dirs₅
      obtain ⟨names, notDir⟩ := faulty_rename_names a
      exact ⟨dirs.trans (faulty_dirs (by simp) a), names.mono dirs.symm, temp,
        fun isDir => notDir ((dirs _).mpr isDir), notDirTemp⟩

theorem enter_vacant {servers : List IpAddr} {s : DomainSuffix} {p : Path} {d' : Disk}
    (final : Vacant owner d (finalPlace s)) (temp : Vacant owner d (tempPlace s))
    (content : d'.content = enter owner servers d.content s) (later : Vacant owner d' p) :
    Vacant owner d p := by
  by_cases concerned : Concerns s p
  · rcases concerned with rfl | rfl
    · exact final
    · exact temp
  · intro c there
    refine later c ?_
    rw [content, enter_other concerned]
    exact there

theorem writeDomains_needs (servers : List IpAddr) (suffixes : List DomainSuffix) (d : Disk) :
    Safe faulty (fun _ => True)
      (fun r _ => r = .ok () → ∀ s ∈ suffixes, Writable d s ∧ Vacant owner d (tempPlace s))
      (writeDomains owner servers suffixes).run d := by
  induction suffixes generalizing d with
  | nil => exact ⟨trivial, by simp⟩
  | cons s suffixes ih =>
      refine Safe.tryBind
        ((writeResolver_enters servers s d).and (writeResolver_needs servers s d)) ?_ (by simp)
      rintro _ d₁ - ⟨enters, needs⟩
      obtain ⟨final, temp, content⟩ := enters rfl
      obtain ⟨dirs, writable⟩ := needs rfl
      refine (ih d₁).post fun r d₂ _ rest ok => List.forall_mem_cons.mpr ⟨⟨writable, temp⟩, ?_⟩
      intro t mem
      obtain ⟨writable', temp'⟩ := rest ok t mem
      exact ⟨writable'.mono dirs.symm, enter_vacant final temp content temp'⟩

end Needs

section Succeeds

/-! A call that finds its paths writable and vacant succeeds. -/

variable {owner path : Bytes} {d : Disk} {s : DomainSuffix}

theorem ensureAbsentOrOwned_succeeds (names : Names d path) (notDir : ¬ d.IsDir (components path))
    (vacant : Vacant owner d (components path)) :
    Yields calm (ensureAbsentOrOwned path owner).run d (.ok ()) d := by
  cases d.find (components path) with
  | dir there => exact absurd there notDir
  | free free =>
      refine (call_yields (by simp) (perform_read_free names free)).lift ?_
      exact .ret _ _
  | file i there =>
      have found := content_file there
      obtain ⟨utf8, header⟩ := vacant _ found
      have read := perform_read_file names found
      rw [if_pos utf8] at read
      refine (call_yields (by simp) read).lift ?_
      dsimp only
      rw [if_pos header]
      exact .ret _ _

theorem writeResolver_succeeds (servers : List IpAddr) (writable : Writable d s)
    (final : Vacant owner d (finalPlace s)) (temp : Vacant owner d (tempPlace s)) :
    ∃ d', SameDirs d d' ∧ d'.content = enter owner servers d.content s ∧
      Yields calm (writeResolver owner s.domain (renderResolver owner s.domain servers)).run d
        (.ok ()) d' := by
  obtain ⟨i, d₁, created, dirs₁, handle, empty, content₁⟩ :=
    perform_create writable.temp writable.notDirTemp
  obtain ⟨d₂, written, dirs₂, content₂⟩ :=
    perform_writeAll handle empty (renderResolver owner s.domain servers)
  have synced : d₂.perform id (.syncAll i) = (.ok (), d₂) := rfl
  have dirs := dirs₁.trans dirs₂
  have there : d₂.content (components (tempResolverPath s.domain)) =
      some (renderResolver owner s.domain servers) := by
    rw [content₂, Function.update_self]
  have ready := writable.mono dirs
  obtain ⟨d₃, renamed, dirs₃, content₃⟩ := perform_rename ready.temp ready.final there ready.notDir
  refine ⟨d₃, dirs.trans dirs₃, ?_, ?_⟩
  · rw [content₃, content₂, content₁, Function.update_idem, Function.update_idem]
    rfl
  refine (ensureAbsentOrOwned_succeeds writable.final writable.notDir final).tryOk ?_
  refine (ensureAbsentOrOwned_succeeds writable.temp writable.notDirTemp temp).tryOk ?_
  refine (call_yields (by simp) created).mapErr.tryOk ?_
  refine (call_yields (by simp) written).mapErr.tryOk ?_
  refine (call_yields (by simp) synced).mapErr.tryOk ?_
  exact (call_yields (by simp) renamed).mapErr

theorem Vacant.enter {servers : List IpAddr} {p : Path} {d' : Disk}
    (marked : Marked owner (renderResolver owner s.domain servers))
    (content : d'.content = enter owner servers d.content s) (vacant : Vacant owner d p) :
    Vacant owner d' p := by
  intro c there
  rw [content, Resolver.enter] at there
  by_cases final : p = finalPlace s
  · rw [final, Function.update_self] at there
    exact Option.some.inj there ▸ marked
  rw [Function.update_of_ne final] at there
  by_cases temp : p = tempPlace s
  · rw [temp, Function.update_self] at there
    cases there
  · rw [Function.update_of_ne temp] at there
    exact vacant c there

theorem writeDomains_succeeds {servers : List IpAddr} {suffixes : List DomainSuffix}
    (marked : ∀ s ∈ suffixes, Marked owner (renderResolver owner s.domain servers))
    (writable : ∀ s ∈ suffixes, Writable d s)
    (final : ∀ s ∈ suffixes, Vacant owner d (finalPlace s))
    (temp : ∀ s ∈ suffixes, Vacant owner d (tempPlace s)) :
    ∃ d', d'.content = entered owner servers suffixes d.content ∧
      Yields calm (writeDomains owner servers suffixes).run d (.ok ()) d' := by
  induction suffixes generalizing d with
  | nil => exact ⟨d, rfl, .ret _ _⟩
  | cons s suffixes ih =>
      obtain ⟨markedHere, markedRest⟩ := List.forall_mem_cons.mp marked
      obtain ⟨writableHere, writableRest⟩ := List.forall_mem_cons.mp writable
      obtain ⟨finalHere, finalRest⟩ := List.forall_mem_cons.mp final
      obtain ⟨tempHere, tempRest⟩ := List.forall_mem_cons.mp temp
      obtain ⟨d₁, dirs, content₁, here⟩ :=
        writeResolver_succeeds servers writableHere finalHere tempHere
      obtain ⟨d₂, content₂, rest⟩ := ih markedRest (fun t mem => (writableRest t mem).mono dirs)
        (fun t mem => (finalRest t mem).enter markedHere content₁)
        (fun t mem => (tempRest t mem).enter markedHere content₁)
      refine ⟨d₂, ?_, here.tryOk rest⟩
      rw [content₂, content₁]
      rfl

end Succeeds

section Recovery

/-- The directory is there or can be made. Then the domains can be written where they stand, and
none is in the way of an earlier one. -/
structure Fits (config : NormalizedConfig) (d : Disk) : Prop where
  made : (d.makeDirs dir).1 = .ok ()
  flat : Flat d
  writable : ∀ s ∈ config.domains, Writable (d.makeDirs dir).2 s
  apart : config.domains.Pairwise fun s t => ¬ Concerns t (finalPlace s)

/-- The call has succeeded. There is one file per domain, and nothing else of the owner. -/
structure Recovered (config : NormalizedConfig) (r : Except ResolverError SetDns) (d : Disk) :
    Prop where
  handle : r = .ok ⟨config.owner, config.domains.map DomainSuffix.domain⟩
  files : ∀ s ∈ config.domains,
    d.content (finalPlace s) = some (renderResolver config.owner s.domain config.servers)
  distinct : config.domains.Pairwise fun s t => finalPlace s ≠ finalPlace t
  temps : ∀ s ∈ config.domains, (∀ t ∈ config.domains, tempPlace s ≠ finalPlace t) →
    d.content (tempPlace s) = none
  only : ∀ name content, d.content (name :: dir) = some content → Marked config.owner content →
    ∃ s ∈ config.domains, name :: dir = finalPlace s

/-- Every apply without failures recovers. -/
def Recovers (config : NormalizedConfig) (d : Disk) : Prop :=
  ∀ r d', Ends calm (apply config).run d r d' → Recovered config r d'

variable {config : NormalizedConfig} {owner : Bytes} {servers : List IpAddr} {d d' : Disk}

theorem flat_makeDirs (d : Disk) : Flat (d.makeDirs dir).2 ↔ Flat d := by
  refine ⟨fun flat name isDir => flat name (makeDirs_keeps d dir isDir), fun flat name isDir => ?_⟩
  rcases makeDirs_dirs d dir isDir with old | made
  · exact flat name old
  · exact absurd made.length_le (by simp)

theorem Prepared.fits (prepared : Prepared d d') : Fits config d' ↔ Fits config d := by
  have flat : Flat d' ↔ Flat d := by
    rw [← flat_makeDirs d', prepared, flat_makeDirs]
  constructor
  · intro fits
    exact ⟨prepared ▸ fits.made, flat.mp fits.flat, prepared ▸ fits.writable, fits.apart⟩
  · intro fits
    exact ⟨prepared.symm ▸ fits.made, flat.mpr fits.flat, prepared.symm ▸ fits.writable,
      fits.apart⟩

theorem fits_same (there : d.IsDir dir) (same : SameDirs d d') :
    Fits config d' ↔ Fits config d := by
  have made := makeDirs_there there
  have made' := makeDirs_there ((same dir).mpr there)
  constructor
  · intro fits
    have writable := fits.writable
    rw [made'] at writable
    exact ⟨by rw [made], fits.flat.same same.symm, fun s mem => by
      rw [made]; exact (writable s mem).mono same.symm, fits.apart⟩
  · intro fits
    have writable := fits.writable
    rw [made] at writable
    exact ⟨by rw [made'], fits.flat.same same, fun s mem => by
      rw [made']; exact (writable s mem).mono same, fits.apart⟩

theorem last_of_apart {suffixes : List DomainSuffix} {s : DomainSuffix}
    (apart : suffixes.Pairwise fun s t => ¬ Concerns t (finalPlace s)) (mem : s ∈ suffixes) :
    Last suffixes s (finalPlace s) := by
  obtain ⟨front, back, rfl⟩ := List.append_of_mem mem
  have later := (List.pairwise_append.mp apart).2.1
  exact ⟨front, back, rfl, rfl, (List.pairwise_cons.mp later).1⟩

theorem renderResolver_injective {a b : Bytes}
    (same : renderResolver owner a servers = renderResolver owner b servers) : a = b := by
  simp only [renderResolver, List.append_assoc] at same
  have rest := List.append_cancel_left (List.append_cancel_left (List.append_cancel_left same))
  exact List.append_cancel_right rest

/-- If every domain has its file in the end, none is in the way of an earlier one. -/
theorem apart_of_files {suffixes : List DomainSuffix} {t : Table}
    (distinct : suffixes.Pairwise fun s t => s.domain ≠ t.domain)
    (files : ∀ s ∈ suffixes, entered owner servers suffixes t (finalPlace s) =
      some (renderResolver owner s.domain servers)) :
    suffixes.Pairwise fun s t => ¬ Concerns t (finalPlace s) := by
  induction suffixes generalizing t with
  | nil => exact .nil
  | cons s suffixes ih =>
      obtain ⟨others, distinctRest⟩ := List.pairwise_cons.mp distinct
      obtain ⟨here, rest⟩ := List.forall_mem_cons.mp files
      refine List.pairwise_cons.mpr ⟨?_, ih distinctRest rest⟩
      have last : entered owner servers suffixes (enter owner servers t s) (finalPlace s) =
        some (renderResolver owner s.domain servers) := here
      rcases entered_eq_some_iff.mp last with ⟨s', ⟨_, _, rfl, _⟩, same⟩ | ⟨free, _⟩
      · exact absurd (renderResolver_injective same) (others s' (by simp))
      · exact free

theorem purge_le {t : Table} {p : Path} {content : Bytes}
    (there : purge owner t p = some content) : t p = some content := by
  cases p with
  | nil => exact there
  | cons name up =>
      rw [purge] at there
      split at there
      · exact (unmarked_eq_some.mp there).1
      · exact there

theorem Purged.vacant_iff (purged : Purged owner d d') {p : Path} :
    Vacant owner d' p ↔ Vacant owner d p := by
  constructor
  · intro vacant content there
    by_contra foreign
    refine foreign (vacant content ?_)
    rw [purged.content, purge_of_not_markedAt, there]
    rintro ⟨_, _, -, there', marked⟩
    exact foreign (Option.some.inj (there.symm.trans there') ▸ marked)
  · intro vacant content there
    rw [purged.content] at there
    exact vacant content (purge_le there)

theorem flush_calm {handle : SetDns} (d : Disk) :
    Yields calm (do flushDnsCache; pure handle : Result SetDns).run d (.ok handle) d :=
  Safe.lift (Safe.calm (by simp) (Safe.calm (by simp) ⟨trivial, trivial, rfl, rfl⟩))

/-- The cleanup of a directory that is there or can be made. -/
theorem cleanupOwner_succeeds (owner : Bytes) (made : (d.makeDirs dir).1 = .ok ()) (flat : Flat d) :
    Safe calm (fun _ => True) (fun r d' => r = .ok () ∧ Purged owner d d' ∧
      (¬ d.IsDir dir → d' = d)) (cleanupOwner owner).run d := by
  by_cases there : d.IsDir dir
  · refine (cleanupOwner_calm owner d).post ?_
    rintro r d' - (⟨blocked, -⟩ | ⟨-, ok, purged⟩)
    · exact absurd blocked (not_or.mpr ⟨not_not.mpr flat, not_not.mpr there⟩)
    · exact ⟨ok, purged, fun missing => absurd there missing⟩
  · refine (cleanupOwner_unmade owner made there).post ?_
    rintro _ _ - ⟨rfl, rfl⟩
    exact ⟨rfl, ⟨SameDirs.rfl, (purge_missing owner there).symm⟩, fun _ => rfl⟩

/-- Then the directory is there, with all that the cleanup has left. -/
theorem createDirAll_after {r : Except IoError Unit} {d₁ d₂ : Disk} (purged : Purged owner d d₁)
    (missing : ¬ d.IsDir dir → d₁ = d)
    (made : d₁.perform id (.createDirAll resolverDir) = (r, d₂)) :
    r = (d.makeDirs dir).1 ∧ SameDirs (d.makeDirs dir).2 d₂ ∧
      d₂.content = purge owner d.content := by
  have made : d₁.makeDirs dir = (r, d₂) := made
  by_cases there : d.IsDir dir
  · rw [makeDirs_there ((purged.dirs dir).mpr there)] at made
    obtain ⟨rfl, rfl⟩ := Prod.mk.inj made
    rw [makeDirs_there there]
    exact ⟨rfl, purged.dirs, purged.content⟩
  · obtain rfl := missing there
    have content := makeDirs_content d₁ dir
    rw [made] at content
    rw [made]
    exact ⟨rfl, SameDirs.rfl, content.trans purged.content⟩

/-- What an apply that has succeeded says about the directory it has met. -/
theorem apply_needs (config : NormalizedConfig) (d : Disk) :
    Safe calm (fun _ => True) (fun r d' => ∀ handle, r = .ok handle →
        (d.makeDirs dir).1 = .ok () ∧ Flat d ∧
        (∀ s ∈ config.domains, Writable (d.makeDirs dir).2 s ∧
          Vacant config.owner d (tempPlace s)) ∧
        d'.content = entered config.owner config.servers config.domains
          (purge config.owner d.content))
      (apply config).run d := by
  unfold apply
  split
  · exact ⟨trivial, fun _ h => by cases h⟩
  have missing : ¬ d.IsDir dir → Safe calm (fun _ => True) (fun _ d' => d' = d)
      (cleanupOwner config.owner).run d := fun there =>
    (calm_le (cleanupOwner_missing config.owner there)).imp (fun _ _ => trivial)
      fun _ _ _ same => same
  have clean : Safe calm (fun _ => True) (fun r d' => r = .ok () → Flat d ∧
      Purged config.owner d d' ∧ (¬ d.IsDir dir → d' = d)) (cleanupOwner config.owner).run d := by
    refine safe_iff.mpr ⟨fun _ _ => trivial, fun r d' run ok => ?_⟩
    rcases (cleanupOwner_calm config.owner d).ends run with ⟨-, h⟩ | ⟨flat, -, purged⟩
    · exact absurd ok h
    · exact ⟨flat, purged, fun there => (missing there).ends run⟩
  refine Safe.tryBind clean ?_ (by simp)
  rintro _ d₁ - cleaned
  obtain ⟨flat, purged, untouched⟩ := cleaned rfl
  rcases created : d₁.perform id (.createDirAll resolverDir) with ⟨e | _, d₂⟩
  · exact (call_yields (by simp) created).mapErr.thenError (by simp)
  obtain ⟨made, dirs, content⟩ := createDirAll_after purged untouched created
  refine (call_yields (by simp) created).mapErr.thenOk ?_
  refine Safe.tryBind (calm_le ((writeDomains_enters config.servers config.domains d₂).and
    (writeDomains_needs config.servers config.domains d₂))) ?_ (by simp)
  rintro _ d₃ - ⟨enters, needs⟩
  refine (flush_calm d₃).post ?_
  rintro _ _ - ⟨rfl, rfl⟩ handle ok
  refine ⟨made.symm, flat, fun s mem => ?_, ?_⟩
  · obtain ⟨writable, temp⟩ := needs rfl s mem
    refine ⟨writable.mono dirs.symm, purged.vacant_iff.mp fun c found => temp c ?_⟩
    rw [content, ← purged.content, found]
  · rw [enters rfl, content]

/-- An apply that has nothing foreign in its way succeeds. -/
theorem apply_succeeds (few : config.servers.length ≤ maxns)
    (made : (d.makeDirs dir).1 = .ok ())
    (marked : ∀ s ∈ config.domains,
      Marked config.owner (renderResolver config.owner s.domain config.servers))
    (flat : Flat d) (writable : ∀ s ∈ config.domains, Writable (d.makeDirs dir).2 s)
    (final : ∀ s ∈ config.domains, Vacant config.owner d (finalPlace s))
    (temp : ∀ s ∈ config.domains, Vacant config.owner d (tempPlace s)) :
    Safe calm (fun _ => True) (fun r d' =>
      r = .ok ⟨config.owner, config.domains.map DomainSuffix.domain⟩ ∧
        d'.content = entered config.owner config.servers config.domains
          (purge config.owner d.content))
      (apply config).run d := by
  rw [apply, if_neg (not_lt.mpr few)]
  refine Safe.tryBind (cleanupOwner_succeeds config.owner made flat) ?_ (by simp)
  rintro _ d₁ - ⟨-, purged, untouched⟩
  rcases created : d₁.perform id (.createDirAll resolverDir) with ⟨r, d₂⟩
  obtain ⟨rfl, dirs, content⟩ := createDirAll_after purged untouched created
  rw [made] at created
  refine (call_yields (by simp) created).mapErr.thenOk ?_
  have vacant : ∀ {p}, Vacant config.owner d p → Vacant config.owner d₂ p := by
    intro p vacant c found
    refine purged.vacant_iff.mpr vacant c ?_
    rw [purged.content, ← content, found]
  obtain ⟨d₃, written, writes⟩ := writeDomains_succeeds marked
    (fun s mem => (writable s mem).mono dirs) (fun s mem => vacant (final s mem))
    (fun s mem => vacant (temp s mem))
  refine writes.thenOk ((flush_calm d₃).post ?_)
  rintro _ _ - ⟨rfl, rfl⟩
  exact ⟨rfl, by rw [written, content]⟩

theorem apply_recovers (few : config.servers.length ≤ maxns)
    (marked : ∀ s ∈ config.domains,
      Marked config.owner (renderResolver config.owner s.domain config.servers))
    (fits : Fits config d) (final : ∀ s ∈ config.domains, Vacant config.owner d (finalPlace s))
    (temp : ∀ s ∈ config.domains, Vacant config.owner d (tempPlace s)) :
    Recovers config d := by
  intro r d' run
  obtain ⟨rfl, content⟩ :=
    (apply_succeeds few fits.made marked fits.flat fits.writable final temp).ends run
  exact {
    handle := rfl
    files := fun s mem => by
      rw [content]
      exact (last_of_apart fits.apart mem).entered
    distinct := fits.apart.imp fun apart same => apart (.inl same)
    temps := fun s mem free => by
      rw [content]
      refine (entered_concerned ⟨s, mem, .inr rfl⟩).resolve_right ?_
      rintro ⟨t, front, back, split, same, -⟩
      exact free t (by simp [split]) same
    only := fun name c found own => by
      rw [content] at found
      rcases entered_eq_some_iff.mp found with ⟨s, ⟨front, back, split, same, -⟩, -⟩ | ⟨-, old⟩
      · exact ⟨s, by simp [split], same⟩
      · exact absurd own (not_marked_purge old) }

end Recovery

section Crash

variable {parseDnsName : Bytes → Except Bytes Unit} {given : Config} {config : NormalizedConfig}
  {d d₁ : Disk}

/-- A file that breaks off inside the owner's first line. -/
def Cut (owner : Bytes) (d : Disk) (p : Path) : Prop :=
  ∃ part, d.content p = some part ∧ part <+: ownerHeader owner ∧ part ≠ ownerHeader owner

theorem not_marked_of_cut {owner part : Bytes} (valid : ValidOwner owner)
    (initial : part <+: ownerHeader owner) (short : part ≠ ownerHeader owner) :
    ¬ Marked owner part := by
  rintro ⟨-, header⟩
  have noLf : lf ∉ part := fun mem => lf_not_mem_ownerHeader valid (initial.subset mem)
  by_cases empty : part = []
  · simp [hasOwnerHeader, empty] at header
  · simp [hasOwnerHeader, lines_single noLf empty, short] at header

/-- The first line without its line feed is a line already. -/
theorem marked_of_header {owner domain part : Bytes} {servers : List IpAddr}
    (valid : ValidOwner owner) (ascii : Ascii (renderResolver owner domain servers))
    (initial : part <+: renderResolver owner domain servers)
    (header : ownerHeader owner <+: part) : Marked owner part := by
  refine ⟨(ascii.sublist initial.sublist).utf8, ?_⟩
  obtain ⟨rest, rfl⟩ := header
  cases rest with
  | nil =>
      have nonempty : ownerHeader owner ≠ [] :=
        List.append_ne_nil_of_right_ne_nil _ (by decide)
      simp [hasOwnerHeader, lines_single (lf_not_mem_ownerHeader valid) nonempty]
  | cons first rest =>
      rw [render_eq, List.prefix_append_right_inj] at initial
      obtain ⟨rfl, -⟩ := List.cons_prefix_cons.mp initial
      simp [hasOwnerHeader, lines_ownerHeader valid]

/-- The temporary file of a killed run is in the way only if its first line is cut. -/
theorem vacant_temp_iff (accepted : given.normalize parseDnsName = .ok config)
    (remains : Remains config.owner config.servers config.domains d d₁) {s : DomainSuffix}
    (vacant : Vacant config.owner d (tempPlace s)) :
    Vacant config.owner d₁ (tempPlace s) ↔ ¬ Cut config.owner d₁ (tempPlace s) := by
  obtain ⟨valid, canonical, passed⟩ := normalize_eq_ok accepted
  constructor
  · rintro vacant₁ ⟨part, found, initial, short⟩
    exact not_marked_of_cut valid initial short (vacant₁ part found)
  · intro whole part found
    rcases remains.file _ part found with old | own | ⟨t, mem, -, initial⟩
    · exact vacant part old
    · exact own
    have ascii : Ascii (renderResolver config.owner t.domain config.servers) :=
      ascii_render valid (canonical_wellFormed passed (canonical ▸ mem)).2 _
    have header :
        ownerHeader config.owner <+: renderResolver config.owner t.domain config.servers :=
      ⟨_, (render_eq _ _ _).symm⟩
    by_cases short : ownerHeader config.owner <+: part
    · exact marked_of_header valid ascii initial short
    · have first := (List.prefix_or_prefix_of_prefix initial header).resolve_right short
      exact absurd ⟨part, found, first, fun same => short (same ▸ List.prefix_rfl)⟩ whole

/-- After a kill the next apply recovers if and only if the domains can be written at all
and no temporary file breaks off inside its first line. Calls of the killed run may have
failed, too. -/
theorem killed_apply_recovers_iff (accepted : given.normalize parseDnsName = .ok config)
    (few : config.servers.length ≤ maxns)
    (vacant : ∀ s ∈ config.domains,
      Vacant config.owner d (finalPlace s) ∧ Vacant config.owner d (tempPlace s))
    (killed : Visits faulty (apply config).run d d₁) :
    Recovers config d₁ ↔
      Fits config d ∧ ∀ s ∈ config.domains, ¬ Cut config.owner d₁ (tempPlace s) := by
  have marked : ∀ s ∈ config.domains,
      Marked config.owner (renderResolver config.owner s.domain config.servers) :=
    fun _ mem => marked_of_normalized accepted mem
  obtain ⟨e, prepared, remains, stage⟩ := (apply_stopped marked).visits killed
  have vacant : ∀ s ∈ config.domains,
      Vacant config.owner e (finalPlace s) ∧ Vacant config.owner e (tempPlace s) := by
    intro s mem
    obtain ⟨final, temp⟩ := vacant s mem
    exact ⟨fun c found => final c (prepared.content ▸ found),
      fun c found => temp c (prepared.content ▸ found)⟩
  have fits_iff : Fits config d₁ ↔ Fits config d := by
    rcases stage with there | rfl
    · exact (fits_same there remains.dirs).trans prepared.fits
    · exact prepared.fits
  have whole := fun s mem => vacant_temp_iff accepted remains (vacant s mem).2
  rw [← fits_iff]
  constructor
  · intro recovers
    obtain ⟨r, d₂, run⟩ := exists_ends calm_total (apply config).run d₁
    have recovered := recovers r d₂ run
    obtain ⟨made, flat, needs, content⟩ := (apply_needs config d₁).ends run _ recovered.handle
    have apart : config.domains.Pairwise fun s t => ¬ Concerns t (finalPlace s) :=
      apart_of_files ((apart_of_normalized accepted).imp fun h => h.1) fun s mem =>
        content ▸ recovered.files s mem
    exact ⟨⟨made, flat, fun s mem => (needs s mem).1, apart⟩,
      fun s mem => (whole s mem).mp (needs s mem).2⟩
  · rintro ⟨fits, uncut⟩
    have temp := fun s mem => (whole s mem).mpr (uncut s mem)
    refine apply_recovers few marked fits (fun s mem c found => ?_) temp
    rcases remains.file _ c found with old | own | ⟨t, mem', same, -⟩
    · exact (vacant s mem).1 c old
    · exact own
    · exact temp t mem' c (same ▸ found)

theorem flat_of_children (files : ∀ name ∈ d.children dir, ¬ d.IsDir (name :: dir)) : Flat d :=
  fun name isDir => files name ((mem_children d dir name).mpr (by simp [isDir])) isDir

/-- The apply dies with so many of its calls done. -/
def sampleKilled (calls : Nat) : Disk :=
  killedAfter (Disk.perform id) calls (apply (sampleNormalized ["corp"])).run sampleDisk

theorem sampleKilled_accepted :
    (sampleConfig ["corp"]).normalize rfc2181 = .ok (sampleNormalized ["corp"]) := by
  decide

theorem sampleKilled_visits (calls : Nat) :
    Visits calm (apply (sampleNormalized ["corp"])).run sampleDisk (sampleKilled calls) :=
  visits_killedAfter calm_perform calls _ _

set_option maxRecDepth 20000 in
theorem sampleKilled_vacant : ∀ s ∈ (sampleNormalized ["corp"]).domains,
    Vacant (bytes "tests") sampleDisk (finalPlace s) ∧
      Vacant (bytes "tests") sampleDisk (tempPlace s) := by
  intro s mem
  obtain rfl := List.mem_singleton.mp mem
  have final : sampleDisk.content (finalPlace ⟨bytes "corp", false⟩) = none := by decide
  have temp : sampleDisk.content (tempPlace ⟨bytes "corp", false⟩) = none := by decide
  constructor <;> intro content found
  · cases final.symm.trans found
  · cases temp.symm.trans found

set_option maxRecDepth 20000 in
theorem sampleDisk_fits : Fits (sampleNormalized ["corp"]) sampleDisk where
  made := by rw [makeDirs_there (by decide)]
  flat := flat_of_children (by decide)
  writable s mem := by
    rw [makeDirs_there (by decide)]
    obtain rfl := List.mem_singleton.mp mem
    exact ⟨names_resolverPath (by decide) (by decide), names_resolverPath (by decide) (by decide),
      by decide, by decide⟩
  apart := List.pairwise_singleton _ _

set_option maxRecDepth 20000 in
/-- The temporary file has been written and not yet renamed. -/
theorem killed_apply_recovers_sample : Recovers (sampleNormalized ["corp"]) (sampleKilled 9) := by
  refine (killed_apply_recovers_iff sampleKilled_accepted (by decide) sampleKilled_vacant
    (visits_killedAfter faulty_perform 9 _ _)).mpr ⟨sampleDisk_fits, ?_⟩
  rintro s mem ⟨part, found, initial, -⟩
  obtain rfl := List.mem_singleton.mp mem
  have finished : (sampleKilled 9).content (tempPlace ⟨bytes "corp", false⟩) =
      some (renderResolver (bytes "tests") (bytes "corp") [.v4 ⟨10, 0, 0, 53⟩]) := by
    decide
  obtain rfl := Option.some.inj (finished.symm.trans found)
  exact absurd initial.length_le (by decide)

set_option maxRecDepth 20000 in
/-- The temporary file has been created and nothing written. -/
theorem killed_apply_blocks :
    ¬ ∀ (parseDnsName : Bytes → Except Bytes Unit) (given : Config) (config : NormalizedConfig)
      (d d₁ : Disk), given.normalize parseDnsName = .ok config →
      config.servers.length ≤ maxns →
      (∀ s ∈ config.domains,
        Vacant config.owner d (finalPlace s) ∧ Vacant config.owner d (tempPlace s)) →
      Visits calm (apply config).run d d₁ → Recovers config d₁ := by
  intro h
  have recovers := h rfc2181 _ _ _ _ sampleKilled_accepted (by decide) sampleKilled_vacant
    (sampleKilled_visits 8)
  have refused : (exec (Disk.perform id) (apply (sampleNormalized ["corp"])).run
      (sampleKilled 8)).1 =
        .error (.notOwned (tempResolverPath (bytes "corp")) (bytes "tests")) := by
    decide
  have recovered := recovers _ _ (ends_exec calm_perform _ _)
  cases refused.symm.trans recovered.handle

end Crash

end Setdns.Macos.Resolver
