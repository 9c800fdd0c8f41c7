import Setdns.Macos.ExactEffect
import Setdns.Macos.Isolation

/-!
What writing the files of a list of domains does, wherever their paths lead. A
domain may spell a path in more than one way, so the files of two domains can be
the same one. What stands at a path in the end is the work of the last domain
that has its file or its temporary file there.
-/

namespace Setdns.Macos.Resolver

open Text Effects Effects.Program Effects.Directory
open Effects.Directory.Disk
open Effects.Files (IoError ENOENT)

abbrev tempResolverPath (domain : Bytes) : Bytes := resolverPath (domain ++ tempSuffix)

/-- Where the file of a domain stands. -/
def finalPlace (s : DomainSuffix) : Path := components (resolverPath s.domain)

def tempPlace (s : DomainSuffix) : Path := components (tempResolverPath s.domain)

/-- No file at all, or one of the owner. -/
def Vacant (owner : Bytes) (d : Disk) (p : Path) : Prop :=
  ∀ content, d.content p = some content → Marked owner content

/-- The file of one domain is entered, and its temporary file is gone. -/
def enter (owner : Bytes) (servers : List IpAddr) (t : Table) (s : DomainSuffix) : Table :=
  Function.update (Function.update t (tempPlace s) none) (finalPlace s)
    (some (renderResolver owner s.domain servers))

def entered (owner : Bytes) (servers : List IpAddr) (suffixes : List DomainSuffix) (t : Table) :
    Table :=
  suffixes.foldl (enter owner servers) t

/-- The domain has its file or its temporary file there. -/
def Concerns (s : DomainSuffix) (p : Path) : Prop := p = finalPlace s ∨ p = tempPlace s

/-- The last domain of the list that concerns the path has its file there. -/
def Last (suffixes : List DomainSuffix) (s : DomainSuffix) (p : Path) : Prop :=
  ∃ front back, suffixes = front ++ s :: back ∧ p = finalPlace s ∧ ∀ t ∈ back, ¬ Concerns t p

section Tables

variable {owner : Bytes} {servers : List IpAddr} {t : Table} {suffixes : List DomainSuffix}
  {s : DomainSuffix} {p : Path}

theorem enter_other (h : ¬ Concerns s p) : enter owner servers t s p = t p := by
  rw [enter, Function.update_of_ne fun same => h (.inl same),
    Function.update_of_ne fun same => h (.inr same)]

theorem enter_final : enter owner servers t s (finalPlace s) =
    some (renderResolver owner s.domain servers) :=
  Function.update_self ..

theorem entered_other (h : ∀ s ∈ suffixes, ¬ Concerns s p) :
    entered owner servers suffixes t p = t p := by
  induction suffixes generalizing t with
  | nil => rfl
  | cons s suffixes ih =>
      obtain ⟨here, rest⟩ := List.forall_mem_cons.mp h
      exact (ih rest).trans (enter_other here)

theorem entered_append (front back : List DomainSuffix) :
    entered owner servers (front ++ back) t =
      entered owner servers back (entered owner servers front t) :=
  List.foldl_append

theorem Last.entered (last : Last suffixes s p) :
    entered owner servers suffixes t p = some (renderResolver owner s.domain servers) := by
  obtain ⟨front, back, rfl, rfl, others⟩ := last
  rw [entered_append]
  exact (entered_other others).trans enter_final

/-- A concerned path is free in the end or holds the file of the last domain there. -/
theorem entered_concerned (concerned : ∃ s ∈ suffixes, Concerns s p) :
    entered owner servers suffixes t p = none ∨ ∃ s, Last suffixes s p := by
  induction suffixes using List.reverseRecOn with
  | nil => simp at concerned
  | append_singleton suffixes s ih =>
      rw [entered_append]
      by_cases final : p = finalPlace s
      · exact .inr ⟨s, suffixes, [], rfl, final, by simp⟩
      by_cases temp : p = tempPlace s
      · refine .inl ?_
        show enter owner servers _ s p = none
        rw [enter, Function.update_of_ne final, temp, Function.update_self]
      have other : ¬ Concerns s p := not_or.mpr ⟨final, temp⟩
      obtain ⟨s', mem, concerns⟩ := concerned
      have earlier : s' ∈ suffixes := by
        rcases List.mem_append.mp mem with earlier | last
        · exact earlier
        · obtain rfl := List.mem_singleton.mp last
          exact absurd concerns other
      have same : entered owner servers [s] (entered owner servers suffixes t) p =
        entered owner servers suffixes t p := enter_other other
      rw [same]
      refine (ih ⟨s', earlier, concerns⟩).imp_right fun ⟨s'', front, back, split, there, others⟩ =>
        ⟨s'', front, back ++ [s], by simp [split], there, fun t mem => ?_⟩
      rcases List.mem_append.mp mem with before | last
      · exact others t before
      · exact List.mem_singleton.mp last ▸ other

/-- What stands at a path in the end. -/
theorem entered_eq_some_iff {content : Bytes} :
    entered owner servers suffixes t p = some content ↔
      (∃ s, Last suffixes s p ∧ content = renderResolver owner s.domain servers) ∨
      (∀ s ∈ suffixes, ¬ Concerns s p) ∧ t p = some content := by
  constructor
  · intro there
    by_cases concerned : ∃ s ∈ suffixes, Concerns s p
    · have free : entered owner servers suffixes t p = none ∨
          ∃ s, Last suffixes s p := entered_concerned concerned
      rcases free with gone | ⟨s, last⟩
      · cases gone.symm.trans there
      · exact .inl ⟨s, last, Option.some.inj (there.symm.trans last.entered)⟩
    · push Not at concerned
      exact .inr ⟨concerned, (entered_other concerned).symm.trans there⟩
  · rintro (⟨s, last, rfl⟩ | ⟨others, there⟩)
    · exact last.entered
    · exact (entered_other others).trans there

end Tables

/-- Files have at most been removed. -/
def Fewer (d d' : Disk) : Prop :=
  ∀ p content, d'.content p = some content → d.content p = some content

section Clearing

/-! Looking at what is there and removing some of it. -/

/-- A call that reads, or removes a file. -/
def Clearing : DirCall → Prop
  | .readDir _ | .readToString _ | .removeFile _ => True
  | _ => False

variable {allowed : DirCall → Prop} {d d' : Disk}

theorem ensureAbsentOrOwned_issues (path owner : Bytes) (reads : allowed (.readToString path)) :
    Issues allowed (ensureAbsentOrOwned path owner).run := by
  refine Issues.lift (Issues.call reads) fun r => ?_
  cases r with
  | error source =>
      dsimp only
      split <;> trivial
  | ok content =>
      dsimp only
      split <;> trivial

theorem removeIfOwnerMarked_issues (path owner : Bytes) (reads : allowed (.readToString path))
    (removes : allowed (.removeFile path)) :
    Issues allowed (removeIfOwnerMarked path owner).run := by
  refine Issues.lift (Issues.call reads) fun r => ?_
  cases r with
  | error source =>
      dsimp only
      split
      · trivial
      · split <;> trivial
  | ok content =>
      dsimp only
      split
      · exact Issues.mapErr (Issues.call removes)
      · trivial

theorem cleanupEntries_issues (owner : Bytes) (entries : List (Except IoError Bytes))
    (reads : ∀ name, .ok name ∈ entries → allowed (.readToString (resolverPath name)))
    (removes : ∀ path, allowed (.removeFile path)) :
    Issues allowed (cleanupEntries owner entries).run := by
  induction entries with
  | nil => trivial
  | cons entry entries ih =>
      cases entry with
      | error source => trivial
      | ok name =>
          rw [cleanupEntries]
          dsimp only
          rw [ite_self]
          refine Issues.tryBind ?_ fun _ => ih fun name mem => reads name (.tail _ mem)
          exact removeIfOwnerMarked_issues _ owner (reads name (.head _)) (removes _)

theorem ensureAbsentOrOwned_clearing (path owner : Bytes) :
    Issues Clearing (ensureAbsentOrOwned path owner).run :=
  ensureAbsentOrOwned_issues path owner trivial

theorem cleanupOwner_clearing (owner : Bytes) : Issues Clearing (cleanupOwner owner).run := by
  refine Issues.lift (Issues.call trivial) fun r => ?_
  cases r with
  | error source =>
      dsimp only
      split <;> trivial
  | ok entries =>
      exact cleanupEntries_issues owner entries (fun _ _ => trivial) fun _ => trivial

theorem clearing_fewer {c : DirCall} {r : DirCall.Ret c} (clearing : Clearing c)
    (a : faulty.answers d c r d') : Fewer d d' := by
  intro p content there
  cases c with
  | removeFile path => exact faulty_removeFile a there
  | readDir path => exact (faulty_frame (c := .readDir path) id a).symm.trans there
  | readToString path => exact (faulty_frame (c := .readToString path) id a).symm.trans there
  | _ => exact clearing.elim

/-- What removing files keeps, such a program keeps. -/
theorem clearing_safe {I : Disk → Prop} {α : Type} {p : Io α} (clearing : Issues Clearing p)
    (kept : ∀ d d', I d → SameDirs d d' → Fewer d d' → I d') (here : I d) :
    Safe faulty I (fun _ _ => True) p d := by
  have answered : ∀ d c r d', Clearing c → I d → faulty.answers d c r d' → I d' := by
    intro d c r d' calls here a
    refine kept d d' here (faulty_dirs ?_ a) (clearing_fewer calls a)
    rintro path rfl
    exact calls
  refine clearing.safe answered (fun d c d' calls here torn => ?_) here
  obtain ⟨r, a⟩ := torn_answer torn
  exact answered d c r d' calls here a

end Clearing

section Pieces

/-- What `writeResolver` does before it writes: it checks both paths and creates the file. -/
def openTemp (owner domain : Bytes) : Result Nat := do
  ensureAbsentOrOwned (resolverPath domain) owner
  ensureAbsentOrOwned (tempResolverPath domain) owner
  mapErr (Dir.create (tempResolverPath domain)) (mapIo "create" (tempResolverPath domain))

def writeTemp (domain content : Bytes) (file : Nat) : Result Unit :=
  mapErr (Dir.writeAll file content) (mapIo "write" (tempResolverPath domain))

def installTemp (domain : Bytes) (file : Nat) : Result Unit := do
  mapErr (Dir.syncAll file) (mapIo "sync" (tempResolverPath domain))
  mapErr (Dir.rename (tempResolverPath domain) (resolverPath domain))
    (mapIo "rename" (resolverPath domain))

theorem writeResolver_eq (owner domain content : Bytes) :
    writeResolver owner domain content = (do
      let file ← openTemp owner domain
      writeTemp domain content file
      installTemp domain file) := by
  simp only [writeResolver, openTemp, writeTemp, installTemp, bind_assoc]

variable {owner domain content : Bytes} {d : Disk}

theorem ensureAbsentOrOwned_vacant (owner path : Bytes) (d : Disk) :
    Safe faulty (fun _ => True)
      (fun r d' => d' = d ∧ (r = .ok () → Vacant owner d (components path)))
      (ensureAbsentOrOwned path owner).run d := by
  refine Safe.lift ⟨trivial, fun _ _ => trivial, fun r d' a => ⟨trivial, ?_⟩⟩
  obtain ⟨rfl, found, missing⟩ := faulty_read a
  cases r with
  | error source =>
      dsimp only
      split
      · rename_i notFound
        refine ⟨trivial, rfl, fun _ content there => ?_⟩
        have free := missing (by rw [(isNotFound_iff source).mp notFound])
        cases (content_free free).symm.trans there
      · exact ⟨trivial, rfl, by rintro ⟨⟩⟩
  | ok content =>
      dsimp only
      split
      · rename_i header
        refine ⟨trivial, rfl, fun _ content' there => ?_⟩
        obtain ⟨there', utf8⟩ := found content rfl
        obtain rfl := Option.some.inj (there'.symm.trans there)
        exact ⟨utf8, header⟩
      · exact ⟨trivial, rfl, by rintro ⟨⟩⟩

/-- The temporary file has been created empty. -/
structure Opened (owner domain : Bytes) (d : Disk) (file : Nat) (d' : Disk) : Prop where
  vacant : Vacant owner d (components (resolverPath domain))
  vacantTemp : Vacant owner d (components (tempResolverPath domain))
  lookup : d'.lookup (components (tempResolverPath domain)) = some (.file file)
  empty : d'.data file = []
  content : d'.content =
    Function.update d.content (components (tempResolverPath domain)) (some [])

theorem openTemp_spec (owner domain : Bytes) (d : Disk) :
    Safe faulty (fun _ => True)
      (fun r d' => (∀ file, r = .ok file → Opened owner domain d file d') ∧
        ∀ e, r = .error e → d' = d)
      (openTemp owner domain).run d := by
  refine Safe.tryBind (ensureAbsentOrOwned_vacant owner _ d) ?_ ?_
  swap
  · rintro e _ - ⟨rfl, -⟩
    exact ⟨by rintro _ ⟨⟩, fun _ _ => rfl⟩
  rintro _ d₁ - ⟨rfl, vacant⟩
  refine Safe.tryBind (ensureAbsentOrOwned_vacant owner _ d₁) ?_ ?_
  swap
  · rintro e _ - ⟨rfl, -⟩
    exact ⟨by rintro _ ⟨⟩, fun _ _ => rfl⟩
  rintro _ d₂ - ⟨rfl, vacantTemp⟩
  refine Safe.mapErr ⟨trivial, fun _ _ => trivial, fun r d' a => ⟨trivial, ?_⟩⟩
  cases r with
  | error e => exact ⟨by rintro _ ⟨⟩, fun _ _ => faulty_create_error a⟩
  | ok file =>
      refine ⟨?_, by rintro _ ⟨⟩⟩
      rintro _ ⟨⟩
      exact ⟨vacant rfl, vacantTemp rfl, faulty_create a, faulty_create_empty a,
        faulty_create_content a⟩

theorem writeTemp_spec {file : Nat} {p : Path} (there : d.lookup p = some (.file file))
    (empty : d.data file = []) (domain content : Bytes) :
    Safe faulty (fun _ => True)
      (fun r d' => ∃ part, part <+: content ∧ (r = .ok () → part = content) ∧
        d'.content = Function.update d.content p (some part))
      (writeTemp domain content file).run d := by
  refine Safe.mapErr ⟨trivial, fun _ _ => trivial, fun r d' a => ⟨trivial, ?_⟩⟩
  obtain ⟨part, initial, whole, written⟩ := faulty_writeAll_content there empty a
  refine ⟨part, initial, fun ok => whole ?_, written⟩
  cases r with
  | ok _ => rfl
  | error e => cases ok

theorem installTemp_spec (domain : Bytes) (file : Nat) (d : Disk) :
    Safe faulty (fun _ => True)
      (fun r d' => (r = .ok () → d'.content =
          Function.update (Function.update d.content (components (tempResolverPath domain)) none)
            (components (resolverPath domain))
            (d.content (components (tempResolverPath domain)))) ∧
        ∀ e, r = .error e → d'.content = d.content)
      (installTemp domain file).run d := by
  have synced : Safe faulty (fun _ => True) (fun _ d' => d'.content = d.content)
      (mapErr (Dir.syncAll file) (mapIo "sync" (tempResolverPath domain))).run d := by
    refine Safe.mapErr ⟨trivial, fun _ _ => trivial, fun r d' a => ⟨trivial, funext fun p => ?_⟩⟩
    exact faulty_frame (c := .syncAll file) id a
  refine Safe.tryBind synced ?_ fun e d' _ same => ⟨by rintro ⟨⟩, fun _ _ => same⟩
  rintro _ d₁ - same
  refine Safe.mapErr ⟨trivial, fun _ _ => trivial, fun r d' a => ⟨trivial, ?_⟩⟩
  rw [← same]
  cases r with
  | error e => exact ⟨by rintro ⟨⟩, fun _ _ => by rw [faulty_rename_error a]⟩
  | ok _ => exact ⟨fun _ => faulty_rename_content a, by rintro _ ⟨⟩⟩

/-- A completed write enters the file, and found both of its paths vacant. -/
theorem writeResolver_enters (servers : List IpAddr) (s : DomainSuffix) (d : Disk) :
    Safe faulty (fun _ => True)
      (fun r d' => r = .ok () → Vacant owner d (finalPlace s) ∧ Vacant owner d (tempPlace s) ∧
        d'.content = enter owner servers d.content s)
      (writeResolver owner s.domain (renderResolver owner s.domain servers)).run d := by
  rw [writeResolver_eq]
  refine Safe.tryBind (openTemp_spec owner s.domain d) ?_ (by simp)
  rintro file d₁ - ⟨opened, -⟩
  obtain ⟨vacant, vacantTemp, there, empty, content₁⟩ := opened file rfl
  refine Safe.tryBind (writeTemp_spec there empty _ _) ?_ (by simp)
  rintro _ d₂ - ⟨part, -, whole, content₂⟩
  obtain rfl := whole rfl
  refine (installTemp_spec s.domain file d₂).post fun r d₃ _ ⟨installed, _⟩ ok => ?_
  refine ⟨vacant, vacantTemp, ?_⟩
  rw [installed ok, content₂, content₁, Function.update_idem, Function.update_idem,
    Function.update_self]
  rfl

theorem writeDomains_enters (servers : List IpAddr) (suffixes : List DomainSuffix) (d : Disk) :
    Safe faulty (fun _ => True)
      (fun r d' => r = .ok () → d'.content = entered owner servers suffixes d.content)
      (writeDomains owner servers suffixes).run d := by
  induction suffixes generalizing d with
  | nil => exact ⟨trivial, fun _ => rfl⟩
  | cons s suffixes ih =>
      refine Safe.tryBind (writeResolver_enters servers s d) ?_ (by simp)
      rintro _ d₁ - enters
      obtain ⟨-, -, content⟩ := enters rfl
      refine (ih d₁).post fun r d₂ _ rest ok => ?_
      rw [rest ok, content]
      rfl

end Pieces

end Setdns.Macos.Resolver
