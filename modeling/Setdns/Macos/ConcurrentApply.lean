import Setdns.Effects.Claims
import Setdns.Macos.Confinement

/-!
Several processes apply at the same time, each call being a turn of its own. The
ownership of a path is checked before the file is created and before the rename,
and neither of these looks again. As long as they meet no file, a process that
has applied owns its files whatever the others do.
-/

namespace Setdns.Macos.Resolver

open Text Effects Effects.Program Effects.Directory
open Effects.Directory.Disk
open Effects.Files (IoError)

/-- Nothing has appeared at the path that is created or renamed onto. -/
def Unoccupied (d : Disk) : DirCall → Prop
  | .create path => d.content (components path) = none
  | .rename _ dst => d.content (components dst) = none
  | _ => True

variable {ι : Type}

/-- A process may claim an empty file and the files marked for its owner. -/
def Own (owner : ι → Bytes) (i : ι) (content : Bytes) : Prop :=
  content = [] ∨ Marked (owner i) content

section Local

variable {owner : ι → Bytes} {i : ι} {g : Claims} {Q : Except ResolverError Unit → Claims → Prop}

/-- Programs of a process among others that apply. -/
abbrev Keeps (owner : ι → Bytes) (i : ι) {α : Type} (Q : α → Claims → Prop)
    (p : Program DirCall DirCall.Ret α) (g : Claims) : Prop :=
  (claims (Own owner)).Follows faulty (fun _ => Unoccupied) i Q p g

/-- A call that only looks. -/
theorem keeps_look {c : DirCall} {α : Type} {k : DirCall.Ret c → Program DirCall DirCall.Ret α}
    {Q : α → Claims → Prop} (looks : ∀ d p, ¬ Touches d c p)
    (rest : ∀ r, Keeps owner i Q (k r) g) : Keeps owner i Q (.call c k) g :=
  fun d holds _ r _ a => ⟨g, look_updates holds (looks d) a, rest r⟩

theorem own_of_marked (distinct : ∀ j, j ≠ i → owner j ≠ owner i) {content : Bytes}
    (marked : Marked (owner i) content) (j : ι) (ne : j ≠ i) : ¬ Own owner j content := by
  rintro (rfl | theirs)
  · cases marked.2
  · exact distinct j ne (marked_unique theirs marked)

theorem removeIfOwnerMarked_keeps (distinct : ∀ j, j ≠ i → owner j ≠ owner i) (path : Bytes)
    (g : Claims) : Keeps owner i (fun _ _ => True) (removeIfOwnerMarked path (owner i)).run g := by
  refine Parts.Follows.lift ?_
  intro d holds _ r d' a
  obtain ⟨rfl, found, -⟩ := faulty_read a
  have same := look_updates (c := .readToString path) holds (fun _ => id) a
  cases r with
  | error source =>
      refine ⟨g, same, ?_⟩
      refine (Parts.follows_ret _).mpr ?_
      dsimp only
      split
      · trivial
      · split <;> trivial
  | ok content =>
      obtain ⟨there, utf8⟩ := found content rfl
      by_cases header : hasOwnerHeader content (owner i) = true
      · have marked : Marked (owner i) content := ⟨utf8, header⟩
        obtain ⟨n, claimed⟩ := claim_updates holds there (.inr marked)
          (own_of_marked distinct marked)
        refine ⟨_, claimed, ?_⟩
        simp only [Parts.follows_ret, header, ite_true]
        refine Parts.Follows.mapErr ?_
        intro d holds _ r d' a
        have touched : ∀ p, Touches d (.removeFile path) p → p = components path := fun _ => id
        have mine : Private (Own owner) i (Function.update g (components path) (some (n, content)))
            d (.removeFile path) :=
          ⟨holds, fun p at_path => .inr (by simp [touched p at_path])⟩
        exact ⟨_, mine.drop a (components path) fun p at_path => .inr (touched p at_path), trivial⟩
      · refine ⟨g, same, ?_⟩
        simp only [Parts.follows_ret, header]
        trivial

theorem cleanupEntries_keeps (distinct : ∀ j, j ≠ i → owner j ≠ owner i)
    (entries : List (Except IoError Bytes)) (g : Claims) :
    Keeps owner i (fun _ _ => True) (cleanupEntries (owner i) entries).run g := by
  induction entries generalizing g with
  | nil => trivial
  | cons entry entries ih =>
      cases entry with
      | error source => trivial
      | ok name =>
          rw [cleanupEntries]
          dsimp only
          rw [ite_self]
          exact Parts.Follows.tryBind (removeIfOwnerMarked_keeps distinct _ g) (fun _ g _ => ih g)
            fun _ _ _ => trivial

theorem cleanupOwner_keeps (distinct : ∀ j, j ≠ i → owner j ≠ owner i) (g : Claims) :
    Keeps owner i (fun _ _ => True) (cleanupOwner (owner i)).run g := by
  refine Parts.Follows.lift (keeps_look (fun _ _ => id) fun r => ?_)
  cases r with
  | error source =>
      refine (Parts.follows_ret _).mpr ?_
      dsimp only
      split <;> trivial
  | ok entries => exact cleanupEntries_keeps distinct entries g

theorem ensureAbsentOrOwned_keeps (path : Bytes) (g : Claims) :
    Keeps owner i (fun _ g' => g' = g) (ensureAbsentOrOwned path (owner i)).run g := by
  refine Parts.Follows.lift (keeps_look (fun _ _ => id) fun r => ?_)
  cases r with
  | error source =>
      refine (Parts.follows_ret _).mpr ?_
      dsimp only
      split <;> rfl
  | ok content =>
      refine (Parts.follows_ret _).mpr ?_
      dsimp only
      split <;> rfl

/-- Nobody has claimed a file that is created. -/
theorem create_keeps (path : Bytes) (g : Claims) :
    Keeps owner i (fun r g' => ∀ n, r = .ok n → g (components path) = none ∧
      g' = Function.update g (components path) (some (n, []))) (Dir.create path) g := by
  intro d holds absent r d' a
  cases r with
  | error e =>
      have apart : ∀ q, Touches d (.create path) q → d.content q = none := by
        rintro q rfl
        exact absent
      have mine : Private (Own owner) i g d (.create path) :=
        ⟨holds, fun q touched => .inl (apart q touched)⟩
      exact ⟨_, mine.drop a [] fun q touched => .inl (apart q touched), by rintro _ ⟨⟩⟩
  | ok n =>
      refine ⟨_, create_updates holds absent (.inl rfl) a, ?_⟩
      rintro _ ⟨⟩
      exact ⟨holds.free absent, rfl⟩

theorem writeAll_keeps {p : Path} {n : Nat} {content : Bytes} (mine : Marked (owner i) content)
    (claimed : g p = some (n, [])) :
    Keeps owner i (fun r g' => ∀ done, r = .ok done →
      g' = Function.update g p (some (n, content))) (Dir.writeAll n content) g := by
  intro d holds _ r d' a
  cases r with
  | error e =>
      refine ⟨_, (holds.private_writeAll claimed content).drop a p fun q touched => .inr ?_,
        by rintro _ ⟨⟩⟩
      exact d.single q p n touched (holds p n [] claimed).1
  | ok _ => exact ⟨_, write_updates holds claimed (.inr mine) a, fun _ _ => rfl⟩

/-- Nor has anybody claimed the place that a file is moved to. -/
theorem rename_keeps {src dst : Bytes} {n : Nat} {content : Bytes}
    (claimed : g (components src) = some (n, content)) :
    Keeps owner i (fun r g' => ∀ done, r = .ok done → g (components dst) = none ∧
      g' = Function.update (Function.update g (components src) none) (components dst)
        (some (n, content))) (Dir.rename src dst) g := by
  intro d holds absent r d' a
  cases r with
  | error e =>
      refine ⟨_, (holds.private_rename (by simp [claimed]) absent).drop a (components src) ?_,
        by rintro _ ⟨⟩⟩
      rintro q (rfl | rfl)
      · exact .inr rfl
      · exact .inl absent
  | ok _ => exact ⟨_, rename_updates holds claimed absent a, fun _ _ => ⟨holds.free absent, rfl⟩⟩

/-- The file is claimed, and no claim is lost. -/
def Adds (g : Claims) (p : Path) (content : Bytes) (g' : Claims) : Prop :=
  (∃ n, g' p = some (n, content)) ∧ ∀ q, g q ≠ none → g' q = g q

theorem writeResolver_keeps {content : Bytes} (mine : Marked (owner i) content) (domain : Bytes)
    (g : Claims) :
    Keeps owner i (fun r g' => r = .ok () → Adds g (components (resolverPath domain)) content g')
      (writeResolver (owner i) domain content).run g := by
  refine Parts.Follows.tryBind (ensureAbsentOrOwned_keeps _ g) ?_ (by simp)
  rintro _ g rfl
  refine Parts.Follows.tryBind (ensureAbsentOrOwned_keeps _ g) ?_ (by simp)
  rintro _ g rfl
  refine Parts.Follows.tryBind (Parts.Follows.mapErr_ok (create_keeps _ g)) ?_ (by simp)
  intro n _ created
  obtain ⟨free, rfl⟩ := created n rfl
  generalize temp_eq : components (resolverPath (domain ++ tempSuffix)) = temp at free
  refine Parts.Follows.tryBind (Parts.Follows.mapErr_ok
    (writeAll_keeps mine (Function.update_self ..))) ?_ (by simp)
  intro _ _ written
  obtain rfl := (written _ rfl).trans (Function.update_idem ..)
  refine Parts.Follows.tryBind (M := fun _ g' => g' = Function.update g temp (some (n, content)))
    (Parts.Follows.mapErr (keeps_look (fun _ _ => id) fun _ => rfl)) ?_ (by simp)
  rintro _ _ rfl
  have claimed : Function.update g temp (some (n, content))
      (components (resolverPath (domain ++ tempSuffix))) = some (n, content) := by
    rw [temp_eq, Function.update_self]
  refine (Parts.Follows.mapErr_ok (rename_keeps claimed)).post ?_
  intro _ g' renamed ok
  obtain ⟨unclaimed, rfl⟩ := renamed () ok
  refine ⟨⟨n, Function.update_self ..⟩, fun q kept => ?_⟩
  have notTemp : q ≠ temp := by
    rintro rfl
    exact kept free
  have notFinal : q ≠ components (resolverPath domain) := by
    rintro rfl
    rw [Function.update_of_ne notTemp] at unclaimed
    exact kept unclaimed
  rw [Function.update_of_ne notFinal, temp_eq, Function.update_of_ne notTemp,
    Function.update_of_ne notTemp]

/-- The files of all domains are claimed, and no claim is lost. -/
def Enters (owner : Bytes) (servers : List IpAddr) (suffixes : List DomainSuffix)
    (g g' : Claims) : Prop :=
  (∀ s ∈ suffixes, ∃ n, g' (components (resolverPath s.domain)) =
    some (n, renderResolver owner s.domain servers)) ∧ ∀ q, g q ≠ none → g' q = g q

theorem writeDomains_keeps {servers : List IpAddr} (suffixes : List DomainSuffix)
    (mine : ∀ s ∈ suffixes, Marked (owner i) (renderResolver (owner i) s.domain servers))
    (g : Claims) :
    Keeps owner i (fun r g' => r = .ok () → Enters (owner i) servers suffixes g g')
      (writeDomains (owner i) servers suffixes).run g := by
  induction suffixes generalizing g with
  | nil => exact fun _ => ⟨by simp, fun _ _ => rfl⟩
  | cons s suffixes ih =>
      obtain ⟨here, rest⟩ := List.forall_mem_cons.mp mine
      refine Parts.Follows.tryBind (writeResolver_keeps here s.domain g) ?_ (by simp)
      rintro _ g₁ added
      obtain ⟨⟨n, claimed⟩, kept⟩ := added rfl
      refine (ih rest g₁).post fun r g₂ entered ok => ?_
      obtain ⟨entries, kept'⟩ := entered ok
      refine ⟨List.forall_mem_cons.mpr ⟨⟨n, ?_⟩, entries⟩, fun q mine => ?_⟩
      · rw [kept' _ (by simp [claimed]), claimed]
      · have same := kept q mine
        rw [kept' q (same ▸ mine), same]

theorem apply_keeps (distinct : ∀ j, j ≠ i → owner j ≠ owner i) {config : NormalizedConfig}
    (named : config.owner = owner i)
    (mine : ∀ s ∈ config.domains,
      Marked (owner i) (renderResolver (owner i) s.domain config.servers)) (g : Claims) :
    Keeps owner i (fun r g' => ∀ handle, r = .ok handle →
      ∀ s ∈ config.domains, ∃ n, g' (components (resolverPath s.domain)) =
        some (n, renderResolver (owner i) s.domain config.servers)) (apply config).run g := by
  unfold apply
  split
  · rintro _ ⟨⟩
  rw [named]
  refine Parts.Follows.tryBind (cleanupOwner_keeps distinct g) ?_ (by simp)
  rintro _ g₁ -
  refine Parts.Follows.tryBind (M := fun _ _ => True)
    (Parts.Follows.mapErr (keeps_look (fun _ _ => id) fun _ => trivial)) ?_ (by simp)
  rintro _ g₂ -
  refine Parts.Follows.tryBind (writeDomains_keeps config.domains mine g₂) ?_ (by simp)
  rintro _ g₃ entered
  refine Parts.Follows.lift (keeps_look (fun _ _ => id) fun _ =>
    keeps_look (fun _ _ => id) fun _ => ?_)
  rintro handle -
  exact (entered rfl).1

end Local

section Race

def applying (config : ι → NormalizedConfig) (d : Disk) :
    System DirCall DirCall.Ret Disk (Except ResolverError SetDns) ι where
  state := d
  programs i := (apply (config i)).run

/-- The files of its domains are those of the process. -/
def OwnFiles (config : NormalizedConfig) (d : Disk) : Prop :=
  ∀ s ∈ config.domains, d.content (components (resolverPath s.domain)) =
    some (renderResolver config.owner s.domain config.servers)

variable {parseDnsName : Bytes → Except Bytes Unit} {config : ι → Config}
  {normalized : ι → NormalizedConfig} {d : Disk}
  {s : System DirCall DirCall.Ret Disk (Except ResolverError SetDns) ι}

theorem applying_shared (accepted : ∀ i, (config i).normalize parseDnsName = .ok (normalized i))
    (distinct : ∀ i j, i ≠ j → (normalized i).owner ≠ (normalized j).owner) (d : Disk) :
    System.Shared faulty (fun _ => Unoccupied)
      (claims (Own fun i => (normalized i).owner)) (fun i r g => ∀ handle, r = .ok handle →
        ∀ s ∈ (normalized i).domains, ∃ n, g (components (resolverPath s.domain)) =
          some (n, renderResolver (normalized i).owner s.domain (normalized i).servers))
      (applying normalized d) := by
  refine ⟨fun _ _ => none, by rintro i p n content ⟨⟩, fun _ _ _ _ => .inl rfl, fun i => ?_⟩
  exact apply_keeps (fun j ne => distinct j i ne) rfl
    (fun s mem => marked_of_normalized (accepted i) mem) _

theorem rendered_for_one {i j : ι} (accepted : ∀ i, (config i).normalize parseDnsName =
      .ok (normalized i))
    (distinct : (normalized i).owner ≠ (normalized j).owner)
    (own : OwnFiles (normalized i) d) (own' : OwnFiles (normalized j) d) {s : DomainSuffix}
    (mem : s ∈ (normalized i).domains) {s' : DomainSuffix} (mem' : s' ∈ (normalized j).domains) :
    s.domain ≠ s'.domain := by
  intro same
  have other := own' s' mem'
  have marked := marked_of_normalized (accepted j) mem'
  rw [← same] at other marked
  rw [Option.some.inj (other.symm.trans (own s mem))] at marked
  exact distinct (marked_unique (marked_of_normalized (accepted i) mem) marked)

/-- While no call that creates or renames meets a file, a process that has applied keeps its
files, so two processes with a common domain do not both apply. -/
theorem concurrent_applies_keep_files [DecidableEq ι]
    (accepted : ∀ i, (config i).normalize parseDnsName = .ok (normalized i))
    (distinct : ∀ i j, i ≠ j → (normalized i).owner ≠ (normalized j).owner)
    (run : Relation.ReflTransGen (System.Step faulty fun _ => Unoccupied) (applying normalized d) s)
    {i : ι} {handle : SetDns} (done : s.programs i = .ret (.ok handle)) :
    OwnFiles (normalized i) s.state ∧ ∀ j handle', j ≠ i →
      s.programs j = .ret (.ok handle') → ∀ t ∈ (normalized i).domains,
        ∀ t' ∈ (normalized j).domains, t.domain ≠ t'.domain := by
  have shared := System.run_shared run (applying_shared accepted distinct d)
  have files : ∀ i handle, s.programs i = .ret (.ok handle) → OwnFiles (normalized i) s.state := by
    intro i handle done t mem
    obtain ⟨g, holds, claimed⟩ := shared.returned done
    obtain ⟨n, entry⟩ := claimed handle rfl t mem
    exact Holds.content holds entry
  refine ⟨files i handle done, fun j handle' ne done' t mem t' mem' => ?_⟩
  exact rendered_for_one accepted (distinct i j ne.symm) (files i handle done)
    (files j handle' done') mem mem'

end Race

section Sample

def sampleRivals (i : Bool) : Config :=
  ⟨if i then bytes "second" else bytes "first", [.v4 ⟨10, 0, 0, 53⟩], [bytes "corp"], none⟩

def sampleNormalizedRivals (i : Bool) : NormalizedConfig :=
  ⟨if i then bytes "second" else bytes "first", [.v4 ⟨10, 0, 0, 53⟩], [⟨bytes "corp", false⟩], none⟩

/-- An empty resolver directory. -/
def sampleRoot : Disk := (exec (Disk.perform id) (Dir.createDirAll resolverDir) Disk.empty).2

abbrev SampleSystem : Type :=
  System DirCall DirCall.Ret Disk (Except ResolverError SetDns) Bool

def sampleRun (schedule : List Bool) : SampleSystem :=
  (applying sampleNormalizedRivals sampleRoot).run (Disk.perform id) (fun _ => false) schedule

def unoccupied (d : Disk) : DirCall → Bool
  | .create path => (d.content (components path)).isNone
  | .rename _ dst => (d.content (components dst)).isNone
  | _ => true

theorem unoccupied_sound (d : Disk) (c : DirCall) (free : unoccupied d c = true) :
    Unoccupied d c := by
  cases c <;> first | trivial | exact Option.isNone_iff_eq_none.mp free

theorem sampleRivals_normalized (i : Bool) :
    (sampleRivals i).normalize rfc2181 = .ok (sampleNormalizedRivals i) := by
  cases i <;> decide

/-- One process applies, and then the other one is refused. -/
def sampleTurns : List Bool := List.replicate 10 false ++ List.replicate 3 true

/-- Both look before one of them creates its file. -/
def sampleCrossed : List Bool :=
  List.replicate 4 false ++ List.replicate 4 true ++ List.replicate 6 false ++
    List.replicate 6 true

set_option maxRecDepth 40000 in
theorem concurrent_applies_keep_files_sample :
    OwnFiles (sampleNormalizedRivals false) (sampleRun sampleTurns).state := by
  have ended : System.result ((sampleRun sampleTurns).programs false) =
      some (.ok ⟨bytes "first", [bytes "corp"]⟩) := by decide
  have run : Relation.ReflTransGen (System.Step faulty fun _ => Unoccupied)
      (applying sampleNormalizedRivals sampleRoot) (sampleRun sampleTurns) :=
    System.run_steps faulty_perform (fun _ => unoccupied_sound) sampleTurns _ (by decide)
  exact (concurrent_applies_keep_files sampleRivals_normalized (by decide) run
    (System.result_eq_some.mp ended)).1

set_option maxRecDepth 40000 in
/-- Both succeed, and the file is the one of the second. -/
theorem concurrent_applies_lose_files :
    ¬ ∀ (parseDnsName : Bytes → Except Bytes Unit) (config : Bool → Config)
      (normalized : Bool → NormalizedConfig) (d : Disk) (s : SampleSystem),
      (∀ i, (config i).normalize parseDnsName = .ok (normalized i)) →
      (normalized false).owner ≠ (normalized true).owner →
      (∃ t ∈ (normalized false).domains, ∃ t' ∈ (normalized true).domains,
        t.domain = t'.domain) →
      (∀ i, ∀ t ∈ (normalized i).domains,
        d.content (components (resolverPath t.domain)) = none ∧
        d.content (components (resolverPath (t.domain ++ tempSuffix))) = none) →
      Relation.ReflTransGen (System.Step calm fun _ _ _ => True) (applying normalized d) s →
      s.Ended →
      ∀ i handle, s.programs i = .ret (.ok handle) → OwnFiles (normalized i) s.state := by
  intro keeps
  have ended : System.result ((sampleRun sampleCrossed).programs false) =
      some (.ok ⟨bytes "first", [bytes "corp"]⟩) := by decide
  have run : Relation.ReflTransGen (System.Step calm fun _ _ _ => True)
      (applying sampleNormalizedRivals sampleRoot) (sampleRun sampleCrossed) :=
    System.run_steps calm_perform (fun _ _ _ _ => trivial) sampleCrossed _
      (System.checks_all _ _ _)
  have files := keeps rfc2181 sampleRivals sampleNormalizedRivals sampleRoot _
    sampleRivals_normalized (by decide) (by decide) (by decide) run
    (System.ended_iff.mpr (by decide)) false _ (System.result_eq_some.mp ended)
  exact absurd (files ⟨bytes "corp", false⟩ (List.mem_singleton_self _)) (by decide)

end Sample

end Setdns.Macos.Resolver
