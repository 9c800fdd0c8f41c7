import Mathlib.Logic.Relation
import Setdns.Macos.Resolver

/-!
The split DNS backend changes files of its own owner only. Every change stands
behind a read of the path that it touches, so a file with another first line is
kept at whichever call the backend fails or its process dies.
-/

namespace Setdns.Macos.Resolver

open Text Effects Effects.Program Effects.Directory
open Effects.Directory.Disk
open Effects.Files (IoError ENOENT)

/-- A file that is not the owner's. -/
def Foreign (owner : Bytes) (d : Disk) (p : Path) : Prop :=
  ∃ c, d.content p = some c ∧ ¬ Marked owner c

/-- Files that are not the owner's are still there and have their content. -/
def Kept (owner : Bytes) (d₀ d : Disk) : Prop :=
  ∀ p c, d₀.content p = some c → ¬ Marked owner c → d.content p = some c

section Steps

variable {owner path : Bytes} {d₀ d d' : Disk}

theorem Kept.refl (owner : Bytes) (d : Disk) : Kept owner d d := fun _ _ there _ => there

theorem Kept.frame (kept : Kept owner d₀ d)
    (frame : ∀ p, Foreign owner d₀ p → d'.content p = d.content p) : Kept owner d₀ d' :=
  fun p c there foreign => (frame p ⟨c, there, foreign⟩).trans (kept p c there foreign)

theorem Kept.not_foreign (kept : Kept owner d₀ d) {p : Path}
    (own : ∀ c, d.content p = some c → Marked owner c) : ¬ Foreign owner d₀ p :=
  fun ⟨c, there, foreign⟩ => foreign (own c (kept p c there foreign))

/-- A call is safe where it touches no foreign file. -/
theorem kept_call {α : Type} {Q : α → Disk → Prop} {c : DirCall} {k : DirCall.Ret c → Io α}
    (kept : Kept owner d₀ d) (own : ∀ p, Touches d c p → ¬ Foreign owner d₀ p)
    (next : ∀ r d', faulty.answers d c r d' → Kept owner d₀ d' →
      Safe faulty (Kept owner d₀) Q (k r) d') :
    Safe faulty (Kept owner d₀) Q (.call c k) d := by
  refine ⟨kept, fun d' torn => ?_, fun r d' a => next r d' a ?_⟩
  · exact kept.frame fun p foreign => torn_frame (fun touched => own p touched foreign) torn
  · exact kept.frame fun p foreign => faulty_frame (fun touched => own p touched foreign) a

/-- What a read says about its path holds since the start of the call. -/
theorem read_kept (kept : Kept owner d₀ d) :
    Safe faulty (Kept owner d₀)
      (fun r _ =>
        (∀ c, r = .ok c → hasOwnerHeader c owner = true → ¬ Foreign owner d₀ (components path)) ∧
        (r = .error (.os ENOENT) → ¬ Foreign owner d₀ (components path)))
      (Dir.readToString path) d := by
  refine kept_call kept (fun _ touched => touched.elim) fun r d' a kept' => ⟨kept', ?_, ?_⟩
  · rintro c rfl header
    obtain ⟨-, found, -⟩ := faulty_read a
    obtain ⟨there, utf8⟩ := found c rfl
    refine kept.not_foreign fun c' there' => ?_
    obtain rfl := Option.some.inj (there.symm.trans there')
    exact ⟨utf8, header⟩
  · rintro rfl
    obtain ⟨-, -, missing⟩ := faulty_read a
    refine kept.not_foreign fun c' there' => ?_
    cases (content_free (missing rfl)).symm.trans there'

theorem isNotFound_iff (e : IoError) : e.isNotFound = true ↔ e = .os ENOENT := by
  simp [IoError.isNotFound]

theorem ensureAbsentOrOwned_kept (kept : Kept owner d₀ d) :
    Safe faulty (Kept owner d₀) (fun r _ => r = .ok () → ¬ Foreign owner d₀ (components path))
      (ensureAbsentOrOwned path owner).run d := by
  refine Safe.lift ((read_kept kept).post fun r d' kept' facts => ?_)
  cases r with
  | error source =>
      dsimp only
      split
      · rename_i missing
        exact ⟨kept', fun _ => facts.2 (by rw [(isNotFound_iff source).mp missing])⟩
      · exact ⟨kept', fun h => by cases h⟩
  | ok content =>
      dsimp only
      split
      · exact ⟨kept', fun _ => facts.1 content rfl ‹_›⟩
      · exact ⟨kept', fun h => by cases h⟩

theorem remove_kept (kept : Kept owner d₀ d) (own : ¬ Foreign owner d₀ (components path)) :
    Safe faulty (Kept owner d₀) (fun _ _ => True)
      (mapErr (Dir.removeFile path) (mapIo "remove" path)).run d := by
  refine Safe.mapErr (kept_call kept ?_ fun r d' _ kept' => ⟨kept', trivial⟩)
  rintro p rfl
  exact own

theorem removeOwnedFile_kept (kept : Kept owner d₀ d) :
    Safe faulty (Kept owner d₀) (fun _ _ => True) (removeOwnedFile path owner).run d := by
  refine Safe.lift ((read_kept kept).post fun r d' kept' facts => ?_)
  cases r with
  | error source =>
      dsimp only
      split <;> exact ⟨kept', trivial⟩
  | ok content =>
      dsimp only
      split
      · exact remove_kept kept' (facts.1 content rfl ‹_›)
      · exact ⟨kept', trivial⟩

theorem removeIfOwnerMarked_kept (kept : Kept owner d₀ d) :
    Safe faulty (Kept owner d₀) (fun _ _ => True) (removeIfOwnerMarked path owner).run d := by
  refine Safe.lift ((read_kept kept).post fun r d' kept' facts => ?_)
  cases r with
  | error source =>
      dsimp only
      split
      · exact ⟨kept', trivial⟩
      · split <;> exact ⟨kept', trivial⟩
  | ok content =>
      dsimp only
      split
      · exact remove_kept kept' (facts.1 content rfl ‹_›)
      · exact ⟨kept', trivial⟩

theorem cleanupEntries_kept (entries : List (Except IoError Bytes)) (kept : Kept owner d₀ d) :
    Safe faulty (Kept owner d₀) (fun _ _ => True) (cleanupEntries owner entries).run d := by
  induction entries generalizing d with
  | nil => exact ⟨kept, trivial⟩
  | cons entry entries ih =>
      cases entry with
      | error source => exact ⟨kept, trivial⟩
      | ok name =>
          unfold cleanupEntries
          dsimp only
          split <;>
            exact Safe.tryBind (removeIfOwnerMarked_kept kept) (fun _ _ kept' _ => ih kept')
              (fun _ _ _ _ => trivial)

theorem cleanupOwner_kept (kept : Kept owner d₀ d) :
    Safe faulty (Kept owner d₀) (fun _ _ => True) (cleanupOwner owner).run d := by
  refine Safe.lift (kept_call kept (fun _ touched => touched.elim) fun r d' _ kept' =>
    ⟨kept', ?_⟩)
  cases r with
  | error source =>
      dsimp only
      split <;> exact ⟨kept', trivial⟩
  | ok entries => exact cleanupEntries_kept entries kept'

theorem flushDnsCache_kept (kept : Kept owner d₀ d) :
    Safe faulty (Kept owner d₀) (fun _ _ => True) flushDnsCache d :=
  kept_call kept (fun _ touched => touched.elim) fun _ _ _ kept' =>
    kept_call kept' (fun _ touched => touched.elim) fun _ _ _ kept'' => ⟨kept'', trivial⟩

theorem writeResolver_kept (domain content : Bytes) (kept : Kept owner d₀ d) :
    Safe faulty (Kept owner d₀) (fun _ _ => True) (writeResolver owner domain content).run d := by
  refine Safe.tryBind (ensureAbsentOrOwned_kept kept) ?_ (fun _ _ _ _ => trivial)
  rintro _ d₁ kept₁ ownFinal
  refine Safe.tryBind (ensureAbsentOrOwned_kept kept₁) ?_ (fun _ _ _ _ => trivial)
  rintro _ d₂ kept₂ ownTemp
  let temp := components (resolverPath (domain ++ tempSuffix))
  -- the handle stands at the path of the temporary file while it is written
  refine Safe.tryBind (M := fun r d' => ∀ i, r = .ok i → d'.lookup temp = some (.file i))
    (Safe.mapErr (kept_call kept₂ ?_ fun r d' a kept' => ⟨kept', ?_⟩)) ?_ (fun _ _ _ _ => trivial)
  · rintro p rfl
    exact ownTemp rfl
  · cases r with
    | error e => exact fun i h => by cases h
    | ok i =>
        intro j h
        cases h
        exact faulty_create a
  rintro i d₃ kept₃ created
  have handle := created i rfl
  refine Safe.tryBind (M := fun _ _ => True)
    (Safe.mapErr (kept_call kept₃ ?_ fun r d' _ kept' => ⟨kept', trivial⟩)) ?_
    (fun _ _ _ _ => trivial)
  · intro p there
    rw [d₃.single p temp i there handle]
    exact ownTemp rfl
  rintro _ d₄ kept₄ -
  refine Safe.tryBind (M := fun _ _ => True)
    (Safe.mapErr (kept_call kept₄ (fun _ touched => touched.elim)
      fun r d' _ kept' => ⟨kept', trivial⟩)) ?_ (fun _ _ _ _ => trivial)
  rintro _ d₅ kept₅ -
  refine Safe.mapErr (kept_call kept₅ ?_ fun r d' _ kept' => ⟨kept', trivial⟩)
  rintro p (rfl | rfl)
  · exact ownTemp rfl
  · exact ownFinal rfl

theorem writeDomains_kept (servers : List IpAddr) (suffixes : List DomainSuffix)
    (kept : Kept owner d₀ d) :
    Safe faulty (Kept owner d₀) (fun _ _ => True) (writeDomains owner servers suffixes).run d := by
  induction suffixes generalizing d with
  | nil => exact ⟨kept, trivial⟩
  | cons suffix suffixes ih =>
      exact Safe.tryBind (writeResolver_kept _ _ kept) (fun _ _ kept' _ => ih kept')
        (fun _ _ _ _ => trivial)

theorem apply_kept (config : NormalizedConfig) (d : Disk) :
    Safe faulty (Kept config.owner d) (fun _ _ => True) (apply config).run d := by
  have start := Kept.refl config.owner d
  unfold apply
  split
  · exact ⟨start, trivial⟩
  refine Safe.tryBind (cleanupOwner_kept start) ?_ (fun _ _ _ _ => trivial)
  rintro _ d₁ kept₁ -
  refine Safe.tryBind (M := fun _ _ => True)
    (Safe.mapErr (kept_call kept₁ (fun _ touched => touched.elim)
      fun r d' _ kept' => ⟨kept', trivial⟩)) ?_ (fun _ _ _ _ => trivial)
  rintro _ d₂ kept₂ -
  refine Safe.tryBind (writeDomains_kept config.servers config.domains kept₂) ?_
    (fun _ _ _ _ => trivial)
  rintro _ d₃ kept₃ -
  exact Safe.lift ((flushDnsCache_kept kept₃).post fun _ _ kept₄ _ => ⟨kept₄, trivial⟩)

theorem removeDomains_kept (first : Option ResolverError) (domains : List Bytes)
    (kept : Kept owner d₀ d) :
    Safe faulty (Kept owner d₀) (fun _ _ => True) (removeDomains owner first domains) d := by
  induction domains generalizing first d with
  | nil => exact ⟨kept, trivial⟩
  | cons domain domains ih =>
      refine (safe_bind _ _).mpr ((removeOwnedFile_kept kept).post ?_)
      exact fun _ _ kept' _ => ih _ kept'

theorem close_kept (handle : SetDns) (d : Disk) :
    Safe faulty (Kept handle.owner d) (fun _ _ => True) (close handle).run d := by
  refine Safe.lift ((removeDomains_kept none handle.domains (Kept.refl _ d)).post ?_)
  rintro first d₁ kept₁ -
  refine Safe.lift ((cleanupOwner_kept kept₁).post ?_)
  rintro cleaned d₂ kept₂ -
  refine Safe.lift ((flushDnsCache_kept kept₂).post ?_)
  rintro _ d₃ kept₃ -
  cases keepFirst first cleaned <;> exact ⟨kept₃, trivial⟩

end Steps

section Runs

/-- One call of the backend for an owner. It returns, fails, or dies on the way. -/
inductive Acts (owners : Set Bytes) : Disk → Disk → Prop
  | apply {d d' : Disk} (config : NormalizedConfig) (mem : config.owner ∈ owners)
      (stop : Visits faulty (apply config).run d d') : Acts owners d d'
  | close {d d' : Disk} (handle : SetDns) (mem : handle.owner ∈ owners)
      (stop : Visits faulty (close handle).run d d') : Acts owners d d'

variable {owners : Set Bytes} {d d' : Disk} {p : Path} {c : Bytes}

theorem acts_kept (act : Acts owners d d') : ∃ owner ∈ owners, Kept owner d d' := by
  cases act with
  | apply config mem stop => exact ⟨config.owner, mem, (apply_kept config d).visits stop⟩
  | close handle mem stop => exact ⟨handle.owner, mem, (close_kept handle d).visits stop⟩

theorem run_kept (run : Relation.ReflTransGen (Acts owners) d d')
    (foreign : ∀ owner ∈ owners, ¬ Marked owner c) (there : d.content p = some c) :
    d'.content p = some c := by
  induction run with
  | refl => exact there
  | tail _ act ih =>
      obtain ⟨owner, mem, kept⟩ := acts_kept act
      exact kept p c ih (foreign owner mem)

/-- No call changes a file that is not its owner's, so over a run an owner's
files and those of nobody are changed by their own owner only. -/
theorem resolver_isolation :
    (∀ (config : NormalizedConfig) (d d' : Disk),
      Visits faulty (apply config).run d d' → Kept config.owner d d') ∧
    (∀ (handle : SetDns) (d d' : Disk),
      Visits faulty (close handle).run d d' → Kept handle.owner d d') ∧
    ∀ (owners : Set Bytes) (d d' : Disk) (p : Path) (c : Bytes),
      Relation.ReflTransGen (Acts owners) d d' → d.content p = some c →
      (∀ owner ∈ owners, ¬ Marked owner c) ∨ (∃ owner, owner ∉ owners ∧ Marked owner c) →
      d'.content p = some c := by
  refine ⟨fun config d d' stop => (apply_kept config d).visits stop,
    fun handle d d' stop => (close_kept handle d).visits stop, ?_⟩
  rintro owners d d' p c run there (foreign | ⟨other, absent, marked⟩)
  · exact run_kept run foreign there
  · refine run_kept run (fun owner mem own => ?_) there
    exact absent (marked_unique marked own ▸ mem)

set_option maxRecDepth 20000 in
/-- The apply is refused at its second domain, where somebody else has a file. -/
theorem resolver_isolation_sample :
    (exec (Disk.perform id) (apply (sampleNormalized ["corp", "home"])).run sampleDisk).1 =
        .error (.notOwned (resolverPath (bytes "home")) (bytes "tests")) ∧
      (exec (Disk.perform id) (apply (sampleNormalized ["corp", "home"])).run sampleDisk).2.content
        [bytes "home", bytes "resolver", bytes "etc"] = some (bytes "nameserver 192.168.1.1\n") := by
  refine ⟨by decide, ?_⟩
  have stop := (ends_exec faulty_perform (apply (sampleNormalized ["corp", "home"])).run
    sampleDisk).visits
  exact resolver_isolation.1 _ _ _ stop _ _ (by decide) (by decide)

end Runs

end Setdns.Macos.Resolver
