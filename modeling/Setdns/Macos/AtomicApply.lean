import Setdns.Macos.Entering

/-!
What an apply that fails leaves behind. It stops at some domain, and the files of
the domains before it stay, as does the temporary file of this one. There is no
rollback, so nothing of the owner is new only if all of that was there before.
-/

namespace Setdns.Macos.Resolver

open Text Effects Effects.Program Effects.Directory
open Effects.Directory.Disk
open Effects.Files (IoError)

/-- Every file of the owner was there before, with this content. -/
def NothingNew (owner : Bytes) (d d' : Disk) : Prop :=
  ∀ p content, d'.content p = some content → Marked owner content → d.content p = some content

/-- How far the write of a domain comes: a check or the creation fails, the write breaks off
after some part, or the finished temporary file cannot be installed. -/
inductive Stage where
  | opening
  | writing (part : Bytes)
  | installing

/-- Where an apply stops: before the first domain, or at a domain after some others. -/
inductive Stop where
  | preparing
  | at (front : List DomainSuffix) (s : DomainSuffix) (stage : Stage)

/-- What the temporary file of the last domain holds. -/
def Stage.left (owner : Bytes) (servers : List IpAddr) (s : DomainSuffix) : Stage → Option Bytes
  | .opening => none
  | .writing part => some part
  | .installing => some (renderResolver owner s.domain servers)

variable (config : NormalizedConfig)

def prepare : Result Unit := do
  cleanupOwner config.owner
  mapErr (Dir.createDirAll resolverDir) (mapIo "create" resolverDir)

/-- The files of these domains have been entered. -/
def Reached (d : Disk) (front : List DomainSuffix) (d₂ : Disk) : Prop :=
  config.servers.length ≤ maxns ∧ ∃ d₁, Ends faulty (prepare config).run d (.ok ()) d₁ ∧
    Ends faulty (writeDomains config.owner config.servers front).run d₁ (.ok ()) d₂

/-- The failing call belongs to this part of the program. -/
inductive StoppedAt (d : Disk) : Stop → Disk → Prop
  | refused (many : maxns < config.servers.length) : StoppedAt d .preparing d
  | preparing {e : ResolverError} {d' : Disk}
      (failed : Ends faulty (prepare config).run d (.error e) d') : StoppedAt d .preparing d'
  | opening {front back : List DomainSuffix} {s : DomainSuffix} {e : ResolverError} {d₂ d' : Disk}
      (split : config.domains = front ++ s :: back) (reached : Reached config d front d₂)
      (failed : Ends faulty (openTemp config.owner s.domain).run d₂ (.error e) d') :
      StoppedAt d (.at front s .opening) d'
  | writing {front back : List DomainSuffix} {s : DomainSuffix} {e : ResolverError} {file : Nat}
      {part : Bytes} {d₂ d₃ d' : Disk}
      (split : config.domains = front ++ s :: back) (reached : Reached config d front d₂)
      (opened : Ends faulty (openTemp config.owner s.domain).run d₂ (.ok file) d₃)
      (failed : Ends faulty (writeTemp s.domain
        (renderResolver config.owner s.domain config.servers) file).run d₃ (.error e) d')
      (left : d'.content (tempPlace s) = some part) :
      StoppedAt d (.at front s (.writing part)) d'
  | installing {front back : List DomainSuffix} {s : DomainSuffix} {e : ResolverError}
      {file : Nat} {d₂ d₃ d₄ d' : Disk}
      (split : config.domains = front ++ s :: back) (reached : Reached config d front d₂)
      (opened : Ends faulty (openTemp config.owner s.domain).run d₂ (.ok file) d₃)
      (written : Ends faulty (writeTemp s.domain
        (renderResolver config.owner s.domain config.servers) file).run d₃ (.ok ()) d₄)
      (failed : Ends faulty (installTemp s.domain file).run d₄ (.error e) d') :
      StoppedAt d (.at front s .installing) d'

/-- What has been written up to the stop was there before. -/
def Harmless (d : Disk) : Stop → Prop
  | .preparing => True
  | .at front s stage =>
      (∀ t p, Last front t p →
        stage.left config.owner config.servers s = none ∨ p ≠ tempPlace s →
        d.content p = some (renderResolver config.owner t.domain config.servers)) ∧
      ∀ part, stage.left config.owner config.servers s = some part → Marked config.owner part →
        d.content (tempPlace s) = some part

section Effect

variable {config} {owner : Bytes} {d d₁ d₂ d' : Disk}

theorem prepare_fewer (config : NormalizedConfig) (d : Disk) :
    Safe faulty (Fewer d) (fun _ _ => True) (prepare config).run d := by
  refine Safe.tryBind (clearing_safe (cleanupOwner_clearing config.owner) ?_ fun _ _ => id) ?_
    fun _ _ _ _ => trivial
  · exact fun d₁ d₂ before _ fewer p content there => before p content (fewer p content there)
  rintro _ d₁ fewer -
  have same : ∀ r d₂, faulty.answers d₁ (.createDirAll resolverDir) r d₂ → Fewer d d₂ :=
    fun r d₂ a p content there => fewer p content
      ((faulty_frame (c := .createDirAll resolverDir) id a).symm.trans there)
  refine Safe.mapErr ⟨fewer, fun d₂ torn => ?_, fun r d₂ a => ⟨same r d₂ a, trivial⟩⟩
  obtain ⟨r, a⟩ := torn_answer torn
  exact same r d₂ a

theorem reached_content {front : List DomainSuffix} (reached : Reached config d front d₂) :
    ∃ d₁, Fewer d d₁ ∧ d₂.content = entered config.owner config.servers front d₁.content := by
  obtain ⟨-, d₁, prepared, written⟩ := reached
  exact ⟨d₁, (prepare_fewer config d).visits prepared.visits,
    (writeDomains_enters config.servers front d₁).ends written rfl⟩

/-- What is left, given what the temporary file holds. -/
def leftover (t : Table) (p : Path) : Option Bytes → Table
  | none => t
  | some part => Function.update t p (some part)

theorem leftover_other {t : Table} {p q : Path} {part : Option Bytes}
    (other : part = none ∨ q ≠ p) : leftover t p part q = t q := by
  rcases other with rfl | other
  · rfl
  · cases part with
    | none => rfl
    | some part => exact Function.update_of_ne other ..

/-- What an apply that has stopped at a domain leaves. -/
theorem stopped_content {front : List DomainSuffix} {s : DomainSuffix} {stage : Stage}
    (stopped : StoppedAt config d (.at front s stage) d') :
    ∃ d₁, Fewer d d₁ ∧ d'.content = leftover
      (entered config.owner config.servers front d₁.content) (tempPlace s)
      (stage.left config.owner config.servers s) := by
  cases stopped with
  | opening split reached failed =>
      obtain ⟨d₁, fewer, content⟩ := reached_content reached
      rw [((openTemp_spec _ _ _).ends failed).2 _ rfl]
      exact ⟨d₁, fewer, content⟩
  | writing split reached opened failed left =>
      obtain ⟨d₁, fewer, content⟩ := reached_content reached
      obtain ⟨-, -, there, empty, content₃⟩ := ((openTemp_spec _ _ _).ends opened).1 _ rfl
      obtain ⟨part, -, -, written⟩ := (writeTemp_spec there empty _ _).ends failed
      have same : d'.content (tempPlace s) = some part := by
        rw [written]
        exact Function.update_self ..
      obtain rfl := Option.some.inj (left.symm.trans same)
      refine ⟨d₁, fewer, ?_⟩
      rw [written, content₃, Function.update_idem, content]
      rfl
  | installing split reached opened written failed =>
      obtain ⟨d₁, fewer, content⟩ := reached_content reached
      obtain ⟨-, -, there, empty, content₃⟩ := ((openTemp_spec _ _ _).ends opened).1 _ rfl
      obtain ⟨part, -, whole, content₄⟩ := (writeTemp_spec there empty _ _).ends written
      obtain rfl := whole rfl
      refine ⟨d₁, fewer, ?_⟩
      rw [((installTemp_spec _ _ _).ends failed).2 _ rfl, content₄, content₃,
        Function.update_idem, content]
      rfl

end Effect

section Stops

variable {config} {owner : Bytes} {servers : List IpAddr} {d d' : Disk} {e : ResolverError}

theorem writeDomains_stops {suffixes : List DomainSuffix}
    (run : Ends faulty (writeDomains owner servers suffixes).run d (.error e) d') :
    ∃ front s back d₂, suffixes = front ++ s :: back ∧
      Ends faulty (writeDomains owner servers front).run d (.ok ()) d₂ ∧
      Ends faulty (writeResolver owner s.domain (renderResolver owner s.domain servers)).run d₂
        (.error e) d' := by
  induction suffixes generalizing d with
  | nil => cases run
  | cons s suffixes ih =>
      rcases Ends.tryBind_cases run with ⟨_, d₁, written, rest⟩ | ⟨e', same, failed⟩
      · obtain ⟨front, s', back, d₂, rfl, entered, stopped⟩ := ih rest
        exact ⟨s :: front, s', back, d₂, rfl, Ends.tryBind written entered, stopped⟩
      · cases same
        exact ⟨[], s, suffixes, d, rfl, .ret _ _, failed⟩

theorem apply_eq (config : NormalizedConfig) (few : ¬ maxns < config.servers.length) :
    apply config = (do
      prepare config
      writeDomains config.owner config.servers config.domains
      flushDnsCache
      pure ⟨config.owner, config.domains.map DomainSuffix.domain⟩ : Result SetDns) := by
  rw [apply, if_neg few]
  simp only [prepare, bind_assoc]

/-- Every failure is a stop. -/
theorem apply_stops (run : Ends faulty (apply config).run d (.error e) d') :
    ∃ stop, StoppedAt config d stop d' := by
  by_cases many : maxns < config.servers.length
  · rw [apply, if_pos many] at run
    cases run
    exact ⟨.preparing, .refused many⟩
  rw [apply_eq config many] at run
  rcases Ends.tryBind_cases run with ⟨_, d₁, prepared, rest⟩ | ⟨_, _, failed⟩
  swap
  · exact ⟨.preparing, .preparing failed⟩
  rcases Ends.tryBind_cases rest with ⟨_, d₂, _, last⟩ | ⟨_, _, failed⟩
  · have returns : Safe faulty (fun _ => True) (fun r _ => ∃ handle, r = Except.ok handle)
        (do flushDnsCache; pure ⟨config.owner, config.domains.map DomainSuffix.domain⟩ :
          Result SetDns).run d₂ :=
      Safe.lift ⟨trivial, fun _ _ => trivial, fun _ _ _ => ⟨trivial, fun _ _ => trivial,
        fun _ _ _ => ⟨trivial, trivial, _, rfl⟩⟩⟩
    obtain ⟨handle, same⟩ := returns.ends last
    cases same
  obtain ⟨front, s, back, d₃, split, entered, stopped⟩ := writeDomains_stops failed
  have reached : Reached config d front d₃ := ⟨not_lt.mp many, d₁, prepared, entered⟩
  rw [writeResolver_eq] at stopped
  rcases Ends.tryBind_cases stopped with ⟨file, d₄, opened, rest⟩ | ⟨_, _, failed⟩
  swap
  · exact ⟨_, .opening split reached failed⟩
  rcases Ends.tryBind_cases rest with ⟨_, d₅, written, failed⟩ | ⟨_, _, failed⟩
  · exact ⟨_, .installing split reached opened written failed⟩
  · obtain ⟨-, -, there, empty, -⟩ := ((openTemp_spec _ _ _).ends opened).1 _ rfl
    obtain ⟨part, -, -, written⟩ := (writeTemp_spec there empty _ _).ends failed
    have left : d'.content (tempPlace s) = some part := by
      rw [written]
      exact Function.update_self ..
    exact ⟨_, .writing split reached opened failed left⟩

end Stops

section Atomic

variable {parseDnsName : Bytes → Except Bytes Unit} {given : Config} {config}
  {d d' : Disk} {e : ResolverError}

theorem StoppedAt.front_subset {front : List DomainSuffix} {s : DomainSuffix} {stage : Stage}
    (stopped : StoppedAt config d (.at front s stage) d') : front ⊆ config.domains := by
  have split : ∃ back, config.domains = front ++ s :: back := by
    cases stopped <;> exact ⟨_, ‹config.domains = _›⟩
  obtain ⟨back, split⟩ := split
  exact split ▸ List.subset_append_left ..

theorem stopped_atomic_iff (marked : ∀ s ∈ config.domains,
      Marked config.owner (renderResolver config.owner s.domain config.servers)) {stop : Stop}
    (stopped : StoppedAt config d stop d') :
    NothingNew config.owner d d' ↔ Harmless config d stop := by
  cases stop with
  | preparing =>
      refine iff_of_true ?_ trivial
      cases stopped with
      | refused many => exact fun _ _ there _ => there
      | preparing failed => exact fun p content there _ =>
          (prepare_fewer config d).visits failed.visits p content there
  | «at» front s stage =>
      obtain ⟨d₁, fewer, left⟩ := stopped_content stopped
      constructor
      · intro nothing
        constructor
        · intro t p last kept
          have there : d'.content p =
              some (renderResolver config.owner t.domain config.servers) := by
            rw [left, leftover_other kept]
            exact last.entered
          obtain ⟨_, _, rfl, -⟩ := id last
          exact nothing p _ there (marked t (stopped.front_subset (by simp)))
        · intro part temp owned
          have there : d'.content (tempPlace s) = some part := by
            rw [left, temp]
            exact Function.update_self ..
          exact nothing _ _ there owned
      · rintro ⟨files, temp⟩ p content there owned
        rw [left] at there
        by_cases kept : stage.left config.owner config.servers s = none ∨ p ≠ tempPlace s
        · rw [leftover_other kept] at there
          rcases entered_eq_some_iff.mp there with ⟨t, last, rfl⟩ | ⟨-, there⟩
          · exact files t p last kept
          · exact fewer p content there
        · push Not at kept
          obtain ⟨part, some⟩ := Option.ne_none_iff_exists'.mp kept.1
          obtain rfl := kept.2
          rw [some, leftover, Function.update_self] at there
          obtain rfl := Option.some.inj there
          exact temp part some owned

/-- A failed apply leaves nothing new if and only if nothing new was written up to its stop. -/
theorem failed_apply_nothing_new_iff (accepted : given.normalize parseDnsName = .ok config)
    (run : Ends faulty (apply config).run d (.error e) d') :
    (∃ stop, StoppedAt config d stop d') ∧
      ∀ stop, StoppedAt config d stop d' →
        (NothingNew config.owner d d' ↔ Harmless config d stop) :=
  ⟨apply_stops run, fun _ stopped =>
    stopped_atomic_iff (fun _ mem => marked_of_normalized accepted mem) stopped⟩

/-- The apply has written its first domain when it is refused at its second. -/
def sampleStopped : Disk :=
  (exec (Disk.perform id) (apply (sampleNormalized ["corp", "home"])).run sampleDisk).2

set_option maxRecDepth 20000 in
theorem sampleStopped_ends :
    Ends faulty (apply (sampleNormalized ["corp", "home"])).run sampleDisk
      (.error (.notOwned (resolverPath (bytes "home")) (bytes "tests"))) sampleStopped := by
  have refused : (exec (Disk.perform id) (apply (sampleNormalized ["corp", "home"])).run
      sampleDisk).1 = .error (.notOwned (resolverPath (bytes "home")) (bytes "tests")) := by
    decide
  rw [← refused]
  exact ends_exec faulty_perform _ _

set_option maxRecDepth 20000 in
theorem sampleStopped_new : ¬ NothingNew (bytes "tests") sampleDisk sampleStopped := by
  intro nothing
  have before := nothing [bytes "corp", bytes "resolver", bytes "etc"]
    (renderResolver (bytes "tests") (bytes "corp") [.v4 ⟨10, 0, 0, 53⟩]) (by decide) (by decide)
  exact absurd before (by decide)

theorem failed_apply_nothing_new_sample :
    ∃ stop, StoppedAt (sampleNormalized ["corp", "home"]) sampleDisk stop sampleStopped ∧
      ¬ Harmless (sampleNormalized ["corp", "home"]) sampleDisk stop := by
  have accepted : (sampleConfig ["corp", "home"]).normalize rfc2181 =
      .ok (sampleNormalized ["corp", "home"]) := by
    decide
  obtain ⟨⟨stop, stopped⟩, exact⟩ := failed_apply_nothing_new_iff accepted sampleStopped_ends
  exact ⟨stop, stopped, fun harmless => sampleStopped_new ((exact stop stopped).mpr harmless)⟩

theorem failed_apply_leaves_file :
    ¬ ∀ (parseDnsName : Bytes → Except Bytes Unit) (given : Config) (config : NormalizedConfig)
      (d d' : Disk) (e : ResolverError),
      given.normalize parseDnsName = .ok config →
      Ends faulty (apply config).run d (.error e) d' → NothingNew config.owner d d' := by
  intro h
  have accepted : (sampleConfig ["corp", "home"]).normalize rfc2181 =
      .ok (sampleNormalized ["corp", "home"]) := by
    decide
  exact sampleStopped_new (h rfc2181 _ _ _ _ _ accepted sampleStopped_ends)

end Atomic

end Setdns.Macos.Resolver
