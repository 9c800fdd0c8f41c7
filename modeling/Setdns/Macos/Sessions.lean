import Setdns.Handle
import Setdns.Macos.Entries

/-!
The resolver directory as a store of settings by owner. An apply takes the owner's old
files away and enters the new ones, up to the first domain that is taken. A close takes
away whatever the owner has, also through a handle whose files an older apply or another
handle has replaced. The directory shows the settings of all owners beside the files that
were there before, in every state of every run of applies and closes by any owners in
which no call fails.
-/

namespace Setdns.Macos.Resolver

open Text Effects Effects.Program Effects.Directory Simulation
open Handle (opened mem_of_others)
open Effects.Directory.Disk

/-- What an owner has in the directory. -/
structure Setting where
  servers : List IpAddr
  suffixes : List DomainSuffix

abbrev Settings : Type := Bytes → Setting

def Settings.clear (settings : Settings) (owner : Bytes) : Settings :=
  Function.update settings owner ⟨[], []⟩

def Settings.enter (settings : Settings) (owner : Bytes) (servers : List IpAddr)
    (suffixes : List DomainSuffix) : Settings :=
  Function.update settings owner ⟨servers, suffixes⟩

section Runs

/-- The disk, and the handles that are neither closed nor forgotten. -/
structure Host where
  disk : Disk
  handles : List SetDns

/-- What a process was asked to do and how it ended. -/
inductive Outcome where
  | applied (config : NormalizedConfig) (r : Except ResolverError SetDns)
  | closed (handle : SetDns) (r : Except ResolverError Unit)
  | forgotten (handle : SetDns)

/-- One operation of any owner, without faults. -/
inductive Operation (parseDnsName : Bytes → Except Bytes Unit) : Host → Outcome → Host → Prop
  | applied {config : Config} {normalized : NormalizedConfig} {d d' : Disk}
      {handles : List SetDns} {r : Except ResolverError SetDns}
      (accepted : config.normalize parseDnsName = .ok normalized)
      (noSlash : ∀ s ∈ normalized.domains, slash ∉ s.domain)
      (ends : Ends calm (apply normalized).run d r d') :
      Operation parseDnsName ⟨d, handles⟩ (.applied normalized r) ⟨d', opened r handles⟩
  | closed {d d' : Disk} {front back : List SetDns} {handle : SetDns}
      {r : Except ResolverError Unit} (ends : Ends calm (close handle).run d r d') :
      Operation parseDnsName ⟨d, front ++ handle :: back⟩ (.closed handle r) ⟨d', front ++ back⟩
  | forgotten {d : Disk} {front back : List SetDns} {handle : SetDns} :
      Operation parseDnsName ⟨d, front ++ handle :: back⟩ (.forgotten handle) ⟨d, front ++ back⟩

variable (start : Disk)

/-- A file that was there before, or another owner's, is in the place. -/
def Taken (settings : Settings) (owner name : Bytes) : Prop :=
  start.content (name :: dir) ≠ none ∨
    ∃ o, o ≠ owner ∧ ∃ s ∈ (settings o).suffixes, s.domain = name

structure Admits (settings : Settings) (owner domain : Bytes) : Prop where
  valid : FileName (domain ++ tempSuffix)
  final : ¬ Taken start settings owner domain
  temp : ¬ Taken start settings owner (domain ++ tempSuffix)

/-- The same operations on the settings. -/
inductive Step : Settings → Outcome → Settings → Prop
  | applied {settings : Settings} {config : NormalizedConfig}
      (few : config.servers.length ≤ maxns)
      (admitted : ∀ s ∈ config.domains, Admits start settings config.owner s.domain) :
      Step settings (.applied config (.ok ⟨config.owner, config.domains.map DomainSuffix.domain⟩))
        (settings.enter config.owner config.servers config.domains)
  | refused {settings : Settings} {config : NormalizedConfig} {e : ResolverError}
      {front back : List DomainSuffix} {s : DomainSuffix} (few : config.servers.length ≤ maxns)
      (split : config.domains = front ++ s :: back)
      (admitted : ∀ u ∈ front, Admits start settings config.owner u.domain)
      (taken : ¬ Admits start settings config.owner s.domain) :
      Step settings (.applied config (.error e)) (settings.enter config.owner config.servers front)
  | rejected {settings : Settings} {config : NormalizedConfig} {e : ResolverError}
      (many : maxns < config.servers.length) : Step settings (.applied config (.error e)) settings
  | unmade {settings : Settings} {config : NormalizedConfig} {e : ResolverError}
      (few : config.servers.length ≤ maxns) (missing : ¬ start.IsDir dir)
      (unused : ∀ o, (settings o).suffixes = []) :
      Step settings (.applied config (.error e)) settings
  | closed {settings : Settings} {handle : SetDns}
      (own : ∀ n ∈ handle.domains, ¬ Taken start settings handle.owner n) :
      Step settings (.closed handle (.ok ())) (settings.clear handle.owner)
  | lost {settings : Settings} {handle : SetDns} {e : ResolverError}
      (taken : ∃ n ∈ handle.domains, Taken start settings handle.owner n) :
      Step settings (.closed handle (.error e)) (settings.clear handle.owner)
  | forgotten {settings : Settings} {handle : SetDns} : Step settings (.forgotten handle) settings

/-- Nothing but files is in the directory, and none of an owner. -/
structure Clean : Prop where
  flat : Flat start
  unmarked : ∀ owner, ValidOwner owner → ∀ name c, start.content (name :: dir) = some c →
    ¬ Marked owner c

/-- The directory shows the settings beside the files that were there before. -/
structure Renders (settings : Settings) (t : Table) : Prop where
  entry : ∀ o, ∀ s ∈ (settings o).suffixes, t (s.domain :: dir) =
    some (renderResolver o s.domain (settings o).servers)
  rest : ∀ p, (∀ o, ∀ s ∈ (settings o).suffixes, p ≠ s.domain :: dir) → t p = start.content p
  free : ∀ o, ∀ s ∈ (settings o).suffixes, start.content (s.domain :: dir) = none
  marked : ∀ o, ∀ s ∈ (settings o).suffixes,
    Marked o (renderResolver o s.domain (settings o).servers)

structure Represents (host : Host) (settings : Settings) : Prop where
  flat : Flat host.disk
  there : host.disk.IsDir dir ∨
    (¬ start.IsDir dir ∧ host.handles = [] ∧ ∀ o, (settings o).suffixes = [])
  renders : Renders start settings host.disk.content
  handles : ∀ handle ∈ host.handles, ValidOwner handle.owner ∧ ∀ n ∈ handle.domains, FileName n

end Runs

section Tables

variable {start : Disk} {settings : Settings} {owner name : Bytes} {t : Table}
  {servers : List IpAddr} {suffixes : List DomainSuffix}

@[simp] theorem clear_self : settings.clear owner owner = ⟨[], []⟩ := Function.update_self ..

theorem clear_of_ne {o : Bytes} (ne : o ≠ owner) : settings.clear owner o = settings o :=
  Function.update_of_ne ne ..

@[simp] theorem enter_self : settings.enter owner servers suffixes owner = ⟨servers, suffixes⟩ :=
  Function.update_self ..

theorem enter_of_ne {o : Bytes} (ne : o ≠ owner) :
    settings.enter owner servers suffixes o = settings o :=
  Function.update_of_ne ne ..

@[simp] theorem clear_enter :
    (settings.clear owner).enter owner servers suffixes = settings.enter owner servers suffixes :=
  Function.update_idem ..

/-- What the owner has itself is in nobody's way. -/
theorem taken_clear :
    Taken start (settings.clear owner) owner name ↔ Taken start settings owner name := by
  unfold Taken
  refine or_congr_right (exists_congr fun o => and_congr_right fun ne => ?_)
  rw [clear_of_ne ne]

theorem admits_clear :
    Admits start (settings.clear owner) owner name ↔ Admits start settings owner name := by
  constructor
  · rintro ⟨valid, final, temp⟩
    exact ⟨valid, fun h => final (taken_clear.mpr h), fun h => temp (taken_clear.mpr h)⟩
  · rintro ⟨valid, final, temp⟩
    exact ⟨valid, fun h => final (taken_clear.mp h), fun h => temp (taken_clear.mp h)⟩

theorem Renders.purge (renders : Renders start settings t) (clean : Clean start)
    (valid : ValidOwner owner) :
    Renders start (settings.clear owner) (Resolver.purge owner t) := by
  have kept : ∀ o, ∀ s ∈ (settings.clear owner o).suffixes,
      o ≠ owner ∧ s ∈ (settings o).suffixes := by
    intro o s mem
    by_cases same : o = owner
    · rw [same, clear_self] at mem
      cases mem
    · rw [clear_of_ne same] at mem
      exact ⟨same, mem⟩
  refine ⟨fun o s mem => ?_, fun p other => ?_, fun o s mem => ?_, fun o s mem => ?_⟩
  · obtain ⟨ne, mem⟩ := kept o s mem
    rw [clear_of_ne ne, purge_entry, renders.entry o s mem]
    exact unmarked_of_foreign fun own => ne (marked_unique (renders.marked o s mem) own)
  · by_cases child : ∃ name, p = name :: dir
    · obtain ⟨name, rfl⟩ := child
      rw [purge_entry]
      by_cases own : ∃ s ∈ (settings owner).suffixes, s.domain = name
      · obtain ⟨s, mem, rfl⟩ := own
        rw [renders.entry owner s mem, renders.free owner s mem]
        exact unmarked_of_marked (renders.marked owner s mem)
      · have unset : t (name :: dir) = start.content (name :: dir) := by
          refine renders.rest _ fun o s mem at' => ?_
          by_cases same : o = owner
          · subst same
            exact own ⟨s, mem, (List.cons.inj at').1.symm⟩
          · exact other o s (by rwa [clear_of_ne same]) at'
        rw [unset]
        cases found : start.content (name :: dir) with
        | none => rfl
        | some c => exact unmarked_of_foreign (clean.unmarked owner valid name c found)
    · push Not at child
      rw [purge_other child]
      exact renders.rest p fun o s _ => child s.domain
  · exact renders.free o s (kept o s mem).2
  · obtain ⟨ne, mem⟩ := kept o s mem
    rw [clear_of_ne ne]
    exact renders.marked o s mem

/-- Where the owner has nothing, an entry is there exactly if its place is taken. -/
theorem Renders.taken_iff (renders : Renders start settings t)
    (nothing : (settings owner).suffixes = []) :
    t (name :: dir) ≠ none ↔ Taken start settings owner name := by
  by_cases entry : ∃ o, ∃ s ∈ (settings o).suffixes, s.domain = name
  · obtain ⟨o, s, mem, rfl⟩ := entry
    have ne : o ≠ owner := by
      rintro rfl
      rw [nothing] at mem
      cases mem
    rw [renders.entry o s mem]
    exact ⟨fun _ => .inr ⟨o, ne, s, mem, rfl⟩, fun _ => Option.some_ne_none _⟩
  · push Not at entry
    rw [renders.rest _ fun o s mem at' => entry o s mem (List.cons.inj at').1.symm]
    constructor
    · exact .inl
    · rintro (before | ⟨o, -, s, mem, same⟩)
      · exact before
      · exact absurd same (entry o s mem)

theorem Renders.accepts_iff (renders : Renders start settings t)
    (nothing : (settings owner).suffixes = []) :
    Accepts t name ↔ Admits start settings owner name := by
  constructor
  · rintro ⟨valid, final, temp⟩
    exact ⟨valid, fun h => (renders.taken_iff nothing).mpr h final,
      fun h => (renders.taken_iff nothing).mpr h temp⟩
  · rintro ⟨valid, final, temp⟩
    exact ⟨valid, not_not.mp fun h => final ((renders.taken_iff nothing).mp h),
      not_not.mp fun h => temp ((renders.taken_iff nothing).mp h)⟩

theorem Renders.install (renders : Renders start settings t)
    (nothing : (settings owner).suffixes = [])
    (apart : suffixes.Pairwise fun s s' => s.domain ≠ s'.domain)
    (accepted : ∀ s ∈ suffixes, Accepts t s.domain)
    (marked : ∀ s ∈ suffixes, Marked owner (renderResolver owner s.domain servers)) :
    Renders start (settings.enter owner servers suffixes)
      (Resolver.install owner servers suffixes t) := by
  have others : ∀ o, o ≠ owner → ∀ s ∈ (settings o).suffixes, ∀ u ∈ suffixes,
      s.domain :: dir ≠ u.domain :: dir := by
    intro o ne s mem u there same
    cases (renders.entry o s mem).symm.trans (same ▸ (accepted u there).final)
  refine ⟨fun o s mem => ?_, fun p other => ?_, fun o s mem => ?_, fun o s mem => ?_⟩
  · by_cases same : o = owner
    · subst same
      rw [enter_self] at mem ⊢
      exact install_entry apart mem
    · rw [enter_of_ne same] at mem ⊢
      rw [install_other _ (others o same s mem), renders.entry o s mem]
  · rw [install_other _ fun s mem => other owner s (by rwa [enter_self])]
    refine renders.rest p fun o s mem => ?_
    by_cases same : o = owner
    · subst same
      rw [nothing] at mem
      cases mem
    · exact other o s (by rwa [enter_of_ne same])
  · by_cases same : o = owner
    · subst same
      rw [enter_self] at mem
      by_contra before
      exact (renders.taken_iff nothing).mpr (.inl before) (accepted s mem).final
    · rw [enter_of_ne same] at mem
      exact renders.free o s mem
  · by_cases same : o = owner
    · subst same
      rw [enter_self] at mem ⊢
      exact marked s mem
    · rw [enter_of_ne same] at mem ⊢
      exact renders.marked o s mem

/-- Somebody else's file stands where the place is taken. -/
theorem Renders.foreign_iff {d : Disk} (renders : Renders start settings d.content)
    (clean : Clean start) (valid : ValidOwner owner) :
    Foreign owner d (name :: dir) ↔ Taken start settings owner name := by
  constructor
  · rintro ⟨c, found, unmarked⟩
    by_cases entry : ∃ o, ∃ s ∈ (settings o).suffixes, s.domain = name
    · obtain ⟨o, s, mem, rfl⟩ := entry
      rw [renders.entry o s mem, Option.some.injEq] at found
      refine .inr ⟨o, ?_, s, mem, rfl⟩
      rintro rfl
      exact unmarked (found ▸ renders.marked o s mem)
    · push Not at entry
      rw [renders.rest _ fun o s mem at' => entry o s mem (List.cons.inj at').1.symm] at found
      exact .inl (by simp [found])
  · rintro (before | ⟨o, ne, s, mem, rfl⟩)
    · obtain ⟨c, found⟩ := Option.ne_none_iff_exists'.mp before
      refine ⟨c, ?_, clean.unmarked owner valid name c found⟩
      rw [renders.rest _ fun o s mem at' => ?_, found]
      exact before (at' ▸ renders.free o s mem)
    · exact ⟨_, renders.entry o s mem,
        fun own => ne (marked_unique (renders.marked o s mem) own)⟩

end Tables

section Simulation

variable {parseDnsName : Bytes → Except Bytes Unit} {start d d' : Disk} {settings : Settings}
  {handles : List SetDns}

theorem Represents.apply {config : Config} {normalized : NormalizedConfig}
    {r : Except ResolverError SetDns} (represents : Represents start ⟨d, handles⟩ settings)
    (clean : Clean start) (accepted : config.normalize parseDnsName = .ok normalized)
    (noSlash : ∀ s ∈ normalized.domains, slash ∉ s.domain)
    (ends : Ends calm (apply normalized).run d r d') :
    ∃ settings', Step start settings (.applied normalized r) settings' ∧
      Represents start ⟨d', opened r handles⟩ settings' := by
  have valid := (normalize_eq_ok accepted).1
  have named := fun s mem => relative_of_normalized accepted mem (noSlash s mem)
  have apart := apart_of_normalized accepted
  have marked := fun s mem => marked_render valid (named s mem).2 normalized.servers
  obtain ⟨flat, there, renders, mine⟩ := represents
  cases (apply_ends (fun s mem => (named s mem).1) apart flat).ends ends with
  | rejected many => exact ⟨_, .rejected many, flat, there, renders, mine⟩
  | unmade few missing flat' same =>
      obtain isDir | ⟨absent, none, unused⟩ := there
      · exact absurd isDir missing
      · exact ⟨_, .unmade few absent unused, flat', .inr ⟨absent, none, unused⟩,
          same.symm ▸ renders, mine⟩
  | @entered r' _ few there' flat' entries =>
      have purged := renders.purge clean valid
      have nothing : (settings.clear normalized.owner normalized.owner).suffixes = [] := by
        rw [clear_self]
      have admits : ∀ name, Accepts (purge normalized.owner d.content) name ↔
          Admits start settings normalized.owner name := fun name =>
        (purged.accepts_iff nothing).trans admits_clear
      have shows : ∀ front, front.Sublist normalized.domains →
          (∀ s ∈ front, Accepts (purge normalized.owner d.content) s.domain) →
          Renders start (settings.enter normalized.owner normalized.servers front)
            (install normalized.owner normalized.servers front
              (purge normalized.owner d.content)) := by
        intro front within accepted
        have installed := purged.install nothing ((apart.imp And.left).sublist within) accepted
          fun s mem => marked s (within.subset mem)
        rwa [clear_enter] at installed
      generalize content : d'.content = t' at entries
      cases entries with
      | all accepted =>
          refine ⟨_, .applied few fun s mem => (admits _).mp (accepted s mem), flat', .inl there',
            content ▸ shows _ (List.Sublist.refl _) accepted, List.forall_mem_cons.mpr ⟨⟨valid, ?_⟩,
              mine⟩⟩
          intro n mem
          obtain ⟨s, listed, rfl⟩ := List.mem_map.mp mem
          exact (named s listed).1.fileName (accepted s listed).valid
      | @stopped front back s e split accepted refused =>
          have within : front.Sublist normalized.domains := split ▸ List.sublist_append_left ..
          refine ⟨_, .refused few split (fun u mem => (admits _).mp (accepted u mem))
            fun h => refused ((admits _).mpr h), flat', .inl there', ?_, mine⟩
          exact content ▸ shows front within accepted

theorem Represents.close {front back : List SetDns} {handle : SetDns}
    {r : Except ResolverError Unit}
    (represents : Represents start ⟨d, front ++ handle :: back⟩ settings) (clean : Clean start)
    (ends : Ends calm (close handle).run d r d') :
    ∃ settings', Step start settings (.closed handle r) settings' ∧
      Represents start ⟨d', front ++ back⟩ settings' := by
  obtain ⟨flat, there, renders, mine⟩ := represents
  have mem : handle ∈ front ++ handle :: back := List.mem_append_right _ (.head _)
  have isDir : d.IsDir dir := by
    refine there.resolve_right ?_
    rintro ⟨-, none, -⟩
    exact List.ne_nil_of_mem mem none
  obtain ⟨valid, named⟩ := mine handle mem
  obtain ⟨there', flat', content, ok⟩ := (close_ends handle named isDir flat).ends ends
  have foreign : ∀ n, Foreign handle.owner d (n :: dir) ↔ Taken start settings handle.owner n :=
    fun n => renders.foreign_iff clean valid
  simp only [foreign] at ok
  have after : Represents start ⟨d', front ++ back⟩ (settings.clear handle.owner) :=
    ⟨flat', .inl there', content.symm ▸ renders.purge clean valid,
      fun other kept => mine other (mem_of_others kept)⟩
  cases r with
  | ok _ => exact ⟨_, .closed (ok.mp rfl), after⟩
  | error e =>
      refine ⟨_, .lost ?_, after⟩
      by_contra own
      push Not at own
      cases ok.mpr own

theorem operation_matched (clean : Clean start) :
    Forward (Operation parseDnsName) (Step start) (Represents start) Eq := by
  intro host settings outcome host' represents operation
  cases operation with
  | applied accepted noSlash ends =>
      obtain ⟨settings', step, after⟩ := represents.apply clean accepted noSlash ends
      exact ⟨_, settings', rfl, step, after⟩
  | closed ends =>
      obtain ⟨settings', step, after⟩ := represents.close clean ends
      exact ⟨_, settings', rfl, step, after⟩
  | @forgotten d front back handle =>
      obtain ⟨flat, there, renders, mine⟩ := represents
      refine ⟨_, settings, rfl, .forgotten, flat, there.imp_right ?_, renders,
        fun other kept => mine other (mem_of_others kept)⟩
      rintro ⟨-, none, -⟩
      exact absurd none (List.ne_nil_of_mem (List.mem_append_right front (.head back)))

variable {outcomes : List Outcome} {host : Host}

theorem empty_represents (clean : Clean start) :
    Represents start ⟨start, []⟩ fun _ => ⟨[], []⟩ := by
  refine ⟨clean.flat, ?_, ⟨?_, fun _ _ => rfl, ?_, ?_⟩, ?_⟩
  · exact (Classical.em _).imp_right fun missing => ⟨missing, rfl, fun _ => rfl⟩
  · exact fun _ _ no => (nomatch no)
  · exact fun _ _ no => (nomatch no)
  · exact fun _ _ no => (nomatch no)
  · exact fun _ no => (nomatch no)

/-- What an owner has was there before or was entered by the step. -/
theorem step_entered {settings' : Settings} {outcome : Outcome} {o : Bytes}
    (step : Step start settings outcome settings') (some : (settings' o).suffixes ≠ []) :
    ((settings o).suffixes ≠ [] ∧ ∀ handle r, handle.owner = o → outcome ≠ .closed handle r) ∨
      ∃ config r, outcome = .applied config r ∧ config.owner = o := by
  have applied : ∀ config r, outcome = .applied config r →
      (config.owner ≠ o → settings' o = settings o) →
      ((settings o).suffixes ≠ [] ∧ ∀ handle r, handle.owner = o → outcome ≠ .closed handle r) ∨
        ∃ config r, outcome = .applied config r ∧ config.owner = o := by
    rintro config r rfl same
    by_cases own : config.owner = o
    · exact .inr ⟨config, r, rfl, own⟩
    · exact .inl ⟨same own ▸ some, by simp⟩
  have closed : ∀ handle r, outcome = .closed handle r → settings' = settings.clear handle.owner →
      (settings o).suffixes ≠ [] ∧ ∀ handle r, handle.owner = o → outcome ≠ .closed handle r := by
    rintro handle r rfl rfl
    have ne : o ≠ handle.owner := by
      rintro rfl
      exact some (by rw [clear_self])
    rw [clear_of_ne ne] at some
    refine ⟨some, ?_⟩
    rintro _ _ same ⟨⟩
    exact ne same.symm
  cases step with
  | applied _ _ => exact applied _ _ rfl fun ne => enter_of_ne ne.symm
  | refused _ _ _ _ => exact applied _ _ rfl fun ne => enter_of_ne ne.symm
  | rejected _ => exact applied _ _ rfl fun _ => rfl
  | unmade _ _ _ => exact applied _ _ rfl fun _ => rfl
  | closed _ => exact .inl (closed _ _ rfl rfl)
  | lost _ => exact .inl (closed _ _ rfl rfl)
  | forgotten => exact .inl ⟨some, by simp⟩

/-- What an owner has was there before or was entered after its last close. -/
theorem run_entered {settings' : Settings} (run : Trace (Step start) settings outcomes settings')
    {o : Bytes} (some : (settings' o).suffixes ≠ []) :
    (settings o).suffixes ≠ [] ∨
      ∃ front config r back, outcomes = front ++ .applied config r :: back ∧ config.owner = o ∧
        ∀ handle r, handle.owner = o → .closed handle r ∉ back := by
  suffices entered : ((settings o).suffixes ≠ [] ∧
      ∀ handle r, handle.owner = o → .closed handle r ∉ outcomes) ∨
        ∃ front config r back, outcomes = front ++ .applied config r :: back ∧ config.owner = o ∧
          ∀ handle r, handle.owner = o → .closed handle r ∉ back from entered.imp_left And.left
  induction run with
  | nil s => exact .inl ⟨some, by simp⟩
  | cons first _ ih =>
      rcases ih some with ⟨here, unclosed⟩ | ⟨front, config, r, back, split, own, unclosed⟩
      · rcases step_entered first here with ⟨before, notClosed⟩ | ⟨config, r, rfl, own⟩
        · refine .inl ⟨before, fun handle r own mem => ?_⟩
          rcases List.mem_cons.mp mem with same | later
          · exact notClosed handle r own same.symm
          · exact unclosed handle r own later
        · exact .inr ⟨[], config, r, _, rfl, own, unclosed⟩
      · exact .inr ⟨_ :: front, config, r, back, congrArg _ split, own, unclosed⟩

/-- When every application was followed by a close of its owner, no owner has anything left. -/
theorem nothing_left {settings : Settings}
    (run : Trace (Step start) (fun _ => ⟨[], []⟩) outcomes settings)
    (closed : ∀ front config r back, outcomes = front ++ .applied config r :: back →
      ∃ handle r', handle.owner = config.owner ∧ .closed handle r' ∈ back) (o : Bytes) :
    (settings o).suffixes = [] := by
  by_contra some
  rcases run_entered run some with before | ⟨front, config, r, back, split, own, unclosed⟩
  · exact before rfl
  · obtain ⟨handle, r', same, mem⟩ := closed front config r back split
    exact unclosed handle r' (same.trans own) mem

theorem Represents.restored {settings : Settings} (represents : Represents start host settings)
    (nothing : ∀ o, (settings o).suffixes = []) : host.disk.content = start.content := by
  funext p
  refine represents.renders.rest p fun o s mem => ?_
  rw [nothing o] at mem
  cases mem

/-- When every application was followed by a close of its owner, whichever handle was closed
and whatever it returned, every file is as it was. -/
theorem closed_runs_restore (clean : Clean start)
    (run : Trace (Operation parseDnsName) ⟨start, []⟩ outcomes host)
    (closed : ∀ front config r back, outcomes = front ++ .applied config r :: back →
      ∃ handle r', handle.owner = config.owner ∧ .closed handle r' ∈ back) :
    host.disk.content = start.content := by
  obtain ⟨settings, abstract, represents⟩ :=
    (operation_matched clean).follow run (empty_represents clean)
  exact represents.restored (nothing_left abstract closed)

/-- A handle that is gone was closed. -/
theorem closed_later {host' : Host} (run : Trace (Operation parseDnsName) host outcomes host')
    (kept : ∀ handle, .forgotten handle ∉ outcomes) (all : host'.handles = []) {handle : SetDns}
    (mem : handle ∈ host.handles) : ∃ r, .closed handle r ∈ outcomes := by
  induction run with
  | nil host =>
      rw [all] at mem
      cases mem
  | @cons host host₁ host' outcome outcomes first _ ih =>
      have later : ∀ other, .forgotten other ∉ outcomes :=
        fun other after => kept other (.tail _ after)
      cases first with
      | @applied config normalized d d' handles r accepted noSlash ends =>
          have still : handle ∈ opened r handles := by
            cases r with
            | ok new => exact .tail _ mem
            | error e => exact mem
          obtain ⟨r, closed⟩ := ih later all still
          exact ⟨r, .tail _ closed⟩
      | @closed d d' front back other r ends =>
          by_cases same : handle = other
          · subst same
            exact ⟨r, .head _⟩
          · have still : handle ∈ front ++ back := by
              have there : handle ∈ front ++ other :: back := mem
              simpa [same] using there
            obtain ⟨r, closed⟩ := ih later all still
            exact ⟨r, .tail _ closed⟩
      | forgotten => exact absurd (.head _) (kept _)

/-- When every application succeeds and every handle is closed, every file is as it was. -/
theorem emptied_run_restores (clean : Clean start)
    (run : Trace (Operation parseDnsName) ⟨start, []⟩ outcomes host)
    (entered : ∀ config e, .applied config (.error e) ∉ outcomes)
    (kept : ∀ handle, .forgotten handle ∉ outcomes) (all : host.handles = []) :
    host.disk.content = start.content := by
  obtain ⟨_, abstract, represents⟩ :=
    (operation_matched clean).follow run (empty_represents clean)
  refine represents.restored (nothing_left abstract fun front config r back split => ?_)
  subst split
  obtain ⟨_, _, -, step, -⟩ := abstract.split
  obtain ⟨_, host', -, here, rest⟩ := run.split
  cases step with
  | applied few admitted =>
      cases here with
      | applied accepted noSlash ends =>
          obtain ⟨r, closed⟩ := closed_later rest
            (fun other mem => kept other (List.mem_append_right _ (.tail _ mem))) all (.head _)
          exact ⟨_, r, rfl, closed⟩
  | refused => exact absurd (List.mem_append_right _ (.head _)) (entered _ _)
  | rejected => exact absurd (List.mem_append_right _ (.head _)) (entered _ _)
  | unmade => exact absurd (List.mem_append_right _ (.head _)) (entered _ _)

end Simulation

section Samples

theorem sampleEmpty_clean : Clean Disk.empty where
  flat _ isDir := by cases (lookup_singleton isDir).1
  unmarked _ _ _ _ found := by
    obtain ⟨i, there, -⟩ := exists_file found
    cases (lookup_singleton there).1

def sampleInstalled : Except ResolverError SetDns × Disk :=
  exec (Disk.perform id) (apply (sampleNormalized ["corp"])).run Disk.empty

def sampleHandle : SetDns := ⟨bytes "tests", [bytes "corp"]⟩

def sampleRestored : Except ResolverError Unit × Disk :=
  exec (Disk.perform id) (close sampleHandle).run sampleInstalled.2

set_option maxRecDepth 20000 in
/-- The directory is made, and the file is entered and removed again. -/
theorem sampleRestored_run : Trace (Operation rfc2181) ⟨Disk.empty, []⟩
    [.applied (sampleNormalized ["corp"]) (.ok sampleHandle), .closed sampleHandle (.ok ())]
    ⟨sampleRestored.2, []⟩ := by
  have accepted : (sampleConfig ["corp"]).normalize rfc2181 = .ok (sampleNormalized ["corp"]) := by
    decide
  have applied := ends_exec calm_perform (apply (sampleNormalized ["corp"])).run Disk.empty
  have closed := ends_exec calm_perform (close sampleHandle).run sampleInstalled.2
  rw [show (exec (Disk.perform id) (apply (sampleNormalized ["corp"])).run Disk.empty).1 =
    .ok sampleHandle from by decide] at applied
  rw [show (exec (Disk.perform id) (close sampleHandle).run sampleInstalled.2).1 = .ok () from
    by decide] at closed
  have first : Operation rfc2181 ⟨Disk.empty, []⟩
      (.applied (sampleNormalized ["corp"]) (.ok sampleHandle))
      ⟨sampleInstalled.2, [sampleHandle]⟩ := .applied accepted (by decide) applied
  have last : Operation rfc2181 ⟨sampleInstalled.2, [] ++ sampleHandle :: []⟩
      (.closed sampleHandle (.ok ())) ⟨sampleRestored.2, [] ++ []⟩ := .closed closed
  exact .cons first (.cons last (.nil _))

theorem closed_runs_restore_sample : sampleRestored.2.content = Disk.empty.content := by
  refine closed_runs_restore sampleEmpty_clean sampleRestored_run ?_
  intro front config r back split
  match front with
  | [] =>
      obtain ⟨⟨rfl, rfl⟩, rfl⟩ := List.cons.inj split
      exact ⟨sampleHandle, .ok (), rfl, List.mem_singleton_self _⟩
  | [_] => cases split
  | _ :: _ :: front => simp at split

end Samples

end Setdns.Macos.Resolver
