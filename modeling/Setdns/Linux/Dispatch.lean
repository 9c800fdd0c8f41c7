import Setdns.Effects.Sum
import Setdns.Linux.Recovery
import Setdns.Linux.Resolved
import Setdns.Linux.Stub

/-!
Selection of the Linux backend. Global DNS goes to `systemd-resolved` when the
manager answers and a device is named, and otherwise to `/etc/resolv.conf`,
unless that file belongs to `systemd-resolved`.

The selection reads the file before the file backend does, and a file that this
program left behind is read like any other. With only the stub's addresses in it
the selection refuses the global configuration, and the cleanup by owner is never
reached.
-/

namespace Setdns.Linux

open Text Effects Effects.Program
open Effects.Resolve1 (BusCall)
open Effects.Files (Fs FsCall)

inductive LinuxError where
  | unsupportedGlobalDns (reason : Bytes)
  | splitDnsNeedsResolved (source : Resolved.ResolvedError)
  | unsupportedSplitDns (reason : Bytes)
  deriving DecidableEq, Repr

/-- The boxed error of a backend. -/
inductive Error where
  | linux (source : LinuxError)
  | resolved (source : Resolved.ResolvedError)
  | resolvConf (source : ResolvConf.ResolvConfError)
  deriving DecidableEq, Repr

inductive SetDns where
  | resolved (inner : Resolved.SetDns)
  | resolvConf (inner : ResolvConf.SetDns)
  deriving DecidableEq, Repr

abbrev Io (α : Type) : Type := Program (BusCall ⊕ FsCall) (Joint BusCall.Ret FsCall.Ret) α

abbrev Result (α : Type) : Type :=
  ExceptT Error (Program (BusCall ⊕ FsCall) (Joint BusCall.Ret FsCall.Ret)) α

def managedByResolved : Error :=
  .linux (.unsupportedGlobalDns
    (bytes "/etc/resolv.conf is managed by systemd-resolved and no device was specified"))

/-- Global DNS without the manager or without a device. -/
def applyResolvConf (config : NormalizedConfig) : Result SetDns := do
  if ← (liftM (ResolvConf.isManagedByResolved.right : Io Bool) : Result Bool) then
    throw managedByResolved
  else do
    let inner ← mapErr (ResolvConf.apply config).run.right .resolvConf
    pure (.resolvConf inner)

def apply (config : NormalizedConfig) : Result SetDns := do
  let resolved ← (liftM (Resolved.connect.run.left : Io _) :
    Result (Except Resolved.ResolvedError Resolved.Manager))
  if config.domains.isEmpty then
    if device : config.device.isSome then
      match resolved with
      | .ok manager => do
          let inner ← mapErr (manager.apply config device).run.left .resolved
          pure (.resolved inner)
      | .error _ => applyResolvConf config
    else applyResolvConf config
  else
    match resolved with
    | .error source => throw (.linux (.splitDnsNeedsResolved source))
    | .ok manager =>
        if device : config.device.isSome then do
          let inner ← mapErr (manager.apply config device).run.left .resolved
          pure (.resolved inner)
        else
          throw (.linux (.unsupportedSplitDns
            (bytes "Linux split DNS requires a device/interface name")))

def close : SetDns → Result Unit
  | .resolved inner => mapErr (Resolved.close inner).run.left .resolved
  | .resolvConf inner => mapErr (ResolvConf.close inner).run.right .resolvConf

section Unavailable

variable {bus : Resolve1.Machine} {fs : Fs} {config : NormalizedConfig}
  {W : World FsCall FsCall.Ret Fs} {Q : Except Error SetDns → Resolve1.Machine × Fs → Prop}

/-- What the selection makes of the result of the file backend. -/
def wrap : Except ResolvConf.ResolvConfError ResolvConf.SetDns → Except Error SetDns
  | .ok inner => .ok (.resolvConf inner)
  | .error source => .error (.resolvConf source)

/-- Whatever else fails on the bus, there is no manager to connect to. -/
theorem connect_unavailable (absent : bus.hasOwner Resolved.destination = false) :
    Safe Resolve1.faulty (fun _ => True) (fun r s => s = bus ∧ ∃ e, r = .error e)
      Resolved.connect.run bus := by
  have quiet : ∀ (c : BusCall) (r : c.Ret) (s : Resolve1.Machine), (bus.perform c).2 = bus →
      Resolve1.faulty.answers bus c r s → s = bus := by
    intro c r s same a
    rcases a with a | ⟨-, rfl⟩
    · exact ((Prod.mk.inj a).2.symm).trans same
    · rfl
  refine Safe.tryBind (M := fun _ s => s = bus) (Safe.mapErr ⟨trivial, fun _ _ => trivial,
    fun r s a => ⟨trivial, quiet _ r s rfl a⟩⟩) ?_ (by simp)
  rintro _ s - same
  subst s
  refine Safe.tryBind (M := fun _ s => s = bus) (Safe.mapErr ⟨trivial, fun _ _ => trivial,
    fun r s a => ⟨trivial, quiet _ r s rfl a⟩⟩) ?_ (by simp)
  rintro _ s - same
  subst s
  refine Safe.tryBind (M := fun r s => s = bus ∧ r ≠ .ok true) (Safe.mapErr ⟨trivial,
    fun _ _ => trivial, fun r s a => ⟨trivial, quiet _ r s rfl a, ?_⟩⟩) ?_ (by simp)
  · rcases a with a | ⟨⟨e, rfl⟩, -⟩
    · obtain ⟨rfl, -⟩ := Prod.mk.inj a
      simp [Except.mapError, absent]
    · simp [Except.mapError, Resolve1.failure]
  · rintro hasOwner s - ⟨same, other⟩
    cases hasOwner with
    | true => exact absurd rfl other
    | false => exact ⟨trivial, same, _, rfl⟩

/-- Without the manager the selection leads to the file backend. -/
theorem apply_files (absent : bus.hasOwner Resolved.destination = false)
    (global : config.domains = [])
    (managed : Safe W (fun _ => True)
      (fun owned fs' => if owned then Q (.error managedByResolved) (bus, fs')
        else Safe W (fun _ => True) (fun r fs'' => Q (wrap r) (bus, fs''))
          (ResolvConf.apply config).run fs')
      ResolvConf.isManagedByResolved fs) :
    Safe (Resolve1.faulty.both W) (fun _ => True) Q (apply config).run (bus, fs) := by
  have files : Safe (Resolve1.faulty.both W) (fun _ => True) Q (applyResolvConf config).run
      (bus, fs) := by
    refine Safe.lift ((Safe.right managed bus).imp (fun _ _ => trivial) ?_)
    rintro owned ⟨_, fs'⟩ ⟨-, rfl⟩ next
    cases owned with
    | true => exact ⟨trivial, next⟩
    | false =>
        refine Safe.tryBind (M := fun r s => Q (match r with
          | .ok inner => .ok (.resolvConf inner)
          | .error e => .error e) s) (Safe.mapErr ?_) ?_ ?_
        · refine (Safe.right next _).imp (fun _ _ => trivial) ?_
          rintro r ⟨_, fs''⟩ ⟨-, rfl⟩ reached
          cases r <;> exact reached
        · exact fun inner s _ reached => ⟨trivial, reached⟩
        · exact fun e s _ reached => reached
  refine Safe.lift ((Safe.left (connect_unavailable absent) fs).imp (fun _ _ => trivial) ?_)
  rintro r ⟨_, _⟩ ⟨-, rfl⟩ ⟨rfl, e, rfl⟩
  rw [global]
  simp only [List.isEmpty_nil, ite_true]
  split <;> exact files

/-- A success of the selection is one of the file backend. -/
theorem apply_files_ok {P : ResolvConf.SetDns → Fs → Prop}
    (absent : bus.hasOwner Resolved.destination = false) (global : config.domains = [])
    (quiet : Safe W (fun _ => True) (fun _ fs' => fs' = fs) ResolvConf.isManagedByResolved fs)
    (applied : Safe W (fun _ => True) (fun r fs' => ∀ inner, r = .ok inner → P inner fs')
      (ResolvConf.apply config).run fs) :
    Safe (Resolve1.faulty.both W) (fun _ => True)
      (fun r s => ∀ handle, r = .ok handle → ∃ inner, handle = .resolvConf inner ∧ s.1 = bus ∧
        P inner s.2) (apply config).run (bus, fs) := by
  refine apply_files absent global (quiet.post ?_)
  rintro owned _ - rfl
  cases owned with
  | true => rintro _ ⟨⟩
  | false =>
      refine applied.post fun r fs' _ holds => ?_
      rintro handle same
      cases r with
      | error e => cases same
      | ok inner =>
          cases same
          exact ⟨inner, rfl, rfl, holds inner rfl⟩

theorem close_files {inner : ResolvConf.SetDns} {R : Except Error Unit → Fs → Prop}
    (closed : Safe W (fun _ => True) (fun r fs' => R (r.mapError .resolvConf) fs')
      (ResolvConf.close inner).run fs) :
    Safe (Resolve1.faulty.both W) (fun _ => True) (fun r s => R r s.2)
      (close (.resolvConf inner)).run (bus, fs) :=
  Safe.mapErr ((Safe.right closed bus).imp (fun _ _ => trivial) fun _ _ _ holds => holds)

end Unavailable

section Recovery

/-- No manager on the bus, and a plain file of somebody else without a backup. -/
structure Environment (bus : Resolve1.Machine) (original : Bytes) (fs : Fs) : Prop where
  absent : bus.hasOwner Resolved.destination = false
  dir : fs ResolvConf.etc = some .dir
  text : Utf8 original
  file : fs ResolvConf.resolvConf = some (.file original)
  unmanaged : ResolvConf.resolvConfOnlyUsesResolvedStub original = false
  unowned : ¬ ResolvConf.HasOwnerHeader original
  free : fs ResolvConf.backup = none

/-- Applying without faults of the file system succeeds, and closing the new handle
brings the original back. -/
def Recovers (walk : Bytes → Bytes) (original : Bytes) (config : NormalizedConfig)
    (s : Resolve1.Machine × Fs) : Prop :=
  ∀ r s₁, Ends (Resolve1.faulty.both (Files.calm walk)) (apply config).run s r s₁ →
    ∃ handle, r = .ok handle ∧
      ∀ r' s₂, Ends (Resolve1.faulty.both (Files.calm walk)) (close handle).run s₁ r' s₂ →
        r' = .ok () ∧ s₂.2 ResolvConf.resolvConf = some (.file original) ∧
          s₂.2 ResolvConf.backup = none

variable (walk : Bytes → Bytes) {bus : Resolve1.Machine} {original : Bytes} {fs : Fs}
  {config first second : NormalizedConfig} {owner : Bytes}

theorem Environment.foreign (env : Environment bus original fs) (valid : ValidOwner owner) :
    ¬ ResolvConf.ownerHeader owner <+: original :=
  fun marked => env.unowned ⟨owner, valid, marked⟩

theorem Environment.plainRc (env : Environment bus original fs) :
    Files.Plain fs ResolvConf.resolvConf :=
  Files.plain_iff.mpr (.inr ⟨original, env.file⟩)

theorem Environment.ready (env : Environment bus original fs)
    (plain : Files.Plain fs ResolvConf.temp) : ResolvConf.Ready fs :=
  ⟨env.plainRc, Files.plain_iff.mpr (.inl env.free), plain, env.dir⟩

/-- The file that an application installs, and what it leaves there. -/
def generated (config : NormalizedConfig) : Bytes :=
  ResolvConf.renderResolvConf config.owner config.servers

def left (original : Bytes) (config : NormalizedConfig) (fs : Fs) : Fs :=
  ResolvConf.installed fs original (generated config)

/-- Whatever fails besides, a success has installed the generated file. -/
theorem apply_installs (env : Environment bus original fs)
    (plain : Files.Plain fs ResolvConf.temp) (valid : ValidOwner config.owner)
    (global : config.domains = []) :
    Safe (Resolve1.faulty.both (Files.faulty walk)) (fun _ => True)
      (fun r s => ∀ handle, r = .ok handle → s = (bus, left original config fs))
      (apply config).run (bus, fs) := by
  refine (apply_files_ok env.absent global (ResolvConf.isManagedByResolved_quiet walk fs)
    ((ResolvConf.apply_stopped walk (env.ready plain) env.file (env.foreign valid)).imp
      (fun _ _ => trivial) fun _ _ _ done => done)).post fun r s _ installed handle ok => ?_
  obtain ⟨inner, -, same, -, left⟩ := installed handle ok
  exact Prod.ext same left

/-- Without faults of the file system an application succeeds. -/
theorem apply_succeeds (env : Environment bus original fs)
    (plain : Files.Plain fs ResolvConf.temp) (valid : ValidOwner config.owner)
    (global : config.domains = []) :
    Safe (Resolve1.faulty.both (Files.calm walk)) (fun _ => True)
      (fun r s => ∃ handle, r = .ok handle ∧ s = (bus, left original config fs))
      (apply config).run (bus, fs) := by
  refine apply_files env.absent global
    (Safe.post (ResolvConf.isManagedByResolved_calm walk env.file env.text) ?_)
  rintro _ _ - ⟨rfl, rfl⟩
  rw [env.unmanaged]
  have ready := env.ready plain
  refine Safe.post (ResolvConf.apply_fresh walk global (ResolvConf.cleanupResidual_foreign walk
    ready env.file env.text (env.foreign valid)) ready env.free env.file) ?_
  rintro _ _ - ⟨rfl, rfl⟩
  exact ⟨_, rfl, rfl⟩

theorem leftover_left (env : Environment bus original fs) (plain : Files.Plain fs ResolvConf.temp)
    (config : NormalizedConfig) :
    ResolvConf.Leftover original (generated config) (left original config fs) :=
  ⟨ResolvConf.ready_installed (env.ready plain) _ _, .inr ⟨ResolvConf.installed_backup _, _,
    .inl List.prefix_rfl, ResolvConf.installed_resolvConf _⟩⟩

theorem markedFor_left (original : Bytes) (config : NormalizedConfig) (fs : Fs) :
    ResolvConf.MarkedFor config.owner (left original config fs) :=
  ⟨_, ResolvConf.installed_resolvConf _, ResolvConf.ownerHeader_prefix_render _ _⟩

/-- Where the selection leads to the file backend, it recovers as that backend does. -/
theorem recovers_of_files (absent : bus.hasOwner Resolved.destination = false)
    (global : config.domains = []) (files : ResolvConf.Recovers walk original config fs)
    (unmanaged : Safe (Files.calm walk) (fun _ => True)
      (fun owned fs' => owned = false ∧ fs' = fs) ResolvConf.isManagedByResolved fs) :
    Recovers walk original config (bus, fs) := by
  have applied : Safe (Resolve1.faulty.both (Files.calm walk)) (fun _ => True)
      (fun r s₁ => ∃ handle, r = .ok handle ∧ ∀ r' s₂,
        Ends (Resolve1.faulty.both (Files.calm walk)) (close handle).run s₁ r' s₂ →
          r' = .ok () ∧ s₂.2 ResolvConf.resolvConf = some (.file original) ∧
            s₂.2 ResolvConf.backup = none) (apply config).run (bus, fs) := by
    refine apply_files absent global (unmanaged.post ?_)
    rintro _ _ - ⟨rfl, rfl⟩
    refine safe_iff.mpr ⟨fun _ _ => trivial, fun r fs₁ run => ?_⟩
    obtain ⟨inner, rfl, closes⟩ := files r fs₁ run
    refine ⟨.resolvConf inner, rfl, fun r' s₂ run => ?_⟩
    refine (close_files (R := fun r' fs₂ => r' = .ok () ∧
      fs₂ ResolvConf.resolvConf = some (.file original) ∧ fs₂ ResolvConf.backup = none)
      (safe_iff.mpr ⟨fun _ _ => trivial, fun r'' fs₂ ended => ?_⟩)).ends run
    obtain ⟨rfl, restored⟩ := closes r'' fs₂ ended
    exact ⟨rfl, restored⟩
  exact fun r s₁ run => applied.ends run

/-- The generated file is classified before the cleanup looks at it. -/
theorem recovers_iff_unmanaged (env : Environment bus original fs)
    (plain : Files.Plain fs ResolvConf.temp) (valid : ValidOwner first.owner)
    (same : second.owner = first.owner) (global : second.domains = []) :
    Recovers walk original second (bus, left original first fs) ↔
      ResolvConf.resolvConfOnlyUsesResolvedStub (generated first) = false := by
  have file : left original first fs ResolvConf.resolvConf = some (.file (generated first)) :=
    ResolvConf.installed_resolvConf _
  have managed := ResolvConf.isManagedByResolved_calm walk file
    (ResolvConf.ascii_render valid.ascii first.servers).utf8
  cases stub : ResolvConf.resolvConfOnlyUsesResolvedStub (generated first) with
  | true =>
      refine iff_of_false (fun recovers => ?_) (by simp)
      have refused : Safe (Resolve1.faulty.both (Files.calm walk)) (fun _ => True)
          (fun r _ => r = .error managedByResolved) (apply second).run
          (bus, left original first fs) := by
        refine apply_files env.absent global (Safe.post managed ?_)
        rintro _ _ - ⟨rfl, rfl⟩
        rw [stub]
        rfl
      obtain ⟨r, s, run⟩ := exists_ends (Resolve1.faulty_total.both (Files.calm_total walk))
        (apply second).run (bus, left original first fs)
      obtain ⟨handle, rfl, -⟩ := recovers r s run
      cases refused.ends run
  | false =>
      refine iff_of_true ?_ rfl
      have files := (ResolvConf.leftover_recovers_iff walk valid same global env.text
        (env.foreign valid) (leftover_left env plain first)).mpr (.inr (markedFor_left _ _ _))
      refine recovers_of_files walk env.absent global files (Safe.post managed ?_)
      rintro _ _ - ⟨rfl, rfl⟩
      exact ⟨stub, rfl⟩

/-- What the next application makes of a forgotten handle does not depend on the run
that left it. -/
theorem forgotten_recovers_iff (env : Environment bus original fs)
    (plain : Files.Plain fs ResolvConf.temp) (valid : ValidOwner first.owner)
    (global : first.domains = [])
    (same : second.owner = first.owner) (global' : second.domains = []) :
    (∀ handle s, Ends (Resolve1.faulty.both (Files.faulty walk)) (apply first).run (bus, fs)
        (.ok handle) s → Recovers walk original second s) ↔
      ResolvConf.resolvConfOnlyUsesResolvedStub (generated first) = false := by
  rw [← recovers_iff_unmanaged walk env plain valid same global']
  constructor
  · intro recovers
    have faulty : Safe (Resolve1.faulty.both (Files.faulty walk)) (fun _ => True)
        (fun r s => ∀ handle, r = .ok handle → Recovers walk original second s)
        (apply first).run (bus, fs) :=
      safe_iff.mpr ⟨fun _ _ => trivial, fun r s run handle ok => recovers handle s (ok ▸ run)⟩
    have calm : Safe (Resolve1.faulty.both (Files.calm walk)) (fun _ => True)
        (fun r s => ∀ handle, r = .ok handle → Recovers walk original second s)
        (apply first).run (bus, fs) := by
      refine faulty.of_le (World.answers_both_right fun _ _ _ _ => .inl) ?_
      rintro s (c | c) s' cut <;> exact cut
    obtain ⟨r, s, run⟩ := exists_ends (Resolve1.faulty_total.both (Files.calm_total walk))
      (apply first).run (bus, fs)
    obtain ⟨handle, rfl, rfl⟩ := (apply_succeeds walk env plain valid global).ends run
    exact calm.ends run handle rfl
  · intro recovers handle s run
    rw [(apply_installs walk env plain valid global).ends run handle rfl]
    exact recovers

/-- A file that has become a link is not the original again. -/
theorem not_recovers_of_link {target : Bytes} (absent : bus.hasOwner Resolved.destination = false)
    (global : config.domains = []) (link : fs ResolvConf.resolvConf = some (.link target)) :
    ¬ Recovers walk original config (bus, fs) := by
  intro recovers
  have applied := apply_files_ok absent global
    (ResolvConf.safe_routed (ResolvConf.isManagedByResolved_quiet walk fs))
    (ResolvConf.apply_busyRoute config link)
  have closed : ∀ inner s, s.2 ResolvConf.resolvConf = some (.link target) →
      Safe (Resolve1.faulty.both (ResolvConf.routed walk true)) (fun _ => True)
        (fun _ s' => s'.2 ResolvConf.resolvConf = some (.link target))
        (close (.resolvConf inner)).run s :=
    fun inner s link' => close_files (R := fun _ fs' =>
      fs' ResolvConf.resolvConf = some (.link target)) (ResolvConf.close_busyRoute inner link')
  have calm := @World.answers_both_right _ _ _ _ _ _ Resolve1.faulty
    (ResolvConf.routed walk true) (Files.calm walk) fun _ _ _ _ answer => ⟨true, answer⟩
  have total := Resolve1.faulty_total.both (ResolvConf.routed_total walk true)
  obtain ⟨r, s, run⟩ := exists_ends total (apply config).run (bus, fs)
  obtain ⟨handle, rfl, closes⟩ := recovers r s (run.mono calm)
  obtain ⟨inner, rfl, -, link'⟩ := applied.ends run handle rfl
  obtain ⟨r', s', run'⟩ := exists_ends total (close (.resolvConf inner)).run s
  obtain ⟨-, file, -⟩ := closes r' s' (run'.mono calm)
  have kept : s'.2 ResolvConf.resolvConf = some (.link target) :=
    (closed inner s link').ends run'
  rw [file] at kept
  cases kept

/-- On the plain route a link under the temporary name becomes the file. -/
theorem apply_links {target : Bytes} (env : Environment bus original fs)
    (opens : Files.refusal walk fs ResolvConf.temp = none)
    (link : fs ResolvConf.temp = some (.link target)) (valid : ValidOwner config.owner)
    (global : config.domains = []) :
    ∃ handle fs', Ends (Resolve1.faulty.both (Files.faulty walk)) (apply config).run (bus, fs)
      (.ok handle) (bus, fs') ∧ fs' ResolvConf.resolvConf = some (.link target) := by
  have accepted : ResolvConf.Accepted walk original fs :=
    ⟨(Files.readFile_of_plain env.plainRc).mpr env.file, env.text, env.free, opens, env.dir⟩
  have applied : Safe (Resolve1.faulty.both (ResolvConf.routed walk false)) (fun _ => True)
      (fun r s => ∃ handle fs', r = .ok handle ∧ s = (bus, fs') ∧
        fs' ResolvConf.resolvConf = some (.link target)) (apply config).run (bus, fs) := by
    refine apply_files env.absent global (Safe.post ((ResolvConf.isManagedByResolved_calm walk
      env.file env.text).of_handler (Files.calm_perform walk false)) ?_)
    rintro _ _ - ⟨rfl, rfl⟩
    rw [env.unmanaged]
    refine Safe.post (ResolvConf.apply_replaces accepted (env.foreign valid) global) ?_
    rintro _ _ - ⟨rfl, rfl⟩
    refine ⟨_, _, rfl, rfl, ?_⟩
    rw [ResolvConf.replaced_resolvConf, accepted.written_link _ ⟨target, link⟩, link]
  obtain ⟨r, s, run⟩ := exists_ends (Resolve1.faulty_total.both
    (ResolvConf.routed_total walk false)) (apply config).run (bus, fs)
  obtain ⟨handle, fs', rfl, rfl, link'⟩ := applied.ends run
  exact ⟨handle, fs', run.mono (World.answers_both_right fun _ _ _ _ answer =>
    .inl ⟨false, answer⟩), link'⟩

/-- Without a temporary name that can be opened no application succeeds. -/
theorem apply_fails (env : Environment bus original fs)
    (refused : Files.refusal walk fs ResolvConf.temp ≠ none) (valid : ValidOwner config.owner)
    (global : config.domains = []) :
    Safe (Resolve1.faulty.both (Files.faulty walk)) (fun _ => True)
      (fun r _ => ∀ handle, r ≠ .ok handle) (apply config).run (bus, fs) := by
  refine (apply_files_ok (P := fun _ _ => False) env.absent global
    (ResolvConf.isManagedByResolved_quiet walk fs)
    ((ResolvConf.apply_unopened walk refused (Files.plain_iff.mpr (.inl env.free)) env.file
      (env.foreign valid)).imp (fun _ _ => trivial) fun r _ _ failed => ?_)).post ?_
  · exact fun inner ok => failed inner ok
  · intro r s _ failed handle ok
    obtain ⟨-, -, -, impossible⟩ := failed handle ok
    exact impossible

/-- After a forgotten handle the next application of its owner recovers exactly when no link was
under the temporary name and one of the servers was not an address of the stub, unless there is
no such handle. -/
theorem forgotten_recovery_iff (env : Environment bus original fs)
    (valid : ValidOwner first.owner) (nonempty : first.servers ≠ []) (global : first.domains = [])
    (same : second.owner = first.owner) (global' : second.domains = []) :
    (∀ handle s, Ends (Resolve1.faulty.both (Files.faulty walk)) (apply first).run (bus, fs)
        (.ok handle) s → Recovers walk original second s) ↔
      Files.refusal walk fs ResolvConf.temp ≠ none ∨
        Files.Plain fs ResolvConf.temp ∧
          ∃ server ∈ first.servers, ¬ ResolvConf.IsStub server := by
  by_cases opens : Files.refusal walk fs ResolvConf.temp = none
  swap
  · refine iff_of_true (fun handle s run => ?_) (.inl opens)
    exact absurd rfl ((apply_fails walk env opens valid global).ends run handle)
  rw [or_iff_right (not_not.mpr opens)]
  by_cases link : Files.IsLink fs ResolvConf.temp
  · refine iff_of_false (fun recovers => ?_) (fun both => both.1.not_link link)
    obtain ⟨target, link⟩ := link
    obtain ⟨handle, fs', run, link'⟩ := apply_links walk env opens link valid global
    exact not_recovers_of_link walk env.absent global' link' (recovers handle _ run)
  · have plain : Files.Plain fs ResolvConf.temp := by
      have ends := Files.plain_of_opens opens
      rwa [Files.follow_of_not_link walk link] at ends
    rw [forgotten_recovers_iff walk env plain valid global same global', generated,
      ResolvConf.resolvConfOnlyUsesResolvedStub_render valid]
    simp [nonempty, plain]

end Recovery

section Sample

/-- A bus without the manager. -/
def sampleBus : Resolve1.Machine := ⟨fun _ => false, fun _ => 0, fun _ => none⟩

set_option maxRecDepth 20000 in
theorem sample_environment :
    Environment sampleBus ResolvConf.sampleContent ResolvConf.sampleFs where
  absent := rfl
  dir := ResolvConf.sample_ready.dir
  text := by decide
  file := rfl
  unmanaged := by decide
  unowned := ResolvConf.sample_unowned
  free := by decide

theorem forgotten_recovery_sample :
    (∀ handle s, Ends (Resolve1.faulty.both (Files.faulty id))
        (apply (ResolvConf.sampleConfig "a")).run (sampleBus, ResolvConf.sampleFs) (.ok handle) s →
        Recovers id ResolvConf.sampleContent (ResolvConf.sampleConfig "a") s) ↔
      Files.refusal id ResolvConf.sampleFs ResolvConf.temp ≠ none ∨
        Files.Plain ResolvConf.sampleFs ResolvConf.temp ∧
          ∃ server ∈ (ResolvConf.sampleConfig "a").servers, ¬ ResolvConf.IsStub server :=
  forgotten_recovery_iff id sample_environment
    (show ValidOwner (ResolvConf.sampleConfig "a").owner by decide) (by decide) rfl rfl rfl

def stubConfig : NormalizedConfig := ⟨bytes "a", [.v4 ⟨127, 0, 0, 53⟩], [], none⟩

set_option maxRecDepth 20000 in
/-- A local server behind the address of the stub locks its own owner out. -/
theorem stub_server_blocks_recovery :
    ¬ ∀ (walk : Bytes → Bytes) (bus : Resolve1.Machine) (original : Bytes) (fs : Fs)
      (first second : NormalizedConfig), Environment bus original fs → ValidOwner first.owner →
      first.servers ≠ [] → second.servers ≠ [] → first.domains = [] → second.owner = first.owner →
      second.domains = [] → ∀ handle s,
        Ends (Resolve1.faulty.both (Files.faulty walk)) (apply first).run (bus, fs) (.ok handle) s →
          Recovers walk original second s := by
  intro claim
  have valid : ValidOwner stubConfig.owner := by decide
  have recovers := claim id sampleBus ResolvConf.sampleContent ResolvConf.sampleFs stubConfig
    stubConfig sample_environment valid (by decide) (by decide) rfl rfl rfl
  have unmanaged := (forgotten_recovers_iff id sample_environment
    ResolvConf.sample_ready.plainTemp valid rfl rfl rfl).mp recovers
  exact absurd unmanaged (by decide)

end Sample

end Setdns.Linux
