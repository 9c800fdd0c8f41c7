import Setdns.Linux.Resolved

/-!
What the `systemd-resolved` backend leaves on a link: after an application that
stops at a failed call, and after the handle of a successful one is closed. The
settings are replaced one by one and nothing takes them back when a later call
fails. Closing reverts the link to its defaults, whatever it was before.
-/

namespace Setdns.Linux.Resolved

open Text Effects Effects.Program Effects.Resolve1

/-- The settings that an application gives to the link. -/
def wanted (config : NormalizedConfig) : Link :=
  ⟨dnsServers config.servers,
    if config.domains.isEmpty then [(bytes ".", true)]
    else config.domains.map fun suffix => (resolvedDomain suffix.domain, true),
    some config.domains.isEmpty⟩

theorem wanted_defaultRoute (config : NormalizedConfig) :
    (wanted config).defaultRoute = some config.domains.isEmpty := rfl

/-- Both modes make the same calls. -/
theorem apply_eq (manager : Manager) (config : NormalizedConfig) (device : config.device.isSome) :
    manager.apply config device = (do
      let ifindex ← interfaceIndex (bytes (config.device.get device))
      managerProxy
      call "SetLinkDNS" (Bus.setLinkDns ifindex (wanted config).dns)
      call "SetLinkDomains" (Bus.setLinkDomains ifindex (wanted config).domains)
      call "SetLinkDefaultRoute" (Bus.setLinkDefaultRoute ifindex config.domains.isEmpty)
      call "FlushCaches" Bus.flushCaches
      pure ⟨ifindex⟩ : Result SetDns) := by
  unfold Manager.apply wanted
  cases config.domains.isEmpty <;> simp

section Failing

variable {fails : BusCall → Prop} {s : Machine} {ifindex : Int32} {link : Link}

/-- The calls that configure the link. -/
def Configures : BusCall → Prop
  | .setLinkDns _ _ | .setLinkDomains _ _ | .setLinkDefaultRoute _ _ | .flushCaches => True
  | _ => False

/-- The device names a link with these settings. -/
structure Names (s : Machine) (device : Bytes) (ifindex : Int32) (link : Link) : Prop where
  text : 0 ∉ device
  index : s.index device ≠ 0
  number : (s.index device).toInt32 = ifindex
  settings : s.links ifindex = some link

/-- Up to the call that fails first, every setting that was replaced had the new value already. -/
def Harmless (fails : BusCall → Prop) (config : NormalizedConfig) (ifindex : Int32) (link : Link) :
    Prop :=
  fails (.setLinkDns ifindex (wanted config).dns) ∨ (wanted config).dns = link.dns ∧
    (fails (.setLinkDomains ifindex (wanted config).domains) ∨
      (wanted config).domains = link.domains ∧
      (fails (.setLinkDefaultRoute ifindex config.domains.isEmpty) ∨
        (wanted config).defaultRoute = link.defaultRoute))

theorem planned_call {c : BusCall} {t : Machine} {ask : BusCall.Ret c → Except BusError Unit}
    {r : BusCall.Ret c} {method : String} (performed : s.perform c = (r, t)) (ok : ask r = .ok ())
    (fault : ∀ errno, ask (failure errno c) = .error (.failed errno)) :
    Safe (planned fails) (fun _ => True)
      (fun r' t' => (∃ e, r' = .error e ∧ t' = s ∧ fails c) ∨ (r' = .ok () ∧ t' = t ∧ ¬ fails c))
      (call method (.call c fun r => .ret (ask r))).run s := by
  refine Safe.mapErr ⟨trivial, fun _ _ => trivial, fun r' t' answer => ⟨trivial, ?_⟩⟩
  rcases answer with ⟨failed, ⟨errno, rfl⟩, rfl⟩ | ⟨kept, given⟩
  · exact .inl ⟨_, by rw [fault]; rfl, rfl, failed⟩
  · obtain ⟨rfl, rfl⟩ := Prod.mk.inj (performed.symm.trans given)
    exact .inr ⟨by rw [ok]; rfl, rfl, kept⟩

theorem change_there (there : s.links ifindex = some link) (f : Link → Link) :
    s.change ifindex f = (.ok (), s.set ifindex (f link)) := by
  simp [Machine.change, there]

@[simp] theorem links_set (s : Machine) (ifindex : Int32) (link : Link) :
    (s.set ifindex link).links ifindex = some link := by
  simp [Machine.set]

theorem interfaceIndex_spec {device : Bytes} (only : ∀ c, fails c → Configures c)
    (names : Names s device ifindex link) :
    Safe (planned fails) (fun _ => True) (fun r t => r = .ok ifindex ∧ t = s)
      (interfaceIndex device).run s := by
  unfold interfaceIndex
  rw [if_neg names.text]
  refine Safe.lift ⟨trivial, fun _ _ => trivial, fun r t answer => ?_⟩
  rcases answer with ⟨failed, -⟩ | ⟨-, given⟩
  · exact (only _ failed).elim
  · obtain ⟨rfl, rfl⟩ := Prod.mk.inj given
    refine ⟨trivial, ?_⟩
    simp only [if_neg names.index, names.number]
    exact ⟨trivial, rfl, rfl⟩

theorem managerProxy_spec (only : ∀ c, fails c → Configures c) :
    Safe (planned fails) (fun _ => True) (fun r t => r = .ok () ∧ t = s) managerProxy.run s := by
  refine Safe.mapErr ⟨trivial, fun _ _ => trivial, fun r t answer => ⟨trivial, ?_⟩⟩
  rcases answer with ⟨failed, -⟩ | ⟨-, given⟩
  · exact (only _ failed).elim
  · obtain ⟨rfl, rfl⟩ := Prod.mk.inj given
    exact ⟨rfl, rfl⟩

theorem apply_fails_spec {config : NormalizedConfig} (device : config.device.isSome)
    (only : ∀ c, fails c → Configures c)
    (names : Names s (bytes (config.device.get device)) ifindex link) (manager : Manager) :
    Safe (planned fails) (fun _ => True)
      (fun r t => ∀ e, r = .error e →
        (t.links ifindex = some link ↔ Harmless fails config ifindex link))
      (manager.apply config device).run s := by
  rw [apply_eq]
  refine Safe.tryBind (interfaceIndex_spec only names) ?_ (by simp)
  rintro _ t - ⟨⟨⟩, rfl⟩
  refine Safe.tryBind (managerProxy_spec only) ?_ (by simp)
  rintro _ t - ⟨-, rfl⟩
  refine Safe.tryBind (planned_call (change_there names.settings _) rfl fun _ => rfl) ?_ ?_
  swap
  · rintro _ t - (⟨_, -, rfl, failed⟩ | ⟨⟨⟩, -⟩) e -
    exact ⟨fun _ => .inl failed, fun _ => names.settings⟩
  rintro _ _ - (⟨_, ⟨⟩, -⟩ | ⟨-, rfl, dns⟩)
  refine Safe.tryBind (planned_call (change_there (links_set _ _ _) _) rfl fun _ => rfl) ?_ ?_
  swap
  · rintro _ t - (⟨_, -, rfl, failed⟩ | ⟨⟨⟩, -⟩) e -
    simp [Harmless, dns, failed, Link.ext_iff]
  rintro _ _ - (⟨_, ⟨⟩, -⟩ | ⟨-, rfl, domains⟩)
  refine Safe.tryBind (planned_call (change_there (links_set _ _ _) _) rfl fun _ => rfl) ?_ ?_
  swap
  · rintro _ t - (⟨_, -, rfl, failed⟩ | ⟨⟨⟩, -⟩) e -
    simp [Harmless, dns, domains, failed, Link.ext_iff]
  rintro _ _ - (⟨_, ⟨⟩, -⟩ | ⟨-, rfl, route⟩)
  refine Safe.tryBind (planned_call (c := .flushCaches) rfl rfl fun _ => rfl) ?_ ?_
  swap
  · rintro _ t - (⟨_, -, rfl, failed⟩ | ⟨⟨⟩, -⟩) e -
    simp [Harmless, dns, domains, route, Link.ext_iff, wanted_defaultRoute]
  rintro _ _ - -
  exact ⟨trivial, by simp⟩

/-- A failed application has kept the settings of the link exactly when nothing was changed
before the call that failed. -/
theorem failed_apply_keeps_link_iff {config : NormalizedConfig} {device : config.device.isSome}
    {manager : Manager} {e : ResolvedError} {t : Machine} (only : ∀ c, fails c → Configures c)
    (names : Names s (bytes (config.device.get device)) ifindex link)
    (run : Ends (planned fails) (manager.apply config device).run s (.error e) t) :
    t.links ifindex = some link ↔ Harmless fails config ifindex link :=
  (apply_fails_spec device only names manager).ends run e rfl

section Sample

def sampleDevice : String := "tun0"

/-- One link, and a network manager that may have configured it. -/
def sampleMachine (link : Link) : Machine :=
  ⟨fun _ => true, fun device => if device = bytes sampleDevice then 7 else 0,
    fun ifindex => if ifindex = 7 then some link else none⟩

def sampleLink : Link := ⟨[(AF_INET, [192, 168, 1, 1])], [(bytes "lan", false)], some true⟩

def sampleConfig : NormalizedConfig := ⟨bytes "vpn", [.v4 ⟨10, 0, 0, 53⟩], [], some sampleDevice⟩

/-- The bus where the domains of a link cannot be set. -/
def sampleFails (c : BusCall) : Bool :=
  match c with
  | .setLinkDomains _ _ => true
  | _ => false

def sampleHandler : Handler BusCall BusCall.Ret Machine := fun s c =>
  if sampleFails c then (failure 5 c, s) else s.perform c

theorem sampleHandler_planned (s : Machine) (c : BusCall) :
    (planned fun c => sampleFails c = true).answers s c (sampleHandler s c).1
      (sampleHandler s c).2 := by
  unfold sampleHandler
  cases failed : sampleFails c with
  | true => exact .inl ⟨failed, ⟨5, rfl⟩, rfl⟩
  | false => exact .inr ⟨by simp [failed], rfl⟩

def sampleFailed : Except ResolvedError SetDns × Machine :=
  exec sampleHandler ((⟨⟩ : Manager).apply sampleConfig rfl).run (sampleMachine sampleLink)

def sampleError : ResolvedError := .method (bytes "SetLinkDomains") (.failed 5)

theorem sampleNames : Names (sampleMachine sampleLink) (bytes "tun0") 7 sampleLink :=
  ⟨by decide, by decide, by decide, rfl⟩

theorem sampleFails_configures (c : BusCall) (failed : sampleFails c = true) : Configures c := by
  cases c <;> trivial

set_option maxRecDepth 20000 in
theorem sampleFailed_ends : Ends (planned fun c => sampleFails c = true)
    ((⟨⟩ : Manager).apply sampleConfig rfl).run (sampleMachine sampleLink) (.error sampleError)
    sampleFailed.2 := by
  have failed : sampleFailed.1 = .error sampleError := by decide
  rw [← failed]
  exact ends_exec sampleHandler_planned _ _

set_option maxRecDepth 20000 in
theorem failed_apply_keeps_link_sample : sampleFailed.2.links 7 ≠ some sampleLink :=
  mt (failed_apply_keeps_link_iff sampleFails_configures sampleNames
    sampleFailed_ends).mp (by unfold Harmless; decide)

set_option maxRecDepth 20000 in
theorem failed_apply_loses_servers :
    ¬ ∀ (fails : BusCall → Prop) (config : NormalizedConfig) (device : config.device.isSome)
      (manager : Manager) (s : Machine) (ifindex : Int32) (link : Link) (e : ResolvedError)
      (t : Machine), (∀ c, fails c → Configures c) →
      Names s (bytes (config.device.get device)) ifindex link →
      Ends (planned fails) (manager.apply config device).run s (.error e) t →
      t.links ifindex = some link := by
  intro keeps
  have kept := keeps _ _ _ _ _ _ _ _ _ sampleFails_configures sampleNames
    sampleFailed_ends
  exact absurd kept (by decide)

end Sample

end Failing

section Closing

variable {s t u : Machine} {ifindex : Int32} {config : NormalizedConfig}
  {device : config.device.isSome} {manager : Manager} {handle : SetDns}

/-- All other links have kept their settings. -/
def Elsewhere (ifindex : Int32) (s t : Machine) : Prop :=
  ∀ other, other ≠ ifindex → t.links other = s.links other

/-- The links that a call changes. -/
def Changes : BusCall → Int32 → Prop
  | .setLinkDns i _, ifindex | .setLinkDomains i _, ifindex | .setLinkDefaultRoute i _, ifindex
  | .revertLink i, ifindex => i = ifindex
  | _, _ => False

theorem change_elsewhere (s : Machine) (f : Link → Link) :
    Elsewhere ifindex s (s.change ifindex f).2 := by
  intro other ne
  unfold Machine.change
  cases s.links ifindex with
  | none => rfl
  | some link => exact Function.update_of_ne ne _ _

theorem perform_elsewhere {c : BusCall} (only : ∀ i, Changes c i → i = ifindex) (s : Machine) :
    Elsewhere ifindex s (s.perform c).2 := by
  cases c with
  | setLinkDns i addresses => exact only i rfl ▸ change_elsewhere s _
  | setLinkDomains i domains => exact only i rfl ▸ change_elsewhere s _
  | setLinkDefaultRoute i enable => exact only i rfl ▸ change_elsewhere s _
  | revertLink i => exact only i rfl ▸ change_elsewhere s _
  | _ => exact fun _ _ => rfl

theorem elsewhere_call {c : BusCall} {ask : BusCall.Ret c → Except BusError Unit}
    {error : BusError → ResolvedError} (only : ∀ i, Changes c i → i = ifindex)
    (same : Elsewhere ifindex s t) :
    Safe faulty (fun _ => True) (fun _ u => Elsewhere ifindex s u)
      (mapErr (.call c fun r => .ret (ask r)) error).run t := by
  refine Safe.mapErr ⟨trivial, fun _ _ => trivial, fun r u answer => ⟨trivial, ?_⟩⟩
  rcases answer with given | ⟨-, rfl⟩
  · have next : u = (t.perform c).2 := by rw [given]
    intro other ne
    rw [next, perform_elsewhere only t other ne, same other ne]
  · exact same

theorem quiet_answer {c : BusCall} {r : BusCall.Ret c} (same : ∀ t : Machine, (t.perform c).2 = t)
    (answer : faulty.answers t c r u) : u = t := by
  rcases answer with given | ⟨-, rfl⟩
  · rw [← same t, given]
  · rfl

theorem interfaceIndex_same (device : Bytes) (s : Machine) :
    Safe faulty (fun _ => True) (fun _ t => t = s) (interfaceIndex device).run s := by
  unfold interfaceIndex
  split
  · exact ⟨trivial, rfl⟩
  · refine Safe.lift ⟨trivial, fun _ _ => trivial, fun r t answer => ?_⟩
    obtain rfl := quiet_answer (fun _ => rfl) answer
    refine ⟨trivial, ?_⟩
    dsimp only
    split <;> exact ⟨trivial, rfl⟩

theorem apply_elsewhere (manager : Manager) (config : NormalizedConfig)
    (device : config.device.isSome) (s : Machine) :
    Safe faulty (fun _ => True)
      (fun r t => ∀ handle, r = .ok handle → Elsewhere handle.ifindex s t)
      (manager.apply config device).run s := by
  rw [apply_eq]
  refine Safe.tryBind (interfaceIndex_same _ s) ?_ (by simp)
  rintro ifindex t - rfl
  have start : Elsewhere ifindex t t := fun _ _ => rfl
  refine Safe.tryBind (elsewhere_call (by rintro i ⟨⟩) start) ?_ (by simp)
  rintro _ t₁ - same
  refine Safe.tryBind (elsewhere_call (by rintro i rfl; rfl) same) ?_ (by simp)
  rintro _ t₂ - same
  refine Safe.tryBind (elsewhere_call (by rintro i rfl; rfl) same) ?_ (by simp)
  rintro _ t₃ - same
  refine Safe.tryBind (elsewhere_call (by rintro i rfl; rfl) same) ?_ (by simp)
  rintro _ t₄ - same
  refine Safe.tryBind (elsewhere_call (by rintro i ⟨⟩) same) ?_ (by simp)
  rintro _ t₅ - same
  refine ⟨trivial, ?_⟩
  rintro _ ⟨⟩
  exact same

/-- A successful close leaves the defaults, and other links alone. -/
theorem close_spec (handle : SetDns) (s : Machine) :
    Safe faulty (fun _ => True)
      (fun r t => r = .ok () →
        t.links handle.ifindex = some .default ∧ Elsewhere handle.ifindex s t)
      (close handle).run s := by
  refine Safe.tryBind (M := fun _ t => t = s) (Safe.mapErr ⟨trivial, fun _ _ => trivial,
    fun r t answer => ⟨trivial, quiet_answer (fun _ => rfl) answer⟩⟩) ?_ (by simp)
  rintro _ t - rfl
  refine Safe.tryBind (M := fun r u => r = .ok () → u.links handle.ifindex = some .default ∧
    Elsewhere handle.ifindex t u) (Safe.mapErr ⟨trivial, fun _ _ => trivial,
      fun r u answer => ⟨trivial, ?_⟩⟩) ?_ (by simp)
  · rcases answer with given | ⟨⟨errno, rfl⟩, rfl⟩
    · have given : t.change handle.ifindex (fun _ => .default) = (r, u) := given
      cases there : t.links handle.ifindex with
      | none =>
          simp only [Machine.change, there] at given
          obtain ⟨rfl, -⟩ := Prod.mk.inj given
          rintro ⟨⟩
      | some link =>
          have elsewhere : Elsewhere handle.ifindex t
              (t.change handle.ifindex fun _ => .default).2 := change_elsewhere t _
          rw [given] at elsewhere
          rw [change_there there] at given
          obtain ⟨-, rfl⟩ := Prod.mk.inj given
          exact fun _ => ⟨links_set _ _ _, elsewhere⟩
    · rintro ⟨⟩
  · rintro _ u - reverted
    refine Safe.mapErr ⟨trivial, fun _ _ => trivial, fun r v answer => ⟨trivial, fun _ => ?_⟩⟩
    rw [quiet_answer (fun _ => rfl) answer]
    exact reverted rfl

/-- Closing restores the link exactly when it had no settings before. The other links keep theirs
in any case. -/
theorem closed_link_restored_iff
    (applied : Ends faulty (manager.apply config device).run s (.ok handle) t)
    (closed : Ends faulty (close handle).run t (.ok ()) u) :
    (u.links handle.ifindex = s.links handle.ifindex ↔
        s.links handle.ifindex = some .default) ∧
      Elsewhere handle.ifindex s u := by
  obtain ⟨reverted, closedElsewhere⟩ := (close_spec handle t).ends closed rfl
  have appliedElsewhere := (apply_elsewhere manager config device s).ends applied handle rfl
  constructor
  · rw [reverted]
    exact eq_comm
  · intro other ne
    rw [closedElsewhere other ne, appliedElsewhere other ne]

section Sample

def sampleApplied : Except ResolvedError SetDns × Machine :=
  exec Machine.perform ((⟨⟩ : Manager).apply sampleConfig rfl).run (sampleMachine sampleLink)

def sampleClosed : Except ResolvedError Unit × Machine :=
  exec Machine.perform (close ⟨7⟩).run sampleApplied.2

theorem perform_faulty (s : Machine) (c : BusCall) :
    faulty.answers s c (s.perform c).1 (s.perform c).2 := .inl rfl

set_option maxRecDepth 20000 in
theorem sampleApplied_ends : Ends faulty ((⟨⟩ : Manager).apply sampleConfig rfl).run
    (sampleMachine sampleLink) (.ok ⟨7⟩) sampleApplied.2 := by
  have done : sampleApplied.1 = .ok ⟨7⟩ := by decide
  rw [← done]
  exact ends_exec perform_faulty _ _

set_option maxRecDepth 20000 in
theorem sampleClosed_ends :
    Ends faulty (close ⟨7⟩).run sampleApplied.2 (.ok ()) sampleClosed.2 := by
  have done : sampleClosed.1 = .ok () := by decide
  rw [← done]
  exact ends_exec perform_faulty _ _

theorem closed_link_restored_sample :
    sampleClosed.2.links 7 ≠ (sampleMachine sampleLink).links 7 :=
  mt (closed_link_restored_iff sampleApplied_ends sampleClosed_ends).1.mp (by decide)

set_option maxRecDepth 20000 in
theorem close_resets_configured_link :
    ¬ ∀ (manager : Manager) (config : NormalizedConfig) (device : config.device.isSome)
      (handle : SetDns) (s t u : Machine),
      Ends faulty (manager.apply config device).run s (.ok handle) t →
      Ends faulty (close handle).run t (.ok ()) u →
      u.links handle.ifindex = s.links handle.ifindex := by
  intro restores
  have restored := restores _ _ _ _ _ _ _ sampleApplied_ends sampleClosed_ends
  exact absurd restored (by decide)

end Sample

end Closing

end Setdns.Linux.Resolved
