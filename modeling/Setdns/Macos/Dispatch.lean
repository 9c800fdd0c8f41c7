import Setdns.Effects.Sum
import Setdns.Macos.GlobalFailure
import Setdns.Macos.Sessions

/-!
The macOS backend. Global DNS goes to the preferences of the system and split DNS to the
resolver directory, so a handle belongs to one of the two, and neither touches what the
other has.
-/

namespace Setdns.Macos.Global

open Text Effects Effects.Program Effects.SystemConfiguration

section Present

variable {s : Machine} {service : Service} {serviceId : Bytes}

/-- The service exists, and its DNS protocol. -/
structure Present (s : Machine) (serviceId : Bytes) : Prop where
  service : (s.stored.services.find? fun service => service.id = some serviceId).isSome
  protocol : (s.stored.dns serviceId).isSome

theorem Present.write {t : Machine} {other : Bytes} {dns : Option Dictionary}
    (present : Present s serviceId) (written : t.stored = stored s other dns) :
    Present t serviceId := by
  refine ⟨?_, ?_⟩
  · rw [written]
    exact present.service
  · rw [written, stored]
    by_cases here : serviceId = other
    · simp [here]
    · simpa [here] using present.protocol

theorem Present.same {t : Machine} (present : Present s serviceId) (same : t.stored = s.stored) :
    Present t serviceId := by
  refine ⟨?_, ?_⟩
  · rw [same]
    exact present.service
  · rw [same]
    exact present.protocol

theorem find_isSome (mem : service ∈ s.session.services) (named : service.id = some serviceId) :
    (s.session.services.find? fun service => service.id = some serviceId).isSome := by
  rw [List.find?_isSome]
  exact ⟨service, mem, by simp [named]⟩

theorem serviceById_spec (serviceId : Bytes) (s : Machine) :
    Safe calm (fun _ => True)
      (fun r t => t = s ∧ (∀ service, r = .ok service → service ∈ s.session.services) ∧
        ((s.session.services.find? fun service => service.id = some serviceId).isSome →
          ∃ service, r = .ok service)) (serviceById serviceId).run s := by
  refine Safe.lift ⟨trivial, fun _ _ => trivial, fun found t answer => ⟨trivial, ?_⟩⟩
  obtain ⟨rfl, rfl⟩ := Prod.mk.inj answer
  cases found : s.session.services.find? fun service => service.id = some serviceId with
  | none => exact ⟨trivial, rfl, by simp, by simp⟩
  | some service =>
      have mem : service ∈ s.session.services := List.mem_of_find?_eq_some found
      refine ⟨trivial, rfl, ?_, fun _ => ⟨service, rfl⟩⟩
      rintro _ ⟨⟩
      exact mem

theorem primaryService_mem (s : Machine) :
    Safe calm (fun _ => True)
      (fun r t => t = s ∧ ∀ service, r = .ok service → service ∈ s.session.services)
      primaryService.run s := by
  have asked : Looks primaryServiceId := by
    refine looks_of_asks (Issues.lift (.call trivial) fun value => ?_)
    split
    · split <;> trivial
    · trivial
  refine Safe.tryBind (asked s) ?_ (by simp +contextual)
  rintro serviceId _ - rfl
  exact (serviceById_spec serviceId _).post fun r t _ ⟨same, found, _⟩ => ⟨same, found⟩

theorem serviceByInterface_mem (ifname : Bytes) (s : Machine) :
    Safe calm (fun _ => True)
      (fun r t => t = s ∧ ∀ service, r = .ok service → service ∈ s.session.services)
      (serviceByInterface ifname).run s := by
  have ordered : Looks currentSet := by
    refine looks_of_asks (Issues.lift (.call trivial) fun order => ?_)
    cases order <;> trivial
  refine Safe.tryBind (ordered s) ?_ (by simp +contextual)
  rintro order _ - rfl
  refine Safe.lift ⟨trivial, fun _ _ => trivial, fun services t answer => ⟨trivial, ?_⟩⟩
  obtain ⟨rfl, rfl⟩ := Prod.mk.inj answer
  dsimp only
  split
  · rename_i service found
    refine ⟨trivial, rfl, ?_⟩
    rintro _ ⟨⟩
    obtain ⟨id, -, first⟩ := List.exists_of_findSome?_eq_some found
    exact List.mem_of_find?_eq_some first
  · exact ⟨trivial, rfl, by simp⟩

theorem targetService_mem (device : Option String) (s : Machine) :
    Safe calm (fun _ => True)
      (fun r t => t = s ∧ ∀ service, r = .ok service → service ∈ s.session.services)
      (targetService device).run s := by
  cases device with
  | none => exact primaryService_mem s
  | some device =>
      refine Safe.lift ((serviceByInterface_mem _ s).post ?_)
      rintro found _ - ⟨rfl, mem⟩
      cases found with
      | ok service => exact ⟨trivial, rfl, mem⟩
      | error error =>
          dsimp only
          split
          · exact primaryService_mem _
          · exact ⟨trivial, rfl, by simp⟩

theorem look_present (device : Option String) (s : Machine) :
    Safe calm (fun _ => True)
      (fun r t => t = { s with session := s.stored } ∧ ∀ service serviceId previous,
        r = .ok (service, serviceId, previous) →
          s.stored.dns serviceId = some previous ∧ Present s serviceId)
      (look device).run s := by
  have named : Safe calm (fun _ => True) (fun r _ => ∀ service serviceId previous,
      r = .ok (service, serviceId, previous) →
        (s.stored.services.find? fun service => service.id = some serviceId).isSome)
      (look device).run s := by
    refine Safe.lift ⟨trivial, fun _ _ => trivial, fun _ s₁ answer => ⟨trivial, ?_⟩⟩
    obtain rfl := (Prod.mk.inj answer).2
    refine Safe.tryBind (targetService_mem device _) ?_ (by simp)
    rintro service _ - ⟨rfl, mem⟩
    have identified : Safe calm (fun _ => True)
        (fun r _ => ∀ id, r = .ok id → service.id = some id) (serviceIdOf service).run
        { s with session := s.stored } := by
      unfold serviceIdOf
      split
      case h_1 id here =>
        refine ⟨trivial, ?_⟩
        rintro _ ⟨⟩
        exact here
      case h_2 => exact ⟨trivial, by simp⟩
    refine Safe.tryBind (identified.and (looks_of_asks (serviceIdOf_asks service) _)) ?_ (by simp)
    rintro id _ - ⟨here, rfl⟩
    refine Safe.tryBind (looks_of_asks (dnsProtocol_asks id) _) ?_ (by simp)
    rintro _ _ - rfl
    refine Safe.lift ⟨trivial, fun _ _ => trivial, fun dns s₂ answer => ⟨trivial, trivial, ?_⟩⟩
    rintro _ _ _ ⟨⟩
    exact find_isSome (mem service rfl) (here id rfl)
  refine ((look_spec device s).and named).post ?_
  rintro r t - ⟨⟨same, found⟩, there⟩
  refine ⟨same, fun service serviceId previous ok => ?_⟩
  have original := found _ _ _ ok
  exact ⟨original, there _ _ _ ok, by simp [original]⟩

/-- An application writes the servers of one service, or nothing. -/
theorem apply_writes (config : NormalizedConfig) (s : Machine) :
    Safe calm (fun _ => True)
      (fun r t => ((∃ e, r = .error e) ∧ t.stored = s.stored) ∨
        ∃ handle, r = .ok handle ∧ Present s handle.serviceId ∧
          t.stored = stored s handle.serviceId
            (some (dnsWithServers handle.originalDns config.servers)))
      (apply config).run s := by
  rw [apply_eq]
  refine Safe.tryBind (look_present config.device s) ?_ ?_
  · rintro ⟨service, serviceId, previous⟩ _ - ⟨rfl, found⟩
    obtain ⟨original, present⟩ := found _ _ _ rfl
    refine Yields.thenOk (write_yields rfl original _) ((announce_spec service _ _).post ?_)
    rintro r t - ⟨rfl, rfl⟩
    exact .inr ⟨_, rfl, present, rfl⟩
  · rintro e _ - ⟨rfl, -⟩
    exact .inl ⟨⟨e, rfl⟩, rfl⟩

/-- A close cannot fail while the service is there. -/
theorem close_writes (handle : SetDns) (present : Present s handle.serviceId) :
    Safe calm (fun _ => True)
      (fun r t => r = .ok () ∧ t.stored = stored s handle.serviceId handle.originalDns)
      (close handle).run s := by
  refine Safe.lift ⟨trivial, fun _ _ => trivial, fun _ s₁ answer => ⟨trivial, ?_⟩⟩
  obtain rfl := (Prod.mk.inj answer).2
  obtain ⟨previous, original⟩ := Option.isSome_iff_exists.mp present.protocol
  have protocol : Yields calm (dnsProtocol handle.serviceId).run
      { s with session := s.stored } (.ok ()) { s with session := s.stored } :=
    check_yields rfl (by simp [original])
  refine Safe.tryBind (serviceById_spec handle.serviceId _) ?_ ?_
  · rintro service _ - ⟨rfl, -, -⟩
    refine Yields.thenOk protocol (Yields.thenOk (write_yields rfl original _)
      ((announce_spec service _ _).post ?_))
    rintro r t - ⟨rfl, rfl⟩
    exact ⟨rfl, rfl⟩
  · rintro e _ - ⟨-, -, found⟩
    obtain ⟨service, ok⟩ := found present.service
    cases ok

end Present

end Setdns.Macos.Global

namespace Setdns.Macos

open Text Effects Effects.Program Simulation Handle
open Effects.SystemConfiguration (Machine ScCall)
open Effects.Directory (DirCall Disk)

/-- The boxed error of a backend. -/
inductive Error where
  | global (source : Global.GlobalError)
  | resolver (source : Resolver.ResolverError)

inductive SetDns where
  | global (inner : Global.SetDns)
  | resolver (inner : Resolver.SetDns)

abbrev Call : Type := ScCall ⊕ DirCall
abbrev Call.Ret : Call → Type := Joint ScCall.Ret DirCall.Ret

abbrev Io (α : Type) : Type := Program Call Call.Ret α

abbrev Result (α : Type) : Type := ExceptT Error (Program Call Call.Ret) α

def apply (config : NormalizedConfig) : Result SetDns :=
  if config.domains.isEmpty then do
    let inner ← mapErr (Global.apply config).run.left .global
    pure (.global inner)
  else do
    let inner ← mapErr (Resolver.apply config).run.right .resolver
    pure (.resolver inner)

def close : SetDns → Result Unit
  | .global inner => mapErr (Global.close inner).run.left .global
  | .resolver inner => mapErr (Resolver.close inner).run.right .resolver

def platform : (c : PlatformCall SetDns) → Io (PlatformCall.Ret SetDns Error c)
  | .apply config => (apply config).run
  | .close inner => (close inner).run

/-- No call fails. -/
abbrev calm : World Call Call.Ret (Machine × Disk) :=
  SystemConfiguration.calm.both Directory.calm

def SetDns.global? : SetDns → Option Global.SetDns
  | .global inner => some inner
  | .resolver _ => none

def SetDns.resolver? : SetDns → Option Resolver.SetDns
  | .global _ => none
  | .resolver inner => some inner

/-- How many later handles on global DNS may still be there when one is closed. -/
def Later (admits : Nat → Prop) (front : List SetDns) (handle : SetDns) : Prop :=
  ∀ inner, handle = .global inner → admits (front.filterMap SetDns.global?).length

/-- What the resolver directory sees of a use of the backend. -/
def resolverOutcome : Event SetDns Error → Option Resolver.Outcome
  | .applied config (.ok (.resolver inner)) => some (.applied config (.ok inner))
  | .applied config (.error (.resolver e)) => some (.applied config (.error e))
  | .closed (.resolver inner) (.ok ()) => some (.closed inner (.ok ()))
  | .closed (.resolver inner) (.error (.resolver e)) => some (.closed inner (.error e))
  | .forgotten (.resolver inner) => some (.forgotten inner)
  | _ => none

section Parts

variable {config : NormalizedConfig} {m m' : Machine} {d d' : Disk}

/-- What a platform makes of the result of one of its backends. -/
theorem mapped_cases {ε ε' α β : Type} {W : World Call Call.Ret (Machine × Disk)}
    {x : Io (Except ε α)} {f : ε → ε'} {g : α → β} {s t : Machine × Disk} {r : Except ε' β}
    (run : Ends W (do let a ← mapErr x f; pure (g a) : ExceptT ε' (Program Call Call.Ret) β).run
      s r t) :
    ∃ r', Ends W x s r' t ∧ r = (r'.map g).mapError f := by
  rcases Ends.tryBind_cases run with ⟨a, s₁, mapped, last⟩ | ⟨e, rfl, failed⟩
  · obtain ⟨r', made, same⟩ := Ends.mapErr_cases mapped
    cases last
    cases r' with
    | ok a' =>
        cases same
        exact ⟨_, made, rfl⟩
    | error e => cases same
  · obtain ⟨r', made, same⟩ := Ends.mapErr_cases failed
    cases r' with
    | ok a => cases same
    | error e' =>
        cases same
        exact ⟨_, made, rfl⟩

theorem apply_global {r : Except Error SetDns} (global : config.domains = [])
    (run : Ends calm (apply config).run (m, d) r (m', d')) :
    d' = d ∧ ∃ r', Ends SystemConfiguration.calm (Global.apply config).run m r' m' ∧
      r = (r'.map .global).mapError .global := by
  rw [apply, if_pos (List.isEmpty_iff.mpr global)] at run
  obtain ⟨r', made, same⟩ := mapped_cases run
  obtain ⟨inner, untouched⟩ := made.both_left
  exact ⟨untouched, r', inner, same⟩

theorem apply_resolver {r : Except Error SetDns} (split : config.domains ≠ [])
    (run : Ends calm (apply config).run (m, d) r (m', d')) :
    m' = m ∧ ∃ r', Ends Directory.calm (Resolver.apply config).run d r' d' ∧
      r = (r'.map .resolver).mapError .resolver := by
  rw [apply, if_neg (by rwa [List.isEmpty_iff])] at run
  obtain ⟨r', made, same⟩ := mapped_cases run
  obtain ⟨inner, untouched⟩ := made.both_right
  exact ⟨untouched, r', inner, same⟩

theorem close_global {handle : Global.SetDns} {r : Except Error Unit}
    (run : Ends calm (close (.global handle)).run (m, d) r (m', d')) :
    d' = d ∧ ∃ r', Ends SystemConfiguration.calm (Global.close handle).run m r' m' ∧
      r = r'.mapError .global := by
  obtain ⟨r', made, same⟩ := Ends.mapErr_cases run
  obtain ⟨inner, untouched⟩ := made.both_left
  exact ⟨untouched, r', inner, same⟩

theorem close_resolver {handle : Resolver.SetDns} {r : Except Error Unit}
    (run : Ends calm (close (.resolver handle)).run (m, d) r (m', d')) :
    m' = m ∧ ∃ r', Ends Directory.calm (Resolver.close handle).run d r' d' ∧
      r = r'.mapError .resolver := by
  obtain ⟨r', made, same⟩ := Ends.mapErr_cases run
  obtain ⟨inner, untouched⟩ := made.both_right
  exact ⟨untouched, r', inner, same⟩

end Parts

section Projections

variable {parseDnsName : Bytes → Except Bytes Unit} {admits : Nat → Prop}

/-- The configurations that reach the backend, with names that are single path components. -/
def Accepted (parseDnsName : Bytes → Except Bytes Unit) (config : NormalizedConfig) : Prop :=
  (∃ raw : Config, raw.normalize parseDnsName = .ok config) ∧ ∀ s ∈ config.domains, slash ∉ s.domain

abbrev Use (admits : Nat → Prop) :
    (Machine × Disk) × List SetDns → Event SetDns Error → (Machine × Disk) × List SetDns → Prop :=
  PlatformStep (calm.implemented platform) (Later admits)

theorem resolverOutcome_error {event : Event SetDns Error} {config : NormalizedConfig}
    {e : Resolver.ResolverError}
    (shown : resolverOutcome event = some (.applied config (.error e))) :
    event = .applied config (.error (.resolver e)) := by
  unfold resolverOutcome at shown
  split at shown <;> cases shown
  rfl

theorem resolverOutcome_forgotten {event : Event SetDns Error} {handle : Resolver.SetDns}
    (shown : resolverOutcome event = some (.forgotten handle)) :
    event = .forgotten (.resolver handle) := by
  unfold resolverOutcome at shown
  split at shown <;> cases shown
  rfl

/-- The part of the resolver directory. -/
def host (p : (Machine × Disk) × List SetDns) : Resolver.Host :=
  ⟨p.1.2, p.2.filterMap SetDns.resolver?⟩

theorem resolver_use {p p' : (Machine × Disk) × List SetDns} {event : Event SetDns Error}
    (accepted : ∀ config r, event = .applied config r → Accepted parseDnsName config)
    (use : Use admits p event p') :
    Trace (Resolver.Operation parseDnsName) (host p) (resolverOutcome event).toList (host p') := by
  cases use with
  | @applied s s' live config r answer =>
      obtain ⟨m, d⟩ := s
      obtain ⟨m', d'⟩ := s'
      by_cases global : config.domains = []
      · obtain ⟨rfl, r', -, rfl⟩ := apply_global global answer
        cases r' <;> exact .nil _
      · obtain ⟨rfl, r', made, rfl⟩ := apply_resolver global answer
        obtain ⟨⟨raw, normal⟩, noSlash⟩ := accepted config _ rfl
        cases r' <;> exact .single (.applied normal noSlash made)
  | @closed s s' front back inner r order answer =>
      obtain ⟨m, d⟩ := s
      obtain ⟨m', d'⟩ := s'
      simp only [host, List.filterMap_append, List.filterMap_cons]
      cases inner with
      | global inner =>
          obtain ⟨rfl, -⟩ := close_global answer
          exact .nil _
      | resolver inner =>
          obtain ⟨rfl, r', made, rfl⟩ := close_resolver answer
          cases r' <;> exact .single (.closed made)
  | @forgotten s front back inner =>
      simp only [host, List.filterMap_append, List.filterMap_cons]
      cases inner with
      | global inner => exact .nil _
      | resolver inner => exact .single .forgotten

/-- The resolver directory takes part in a run as in one of its own. -/
theorem resolver_run {p p' : (Machine × Disk) × List SetDns} {events : List (Event SetDns Error)}
    (run : Trace (Use admits) p events p')
    (accepted : ∀ config r, .applied config r ∈ events → Accepted parseDnsName config) :
    Trace (Resolver.Operation parseDnsName) (host p) (events.filterMap resolverOutcome)
      (host p') := by
  induction run with
  | nil p => exact .nil _
  | @cons p p₁ p' event events first _ ih =>
      have here := resolver_use (fun config r same => accepted config r (same ▸ .head _)) first
      have rest := ih fun config r mem => accepted config r (.tail _ mem)
      cases shown : resolverOutcome event with
      | none =>
          rw [shown] at here
          rw [List.filterMap_cons_none shown]
          exact here.append rest
      | some outcome =>
          rw [shown] at here
          rw [List.filterMap_cons_some shown]
          exact here.append rest

/-- The handles on global DNS. -/
def globals (p : (Machine × Disk) × List SetDns) : List Global.SetDns :=
  p.2.filterMap SetDns.global?

/-- The preferences hold what the snapshots say, and are otherwise those of the start. -/
structure Sees (start : Machine) (p : (Machine × Disk) × List SetDns)
    (state : Snapshots.State Bytes (Option (Option SystemConfiguration.Dictionary))) : Prop where
  value : state.value = Global.view p.1.1
  live : state.live = (globals p).map Global.shot
  present : ∀ inner ∈ globals p, Global.Present p.1.1 inner.serviceId
  rest : p.1.1.stored = { start.stored with dns := p.1.1.stored.dns }

theorem Sees.applied {start m m' : Machine} {d d' : Disk} {live : List SetDns}
    {state : Snapshots.State Bytes (Option (Option SystemConfiguration.Dictionary))}
    {config : NormalizedConfig} {r : Except Global.GlobalError Global.SetDns}
    (sees : Sees start ((m, d), live) state)
    (made : Ends SystemConfiguration.calm (Global.apply config).run m r m') :
    ∃ state', Relation.ReflTransGen (Snapshots.Step admits) state state' ∧
      Sees start ((m', d'), opened ((r.map SetDns.global).mapError Error.global) live) state' := by
  obtain ⟨value, live', closed⟩ := state
  obtain ⟨rfl, rfl, present, rest⟩ := sees
  rcases (Global.apply_writes config m).ends made with ⟨⟨e, rfl⟩, same⟩ |
    ⟨handle, rfl, there, written⟩
  · refine ⟨_, .refl, ⟨?_, rfl, fun inner mem => (present inner mem).same same, ?_⟩⟩
    · exact (congrArg SystemConfiguration.Preferences.dns same).symm
    · rw [same]
      exact rest
  · obtain ⟨-, new, value, taken⟩ := Global.snapshotting.opens m handle m' trivial ⟨config, made⟩
    have step : Snapshots.Step admits
        ⟨Global.view m, (globals ((m, d), live)).map Global.shot, closed⟩
        ⟨Snapshots.overlay new (Global.view m), Snapshots.take new (Global.view m) ::
          (globals ((m, d), live)).map Global.shot, closed⟩ := .opened new
    refine ⟨_, .single step, ⟨value.symm, ?_, ?_, ?_⟩⟩
    · exact congrArg (· :: _) taken.symm
    · exact List.forall_mem_cons.mpr ⟨there.write written,
        fun inner mem => (present inner mem).write written⟩
    · rw [written, Global.stored, rest]

theorem Sees.closed {start m m' : Machine} {d d' : Disk} {front back : List SetDns}
    {state : Snapshots.State Bytes (Option (Option SystemConfiguration.Dictionary))}
    {handle : Global.SetDns} {r : Except Global.GlobalError Unit}
    (sees : Sees start ((m, d), front ++ .global handle :: back) state)
    (order : Later admits front (.global handle))
    (made : Ends SystemConfiguration.calm (Global.close handle).run m r m') :
    r = .ok () ∧ ∃ state', Relation.ReflTransGen (Snapshots.Step admits) state state' ∧
      Sees start ((m', d'), front ++ back) state' := by
  obtain ⟨value, live', closed⟩ := state
  obtain ⟨rfl, rfl, present, rest⟩ := sees
  have split : globals ((m, d), front ++ .global handle :: back) =
      front.filterMap SetDns.global? ++ handle :: back.filterMap SetDns.global? := by
    simp [globals, SetDns.global?]
  rw [split] at present
  obtain ⟨rfl, written⟩ := (Global.close_writes handle (present handle
    (List.mem_append_right _ (.head _)))).ends made
  obtain ⟨-, value⟩ := Global.snapshotting.closes m handle m' trivial made
  have step : Snapshots.Step admits
      ⟨Global.view m, (globals ((m, d), front ++ .global handle :: back)).map Global.shot, closed⟩
      ⟨Snapshots.overlay (Global.shot handle) (Global.view m),
        (front.filterMap SetDns.global?).map Global.shot ++
          (back.filterMap SetDns.global?).map Global.shot, Global.shot handle :: closed⟩ := by
    rw [split, List.map_append, List.map_cons]
    exact .closed (by simpa using order handle rfl)
  refine ⟨rfl, _, .single step, ⟨value.symm, ?_, ?_, ?_⟩⟩
  · simp [globals]
  · intro inner mem
    refine (present inner (mem_of_others ?_)).write written
    simpa [globals] using mem
  · rw [written, Global.stored, rest]

/-- A handle on the resolver directory is out of sight. -/
theorem Sees.without {start m : Machine} {d d' : Disk} {front back : List SetDns} {handle : SetDns}
    {state : Snapshots.State Bytes (Option (Option SystemConfiguration.Dictionary))}
    (sees : Sees start ((m, d), front ++ handle :: back) state) (resolver : handle.global? = none) :
    Sees start ((m, d'), front ++ back) state := by
  have same : globals ((m, d), front ++ handle :: back) = globals ((m, d'), front ++ back) := by
    simp [globals, resolver]
  exact ⟨sees.value, same ▸ sees.live, same ▸ sees.present, sees.rest⟩

/-- A use of the backend is at most one step of the snapshots. -/
theorem Sees.use {start : Machine} {p p' : (Machine × Disk) × List SetDns}
    {event : Event SetDns Error}
    {state : Snapshots.State Bytes (Option (Option SystemConfiguration.Dictionary))}
    (sees : Sees start p state) (kept : ∀ inner, event ≠ .forgotten (.global inner))
    (use : Use admits p event p') :
    ∃ state', Relation.ReflTransGen (Snapshots.Step admits) state state' ∧
      Sees start p' state' := by
  cases use with
  | @applied s s' live config r answer =>
      obtain ⟨m, d⟩ := s
      obtain ⟨m', d'⟩ := s'
      by_cases global : config.domains = []
      · obtain ⟨-, r', made, rfl⟩ := apply_global global answer
        exact sees.applied made
      · obtain ⟨rfl, r', -, rfl⟩ := apply_resolver global answer
        obtain ⟨value, live', present, rest⟩ := sees
        cases r' <;> exact ⟨state, .refl, value, live', present, rest⟩
  | @closed s s' front back inner r order answer =>
      obtain ⟨m, d⟩ := s
      obtain ⟨m', d'⟩ := s'
      cases inner with
      | global inner =>
          obtain ⟨-, r', made, -⟩ := close_global answer
          exact (sees.closed order made).2
      | resolver inner =>
          obtain ⟨rfl, -⟩ := close_resolver answer
          exact ⟨state, .refl, sees.without rfl⟩
  | @forgotten s front back inner =>
      cases inner with
      | global inner => exact absurd rfl (kept inner)
      | resolver inner => exact ⟨state, .refl, sees.without rfl⟩

theorem sees_run {start : Machine} {d : Disk} {p : (Machine × Disk) × List SetDns}
    {events : List (Event SetDns Error)} (run : Trace (Use admits) ((start, d), []) events p)
    (kept : ∀ inner, .forgotten (.global inner) ∉ events) :
    ∃ state, Relation.ReflTransGen (Snapshots.Step admits) ⟨Global.view start, [], []⟩ state ∧
      Sees start p state := by
  have nothing : Sees start ((start, d), []) ⟨Global.view start, [], []⟩ :=
    ⟨rfl, rfl, by simp [globals], rfl⟩
  refine run.keeps (I := fun p => ∃ state, Relation.ReflTransGen (Snapshots.Step admits)
    ⟨Global.view start, [], []⟩ state ∧ Sees start p state) ?_ ⟨_, .refl, nothing⟩
  intro p event p' mem here use
  obtain ⟨state, before, sees⟩ := here
  obtain ⟨state', after, sees'⟩ := sees.use (fun inner same => kept inner (same ▸ mem)) use
  exact ⟨state', before.trans after, sees'⟩

end Projections

section Clients

variable {parseDnsName : Bytes → Except Bytes Unit} {admits : Nat → Prop} {start m : Machine}
  {d d' : Disk} {outcomes : List (Outcome SetDns Error)} {handles : List (Handle.SetDns SetDns)}

/-- Clients of the crate on a machine on which no call fails. -/
abbrev Clients.Step (parseDnsName : Bytes → Except Bytes Unit) (admits : Nat → Prop) :
    Clients (Machine × Disk) SetDns → Outcome SetDns Error →
      Clients (Machine × Disk) SetDns → Prop :=
  ClientStep parseDnsName (calm.implemented platform) (Later admits)

/-- The domains that are configured are names of single files. -/
def SingleFiles (parseDnsName : Bytes → Except Bytes Unit)
    (outcomes : List (Outcome SetDns Error)) : Prop :=
  ∀ config r normalized, .applied config r ∈ outcomes →
    config.normalize parseDnsName = .ok normalized → ∀ s ∈ normalized.domains, slash ∉ s.domain

/-- A run of clients is one of the resolver directory beside one of the preferences. -/
theorem clients_parts
    (run : Trace (Clients.Step parseDnsName admits) ⟨(start, d), []⟩ outcomes ⟨(m, d'), handles⟩)
    (single : SingleFiles parseDnsName outcomes)
    (kept : ∀ inner, .forgotten ⟨some (.global inner)⟩ ∉ outcomes) :
    ∃ pieces state, List.Forall₂ (Means parseDnsName) outcomes pieces ∧
      Trace (Resolver.Operation parseDnsName) ⟨d, []⟩ (pieces.flatten.filterMap resolverOutcome)
        (host ((m, d'), handles.filterMap Handle.SetDns.inner)) ∧
      Relation.ReflTransGen (Snapshots.Step admits) ⟨Global.view start, [], []⟩ state ∧
      Sees start ((m, d'), handles.filterMap Handle.SetDns.inner) state := by
  obtain ⟨pieces, p, means, uses, shows⟩ := client_expands.run run rfl
  subst shows
  have accepted : ∀ config r, .applied config r ∈ pieces.flatten →
      Accepted parseDnsName config := by
    intro normalized r mem
    obtain ⟨config, accepted, there⟩ := exists_applied means mem
    exact ⟨⟨config, accepted⟩, single config _ normalized there accepted⟩
  obtain ⟨state, snapshots, sees⟩ := sees_run uses fun inner mem =>
    kept inner (exists_forgotten means mem)
  exact ⟨pieces, state, means, resolver_run uses accepted, snapshots, sees⟩

/-- Once every handle is closed or dropped, those on global DNS in the reverse order of their
opening, everything is as it was, if no split configuration was refused in the directory. -/
theorem clients_restore (clean : Resolver.Clean d)
    (run : Trace (Clients.Step parseDnsName Snapshots.Nested) ⟨(start, d), []⟩ outcomes
      ⟨(m, d'), []⟩)
    (single : SingleFiles parseDnsName outcomes) (kept : ∀ handle, .forgotten handle ∉ outcomes)
    (entered : ∀ config e, .applied config (.error (.backend (.resolver e))) ∉ outcomes) :
    m.stored = start.stored ∧ d'.content = d.content := by
  obtain ⟨pieces, state, means, resolver, snapshots, sees⟩ :=
    clients_parts run single fun inner => kept _
  have unforgotten : ∀ inner, .forgotten inner ∉ pieces.flatten := fun inner mem =>
    kept _ (exists_forgotten means mem)
  constructor
  · obtain ⟨value, live, closed⟩ := state
    obtain ⟨rfl, rfl, -, rest⟩ := sees
    have same : Global.view m = Global.view start := Snapshots.nested_restores snapshots
    have dns : m.stored.dns = start.stored.dns := same
    rw [rest, dns]
  · refine Resolver.emptied_run_restores clean resolver ?_ ?_ rfl
    · intro config e mem
      obtain ⟨event, there, shown⟩ := List.mem_filterMap.mp mem
      obtain ⟨_, -, outcome⟩ := exists_applied means (resolverOutcome_error shown ▸ there)
      exact entered _ e outcome
    · intro handle mem
      obtain ⟨event, there, shown⟩ := List.mem_filterMap.mp mem
      exact unforgotten _ (resolverOutcome_forgotten shown ▸ there)

end Clients

section Samples

/-- One network service without DNS configuration, and an empty disk. -/
def sampleStart : Machine × Disk := (Global.sampleMachine, .empty)

def sampleRun {α : Type} (p : Handle.SetDns.Io SetDns Error α) (s : Machine × Disk) :
    α × (Machine × Disk) :=
  exec (Handler.both Machine.perform (Disk.perform id)) (p.implement platform) s

theorem sampleRun_ends {α : Type} (p : Handle.SetDns.Io SetDns Error α) (s : Machine × Disk) :
    Ends (calm.implemented platform) p s (sampleRun p s).1 (sampleRun p s).2 := by
  refine ends_implement.mp (ends_exec (fun s c => ?_) _ _)
  cases c with
  | inl c => exact ⟨rfl, rfl⟩
  | inr c => exact ⟨Directory.calm_perform s.2 c, rfl⟩

def sampleGlobal : Config := ⟨bytes "tests", [.v4 ⟨10, 0, 0, 53⟩], [], some "en0"⟩
def sampleSplit : Config := Resolver.sampleConfig ["corp"]

def sampleFirst : Handle.SetDns SetDns := ⟨some (.global ⟨bytes "wifi", none⟩)⟩
def sampleSecond : Handle.SetDns SetDns := ⟨some (.resolver Resolver.sampleHandle)⟩

def sampleOnce : Machine × Disk :=
  (sampleRun (Handle.SetDns.apply Resolver.rfc2181 sampleGlobal).run sampleStart).2

def sampleTwice : Machine × Disk :=
  (sampleRun (Handle.SetDns.apply Resolver.rfc2181 sampleSplit).run sampleOnce).2

def sampleDropped : Machine × Disk := (sampleRun sampleSecond.drop sampleTwice).2
def sampleRestored : Machine × Disk := (sampleRun sampleFirst.close sampleDropped).2

set_option maxRecDepth 20000 in
theorem sampleOnce_opened :
    (sampleRun (Handle.SetDns.apply Resolver.rfc2181 sampleGlobal).run sampleStart).1 =
      .ok sampleFirst := rfl

set_option maxRecDepth 20000 in
theorem sampleTwice_opened :
    (sampleRun (Handle.SetDns.apply Resolver.rfc2181 sampleSplit).run sampleOnce).1 =
      .ok sampleSecond := rfl

set_option maxRecDepth 20000 in
theorem sampleRestored_closed : (sampleRun sampleFirst.close sampleDropped).1 = .ok () := rfl

/-- Both kinds of DNS are applied, one handle is dropped and the other one closed. -/
theorem sampleRestored_run {admits : Nat → Prop} (last : admits 0) :
    Trace (Clients.Step Resolver.rfc2181 admits) ⟨sampleStart, []⟩
      [.applied sampleGlobal (.ok sampleFirst), .applied sampleSplit (.ok sampleSecond),
        .dropped sampleSecond, .closed sampleFirst (.ok ())] ⟨sampleRestored, []⟩ := by
  have first := sampleRun_ends (Handle.SetDns.apply Resolver.rfc2181 sampleGlobal).run sampleStart
  have second := sampleRun_ends (Handle.SetDns.apply Resolver.rfc2181 sampleSplit).run sampleOnce
  have third := sampleRun_ends sampleFirst.close sampleDropped
  rw [sampleOnce_opened] at first
  rw [sampleTwice_opened] at second
  rw [sampleRestored_closed] at third
  have none : ∀ inner ∈ sampleSecond.inner, Later admits [] inner := by
    rintro _ ⟨⟩ inner ⟨⟩
  have nothing : ∀ inner ∈ sampleFirst.inner, Later admits [] inner := fun _ _ _ _ => last
  have dropped : Clients.Step Resolver.rfc2181 admits
      ⟨sampleTwice, [] ++ sampleSecond :: [sampleFirst]⟩ (.dropped sampleSecond)
      ⟨sampleDropped, [] ++ [sampleFirst]⟩ := .dropped none (sampleRun_ends _ _)
  have closed : Clients.Step Resolver.rfc2181 admits
      ⟨sampleDropped, [] ++ sampleFirst :: []⟩ (.closed sampleFirst (.ok ()))
      ⟨sampleRestored, [] ++ []⟩ := .closed nothing third
  exact .cons (.applied first) (.cons (.applied second) (.cons dropped (.cons closed (.nil _))))

theorem sampleRestored_single : SingleFiles Resolver.rfc2181
    [.applied sampleGlobal (.ok sampleFirst), .applied sampleSplit (.ok sampleSecond),
      .dropped sampleSecond, .closed sampleFirst (.ok ())] := by
  have noDomain : sampleGlobal.normalize Resolver.rfc2181 =
      .ok ⟨bytes "tests", [.v4 ⟨10, 0, 0, 53⟩], [], some "en0"⟩ := by decide
  have oneDomain : sampleSplit.normalize Resolver.rfc2181 =
      .ok (Resolver.sampleNormalized ["corp"]) := by decide
  intro config r normalized mem accepted
  simp only [List.mem_cons, Outcome.applied.injEq, reduceCtorEq, List.not_mem_nil, or_false] at mem
  rcases mem with ⟨rfl, -⟩ | ⟨rfl, -⟩
  · cases noDomain.symm.trans accepted
    simp
  · cases oneDomain.symm.trans accepted
    decide

theorem clients_restore_sample : sampleRestored.1.stored = sampleStart.1.stored ∧
    sampleRestored.2.content = sampleStart.2.content :=
  clients_restore Resolver.sampleEmpty_clean (sampleRestored_run rfl) sampleRestored_single
    (by simp) (by simp)

end Samples

end Setdns.Macos
