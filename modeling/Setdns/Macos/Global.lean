import Setdns.Config.Config
import Setdns.Effects.SystemConfiguration
import Setdns.Order.Snapshots

/-!
The global backend of macOS. The server addresses replace those in the DNS
dictionary of one network service. The handle remembers the dictionary that was
there and writes it back on close, whatever is there by then.
-/

namespace Setdns.Macos.Global

open Text Effects Effects.Program Effects.SystemConfiguration

def storeName : Bytes := bytes "setdns"
def primaryIpv4Key : Bytes := bytes "State:/Network/Global/IPv4"
def primaryServiceKey : Bytes := bytes "PrimaryService"
def serverAddressesKey : Bytes := bytes "ServerAddresses"

inductive GlobalError where
  | noCurrentSet
  | noPrimaryService
  | serviceNotFound (service : Bytes)
  | noDnsProtocol (service : Bytes)
  | lockFailed
  | unlockFailed
  | setConfigurationFailed (service : Bytes)
  | commitFailed
  | applyFailed
  deriving DecidableEq, Repr

structure SetDns where
  serviceId : Bytes
  originalDns : Option Dictionary

abbrev Result (α : Type) : Type := ExceptT GlobalError (Program ScCall ScCall.Ret) α

def preferences : Result Unit := liftM (Sc.openSession storeName)

def currentSet : Result (List Bytes) := do
  match ← (liftM Sc.currentSet : Result _) with
  | some order => pure order
  | none => throw .noCurrentSet

/-- Whether the service is enabled and runs on the interface. -/
def onInterface (ifname : Bytes) (service : Service) : Bool :=
  service.enabled && (service.interface.bind Interface.bsdName) == some ifname

def serviceByInterface (ifname : Bytes) : Result Service := do
  let order ← currentSet
  let services ← (liftM Sc.services : Result _)
  let found := order.findSome? fun orderedId =>
    services.find? fun service => service.id == some orderedId && onInterface ifname service
  match found with
  | some service => pure service
  | none => throw (.serviceNotFound ifname)

def serviceById (serviceId : Bytes) : Result Service := do
  match ← (liftM (Sc.copyService serviceId) : Result _) with
  | some service => pure service
  | none => throw (.serviceNotFound serviceId)

def primaryServiceId : Result Bytes := do
  match ← (liftM (Sc.storeGet storeName primaryIpv4Key) : Result _) with
  | some (.dictionary entries) =>
      match entries primaryServiceKey with
      | some (.string service) => pure service
      | _ => throw .noPrimaryService
  | _ => throw .noPrimaryService

def primaryService : Result Service := do
  let serviceId ← primaryServiceId
  serviceById serviceId

def isDynamicTunnelInterface (ifname : Bytes) : Bool := (bytes "utun").isPrefixOf ifname

def isServiceNotFound : GlobalError → Bool
  | .serviceNotFound _ => true
  | _ => false

def targetService : Option String → Result Service
  | none => primaryService
  | some device => do
      let ifname := bytes device
      match ← (liftM (serviceByInterface ifname).run : Result (Except GlobalError Service)) with
      | .ok service => pure service
      | .error error =>
          if isDynamicTunnelInterface ifname && isServiceNotFound error then primaryService
          else throw error

def serviceIdOf (service : Service) : Result Bytes :=
  match service.id with
  | some id => pure id
  | none => throw .noPrimaryService

/-- A call that reports failure by its answer. -/
def check (call : Io Bool) (error : GlobalError) : Result Unit := do
  if ← (liftM call : Result Bool) then pure () else throw error

def dnsProtocol (serviceId : Bytes) : Result Unit :=
  check (Sc.copyProtocol serviceId) (.noDnsProtocol serviceId)

def protocolConfiguration (serviceId : Bytes) : Result (Option Dictionary) :=
  liftM (Sc.getConfiguration serviceId)

def dnsWithServers (original : Option Dictionary) (servers : List IpAddr) : Dictionary :=
  Function.update (original.getD fun _ => none) serverAddressesKey
    (some (.strings (servers.map IpAddr.display)))

def setProtocolConfiguration (serviceId : Bytes) (configuration : Option Dictionary) :
    Result Unit :=
  check (Sc.setConfiguration serviceId configuration) (.setConfigurationFailed serviceId)

def commitAndApplyChanges : Result Unit := do
  check Sc.commitChanges .commitFailed
  check Sc.applyChanges .applyFailed

def withPreferencesLock (f : Result Unit) : Result Unit := do
  check Sc.lock .lockFailed
  let result ← (liftM f.run : Result (Except GlobalError Unit))
  let unlocked ← (liftM (check Sc.unlock .unlockFailed).run : Result (Except GlobalError Unit))
  match result with
  | .error error => throw error
  | .ok () =>
      match unlocked with
      | .error error => throw error
      | .ok () => pure ()

def refreshInterface (service : Service) : Io Unit := do
  match service.interface with
  | none => pure ()
  | some interface => do
      let _ ← Sc.refreshInterface interface
      pure ()

def flushDnsCache : Io Unit := do
  let _ ← Sc.command (bytes "dscacheutil") [bytes "-flushcache"]
  let _ ← Sc.command (bytes "killall") [bytes "-HUP", bytes "mDNSResponder"]
  pure ()

def apply (config : NormalizedConfig) : Result SetDns := do
  preferences
  let service ← targetService config.device
  let serviceId ← serviceIdOf service
  dnsProtocol serviceId
  let originalDns ← protocolConfiguration serviceId
  let nextDns := dnsWithServers originalDns config.servers
  withPreferencesLock do
    setProtocolConfiguration serviceId (some nextDns)
    commitAndApplyChanges
  refreshInterface service
  flushDnsCache
  pure ⟨serviceId, originalDns⟩

def close (handle : SetDns) : Result Unit := do
  preferences
  let service ← serviceById handle.serviceId
  dnsProtocol handle.serviceId
  withPreferencesLock do
    setProtocolConfiguration handle.serviceId handle.originalDns
    commitAndApplyChanges
  refreshInterface service
  flushDnsCache
  pure ()

/-- What an application finds out before it takes the lock. -/
def look (device : Option String) : Result (Service × Bytes × Option Dictionary) := do
  preferences
  let service ← targetService device
  let serviceId ← serviceIdOf service
  dnsProtocol serviceId
  let originalDns ← protocolConfiguration serviceId
  pure (service, serviceId, originalDns)

theorem apply_eq (config : NormalizedConfig) :
    apply config = (do
      let (service, serviceId, originalDns) ← look config.device
      withPreferencesLock do
        setProtocolConfiguration serviceId (some (dnsWithServers originalDns config.servers))
        commitAndApplyChanges
      refreshInterface service
      flushDnsCache
      pure ⟨serviceId, originalDns⟩) := by
  simp only [apply, look, bind_assoc, pure_bind]

section Looking

variable {α : Type} {x : Result α} {s : Machine}

/-- The action changes nothing. -/
def Looks (x : Result α) : Prop :=
  ∀ s, Safe calm (fun _ => True) (fun _ t => t = s) x.run s

/-- The calls that only ask or announce. -/
def Asks : ScCall → Prop
  | .currentSet | .services | .copyService _ | .storeGet _ _ | .copyProtocol _
  | .getConfiguration _ | .refreshInterface _ | .command _ _ => True
  | _ => False

theorem asks_same {p : Io α} (asks : Issues Asks p) (s : Machine) :
    Safe calm (fun _ => True) (fun _ t => t = s) p s := by
  have kept : ∀ t c r t', Asks c → t = s → calm.answers t c r t' → t' = s := by
    rintro t c r t' asked rfl answer
    have given : t.perform c = (r, t') := answer
    cases c <;> first | exact (Prod.mk.inj given).2.symm | exact asked.elim
  exact (asks.safe kept (fun _ _ _ _ _ cut => cut.elim) rfl).imp (fun _ _ => trivial)
    fun _ _ same _ => same

theorem looks_of_asks (asks : Issues Asks x.run) : Looks x := asks_same asks

theorem serviceById_asks (serviceId : Bytes) : Issues Asks (serviceById serviceId).run := by
  refine Issues.lift (.call trivial) fun found => ?_
  cases found <;> trivial

theorem primaryService_asks : Issues Asks primaryService.run := by
  refine Issues.tryBind (Issues.lift (.call trivial) fun value => ?_) serviceById_asks
  split
  · split <;> trivial
  · trivial

theorem serviceByInterface_asks (ifname : Bytes) : Issues Asks (serviceByInterface ifname).run := by
  refine Issues.tryBind (Issues.lift (.call trivial) fun order => ?_) fun order =>
    Issues.lift (.call trivial) fun services => ?_
  · cases order <;> trivial
  · dsimp only
    split <;> trivial

theorem targetService_asks (device : Option String) : Issues Asks (targetService device).run := by
  cases device with
  | none => exact primaryService_asks
  | some device =>
      refine Issues.lift (serviceByInterface_asks _) fun found => ?_
      cases found with
      | ok service => trivial
      | error error =>
          dsimp only
          split
          · exact primaryService_asks
          · trivial

theorem serviceIdOf_asks (service : Service) : Issues Asks (serviceIdOf service).run := by
  unfold serviceIdOf
  split <;> trivial

theorem dnsProtocol_asks (serviceId : Bytes) : Issues Asks (dnsProtocol serviceId).run := by
  refine Issues.lift (.call trivial) fun found => ?_
  cases found <;> trivial

theorem refreshInterface_asks (service : Service) : Issues Asks (refreshInterface service) := by
  unfold refreshInterface
  cases service.interface with
  | none => trivial
  | some interface => exact ⟨trivial, fun _ => trivial⟩

theorem flushDnsCache_asks : Issues Asks flushDnsCache :=
  ⟨trivial, fun _ => ⟨trivial, fun _ => trivial⟩⟩

end Looking

section Calm

variable {s : Machine} {serviceId : Bytes} {previous : Option Dictionary}

/-- The stored preferences with another configuration of one service. -/
def stored (s : Machine) (serviceId : Bytes) (dns : Option Dictionary) : Preferences :=
  { s.stored with dns := Function.update s.stored.dns serviceId (some dns) }

theorem check_yields {c : ScCall} {t t' : Machine} {ask : ScCall.Ret c → Bool}
    {error : GlobalError} {r : ScCall.Ret c} (answer : t.perform c = (r, t')) (yes : ask r = true) :
    Yields calm (check (.call c fun r => .ret (ask r)) error).run t (.ok ()) t' := by
  have answered : Yields calm (.call c fun r => .ret (ask r)) t (ask r) t' :=
    Yields.answer (fun _ _ given => Prod.mk.inj (Eq.symm (answer.symm.trans given))) (.ret _ _)
  refine Yields.lift answered ?_
  rw [yes]
  exact .ret _ _

/-- The session is up to date, as it is directly after it was opened. -/
theorem write_yields (fresh : s.session = s.stored)
    (present : s.session.dns serviceId = some previous) (dns : Option Dictionary) :
    Yields calm (withPreferencesLock do
        setProtocolConfiguration serviceId dns
        commitAndApplyChanges).run s (.ok ())
      { s with stored := stored s serviceId dns, session := stored s serviceId dns } := by
  have set : s.perform (.setConfiguration serviceId dns) =
      (true, { s with session := stored s serviceId dns }) := by
    simp only [Machine.perform, present]
    rw [stored, fresh]
  refine Yields.tryOk (check_yields rfl rfl) ?_
  refine Yields.lift (Yields.tryOk (check_yields set rfl)
    (Yields.tryOk (check_yields rfl rfl) (check_yields rfl rfl))) ?_
  refine Yields.lift (check_yields rfl rfl) ?_
  exact .ret _ _

theorem dnsProtocol_spec (serviceId : Bytes) (s : Machine) :
    Safe calm (fun _ => True)
      (fun r t => t = s ∧ (r = .ok () → ∃ previous, s.session.dns serviceId = some previous))
      (dnsProtocol serviceId).run s := by
  refine Safe.lift ⟨trivial, fun _ _ => trivial, fun found t answer => ⟨trivial, ?_⟩⟩
  obtain ⟨rfl, rfl⟩ := Prod.mk.inj answer
  cases present : s.session.dns serviceId with
  | none => exact ⟨trivial, rfl, by simp⟩
  | some previous => exact ⟨trivial, rfl, fun _ => ⟨previous, rfl⟩⟩

/-- Both operations end by making the change known. -/
theorem announce_spec {α : Type} (service : Service) (result : α) (s : Machine) :
    Safe calm (fun _ => True) (fun r t => t = s ∧ r = .ok result)
      (do refreshInterface service; flushDnsCache; pure result : Result α).run s := by
  refine Safe.lift ((asks_same (refreshInterface_asks service) s).post ?_)
  rintro _ _ - rfl
  refine Safe.lift ((asks_same flushDnsCache_asks _).post ?_)
  rintro _ _ - rfl
  exact ⟨trivial, rfl, rfl⟩

/-- The session is opened, and the configuration is that of the service. -/
theorem look_spec (device : Option String) (s : Machine) :
    Safe calm (fun _ => True)
      (fun r t => t = { s with session := s.stored } ∧ ∀ service serviceId previous,
        r = .ok (service, serviceId, previous) → s.stored.dns serviceId = some previous)
      (look device).run s := by
  refine Safe.lift ⟨trivial, fun _ _ => trivial, fun _ s₁ answer => ⟨trivial, ?_⟩⟩
  obtain rfl := (Prod.mk.inj answer).2
  refine Safe.tryBind (looks_of_asks (targetService_asks device) _) ?_ (by simp +contextual)
  rintro service _ - rfl
  refine Safe.tryBind (looks_of_asks (serviceIdOf_asks service) _) ?_ (by simp +contextual)
  rintro serviceId _ - rfl
  refine Safe.tryBind (dnsProtocol_spec serviceId _) ?_ (by simp +contextual)
  rintro _ _ - ⟨rfl, found⟩
  obtain ⟨previous, present⟩ := found rfl
  refine Safe.lift ⟨trivial, fun _ _ => trivial, fun dns s₂ answer => ⟨trivial, ?_⟩⟩
  obtain ⟨rfl, rfl⟩ := Prod.mk.inj answer
  refine ⟨trivial, rfl, ?_⟩
  rintro _ _ _ ⟨⟩
  have original : s.stored.dns serviceId = some previous := present
  simp [original]

/-- What an application does to the stored preferences. -/
theorem apply_spec (config : NormalizedConfig) (s : Machine) :
    Safe calm (fun _ => True)
      (fun r t => ∀ handle, r = .ok handle →
        s.stored.dns handle.serviceId = some handle.originalDns ∧
        t.stored = stored s handle.serviceId
          (some (dnsWithServers handle.originalDns config.servers)))
      (apply config).run s := by
  rw [apply_eq]
  refine Safe.tryBind (look_spec config.device s) ?_ (by simp)
  rintro ⟨service, serviceId, previous⟩ _ - ⟨rfl, found⟩
  have original := found _ _ _ rfl
  refine Yields.thenOk (write_yields rfl original _) ((announce_spec service _ _).post ?_)
  rintro r t - ⟨rfl, rfl⟩ handle same
  obtain rfl := Except.ok.inj same
  exact ⟨original, rfl⟩

theorem close_spec (handle : SetDns) (s : Machine) :
    Safe calm (fun _ => True)
      (fun r t => r = .ok () → s.stored.dns handle.serviceId ≠ none ∧
        t.stored = stored s handle.serviceId handle.originalDns)
      (close handle).run s := by
  refine Safe.lift ⟨trivial, fun _ _ => trivial, fun _ s₁ answer => ⟨trivial, ?_⟩⟩
  obtain rfl := (Prod.mk.inj answer).2
  refine Safe.tryBind (looks_of_asks (serviceById_asks handle.serviceId) _) ?_ (by simp)
  rintro service _ - rfl
  refine Safe.tryBind (dnsProtocol_spec handle.serviceId _) ?_ (by simp)
  rintro _ _ - ⟨rfl, found⟩
  obtain ⟨previous, present⟩ := found rfl
  have original : s.stored.dns handle.serviceId = some previous := present
  refine Yields.thenOk (write_yields rfl present _) ((announce_spec service _ _).post ?_)
  rintro r t - ⟨rfl, -⟩ -
  exact ⟨by simp [original], rfl⟩

end Calm

section Snapshots

/-- An application that succeeds on any service. -/
def Opens (s : Machine) (handle : SetDns) (s' : Machine) : Prop :=
  ∃ config, Ends calm (apply config).run s (.ok handle) s'

def Closes (s : Machine) (handle : SetDns) (s' : Machine) : Prop :=
  Ends calm (close handle).run s (.ok ()) s'

/-- The DNS protocol of a service, and its configuration. -/
def view (s : Machine) : Bytes → Option (Option Dictionary) := s.stored.dns

def shot (handle : SetDns) : Snapshots.Shot Bytes (Option (Option Dictionary)) := fun service =>
  if service = handle.serviceId then some (some handle.originalDns) else none

theorem view_stored {s t : Machine} {serviceId : Bytes} {dns : Option Dictionary}
    (written : t.stored = stored s serviceId dns) :
    view t = Snapshots.overlay
      (fun service => if service = serviceId then some (some dns) else none) (view s) := by
  funext service
  by_cases here : service = serviceId
  · simp [view, written, stored, Snapshots.overlay, here]
  · simp [view, written, stored, Snapshots.overlay, here]

/-- A handle is a snapshot of the configuration of its service. -/
theorem snapshotting : Snapshots.Snapshotting Opens Closes (fun _ => True) view shot where
  opens s handle s' _ opened := by
    obtain ⟨config, ends⟩ := opened
    obtain ⟨original, written⟩ := (apply_spec config s).ends ends handle rfl
    refine ⟨trivial, _, view_stored written, funext fun service => ?_⟩
    by_cases here : service = handle.serviceId
    · simp [shot, Snapshots.take, view, here, original]
    · simp [shot, Snapshots.take, here]
  closes s handle s' _ closed :=
    ⟨trivial, view_stored ((close_spec handle s).ends closed rfl).2⟩

end Snapshots

end Setdns.Macos.Global
