import Setdns.Macos.Global

/-!
An application of the global backend that fails. The change is committed before it is
applied and before the lock is given back, and nothing writes the remembered
configuration back when one of these two calls fails.
-/

namespace Setdns.Macos.Global

open Text Effects Effects.Program Effects.SystemConfiguration

/-- Which calls of the write fail. -/
structure Plan where
  lock : Bool
  set : Bool
  commit : Bool
  apply : Bool
  unlock : Bool
  deriving DecidableEq, Repr

/-- The call fails according to the plan. -/
def Plan.Fails (plan : Plan) : ScCall → Prop
  | .lock => plan.lock = true
  | .setConfiguration _ _ => plan.set = true
  | .commitChanges => plan.commit = true
  | .applyChanges => plan.apply = true
  | .unlock => plan.unlock = true
  | _ => False

/-- The change becomes persistent. -/
def Plan.commits (plan : Plan) : Bool := !plan.lock && !plan.set && !plan.commit

def Plan.succeeds (plan : Plan) : Bool := plan.commits && !plan.apply && !plan.unlock

/-- Exactly the planned calls fail, and change nothing. -/
abbrev planned (plan : Plan) : World ScCall ScCall.Ret Machine :=
  calm.planned (fun c r => r = failure c) plan.Fails

/-- The lookups find this service for the device, with this configuration. -/
def Finds (s : Machine) (device : Option String) (service : Service) (serviceId : Bytes)
    (previous : Option Dictionary) : Prop :=
  ∃ t, Ends calm (look device).run s (.ok (service, serviceId, previous)) t

section Property

variable (plan : Plan) (config : NormalizedConfig) (s : Machine)

/-- A failed application leaves every stored configuration as it was. -/
def KeepsOnError : Prop :=
  ∀ e t, Ends (planned plan) (apply config).run s (.error e) t → t.stored.dns = s.stored.dns

/-- The change is not committed, or nothing fails afterwards, or it is no change. -/
def Harmless : Prop :=
  ∀ service serviceId previous, Finds s config.device service serviceId previous →
    plan.commits = false ∨ plan.succeeds = true ∨
      previous = some (dnsWithServers previous config.servers)

end Property

section Writing

variable {β : Type} {plan : Plan} {s : Machine} {serviceId : Bytes}
  {previous : Option Dictionary} {error : GlobalError}

theorem check_planned (c : ScCall) (ask : ScCall.Ret c → Bool)
    {Q : Except GlobalError Unit → Machine → Prop}
    (no : ask (failure c) = false) (yes : ask (s.perform c).1 = true)
    (failed : plan.Fails c → Q (.error error) s)
    (done : ¬ plan.Fails c → Q (.ok ()) (s.perform c).2) :
    Safe (planned plan) (fun _ => True) Q (check (.call c fun r => .ret (ask r)) error).run s := by
  refine Safe.lift ⟨trivial, fun _ _ => trivial, fun r t answer => ⟨trivial, ?_⟩⟩
  rcases answer with ⟨fails, rfl, rfl⟩ | ⟨holds, performed⟩
  · rw [no]
    exact ⟨trivial, failed fails⟩
  · have given : s.perform c = (r, t) := performed
    rw [given] at yes done
    rw [show ask r = true from yes]
    exact ⟨trivial, done holds⟩

theorem check_then (c : ScCall) (ask : ScCall.Ret c → Bool) {rest : Unit → Result β}
    {Q : Except GlobalError β → Machine → Prop}
    (no : ask (failure c) = false) (yes : ask (s.perform c).1 = true)
    (failed : plan.Fails c → Q (.error error) s)
    (next : ¬ plan.Fails c →
      Safe (planned plan) (fun _ => True) Q (rest ()).run (s.perform c).2) :
    Safe (planned plan) (fun _ => True) Q
      (check (.call c fun r => .ret (ask r)) error >>= rest).run s := by
  refine Safe.tryBind (check_planned c ask (Q := fun r t => match r with
    | .ok () => Safe (planned plan) (fun _ => True) Q (rest ()).run t
    | .error e => Q (.error e) t) no yes failed next) ?_ ?_
  · exact fun _ _ _ rest => rest
  · exact fun _ _ _ failed => failed

/-- What the calls under the lock do. -/
theorem change_planned (fresh : s.session = s.stored)
    (present : s.session.dns serviceId = some previous) (dns : Option Dictionary) :
    Safe (planned plan) (fun _ => True)
      (fun r t => (r = .ok () ↔ plan.set = false ∧ plan.commit = false ∧ plan.apply = false) ∧
        t.stored = if plan.set || plan.commit then s.stored else stored s serviceId dns)
      (do setProtocolConfiguration serviceId dns; commitAndApplyChanges : Result Unit).run s := by
  have set : s.perform (.setConfiguration serviceId dns) =
      (true, { s with session := stored s serviceId dns }) := by
    simp only [Machine.perform, present]
    rw [stored, fresh]
  refine check_then (.setConfiguration serviceId dns) id rfl (by rw [set]; rfl)
    (fun fails => ?_) fun setOk => ?_
  · simp [show plan.set = true from fails]
  rw [set]
  refine check_then .commitChanges id rfl rfl (fun fails => ?_) fun commitOk => ?_
  · simp [show plan.commit = true from fails]
  have setOk : plan.set = false := Bool.eq_false_iff.mpr setOk
  have commitOk : plan.commit = false := Bool.eq_false_iff.mpr commitOk
  refine check_planned .applyChanges id rfl rfl (fun fails => ?_) fun applyOk => ?_
  · simp [show plan.apply = true from fails, setOk, commitOk, Machine.perform]
  · have applyOk : plan.apply = false := Bool.eq_false_iff.mpr applyOk
    simp [applyOk, setOk, commitOk, Machine.perform]

/-- The change is stored if and only if it is committed, whatever is returned. -/
theorem write_planned (fresh : s.session = s.stored)
    (present : s.session.dns serviceId = some previous) (dns : Option Dictionary) :
    Safe (planned plan) (fun _ => True)
      (fun r t => (r = .ok () ↔ plan.succeeds = true) ∧
        t.stored = if plan.commits then stored s serviceId dns else s.stored)
      (withPreferencesLock do
        setProtocolConfiguration serviceId dns
        commitAndApplyChanges).run s := by
  refine check_then .lock id rfl rfl (fun fails => ?_) fun lockOk => ?_
  · simp [Plan.succeeds, Plan.commits, show plan.lock = true from fails]
  have lockOk : plan.lock = false := Bool.eq_false_iff.mpr lockOk
  refine Safe.lift ((change_planned fresh present dns).post ?_)
  rintro result t - ⟨ok, written⟩
  have written : t.stored = if plan.commits then stored s serviceId dns else s.stored := by
    rw [written, Plan.commits, lockOk]
    cases plan.set <;> cases plan.commit <;> rfl
  have succeeds : plan.succeeds = true ↔ result = .ok () ∧ plan.unlock = false := by
    rw [ok, Plan.succeeds, Plan.commits, lockOk]
    simp [and_assoc]
  refine Safe.lift (check_planned .unlock id rfl rfl (fun fails => ?_) fun unlockOk => ?_)
  · have unlocked : plan.unlock = true := fails
    cases result with
    | error e => simp [succeeds, written]
    | ok _ => simp [succeeds, written, unlocked]
  · have unlocked : plan.unlock = false := Bool.eq_false_iff.mpr unlockOk
    cases result with
    | error e => exact ⟨trivial, by simp [succeeds], written⟩
    | ok _ => exact ⟨trivial, by simp [succeeds, unlocked], written⟩

end Writing

section Failures

variable {plan : Plan} {config : NormalizedConfig} {s t : Machine} {service : Service}
  {serviceId : Bytes} {previous : Option Dictionary}

theorem look_unplanned (plan : Plan) (device : Option String) :
    Issues (fun c => ¬ plan.Fails c) (look device).run := by
  have unplanned : ∀ c, Asks c → ¬ plan.Fails c := fun c asks => by
    cases c <;> first | exact id | exact asks.elim
  refine Issues.lift (.call id) fun _ => ?_
  refine Issues.tryBind ((targetService_asks device).imp unplanned) fun service => ?_
  refine Issues.tryBind ((serviceIdOf_asks service).imp unplanned) fun serviceId => ?_
  refine Issues.tryBind ((dnsProtocol_asks serviceId).imp unplanned) fun _ => ?_
  exact Issues.lift (.call id) fun _ => trivial

theorem announce_unplanned (plan : Plan) (service : Service) (handle : SetDns) :
    Issues (fun c => ¬ plan.Fails c)
      (do refreshInterface service; flushDnsCache; pure handle : Result SetDns).run := by
  have unplanned : ∀ c, Asks c → ¬ plan.Fails c := fun c asks => by
    cases c <;> first | exact id | exact asks.elim
  exact Issues.lift ((refreshInterface_asks service).imp unplanned) fun _ =>
    Issues.lift (flushDnsCache_asks.imp unplanned) fun _ => trivial

/-- Where an application fails, and what is stored then. -/
theorem apply_error_cases {e : GlobalError}
    (run : Ends (planned plan) (apply config).run s (.error e) t) :
    t.stored = s.stored ∨ ∃ service serviceId previous,
      Finds s config.device service serviceId previous ∧ plan.succeeds = false ∧
      t.stored = if plan.commits then
        stored s serviceId (some (dnsWithServers previous config.servers)) else s.stored := by
  rw [apply_eq] at run
  rcases Ends.tryBind_cases run with ⟨⟨service, serviceId, previous⟩, s₁, looked, run⟩ |
    ⟨_, -, looked⟩
  swap
  · rw [(look_unplanned plan config.device).planned_iff] at looked
    have opened := ((look_spec config.device s).ends looked).1
    exact .inl (by rw [opened])
  rw [(look_unplanned plan config.device).planned_iff] at looked
  obtain ⟨rfl, found⟩ := (look_spec config.device s).ends looked
  have written : Safe (planned plan) _ _ _ _ :=
    write_planned (s := { s with session := s.stored }) rfl (found _ _ _ rfl)
      (some (dnsWithServers previous config.servers))
  rcases Ends.tryBind_cases run with ⟨_, s₂, -, announced⟩ | ⟨error, -, wrote⟩
  · rw [(announce_unplanned plan service _).planned_iff] at announced
    cases ((announce_spec service _ _).ends announced).2
  · obtain ⟨ok, change⟩ := written.ends wrote
    refine .inr ⟨service, serviceId, previous, ⟨_, looked⟩, ?_, change⟩
    exact Bool.eq_false_iff.mpr fun succeeds => nomatch ok.mpr succeeds

theorem Finds.stored (finds : Finds s config.device service serviceId previous) :
    s.stored.dns serviceId = some previous := by
  obtain ⟨_, looked⟩ := finds
  exact ((look_spec config.device s).ends looked).2 _ _ _ rfl

theorem keepsOnError_of_harmless (harmless : Harmless plan config s) :
    KeepsOnError plan config s := by
  intro e t run
  rcases apply_error_cases run with same | ⟨service, serviceId, previous, finds, failed, change⟩
  · rw [same]
  rcases harmless service serviceId previous finds with uncommitted | succeeds | none
  · rw [change, uncommitted]
    rfl
  · cases failed.symm.trans succeeds
  · rw [change, ← none]
    cases plan.commits with
    | false => rfl
    | true =>
        rw [if_pos rfl, Global.stored, ← finds.stored]
        exact Function.update_eq_self serviceId s.stored.dns

/-- A change that is committed stays when a later call fails. -/
theorem exists_changed (finds : Finds s config.device service serviceId previous)
    (commits : plan.commits = true) (failed : plan.succeeds = false)
    (change : previous ≠ some (dnsWithServers previous config.servers)) :
    ∃ e t, Ends (planned plan) (apply config).run s (.error e) t ∧
      t.stored.dns ≠ s.stored.dns := by
  have present := finds.stored
  obtain ⟨s₁, looked⟩ := finds
  obtain ⟨rfl, -⟩ := (look_spec config.device s).ends looked
  have written : Safe (planned plan) _ _ _ _ :=
    write_planned (s := { s with session := s.stored }) rfl present
      (some (dnsWithServers previous config.servers))
  have total : (planned plan).Total :=
    World.Total.planned (fun _ _ => ⟨_, _, rfl⟩) _ fun c => ⟨failure c, rfl⟩
  obtain ⟨r, t, wrote⟩ := exists_ends total _ _
  obtain ⟨ok, written⟩ := written.ends wrote
  rw [if_pos commits] at written
  cases r with
  | ok _ => cases failed.symm.trans (ok.mp rfl)
  | error e =>
      refine ⟨e, t, ?_, fun same => change ?_⟩
      · rw [apply_eq]
        exact Ends.tryBind ((look_unplanned plan config.device).planned_iff.mpr looked)
          (Ends.tryError wrote)
      · have now : t.stored.dns serviceId =
            some (some (dnsWithServers previous config.servers)) := by
          rw [written]
          exact Function.update_self ..
        rw [same, present] at now
        exact Option.some.inj now

end Failures

/-- A failed application leaves the stored configurations as they were if and only if the
change is not committed, nothing fails afterwards, or it is no change. -/
theorem failed_apply_keeps_dns_iff (plan : Plan) (config : NormalizedConfig) (s : Machine) :
    KeepsOnError plan config s ↔ Harmless plan config s := by
  refine ⟨fun keeps service serviceId previous finds => ?_, keepsOnError_of_harmless⟩
  by_contra harmful
  simp only [not_or, Bool.not_eq_false, Bool.not_eq_true] at harmful
  obtain ⟨commits, failed, change⟩ := harmful
  obtain ⟨e, t, run, changed⟩ := exists_changed finds commits failed change
  exact changed (keeps e t run)

section Sample

/-- A service whose DNS has no configuration of its own. -/
def sampleService : Service := ⟨some (bytes "wifi"), true, some ⟨some (bytes "en0")⟩⟩

def samplePreferences : Preferences where
  services := [sampleService]
  order := some [bytes "wifi"]
  dns := fun service => if service = bytes "wifi" then some none else none

def sampleMachine : Machine := ⟨samplePreferences, samplePreferences, fun _ => none⟩

def sampleConfig : NormalizedConfig := ⟨bytes "vpn", [.v4 ⟨10, 0, 0, 53⟩], [], some "en0"⟩

/-- The change is committed and cannot be applied. -/
def samplePlan : Plan := ⟨false, false, false, true, false⟩

theorem sample_finds : Finds sampleMachine sampleConfig.device sampleService (bytes "wifi") none :=
  ⟨_, ends_exec (W := calm) (fun _ _ => rfl) (look (some "en0")).run sampleMachine⟩

theorem unapplied_change_is_stored :
    ¬ ∀ (plan : Plan) (config : NormalizedConfig) (s : Machine), KeepsOnError plan config s := by
  intro keeps
  obtain ⟨e, t, run, changed⟩ : ∃ e t, Ends (planned samplePlan) (apply sampleConfig).run
      sampleMachine (.error e) t ∧ t.stored.dns ≠ sampleMachine.stored.dns :=
    exists_changed sample_finds rfl rfl (by simp)
  exact changed (keeps samplePlan sampleConfig sampleMachine e t run)

end Sample

end Setdns.Macos.Global
