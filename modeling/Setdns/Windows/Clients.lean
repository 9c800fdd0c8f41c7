import Setdns.Config.Domains
import Setdns.Windows.InterfaceSnapshots
import Setdns.Windows.Rollback
import Setdns.Windows.Store

/-!
Clients of the Windows backend where no call fails. The rules of all handles are the store,
and the interfaces hold what the snapshots in the handles lead back from. The two lie under
different keys, so handles may be closed in any order as long as those of one interface are
closed from the last one on.
-/

namespace Setdns.Windows

open Text Effects Effects.Program Effects.Registry Effects.NetSettings Simulation Handle
open Nrpt (Machine RuleSet NrptError Generation OnNrptKeys bracedGuid fold nrptBase stateBase)
open Interface (Call Cell InterfaceDns InterfaceError Inside Names Wellformed interfaceBases shot
  view)

section Frames

variable {order : Enumeration} {platform : Platform} {s t : Machine} {base k : Bytes} {i : Cell}

/-- The call changes only interfaces. -/
def OnInterfaces : Call → Prop
  | .inl c => ∀ base folded, Targets fold c base folded → base ∈ interfaceBases
  | .inr (.removeValue path _) => path.base ∈ interfaceBases
  | .inr _ => True

theorem write_values {path : KeyPath} {name : Bytes} {data : Option Value}
    (outside : base ≠ path.base) : (write s path name data).2.values base k = s.values base k := by
  unfold write
  cases there : s.find path.base (fold path.name) with
  | none => rfl
  | some key =>
      simp only [Option.elim, Hive.values]
      rw [find_put_other _ fun here => outside here.1]

theorem onInterfaces_values {c : Call} {r : Call.Ret c} (home : OnInterfaces c)
    (a : (Interface.calm order platform).answers s c r t) (outside : base ∉ interfaceBases) :
    t.values base k = s.values base k := by
  cases c with
  | inl c => exact faulty_frame (.inl a) fun target => outside (home _ _ target)
  | inr c =>
      have performed : (NetSettings.perform platform bracedGuid s c).2 = t := congrArg Prod.snd a
      rw [← performed]
      cases c with
      | setInterfaceDnsSettings guid flags text =>
          have ne : base ≠ familyBase flags := by
            rintro rfl
            refine outside ?_
            unfold familyBase
            split <;> decide
          have written := @write_values s base k ⟨familyBase flags, bracedGuid guid⟩ nameServer
            (some (.string (fromWide text))) ne
          simp only [NetSettings.perform]
          split
          · rename_i here
            rwa [here] at written
          · rename_i here
            rwa [here] at written
      | removeValue path name =>
          simp only [NetSettings.perform]
          split
          · exact write_values fun here => outside (here ▸ home)
          · rfl
      | _ => rfl

theorem onInterfaces_ends {α : Type} {p : Program Call Call.Ret α} {a : α}
    (home : Issues OnInterfaces p) (run : Ends (Interface.calm order platform) p s a t)
    (outside : base ∉ interfaceBases) : t.values base k = s.values base k := by
  refine home.ends (I := fun t : Machine => t.values base k = s.values base k) ?_ run rfl
  exact fun _ _ _ _ home same a => (onInterfaces_values home a outside).trans same

theorem restoreIf_onInterfaces {snapshot : Option Interface.NameServerSnapshot}
    (inside : Inside snapshot) : Issues OnInterfaces (Interface.restoreIf snapshot).run := by
  cases snapshot with
  | none => trivial
  | some snapshot =>
      obtain ⟨path, value⟩ := snapshot
      have here : path.base ∈ interfaceBases := inside _ rfl
      refine Issues.tryBind (Issues.mapErr (Issues.call fun _ _ target => target.1 ▸ here))
        fun _ => ?_
      cases value with
      | some text => exact Issues.mapErr (Issues.call fun _ _ target => target.1 ▸ here)
      | none => exact Issues.lift (Issues.call here) fun _ => trivial

theorem restore_onInterfaces {snapshots : Interface.InterfaceSnapshots}
    (inside : Inside snapshots.ipv4 ∧ Inside snapshots.ipv6) :
    Issues OnInterfaces snapshots.restore.run :=
  Issues.tryBind (restoreIf_onInterfaces inside.1) fun _ => restoreIf_onInterfaces inside.2

theorem setDnsIf_onInterfaces (device : Bytes) (guid : Guid) (family : Interface.AddressFamily)
    (nameservers : Bytes) :
    Issues OnInterfaces (Interface.setDnsIf device guid family nameservers).run := by
  unfold Interface.setDnsIf
  split
  · refine Issues.lift (Issues.call trivial) fun code => ?_
    split <;> trivial
  · trivial

theorem setOrRestore_onInterfaces {device ipv4 ipv6 : Bytes} {guid : Guid}
    {snapshots : Interface.InterfaceSnapshots}
    (inside : Inside snapshots.ipv4 ∧ Inside snapshots.ipv6) :
    Issues OnInterfaces (Interface.setOrRestore device guid ipv4 ipv6 snapshots).run := by
  have set : Issues OnInterfaces (Interface.setDns device guid ipv4 ipv6).run :=
    Issues.tryBind (setDnsIf_onInterfaces _ _ _ _) fun _ => setDnsIf_onInterfaces _ _ _ _
  refine Issues.lift set fun written => ?_
  cases written with
  | ok _ => trivial
  | error e => exact Issues.lift (restore_onInterfaces inside) fun _ => trivial

end Frames

section Interfaces

variable {order : Enumeration} {platform : Platform} {s t : Machine} {dns : Option InterfaceDns}
  {config : NormalizedConfig}

/-- What the snapshots of a handle cover. -/
def shotOf (dns : Option InterfaceDns) : Snapshots.Shot Cell (Option Value) :=
  dns.elim (fun _ => none) shot

/-- All name servers of the interfaces are absent or texts. -/
def Readable (platform : Platform) (s : Machine) : Prop :=
  ∀ device guid, Names platform device guid → Wellformed guid s

theorem Readable.congr (readable : Readable platform s)
    (same : ∀ i : Cell, i.1 ∈ interfaceBases → view t i = view s i) : Readable platform t := by
  intro device guid named family value held
  rw [same _ (Interface.registryBase_mem family)] at held
  exact readable device guid named family value held

/-- The snapshots of the handle lie at interfaces. -/
def AtInterfaces (dns : Option InterfaceDns) : Prop :=
  ∀ handle, dns = some handle → Inside handle.snapshots.ipv4 ∧ Inside handle.snapshots.ipv6

/-- An interface may have been set, and the handle leads back. -/
structure Sets (platform : Platform) (s : Machine) (dns : Option InterfaceDns) (t : Machine) :
    Prop where
  outside : ∀ base k, base ∉ interfaceBases → t.values base k = s.values base k
  saw : ∀ i, (shotOf dns i).getD (view t i) = view s i
  inside : AtInterfaces dns
  readable : Readable platform t

theorem apply_outside {device : Bytes} {servers : List IpAddr} {base k : Bytes}
    {r : Except InterfaceError (Option InterfaceDns)} (readable : Readable platform s)
    (run : Ends (Interface.calm order platform) (Interface.apply device servers).run s r t)
    (outside : base ∉ interfaceBases) : t.values base k = s.values base k := by
  have safe : Safe (Interface.calm order platform) (fun _ => True)
      (fun _ t => t.values base k = s.values base k) (Interface.apply device servers).run s := by
    refine Interface.apply_safe (fun _ _ _ _ => Interface.faulty_of_calm) (fun _ => rfl)
      (fun _ => rfl) fun guid snapshots _ named read => ?_
    obtain ⟨-, taken⟩ :=
      (Interface.safe_calm (Interface.read_seen (readable device guid named) servers)).ends read
    obtain ⟨inside, -⟩ := taken snapshots rfl
    exact safe_iff.mpr ⟨fun _ _ => trivial, fun _ _ run =>
      onInterfaces_ends (setOrRestore_onInterfaces inside) run outside⟩
  exact safe.ends run

theorem new_readable {guid : Guid} {servers : List IpAddr} (readable : Readable platform s)
    (written : view t = Snapshots.overlay (Interface.new guid servers) (view s)) :
    Readable platform t := by
  intro device guid' named
  refine Interface.wellformed_overlay ?_ (readable device guid' named) written
  exact Interface.above_texts (fun _ _ => Interface.newIf_texts) fun _ _ => Interface.newIf_texts

theorem shot_readable {handle : InterfaceDns} (readable : Readable platform s)
    (written : view t = Snapshots.overlay (shot handle) (view s)) : Readable platform t := by
  intro device guid named
  refine Interface.wellformed_overlay ?_ (readable device guid named) written
  exact Interface.above_texts (fun _ _ => Interface.shotIf_texts) fun _ _ => Interface.shotIf_texts

theorem sets_nothing (readable : Readable platform s) (same : view t = view s)
    (outside : ∀ base k, base ∉ interfaceBases → t.values base k = s.values base k) :
    Sets platform s none t where
  outside := outside
  saw i := congrFun same i
  inside := by simp [AtInterfaces]
  readable := readable.congr fun i _ => congrFun same i

theorem interface_sets {device : Bytes} {servers : List IpAddr}
    {r : Except InterfaceError (Option InterfaceDns)} (readable : Readable platform s)
    (run : Ends (Interface.calm order platform) (Interface.apply device servers).run s r t) :
    ∃ dns, Sets platform s dns t ∧ (r = .ok dns ∨ dns = none ∧ ∃ e, r = .error e) := by
  have outside := fun base k (h : base ∉ interfaceBases) =>
    apply_outside (k := k) readable run h
  have rolled := (Interface.safe_calm (Interface.apply_rolled (readable device))).ends run
  cases rolled with
  | unchanged unset =>
      refine ⟨none, sets_nothing readable rfl outside, ?_⟩
      cases r with
      | error e => exact .inr ⟨rfl, e, rfl⟩
      | ok found =>
          cases found with
          | none => exact .inl rfl
          | some handle => exact absurd rfl (unset handle)
  | undone reached restored =>
      rw [Interface.glimpse_all] at restored
      have same : view t = view s := by
        rw [restored]
        exact Snapshots.overlay_take fun _ _ => rfl
      exact ⟨none, sets_nothing readable same outside, .inr ⟨rfl, _, rfl⟩⟩
  | @set guid handle _ reached inside seen frame =>
      rw [Interface.glimpse_all] at seen
      obtain ⟨written, -⟩ := (Interface.apply_spec reached.named
        (readable device guid reached.named) servers).ends run handle rfl
      refine ⟨some handle, ⟨outside, fun i => ?_, ?_, new_readable readable written⟩, .inl rfl⟩
      · show (shot handle i).getD (view t i) = view s i
        rw [seen]
        exact Snapshots.overlay_take_apply (frame i)
      · intro other same
        cases same
        exact inside

/-- The first half of an application. -/
theorem applyInterface_sets {r : Except Error (Option InterfaceDns)}
    (readable : Readable platform s)
    (run : Ends (Interface.calm order platform) (applyInterface config).run s r t) :
    ∃ dns, Sets platform s dns t ∧
      (r = .ok dns ∨ dns = none ∧ ∃ e, r = .error (.interface e)) := by
  have idle : ∀ r, Ends (Interface.calm order platform)
      (pure none : Result (Option InterfaceDns)).run s r t → ∃ dns, Sets platform s dns t ∧
        (r = .ok dns ∨ dns = none ∧ ∃ e, r = .error (.interface e)) := by
    intro r run
    cases run
    exact ⟨none, sets_nothing readable rfl fun _ _ _ => rfl, .inl rfl⟩
  unfold applyInterface at run
  split at run
  · cases named : config.device with
    | none =>
        rw [named] at run
        exact idle r run
    | some device =>
        rw [named] at run
        obtain ⟨r', made, rfl⟩ := Ends.mapErr_cases run
        obtain ⟨dns, sets, rfl | ⟨rfl, e, rfl⟩⟩ := interface_sets readable made
        · exact ⟨dns, sets, .inl rfl⟩
        · exact ⟨none, sets, .inr ⟨rfl, e, rfl⟩⟩
  · exact idle r run

/-- The second half of a close. -/
theorem closeInterface_sets {r : Except InterfaceError Unit} (readable : Readable platform s)
    (inside : AtInterfaces dns)
    (run : Ends (Interface.calm order platform) (closeInterface dns) s r t) :
    r = .ok () ∧ (∀ base k, base ∉ interfaceBases → t.values base k = s.values base k) ∧
      (∀ i, view t i = (shotOf dns i).getD (view s i)) ∧ Readable platform t := by
  cases dns with
  | none =>
      cases run
      exact ⟨rfl, fun _ _ _ => rfl, fun _ => rfl, readable⟩
  | some handle =>
      have home := inside handle rfl
      obtain ⟨always, written⟩ :=
        (Interface.safe_calm (Interface.restore_spec handle.snapshots s)).ends run
      obtain rfl := always home.1 home.2
      exact ⟨rfl, fun base k outside => onInterfaces_ends (restore_onInterfaces home) run outside,
        congrFun (written rfl), shot_readable readable (written rfl)⟩

end Interfaces

section Rules

variable {order : Enumeration} {platform : Platform} {start s s₁ t : Machine}
  {users : Bytes → Prop} {handles given : List RuleSet} {store : Nrpt.Store} {base k : Bytes}

/-- No call fails, and no identifier is handed out that one of these rule sets names. -/
abbrev unfailing (order : Enumeration) (platform : Platform) (given : List RuleSet) :
    World Call Call.Ret Machine :=
  (Nrpt.supplying order given).beside (NetSettings.calm platform bracedGuid)

theorem calm_of_unfailing {α : Type} {p : Program Call Call.Ret α} {a : α}
    (run : Ends (unfailing order platform given) p s a t) :
    Ends (Interface.calm order platform) p s a t := by
  refine run.mono fun s c r t answer => ?_
  cases c with
  | inl c =>
      obtain ⟨guid, unclaimed, performed⟩ := answer
      exact ⟨guid, fun ask => (unclaimed ask).1, performed⟩
  | inr c => exact answer

theorem unclaimed_of_fewer {guid : Guid} (fewer : ∀ handle ∈ handles, handle ∈ given)
    (unclaimed : Nrpt.Unclaimed given s guid) : Nrpt.Unclaimed handles s guid := by
  refine ⟨unclaimed.1, fun o claimed => unclaimed.2 o ?_⟩
  exact claimed.imp_right fun later => later.imp_right fun ⟨handle, mem, held⟩ =>
    ⟨handle, fewer handle mem, held⟩

/-- The rules have the registry for themselves. -/
theorem rules_run {α : Type} {p : Registry.Io α} {a : α}
    (fewer : ∀ handle ∈ handles, handle ∈ given)
    (run : Ends (unfailing order platform given) p.left s a t) :
    Ends (Nrpt.supplying order handles) p s a t :=
  run.left_cases.mono fun _ _ _ _ ⟨guid, unclaimed, performed⟩ =>
    ⟨guid, fun ask => unclaimed_of_fewer fewer (unclaimed ask), performed⟩

theorem rules_view {α : Type} {p : Registry.Io α} {a : α} (issues : Issues OnNrptKeys p)
    (run : Ends (unfailing order platform given) p.left s a t) {i : Cell}
    (inside : i.1 ∈ interfaceBases) : view t i = view s i :=
  rules_frame issues inside ((calm_of_unfailing run).mono fun _ _ _ _ =>
    Interface.faulty_of_calm)

theorem flushed (run : Ends (unfailing order platform given) flushDnsCache s () t) : t = s := by
  obtain ⟨status, s₁, asked, last⟩ := Ends.bind_cases run
  cases last
  exact (Prod.mk.inj asked.answer).2.symm

/-- The start, with the interfaces as they are now. -/
def rebased (start s : Machine) : Machine := fun base =>
  if base = ipv4Base ∨ base = ipv6Base then s base else start base

theorem mem_interfaceBases : base ∈ interfaceBases ↔ base = ipv4Base ∨ base = ipv6Base := by
  simp [interfaceBases]

theorem rebased_inside (inside : base ∈ interfaceBases) :
    (rebased start s).values base k = s.values base k := by
  simp only [Hive.values, Hive.find, rebased, if_pos (mem_interfaceBases.mp inside)]

theorem rebased_outside (outside : base ∉ interfaceBases) :
    (rebased start s).values base k = start.values base k := by
  simp only [Hive.values, Hive.find, rebased, if_neg (mt mem_interfaceBases.mpr outside)]

theorem rebased_untouched (clean : Nrpt.Untouched start) : Nrpt.Untouched (rebased start s) where
  rules k := by
    rw [Nrpt.tag, rebased_outside nrptBases_not_mem.1]
    exact clean.rules k
  states k := by
    rw [rebased_outside nrptBases_not_mem.2]
    exact clean.states k

/-- The store does not notice what happens at interfaces. -/
theorem rebase (represents : Nrpt.Represents (rebased start s) users ⟨s₁, handles⟩ store)
    (same : ∀ base k, base ∉ interfaceBases → t.values base k = s₁.values base k) :
    Nrpt.Represents (rebased start t) users ⟨t, handles⟩ store := by
  obtain ⟨listed, ⟨rules, records, rest⟩, keyed, user, some, distinct, unborn, apart⟩ := represents
  have nrpt := fun k => same nrptBase k nrptBases_not_mem.1
  have state := fun k => same stateBase k nrptBases_not_mem.2
  refine ⟨listed, ⟨fun o g here => ?_, fun o g here => ?_, fun base k free => ?_⟩,
    ⟨keyed, user, some, distinct, fun g known id mem => ?_, apart⟩⟩
  · simp only [nrpt]
    exact rules o g here
  · rw [state]
    exact records o g here
  · by_cases inside : base ∈ interfaceBases
    · exact (rebased_inside inside).symm
    · have before : s₁.values base k = (rebased start s).values base k := rest base k free
      rw [rebased_outside inside] at before ⊢
      exact (same base k inside).trans before
  · have before := unborn g known id mem
    rw [rebased_outside nrptBases_not_mem.1] at before ⊢
    exact before

end Rules

section Uses

variable {order : Enumeration} {platform : Platform} {start s t : Machine} {users : Bytes → Prop}
  {given : List RuleSet} {store : Nrpt.Store} {live front back : List SetDns} {handle : SetDns}
  {config : NormalizedConfig}

/-- The rules of the live handles are the store, and their snapshots lie at interfaces. -/
structure Related (start : Machine) (users : Bytes → Prop) (platform : Platform)
    (p : (Machine × List RuleSet) × List SetDns) (store : Nrpt.Store) : Prop where
  rules : ∃ handles, Nrpt.Represents (rebased start p.1.1) users ⟨p.1.1, handles⟩ store ∧
    handles.Perm (p.2.map SetDns.nrptRules)
  given : ∀ handle ∈ p.2, handle.nrptRules ∈ p.1.2
  readable : Readable platform p.1.1
  inside : ∀ handle ∈ p.2, AtInterfaces handle.interfaceDns

theorem Related.listed {handles : List RuleSet}
    (related : Related start users platform ((s, given), live) store)
    (perm : handles.Perm (live.map SetDns.nrptRules)) : ∀ handle ∈ handles, handle ∈ given := by
  intro rules mem
  obtain ⟨handle, there, rfl⟩ := List.mem_map.mp (perm.mem_iff.mp mem)
  exact related.given handle there

/-- Where an interface cannot be set nothing happens, and otherwise the rules take the owner's
place. -/
theorem Related.applied {r : Except Error SetDns}
    (related : Related start users platform ((s, given), live) store)
    (clean : Nrpt.Untouched start) (distinct : Nrpt.Distinct users) (user : users config.owner)
    (run : Ends (unfailing order platform given) (apply config).run s r t) :
    (∃ e, r = .error (.interface e) ∧
      (∀ i : Cell, i.1 ∈ interfaceBases → view t i = view s i) ∧
      Related start users platform ((t, given), live) store) ∨
    ∃ (g : Generation) (dns : Option InterfaceDns), r = .ok ⟨g.handle, dns⟩ ∧
      g.owner = config.owner ∧ g.servers = config.servers ∧
      g.namespaces = Nrpt.namespacesForGlobalOrSplit config.domains ∧ g ∉ store.live ∧
      (∀ i : Cell, i.1 ∈ interfaceBases → (shotOf dns i).getD (view t i) = view s i) ∧
      Related start users platform ((t, g.handle :: given), ⟨g.handle, dns⟩ :: live)
        ⟨Function.update store.current config.owner (some g), g :: store.live⟩ := by
  obtain ⟨handles, represents, perm⟩ := related.rules
  have fewer := related.listed perm
  -- The interface is set before the rules, and the store is the same with it.
  have ruled : ∀ {dns : Option InterfaceDns} {s₁ s₂ : Machine} {r' : Except NrptError RuleSet},
      Sets platform s dns s₁ → Ends (unfailing order platform given) (applyRules config) s₁ r' s₂ →
      ∃ g : Generation, g.owner = config.owner ∧ g.servers = config.servers ∧
        g.namespaces = Nrpt.namespacesForGlobalOrSplit config.domains ∧ r' = .ok g.handle ∧
        g ∉ store.live ∧ Nrpt.Represents (rebased start s₁) users ⟨s₂, g.handle :: handles⟩
          ⟨Function.update store.current config.owner (some g), g :: store.live⟩ :=
    fun sets run => (rebase represents sets.outside).take (rebased_untouched clean) distinct user
      (rules_run fewer run)
  cases apply_parts run with
  | interface failed =>
      obtain ⟨dns, sets, same | ⟨rfl, e, same⟩⟩ :=
        applyInterface_sets related.readable (calm_of_unfailing failed)
      · cases same
      · cases same
        refine .inl ⟨e, rfl, fun i _ => sets.saw i, ⟨handles, ?_, perm⟩, related.given,
          sets.readable, related.inside⟩
        exact rebase represents sets.outside
  | @rules dns e r' s₁ s₂ _ set failed undone =>
      obtain ⟨dns, sets, -⟩ := applyInterface_sets related.readable (calm_of_unfailing set)
      obtain ⟨g, -, -, -, same, -⟩ := ruled sets failed
      cases same
  | @done dns rules s₁ s₂ _ set applied done =>
      obtain ⟨dns', sets, same | ⟨-, e, same⟩⟩ :=
        applyInterface_sets related.readable (calm_of_unfailing set)
      swap
      · cases same
      cases same
      obtain ⟨g, owner, servers, namespaces, same, new, after⟩ := ruled sets applied
      cases same
      obtain rfl := flushed done
      have framed : ∀ i : Cell, i.1 ∈ interfaceBases → view t i = view s₁ i := fun i inside =>
        rules_view (Nrpt.apply_onNrptKeys _ _ _) applied inside
      refine .inr ⟨g, dns, rfl, owner, servers, namespaces, new, fun i inside => ?_,
        ⟨_, rebase after fun _ _ _ => rfl, perm.cons _⟩, ?_, sets.readable.congr framed, ?_⟩
      · rw [framed i inside]
        exact sets.saw i
      · intro handle mem
        cases mem with
        | head => exact .head _
        | tail _ mem => exact .tail _ (related.given handle mem)
      · intro handle mem
        cases mem with
        | head => exact sets.inside
        | tail _ mem => exact related.inside handle mem

theorem erased_perm {handles : List RuleSet}
    (perm : handles.Perm ((front ++ handle :: back).map SetDns.nrptRules)) :
    (handles.erase handle.nrptRules).Perm ((front ++ back).map SetDns.nrptRules) := by
  have first : ((front ++ handle :: back).map SetDns.nrptRules).Perm
      (handle.nrptRules :: (front ++ back).map SetDns.nrptRules) :=
    List.perm_middle.map SetDns.nrptRules
  simpa using (perm.trans first).erase handle.nrptRules

/-- The interface is put back in any case, and the rules are removed unless the place is lost. -/
theorem Related.closed {r : Except Error Unit}
    (related : Related start users platform ((s, given), front ++ handle :: back) store)
    (clean : Nrpt.Untouched start) (distinct : Nrpt.Distinct users)
    (run : Ends (unfailing order platform given) (close handle).run s r t) :
    (∀ i : Cell, i.1 ∈ interfaceBases →
      view t i = (shotOf handle.interfaceDns i).getD (view s i)) ∧
    ∃ g ∈ store.live, g.handle = handle.nrptRules ∧
      ((r = .ok () ∧ store.current g.owner = some g ∧
        Related start users platform ((t, given), front ++ back)
          ⟨Function.update store.current g.owner none, store.live.erase g⟩) ∨
      ((∃ e, r = .error (.nrpt e)) ∧ store.current g.owner ≠ some g ∧
        Related start users platform ((t, given), front ++ back)
          ⟨store.current, store.live.erase g⟩)) := by
  obtain ⟨handles, represents, perm⟩ := related.rules
  have here : handle ∈ front ++ handle :: back := List.mem_append_right _ (.head _)
  have mem : handle.nrptRules ∈ handles := perm.mem_iff.mpr (List.mem_map_of_mem here)
  obtain ⟨nrptResult, interfaceResult, s₁, s₂, removed, restored, done, rfl⟩ := close_parts run
  obtain rfl := flushed done
  have framed : ∀ i : Cell, i.1 ∈ interfaceBases → view s₁ i = view s i := fun i inside =>
    rules_view (Nrpt.close_onNrptKeys _) removed inside
  obtain ⟨rfl, outside, back', readable⟩ := closeInterface_sets (related.readable.congr framed)
    (related.inside handle here) (calm_of_unfailing restored)
  refine ⟨fun i inside => by rw [back', framed i inside], ?_⟩
  obtain ⟨g, alive, same, after⟩ := represents.release (rebased_untouched clean) distinct mem
    (rules_run (related.listed perm) removed)
  have next : ∀ store', Nrpt.Represents (rebased start s) users
      ⟨s₁, handles.erase handle.nrptRules⟩ store' →
      Related start users platform ((t, given), front ++ back) store' := fun store' after =>
    ⟨⟨_, rebase after outside, erased_perm perm⟩,
      fun handle mem => related.given handle (mem_of_others mem), readable,
      fun handle mem => related.inside handle (mem_of_others mem)⟩
  refine ⟨g, alive, same, ?_⟩
  rcases after with ⟨rfl, held, after⟩ | ⟨⟨e, rfl⟩, lost, after⟩
  · exact .inl ⟨rfl, held, next _ after⟩
  · exact .inr ⟨⟨e, rfl⟩, lost, next _ after⟩

theorem Related.forgotten
    (related : Related start users platform ((s, given), front ++ handle :: back) store)
    (clean : Nrpt.Untouched start) (distinct : Nrpt.Distinct users) :
    ∃ g ∈ store.live, g.handle = handle.nrptRules ∧
      Related start users platform ((s, given), front ++ back)
        ⟨store.current, store.live.erase g⟩ := by
  obtain ⟨handles, represents, perm⟩ := related.rules
  have mem : handle.nrptRules ∈ handles :=
    perm.mem_iff.mpr (List.mem_map_of_mem (List.mem_append_right _ (.head _)))
  obtain ⟨label, store', means, step, after⟩ := Nrpt.operation_matched (rebased_untouched clean)
    distinct _ _ _ _ represents (.forgotten mem)
  generalize named : handle.nrptRules = rules at means
  cases means with
  | forgotten g =>
      cases step with
      | dropped alive =>
          exact ⟨g, alive, rfl, ⟨_, after, erased_perm perm⟩,
            fun handle mem => related.given handle (mem_of_others mem), related.readable,
            fun handle mem => related.inside handle (mem_of_others mem)⟩

end Uses

section Clients

variable {parseDnsName : Bytes → Except Bytes Unit} {platform : Platform} {start s : Machine}
  {users : Bytes → Prop} {admits : List SetDns → SetDns → Prop} {given : List RuleSet}
  {store : Nrpt.Store} {p p' : (Machine × List RuleSet) × List SetDns}
  {event : Event SetDns Error}

def backend : (c : PlatformCall SetDns) → Io (PlatformCall.Ret SetDns Error c)
  | .apply config => (apply config).run
  | .close inner => (close inner).run

/-- The rule set that an answer hands out. -/
def handedOut : (c : PlatformCall SetDns) → PlatformCall.Ret SetDns Error c → List RuleSet
  | .apply _, .ok handle => [handle.nrptRules]
  | _, _ => []

/-- A machine on which no call fails. It remembers the rule sets that it has handed out, and
does not hand out their identifiers again. -/
def serving (platform : Platform) :
    World (PlatformCall SetDns) (PlatformCall.Ret SetDns Error) (Machine × List RuleSet) where
  answers s c r s' := (∃ order, Ends (unfailing order platform s.2) (backend c) s.1 r s'.1) ∧
    s'.2 = handedOut c r ++ s.2
  torn _ _ _ := False

/-- What a use of the backend does to the store. Only an interface can be refused, and a close
fails exactly when the place is lost. -/
inductive Stored : Event SetDns Error → List (Leases.Event Generation) → Prop
  | refused (config : NormalizedConfig) (e : InterfaceError) :
      Stored (.applied config (.error (.interface e))) []
  | applied {config : NormalizedConfig} {g : Generation} (dns : Option InterfaceDns)
      (owner : g.owner = config.owner) (servers : g.servers = config.servers)
      (namespaces : g.namespaces = Nrpt.namespacesForGlobalOrSplit config.domains) :
      Stored (.applied config (.ok ⟨g.handle, dns⟩)) [.taken g]
  | closed (g : Generation) (dns : Option InterfaceDns) :
      Stored (.closed ⟨g.handle, dns⟩ (.ok ())) [.released g]
  | stale (g : Generation) (dns : Option InterfaceDns) (e : NrptError) :
      Stored (.closed ⟨g.handle, dns⟩ (.error (.nrpt e))) [.refused g]
  | forgotten (g : Generation) (dns : Option InterfaceDns) :
      Stored (.forgotten ⟨g.handle, dns⟩) [.dropped g]

/-- No later handle has a name server that the handle has. -/
def Apart (front : List SetDns) (handle : SetDns) : Prop :=
  ∀ later ∈ front, ∀ i,
    shotOf later.interfaceDns i = none ∨ shotOf handle.interfaceDns i = none

variable {outcomes : List (Outcome SetDns Error)} {handles : List (Handle.SetDns SetDns)}

theorem start_related (readable : Readable platform start) :
    Related start users platform ((start, []), []) .empty where
  rules := by
    have nothing := Nrpt.empty_represents (rebased start start) users
    obtain ⟨listed, ⟨rules, records, rest⟩, coherent⟩ := nothing
    refine ⟨[], ⟨listed, ⟨rules, records, fun base k _ => ?_⟩, coherent⟩, .refl _⟩
    by_cases inside : base ∈ interfaceBases
    · exact (rebased_inside inside).symm
    · exact (rebased_outside inside).symm
  given := by simp
  readable := readable
  inside := by simp

end Clients

section Samples

open Nrpt (sampleGuid sampleOrder sampleOwner)

def sampleServer : Handler Call Call.Ret Machine
  | s, .inl c => Nrpt.sampleHandler s c
  | s, .inr c => NetSettings.perform sampleSystem bracedGuid s c

def sampleRequest : Config :=
  ⟨sampleOwner, [.v4 ⟨10, 0, 0, 53⟩], [], some "Ethernet"⟩

def sampleNormal : NormalizedConfig :=
  ⟨sampleOwner, [.v4 ⟨10, 0, 0, 53⟩], [], some "Ethernet"⟩

/-- Rules for all names, and what the interface had. -/
def sampleInner : SetDns :=
  ⟨Nrpt.sampleHandle,
    some ⟨⟨some ⟨⟨ipv4Base, bracedGuid (sampleGuid 2)⟩, some (bytes "9.9.9.9")⟩, none⟩⟩⟩

def sampleApplied : Except Error SetDns × Machine :=
  exec sampleServer (apply sampleNormal).run sampleServed

def sampleDropped : Except Error Unit × Machine :=
  exec sampleServer (close sampleInner).run sampleApplied.2

end Samples

end Setdns.Windows
