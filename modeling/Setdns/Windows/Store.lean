import Setdns.Handle
import Setdns.Order.Leases
import Setdns.Windows.ExactEffect
import Setdns.Windows.Isolation

/-!
The registry as a store of rules by owner. An application takes the owner's place
in the store, and a handle gives it back only while nobody has taken it since. The
registry renders the store: the rules and the record of every owner that holds its
place, and nothing else that was not there before. It does so in every state of
every run of applications and closes of owners with different state keys, as long
as no call fails and no identifier is handed out twice.
-/

namespace Setdns.Windows.Nrpt

open Text Effects Effects.Program Effects.Registry
open Handle (opened)

/-- What one application has put into the store. -/
structure Generation where
  owner : Bytes
  servers : List IpAddr
  namespaces : List Bytes
  ruleIds : List Bytes
  deriving DecidableEq, Repr

def Generation.handle (g : Generation) : RuleSet := ⟨g.owner, g.ruleIds⟩

abbrev Store : Type := Leases.State Bytes Generation

section Operations

/-- What a process was asked to do and how it ended. -/
inductive Outcome where
  | applied (owner : Bytes) (servers : List IpAddr) (namespaces : List Bytes)
      (r : Except NrptError RuleSet)
  | closed (handle : RuleSet) (r : Except NrptError Unit)
  | forgotten (handle : RuleSet)

/-- The world in which no call fails and no identifier is handed out twice. -/
abbrev supplying (order : Enumeration) (handles : List RuleSet) :
    World RegCall RegCall.Ret Machine :=
  calm order (Unclaimed handles)

variable (users : Bytes → Prop)

/-- One operation of one of the users, without faults. -/
inductive Operation : System → Outcome → System → Prop
  | applied {order : Enumeration} {s t : Machine} {handles : List RuleSet} {owner : Bytes}
      {servers : List IpAddr} {domains : List DomainSuffix} {r : Except NrptError RuleSet}
      (user : users owner)
      (ends : Ends (supplying order handles)
        (apply owner servers (namespacesForGlobalOrSplit domains)).run s r t) :
      Operation ⟨s, handles⟩ (.applied owner servers (namespacesForGlobalOrSplit domains) r)
        ⟨t, opened r handles⟩
  | closed {order : Enumeration} {s t : Machine} {handles : List RuleSet} {handle : RuleSet}
      {r : Except NrptError Unit} (mem : handle ∈ handles)
      (ends : Ends (supplying order handles) (close handle).run s r t) :
      Operation ⟨s, handles⟩ (.closed handle r) ⟨t, handles.erase handle⟩
  | forgotten {s : Machine} {handles : List RuleSet} {handle : RuleSet} (mem : handle ∈ handles) :
      Operation ⟨s, handles⟩ (.forgotten handle) ⟨s, handles.erase handle⟩

/-- An application is never refused, and a close exactly when the place is lost. -/
inductive Means : Outcome → Leases.Event Generation → Prop
  | applied (g : Generation) :
      Means (.applied g.owner g.servers g.namespaces (.ok g.handle)) (.taken g)
  | closed (g : Generation) : Means (.closed g.handle (.ok ())) (.released g)
  | stale (g : Generation) (e : NrptError) : Means (.closed g.handle (.error e)) (.refused g)
  | forgotten (g : Generation) : Means (.forgotten g.handle) (.dropped g)

end Operations

section Rendering

/-- The rule is held by some owner's place, or the record is. -/
def Held (current : Bytes → Option Generation) (base k : Bytes) : Prop :=
  ∃ o g, current o = some g ∧
    ((base = nrptBase ∧ k ∈ g.ruleIds.map fold) ∨ (base = stateBase ∧ k = fold o))

/-- The registry is what it was at the start, with the rules and records of the store. -/
structure Renders (start : Machine) (current : Bytes → Option Generation) (s : Machine) : Prop where
  rules : ∀ o g, current o = some g → List.Forall₂ (fun ruleId piece =>
    s.values nrptBase (fold ruleId) = some (ruleValues o (serverList g.servers) piece))
      g.ruleIds (chunks namespaceChunkSize g.namespaces)
  records : ∀ o g, current o = some g →
    s.values stateBase (fold o) = some (stateValues g.ruleIds)
  rest : ∀ base k, ¬ Held current base k → s.values base k = start.values base k

/-- The generations that hold a place or have a handle. -/
def Known (store : Store) (g : Generation) : Prop :=
  g ∈ store.live ∨ ∃ o, store.current o = some g

/-- Every rule belongs to one generation, and has a key that was not there at the start. -/
structure Coherent (start : Machine) (users : Bytes → Prop) (store : Store) : Prop where
  keyed : ∀ o g, store.current o = some g → g.owner = o
  user : ∀ g, Known store g → users g.owner
  rules : ∀ g, Known store g → g.ruleIds ≠ []
  distinct : ∀ g, Known store g → (g.ruleIds.map fold).Nodup
  unborn : ∀ g, Known store g → ∀ id ∈ g.ruleIds, start.values nrptBase (fold id) = none
  apart : ∀ g g', Known store g → Known store g' → g ≠ g' → ∀ id ∈ g.ruleIds,
    fold id ∉ g'.ruleIds.map fold

structure Represents (start : Machine) (users : Bytes → Prop) (system : System) (store : Store) :
    Prop where
  handles : system.handles = store.live.map Generation.handle
  renders : Renders start store.current system.registry
  coherent : Coherent start users store

end Rendering

section Applying

variable {order : Enumeration} {handles : List RuleSet} {owner : Bytes} {servers : List IpAddr}
  {namespaces : List Bytes} {s t : Machine}

/-- The new rules and their record, in the place of the old ones. -/
structure Installed (owner : Bytes) (servers : List IpAddr) (namespaces : List Bytes)
    (old new : List Bytes) (s t : Machine) : Prop where
  fresh : ∀ id ∈ new, fold id ∈ old.map fold ∨ s.values nrptBase (fold id) = none
  distinct : (new.map fold).Nodup
  rules : List.Forall₂ (fun ruleId piece =>
    t.values nrptBase (fold ruleId) = some (ruleValues owner (serverList servers) piece)) new
      (chunks namespaceChunkSize namespaces)
  record : t.values stateBase (fold owner) = some (stateValues new)
  removed : ∀ k ∈ old.map fold, k ∉ new.map fold → t.values nrptBase k = none
  others : ∀ base k, ¬ (base = nrptBase ∧ (k ∈ new.map fold ∨ k ∈ old.map fold)) →
    ¬ (base = stateBase ∧ k = fold owner) → t.values base k = s.values base k

theorem installed_of_wrote {new : List Bytes} {s₁ s₂ : Machine}
    (cleanup : s₁.values = cleaned owner s)
    (wrote : Wrote owner (serverList servers) new (chunks namespaceChunkSize namespaces) s₁ s₂)
    (recorded : t.values = keyed s₂.values (statePath owner) (some (stateValues new))) :
    Installed owner servers namespaces (recordedIds owner s) new s t := by
  have rules : ∀ k, t.values nrptBase k = s₂.values nrptBase k := fun k => by
    rw [recorded, keyed_of fun here => stateBase_ne_nrptBase here.1.symm]
  have first : ∀ k, s₁.values nrptBase k =
      if k ∈ (recordedIds owner s).map fold then none else s.values nrptBase k := fun k => by
    rw [cleanup, cleaned_rule]
  refine ⟨fun id listed => ?_, wrote.distinct, wrote.rules.imp fun _ _ rule => (rules _).trans rule,
    ?_, fun k old unlisted => ?_, fun base k rule state => ?_⟩
  · have absent := wrote.fresh id listed
    rw [first] at absent
    split at absent
    · exact .inl ‹_›
    · exact .inr absent
  · rw [recorded]
    exact keyed_state
  · rw [rules, wrote.others _ _ fun here => unlisted here.2, first, if_pos old]
  · rw [recorded, keyed_of state, wrote.others _ _ fun here => rule ⟨here.1, .inl here.2⟩, cleanup,
      cleaned, keyed_of state, without, if_neg fun here => rule ⟨here.1, .inr here.2⟩]

theorem apply_installs (servers : List IpAddr) (namespaces : List Bytes)
    (listed : Listed owner s) :
    Safe (calm order Fresh) (fun _ => True)
      (fun r t => ∃ new, r = .ok ⟨owner, new⟩ ∧
        Installed owner servers namespaces (recordedIds owner s) new s t)
      (apply owner servers namespaces).run s := by
  refine Safe.lift ((cleanupOwner_exact listed).post fun _ s₁ _ cleanup => ?_)
  refine Safe.tryBind (writeRules_exact owner _ _ [] s₁) ?_ (by simp)
  rintro _ s₂ - ⟨new, ⟨⟩, wrote⟩
  rw [List.nil_append]
  have absent : s₂.values stateBase (fold owner) = none := by
    rw [wrote.others _ _ fun here => stateBase_ne_nrptBase here.1, cleanup]
    exact keyed_state
  refine Safe.lift ((writeState_exact new absent).post ?_)
  rintro _ t - ⟨rfl, recorded⟩
  exact ⟨trivial, new, rfl, installed_of_wrote cleanup wrote recorded⟩

/-- None of the handles has one of these rules. -/
def Unheld (handles : List RuleSet) (ruleIds : List Bytes) : Prop :=
  ∀ id ∈ ruleIds, ∀ handle ∈ handles, fold id ∉ handle.ruleIds.map fold

theorem safe_any {Call : Type} {Ret : Call → Type} {σ α : Type} {W : World Call Ret σ}
    (p : Program Call Ret α) (s : σ) : Safe W (fun _ => True) (fun _ _ => True) p s :=
  safe_iff.mpr ⟨fun _ _ => trivial, fun _ _ _ => trivial⟩

theorem writeRules_unheld (owner servers : Bytes) (pieces : List (List Bytes))
    {ruleIds : List Bytes} (s : Machine) (unheld : Unheld handles ruleIds) :
    Safe (supplying order handles) (fun _ => True)
      (fun r _ => ∀ new, r = .ok new → Unheld handles new)
      (writeRules owner servers ruleIds pieces).run s := by
  induction pieces generalizing ruleIds s with
  | nil =>
      refine ⟨trivial, ?_⟩
      rintro new ⟨⟩
      exact unheld
  | cons piece pieces ih =>
      have created : Safe (supplying order handles) (fun _ => True)
          (fun r _ => ∀ ruleId, r = .ok ruleId → Unheld handles [ruleId]) createRuleId.run s := by
        refine Safe.tryBind
          (M := fun r _ => ∀ guid, r = .ok guid → Unheld handles [bracedGuid guid])
          (Safe.mapErr ⟨trivial, fun _ _ => trivial, fun r t a => ⟨trivial, ?_⟩⟩) ?_ (by simp)
        · obtain ⟨guid, unclaimed, performed⟩ := a
          obtain ⟨rfl, -⟩ := Prod.mk.inj performed
          rintro _ ⟨⟩ id mem handle live held
          obtain rfl := List.mem_singleton.mp mem
          exact (unclaimed rfl).2 handle.owner (.inr (.inr ⟨handle, live, rfl, held⟩))
        · rintro guid t - fresh
          refine ⟨trivial, ?_⟩
          rintro _ ⟨⟩
          exact fresh guid rfl
      refine Safe.tryBind created ?_ (by simp)
      intro ruleId s₁ _ fresh
      refine Safe.lift ((safe_any (writeRule owner ruleId servers piece).run s₁).post ?_)
      intro written s₂ _ _
      cases written with
      | ok _ =>
          refine ih s₂ fun id mem => ?_
          rcases List.mem_append.mp mem with earlier | last
          · exact unheld id earlier
          · exact fresh ruleId rfl id last
      | error e => exact Safe.lift ((safe_any (removeRules ruleIds) s₂).post fun _ _ _ _ =>
          ⟨trivial, by simp⟩)

theorem apply_unheld (owner : Bytes) (servers : List IpAddr) (namespaces : List Bytes)
    (s : Machine) :
    Safe (supplying order handles) (fun _ => True)
      (fun r _ => ∀ handle, r = .ok handle → Unheld handles handle.ruleIds)
      (apply owner servers namespaces).run s := by
  refine Safe.lift ((safe_any (cleanupOwner owner) s).post fun _ s₁ _ _ => ?_)
  refine Safe.tryBind (writeRules_unheld owner _ _ s₁ fun _ no => (nomatch no)) ?_ (by simp)
  intro ruleIds s₂ _ unheld
  refine Safe.lift ((safe_any (writeState owner ruleIds).run s₂).post fun written s₃ _ _ => ?_)
  cases written with
  | ok _ =>
      refine ⟨trivial, ?_⟩
      rintro _ ⟨⟩
      exact unheld ruleIds rfl
  | error e => exact Safe.lift ((safe_any (removeRules ruleIds) s₃).post fun _ _ _ _ =>
      ⟨trivial, by simp⟩)

end Applying

section Simulation

variable {order : Enumeration} {users : Bytes → Prop} {start s t : Machine} {store : Store}
  {handles : List RuleSet} {owner o k : Bytes} {g g' : Generation}
  {current : Bytes → Option Generation}

/-- Two users have two state keys. -/
def Distinct (users : Bytes → Prop) : Prop :=
  ∀ o o', users o → users o' → fold o = fold o' → o = o'

theorem forall₂_imp_of_mem {α β : Type} {R S : α → β → Prop} {l : List α} {l' : List β}
    (related : List.Forall₂ R l l') (imp : ∀ a ∈ l, ∀ b, R a b → S a b) : List.Forall₂ S l l' := by
  induction related with
  | nil => exact .nil
  | cons head _ ih =>
      exact .cons (imp _ (.head _) _ head) (ih fun a mem => imp a (.tail _ mem))

theorem Renders.rule (renders : Renders start current s) (here : current o = some g) {id : Bytes}
    (listed : id ∈ g.ruleIds) : ∃ piece, s.values nrptBase (fold id) =
      some (ruleValues o (serverList g.servers) piece) := by
  obtain ⟨piece, -, rule⟩ := exists_of_forall₂ (renders.rules o g here) listed
  exact ⟨piece, rule⟩

/-- A rule is tagged with the owner exactly if it is one of the owner's place. -/
theorem Renders.tagged (renders : Renders start current s) (clean : Untouched start) :
    tag s k = some o ↔ ∃ g, current o = some g ∧ k ∈ g.ruleIds.map fold := by
  constructor
  · intro tagged
    by_cases held : Held current nrptBase k
    · obtain ⟨o', g, here, ⟨-, listed⟩ | ⟨base, -⟩⟩ := held
      · obtain ⟨id, mem, rfl⟩ := List.mem_map.mp listed
        obtain ⟨piece, rule⟩ := renders.rule here mem
        rw [ruleValues_tag rule] at tagged
        cases tagged
        exact ⟨g, here, listed⟩
      · exact absurd base stateBase_ne_nrptBase.symm
    · rw [tag_congr (renders.rest nrptBase k held), clean.rules k] at tagged
      cases tagged
  · rintro ⟨g, here, listed⟩
    obtain ⟨id, mem, rfl⟩ := List.mem_map.mp listed
    obtain ⟨piece, rule⟩ := renders.rule here mem
    exact ruleValues_tag rule

theorem Coherent.current_user (coherent : Coherent start users store)
    (here : store.current o = some g) : users o :=
  coherent.keyed o g here ▸ coherent.user g (.inr ⟨o, here⟩)

/-- The identifiers of the owner's place. -/
def placed (current : Bytes → Option Generation) (owner : Bytes) : List Bytes :=
  (current owner).elim [] Generation.ruleIds

theorem mem_placed {ids : Bytes} :
    ids ∈ placed current o ↔ ∃ g, current o = some g ∧ ids ∈ g.ruleIds := by
  cases here : current o <;> simp [placed, here]

/-- The record of a user names the rules of the user's place. -/
theorem Renders.recorded (renders : Renders start store.current s) (clean : Untouched start)
    (coherent : Coherent start users store) (distinct : Distinct users) (user : users owner) :
    recordedIds owner s = placed store.current owner := by
  cases here : store.current owner with
  | some g =>
      have state : s.values stateBase (fold owner) = some (stateValues g.ruleIds) :=
        renders.records owner g here
      simp [recordedIds, Hive.value, statePath, state, stateValues, placed, here]
  | none =>
      have free : ¬ Held store.current stateBase (fold owner) := by
        rintro ⟨o, g, there, ⟨base, -⟩ | ⟨-, same⟩⟩
        · exact stateBase_ne_nrptBase base
        · obtain rfl := distinct owner o user (coherent.current_user there) same
          rw [here] at there
          cases there
      have gone : s.values stateBase (fold owner) = none :=
        (renders.rest _ _ free).trans (clean.states _)
      simp [recordedIds, Hive.value, statePath, gone, placed, here]

theorem Renders.listed (renders : Renders start store.current s) (clean : Untouched start)
    (coherent : Coherent start users store) (distinct : Distinct users) (user : users owner) :
    Listed owner s := by
  intro k
  rw [renders.recorded clean coherent distinct user, renders.tagged clean]
  simp only [List.mem_map, mem_placed]
  constructor
  · rintro ⟨g, here, id, listed, rfl⟩
    exact ⟨id, ⟨g, here, listed⟩, rfl⟩
  · rintro ⟨id, ⟨g, here, listed⟩, rfl⟩
    exact ⟨g, here, id, listed, rfl⟩

/-- The rules of the place were not there at the start. -/
theorem Coherent.unborn_placed (coherent : Coherent start users store)
    (listed : k ∈ (placed store.current owner).map fold) : start.values nrptBase k = none := by
  obtain ⟨id, mem, rfl⟩ := List.mem_map.mp listed
  obtain ⟨g, here, mem⟩ := mem_placed.mp mem
  exact coherent.unborn g (.inr ⟨owner, here⟩) id mem

/-- Another owner's rule is not one of the place. -/
theorem Coherent.not_placed (coherent : Coherent start users store) (ne : o ≠ owner)
    (here : store.current o = some g) {id : Bytes} (listed : id ∈ g.ruleIds) :
    fold id ∉ (placed store.current owner).map fold := by
  intro placed
  obtain ⟨id', mem, same⟩ := List.mem_map.mp placed
  obtain ⟨g', there, mem⟩ := mem_placed.mp mem
  have other : g' ≠ g := by
    rintro rfl
    exact ne ((coherent.keyed o g' here).symm.trans (coherent.keyed owner g' there))
  exact coherent.apart g' g (.inr ⟨_, there⟩) (.inr ⟨_, here⟩) other id' mem
    (same ▸ List.mem_map_of_mem listed)

end Simulation

section Taking

variable {users : Bytes → Prop} {start s t : Machine} {current : Bytes → Option Generation}
  {live : List Generation} {owner k base : Bytes} {servers : List IpAddr}
  {namespaces new : List Bytes} {g h : Generation}

/-- A rule that is held elsewhere is not a new one. -/
theorem installed_apart (coherent : Coherent start users ⟨current, live⟩)
    (renders : Renders start current s)
    (installed : Installed owner servers namespaces (placed current owner) new s t)
    (unheld : Unheld (live.map Generation.handle) new)
    (elsewhere : h ∈ live ∨ ∃ o, o ≠ owner ∧ current o = some h) {id : Bytes} (mem : id ∈ new) :
    fold id ∉ h.ruleIds.map fold := by
  intro listed
  rcases elsewhere with alive | ⟨o, ne, here⟩
  · exact unheld id mem h.handle (List.mem_map_of_mem alive) listed
  · obtain ⟨id', there, same⟩ := List.mem_map.mp listed
    rcases installed.fresh id mem with old | absent
    · exact coherent.not_placed ne here there (same ▸ old)
    · obtain ⟨piece, rule⟩ := renders.rule here there
      rw [same, absent] at rule
      cases rule

theorem installed_unborn (coherent : Coherent start users ⟨current, live⟩)
    (renders : Renders start current s)
    (installed : Installed owner servers namespaces (placed current owner) new s t) {id : Bytes}
    (mem : id ∈ new) : start.values nrptBase (fold id) = none := by
  rcases installed.fresh id mem with old | absent
  · exact coherent.unborn_placed old
  · by_cases held : Held current nrptBase (fold id)
    · obtain ⟨o, g, here, ⟨-, listed⟩ | ⟨base, -⟩⟩ := held
      · obtain ⟨id', there, same⟩ := List.mem_map.mp listed
        exact same ▸ coherent.unborn g (.inr ⟨o, here⟩) id' there
      · exact absurd base stateBase_ne_nrptBase.symm
    · exact (renders.rest _ _ held).symm.trans absent

theorem known_taken (known : Known ⟨Function.update current owner (some g), g :: live⟩ h) :
    h = g ∨ h ∈ live ∨ ∃ o, o ≠ owner ∧ current o = some h := by
  rcases known with mem | ⟨o, held⟩
  · exact (List.mem_cons.mp mem).imp_right .inl
  · have held : Function.update current owner (some g) o = some h := held
    by_cases same : o = owner
    · subst same
      rw [Function.update_self] at held
      exact .inl (Option.some.inj held).symm
    · rw [Function.update_of_ne same] at held
      exact .inr (.inr ⟨o, same, held⟩)

theorem known_of_elsewhere (elsewhere : h ∈ live ∨ ∃ o, o ≠ owner ∧ current o = some h) :
    Known ⟨current, live⟩ h :=
  elsewhere.imp_right fun ⟨o, _, held⟩ => ⟨o, held⟩

theorem Coherent.install (coherent : Coherent start users ⟨current, live⟩)
    (renders : Renders start current s) (user : users owner) (some : namespaces ≠ [])
    (installed : Installed owner servers namespaces (placed current owner) new s t)
    (unheld : Unheld (live.map Generation.handle) new)
    (made : g = ⟨owner, servers, namespaces, new⟩) :
    Coherent start users ⟨Function.update current owner (.some g), g :: live⟩ := by
  have owned : g.owner = owner := by rw [made]
  have ids : g.ruleIds = new := by rw [made]
  have apart : ∀ h, (h ∈ live ∨ ∃ o, o ≠ owner ∧ current o = .some h) → ∀ id ∈ g.ruleIds,
      fold id ∉ h.ruleIds.map fold := fun h elsewhere id mem =>
    installed_apart coherent renders installed unheld elsewhere (ids ▸ mem)
  refine ⟨fun o h held => ?_, fun h known => ?_, fun h known => ?_, fun h known => ?_,
    fun h known => ?_, fun h h' known known' ne id mem => ?_⟩
  · have held : Function.update current owner (.some g) o = .some h := held
    by_cases same : o = owner
    · subst same
      rw [Function.update_self] at held
      rw [← Option.some.inj held, owned]
    · rw [Function.update_of_ne same] at held
      exact coherent.keyed o h held
  · rcases known_taken known with rfl | elsewhere
    · exact owned ▸ user
    · exact coherent.user h (known_of_elsewhere elsewhere)
  · rcases known_taken known with rfl | elsewhere
    · intro empty
      have length := installed.rules.length_eq
      rw [← ids, empty] at length
      have nonempty : chunks namespaceChunkSize namespaces ≠ [] := fun none => some (by
        rw [← flatten_chunks (n := namespaceChunkSize) (by decide) namespaces, none]
        rfl)
      exact nonempty (List.length_eq_zero_iff.mp length.symm)
    · exact coherent.rules h (known_of_elsewhere elsewhere)
  · rcases known_taken known with rfl | elsewhere
    · exact ids ▸ installed.distinct
    · exact coherent.distinct h (known_of_elsewhere elsewhere)
  · rcases known_taken known with rfl | elsewhere
    · exact fun id mem => installed_unborn coherent renders installed (ids ▸ mem)
    · exact coherent.unborn h (known_of_elsewhere elsewhere)
  · rcases known_taken known with rfl | elsewhere
    · rcases known_taken known' with rfl | elsewhere'
      · exact absurd rfl ne
      · exact apart h' elsewhere' id mem
    · rcases known_taken known' with rfl | elsewhere'
      · intro listed
        obtain ⟨id', mem', same⟩ := List.mem_map.mp listed
        exact apart h elsewhere id' mem' (same ▸ List.mem_map_of_mem mem)
      · exact coherent.apart h h' (known_of_elsewhere elsewhere) (known_of_elsewhere elsewhere') ne
          id mem

theorem Renders.install (renders : Renders start current s)
    (coherent : Coherent start users ⟨current, live⟩) (distinct : Distinct users)
    (user : users owner)
    (installed : Installed owner servers namespaces (placed current owner) new s t)
    (unheld : Unheld (live.map Generation.handle) new)
    (made : g = ⟨owner, servers, namespaces, new⟩) :
    Renders start (Function.update current owner (some g)) t := by
  have ids : g.ruleIds = new := by rw [made]
  have here : Function.update current owner (some g) owner = some g := Function.update_self ..
  have there : ∀ o h, o ≠ owner → current o = some h →
      Function.update current owner (some g) o = some h := fun o h ne held => by
    rw [Function.update_of_ne ne, held]
  have before : ∀ o h, Function.update current owner (some g) o = some h → o = owner ∧ h = g ∨
      o ≠ owner ∧ current o = some h := by
    intro o h held
    by_cases same : o = owner
    · subst same
      rw [here] at held
      exact .inl ⟨rfl, (Option.some.inj held).symm⟩
    · rw [Function.update_of_ne same] at held
      exact .inr ⟨same, held⟩
  have states : ∀ o h, o ≠ owner → current o = some h → fold o ≠ fold owner :=
    fun o h ne held same =>
      ne (distinct o owner (coherent.current_user held) user same)
  refine ⟨fun o h held => ?_, fun o h held => ?_, fun base k free => ?_⟩
  · rcases before o h held with ⟨rfl, rfl⟩ | ⟨ne, held⟩
    · rw [made]
      exact installed.rules
    · refine forall₂_imp_of_mem (renders.rules o h held) fun id mem piece rule => ?_
      rw [installed.others _ _ ?_ fun state => stateBase_ne_nrptBase state.1.symm]
      · exact rule
      · rintro ⟨-, listed | old⟩
        · obtain ⟨id', mem', same⟩ := List.mem_map.mp listed
          exact installed_apart coherent renders installed unheld (.inr ⟨o, ne, held⟩) mem'
            (same ▸ List.mem_map_of_mem mem)
        · exact coherent.not_placed ne held mem old
  · rcases before o h held with ⟨rfl, rfl⟩ | ⟨ne, held⟩
    · exact ids ▸ installed.record
    · rw [installed.others _ _ (fun rule => stateBase_ne_nrptBase rule.1)
        fun state => states o h ne held state.2]
      exact renders.records o h held
  · have kept : ∀ o h, o ≠ owner → current o = some h → ¬ ((base = nrptBase ∧
        k ∈ h.ruleIds.map fold) ∨ (base = stateBase ∧ k = fold o)) :=
      fun o h ne held at' => free ⟨o, h, there o h ne held, at'⟩
    have notNew : ¬ (base = nrptBase ∧ k ∈ new.map fold) := fun rule =>
      free ⟨owner, g, here, .inl (ids ▸ rule)⟩
    have notRecord : ¬ (base = stateBase ∧ k = fold owner) := fun state =>
      free ⟨owner, g, here, .inr state⟩
    by_cases old : base = nrptBase ∧ k ∈ (placed current owner).map fold
    · obtain ⟨rfl, old⟩ := old
      rw [installed.removed k old fun listed => notNew ⟨rfl, listed⟩, coherent.unborn_placed old]
    · rw [installed.others base k (fun rule => rule.2.elim (fun listed => notNew ⟨rule.1, listed⟩)
        fun placed => old ⟨rule.1, placed⟩) notRecord]
      refine renders.rest base k ?_
      rintro ⟨o, h, held, at'⟩
      by_cases same : o = owner
      · subst same
        rcases at' with ⟨rfl, listed⟩ | state
        · refine old ⟨rfl, ?_⟩
          rwa [placed, held]
        · exact notRecord state
      · exact kept o h same held at'

end Taking

section Releasing

variable {order : Enumeration} {users : Bytes → Prop} {start s t : Machine} {store store' : Store}
  {g : Generation} {r : Except NrptError Unit}

theorem Coherent.fewer (coherent : Coherent start users store)
    (current : ∀ o h, store'.current o = some h → store.current o = some h)
    (live : ∀ h ∈ store'.live, h ∈ store.live) : Coherent start users store' := by
  have known : ∀ h, Known store' h → Known store h := fun h =>
    Or.imp (live h) fun ⟨o, held⟩ => ⟨o, current o h held⟩
  exact ⟨fun o h held => coherent.keyed o h (current o h held),
    fun h mem => coherent.user h (known h mem), fun h mem => coherent.rules h (known h mem),
    fun h mem => coherent.distinct h (known h mem), fun h mem => coherent.unborn h (known h mem),
    fun h h' mem mem' => coherent.apart h h' (known h mem) (known h' mem')⟩

/-- Two generations do not share a handle. -/
theorem Coherent.handle_inj (coherent : Coherent start users store) {h : Generation}
    (known : Known store h) (known' : Known store g) (same : h.handle = g.handle) : h = g := by
  by_contra ne
  obtain ⟨id, mem⟩ := List.exists_mem_of_ne_nil _ (coherent.rules h known)
  have ids : h.ruleIds = g.ruleIds := congrArg RuleSet.ruleIds same
  exact coherent.apart h g known known' ne id mem (ids ▸ List.mem_map_of_mem mem)

theorem map_erase_of {α β : Type} [DecidableEq α] [DecidableEq β] {f : α → β} {l : List α} {a : α}
    (inj : ∀ b ∈ l, f b = f a → b = a) : (l.map f).erase (f a) = (l.erase a).map f := by
  induction l with
  | nil => rfl
  | cons b l ih =>
      obtain ⟨first, rest⟩ := List.forall_mem_cons.mp inj
      by_cases same : b = a
      · subst same
        simp
      · rw [List.map_cons, List.erase_cons_tail (by simpa using fun h => same (first h)),
          List.erase_cons_tail (by simpa using same), List.map_cons, ih rest]

theorem removeTree_absent {path : KeyPath} {r : Except RegError Unit}
    (absent : s.values path.base (fold path.name) = none)
    (a : (calm order Fresh).answers s (.removeTree path) r t) :
    (∃ e, r = .error e) ∧ t = s := by
  obtain ⟨guid, -, performed⟩ := a
  have missing : s.find path.base (fold path.name) = none := Option.map_eq_none_iff.mp absent
  simp only [Hive.perform, missing] at performed
  obtain ⟨rfl, rfl⟩ := Prod.mk.inj performed
  exact ⟨⟨_, rfl⟩, rfl⟩

/-- A handle whose place is lost removes nothing. -/
theorem stale_close (renders : Renders start store.current s)
    (coherent : Coherent start users store) (known : Known store g)
    (lost : store.current g.owner ≠ some g)
    (run : Ends (calm order Fresh) (close g.handle).run s r t) : (∃ e, r = .error e) ∧ t = s := by
  obtain ⟨id, ids, listed⟩ := List.exists_cons_of_ne_nil (coherent.rules g known)
  have mem : id ∈ g.ruleIds := listed ▸ List.mem_cons_self
  have free : ¬ Held store.current nrptBase (fold id) := by
    rintro ⟨o, h, held, ⟨-, there⟩ | ⟨base, -⟩⟩
    · have ne : g ≠ h := by
        rintro rfl
        exact lost (coherent.keyed o g held ▸ held)
      exact coherent.apart g h known (.inr ⟨o, held⟩) ne id mem there
    · exact stateBase_ne_nrptBase base.symm
  have absent : s.values nrptBase (fold id) = none :=
    (renders.rest _ _ free).trans (coherent.unborn g known id mem)
  have refused : Safe (calm order Fresh) (fun _ => True) (fun r t => (∃ e, r = .error e) ∧ t = s)
      (close g.handle).run s := by
    refine Safe.tryBind (M := fun r t => (∃ e, r = .error e) ∧ t = s) ?_ (by simp) ?_
    · show Safe _ _ _ (removeRulesChecked g.ruleIds).run s
      rw [listed]
      refine Safe.tryBind (M := fun r t => (∃ e, r = .error e) ∧ t = s)
        (Safe.mapErr ⟨trivial, fun _ _ => trivial, fun r t a => ⟨trivial, ?_⟩⟩) (by simp) ?_
      · obtain ⟨⟨e, rfl⟩, same⟩ := removeTree_absent absent a
        exact ⟨⟨_, rfl⟩, same⟩
      · rintro e t - ⟨-, same⟩
        exact ⟨⟨_, rfl⟩, same⟩
    · rintro e t - ⟨-, same⟩
      exact ⟨⟨_, rfl⟩, same⟩
  exact refused.ends run

/-- A handle that still holds its place removes the rules and the record. -/
theorem current_close (renders : Renders start store.current s) (clean : Untouched start)
    (coherent : Coherent start users store) (distinct : Distinct users)
    (held : store.current g.owner = some g)
    (run : Ends (calm order Fresh) (close g.handle).run s r t) :
    r = .ok () ∧ Renders start (Function.update store.current g.owner none) t := by
  have known : Known store g := .inr ⟨_, held⟩
  have there : ∀ id ∈ g.ruleIds, s.values nrptBase (fold id) ≠ none := fun id mem => by
    obtain ⟨piece, rule⟩ := renders.rule held mem
    simp [rule]
  have recorded : s.values stateBase (fold g.owner) ≠ none := by
    simp [renders.records _ _ held]
  have apart : (g.handle.ruleIds.map fold).Nodup := coherent.distinct g known
  obtain ⟨rfl, gone⟩ := (close_exact apart there recorded).ends run
  have rule : ∀ k, t.values nrptBase k = if k ∈ g.ruleIds.map fold then none
      else s.values nrptBase k := fun k => by
    rw [gone, closed, keyed_of fun here => stateBase_ne_nrptBase here.1.symm, without]
    exact if_congr (and_iff_right rfl) rfl rfl
  have other : ∀ base k, ¬ (base = nrptBase ∧ k ∈ g.ruleIds.map fold) →
      ¬ (base = stateBase ∧ k = fold g.owner) → t.values base k = s.values base k := by
    intro base k rule state
    rw [gone, closed, keyed_of state, without]
    exact if_neg rule
  have before : ∀ o h, Function.update store.current g.owner none o = some h →
      o ≠ g.owner ∧ store.current o = some h := by
    intro o h here
    by_cases same : o = g.owner
    · subst same
      rw [Function.update_self] at here
      cases here
    · rw [Function.update_of_ne same] at here
      exact ⟨same, here⟩
  refine ⟨rfl, fun o h here => ?_, fun o h here => ?_, fun base k free => ?_⟩
  · obtain ⟨ne, here⟩ := before o h here
    refine forall₂_imp_of_mem (renders.rules o h here) fun id mem piece value => ?_
    have elsewhere : fold id ∉ g.ruleIds.map fold := by
      have unlisted := coherent.not_placed ne here mem
      rwa [placed, held] at unlisted
    rw [rule, if_neg elsewhere, value]
  · obtain ⟨ne, here⟩ := before o h here
    rw [other _ _ (fun at' => stateBase_ne_nrptBase at'.1) fun at' =>
      ne (distinct o g.owner (coherent.current_user here) (coherent.user g known) at'.2)]
    exact renders.records o h here
  · by_cases mine : (base = nrptBase ∧ k ∈ g.ruleIds.map fold) ∨
        (base = stateBase ∧ k = fold g.owner)
    · rcases mine with ⟨rfl, listed⟩ | ⟨rfl, rfl⟩
      · obtain ⟨id, mem, same⟩ := List.mem_map.mp listed
        rw [rule, if_pos listed, ← same, coherent.unborn g known id mem]
      · rw [clean.states, gone]
        exact keyed_state
    · rw [other base k (fun at' => mine (.inl at')) fun at' => mine (.inr at')]
      refine renders.rest base k ?_
      rintro ⟨o, h, here, at'⟩
      by_cases same : o = g.owner
      · subst o
        rw [held] at here
        cases here
        exact mine at'
      · exact free ⟨o, h, by rw [Function.update_of_ne same, here], at'⟩

end Releasing

section Runs

open Simulation

variable {users : Bytes → Prop} {start : Machine} {store : Store} {system system' : System}
  {outcome : Outcome} {outcomes : List Outcome}

theorem supplying_fresh {order : Enumeration} {handles : List RuleSet} {α : Type}
    {p : Registry.Io α} {s t : Machine} {a : α} (run : Ends (supplying order handles) p s a t) :
    Ends (calm order Fresh) p s a t :=
  run.mono fun _ _ _ _ ⟨guid, unclaimed, performed⟩ =>
    ⟨guid, fun ask => (unclaimed ask).1, performed⟩

theorem namespaces_ne_nil (domains : List DomainSuffix) :
    namespacesForGlobalOrSplit domains ≠ [] := by
  cases domains <;> simp [namespacesForGlobalOrSplit]

theorem Represents.take {order : Enumeration} {owner : Bytes} {servers : List IpAddr}
    {domains : List DomainSuffix} {r : Except NrptError RuleSet} {t : Machine}
    (represents : Represents start users system store) (clean : Untouched start)
    (distinct : Distinct users) (user : users owner)
    (ends : Ends (supplying order system.handles)
      (apply owner servers (namespacesForGlobalOrSplit domains)).run system.registry r t) :
    ∃ g : Generation, g.owner = owner ∧ g.servers = servers ∧
      g.namespaces = namespacesForGlobalOrSplit domains ∧ r = .ok g.handle ∧ g ∉ store.live ∧
      Represents start users ⟨t, g.handle :: system.handles⟩
        ⟨Function.update store.current owner (some g), g :: store.live⟩ := by
  obtain ⟨current, live⟩ := store
  obtain ⟨handles, renders, coherent⟩ := represents
  have listed := renders.listed clean coherent distinct user
  obtain ⟨new, rfl, installed⟩ := (apply_installs servers _ listed).ends (supplying_fresh ends)
  have unheld := (apply_unheld owner servers _ _).ends ends _ rfl
  rw [renders.recorded clean coherent distinct user] at installed
  rw [handles] at unheld ⊢
  have made : (⟨owner, servers, namespacesForGlobalOrSplit domains, new⟩ : Generation) =
      ⟨owner, servers, namespacesForGlobalOrSplit domains, new⟩ := rfl
  have coherent' := coherent.install renders user (namespaces_ne_nil domains) installed unheld made
  refine ⟨_, rfl, rfl, rfl, rfl, fun old => ?_, rfl,
    renders.install coherent distinct user installed unheld made, coherent'⟩
  obtain ⟨id, mem⟩ := List.exists_mem_of_ne_nil _ (coherent'.rules _ (.inl (.head _)))
  exact unheld id mem _ (List.mem_map_of_mem old) (List.mem_map_of_mem mem)

theorem Represents.release {order : Enumeration} {handle : RuleSet} {r : Except NrptError Unit}
    {t : Machine} (represents : Represents start users system store) (clean : Untouched start)
    (distinct : Distinct users) (mem : handle ∈ system.handles)
    (ends : Ends (supplying order system.handles) (close handle).run system.registry r t) :
    ∃ g ∈ store.live, g.handle = handle ∧
      ((r = .ok () ∧ store.current g.owner = some g ∧
        Represents start users ⟨t, system.handles.erase handle⟩
          ⟨Function.update store.current g.owner none, store.live.erase g⟩) ∨
      ((∃ e, r = .error e) ∧ store.current g.owner ≠ some g ∧
        Represents start users ⟨t, system.handles.erase handle⟩
          ⟨store.current, store.live.erase g⟩)) := by
  obtain ⟨current, live⟩ := store
  obtain ⟨handles, renders, coherent⟩ := represents
  rw [handles] at mem ⊢
  obtain ⟨g, alive, rfl⟩ := List.mem_map.mp mem
  have known : Known ⟨current, live⟩ g := .inl alive
  have erased : (live.map Generation.handle).erase g.handle =
      (live.erase g).map Generation.handle :=
    map_erase_of fun h mem same => coherent.handle_inj (.inl mem) known same
  refine ⟨g, alive, rfl, ?_⟩
  by_cases held : current g.owner = some g
  · obtain ⟨rfl, released⟩ :=
      current_close renders clean coherent distinct held (supplying_fresh ends)
    refine .inl ⟨rfl, held, erased, released, coherent.fewer (fun o h here => ?_)
      fun _ => List.mem_of_mem_erase⟩
    have here : Function.update current g.owner none o = some h := here
    by_cases same : o = g.owner
    · subst same
      rw [Function.update_self] at here
      cases here
    · rwa [Function.update_of_ne same] at here
  · obtain ⟨refused, same⟩ := stale_close renders coherent known held (supplying_fresh ends)
    exact .inr ⟨refused, held, erased, same ▸ renders,
      coherent.fewer (fun _ _ => id) fun _ => List.mem_of_mem_erase⟩

/-- Every operation on the registry is the one on the store. -/
theorem operation_matched (clean : Untouched start) (distinct : Distinct users) :
    Forward (Operation users) (Leases.Step Generation.owner) (Represents start users) Means := by
  intro system store outcome system' represents operation
  cases operation with
  | applied user ends =>
      obtain ⟨g, rfl, rfl, named, rfl, new, after⟩ := represents.take clean distinct user ends
      rw [← named]
      exact ⟨_, _, .applied g, .taken new, after⟩
  | closed mem ends =>
      obtain ⟨g, alive, rfl, ⟨rfl, held, after⟩ | ⟨⟨e, rfl⟩, lost, after⟩⟩ :=
        represents.release clean distinct mem ends
      · exact ⟨_, _, .closed g, .released alive held, after⟩
      · exact ⟨_, _, .stale g e, .refused alive lost, after⟩
  | @forgotten s handles handle mem =>
      obtain ⟨current, live⟩ := store
      obtain ⟨rendered, renders, coherent⟩ := represents
      obtain rfl : handles = live.map Generation.handle := rendered
      obtain ⟨g, alive, rfl⟩ := List.mem_map.mp mem
      refine ⟨_, _, .forgotten g, .dropped alive, map_erase_of fun h mem same =>
        coherent.handle_inj (.inl mem) (.inl alive) same, renders,
        coherent.fewer (fun _ _ => id) fun _ => List.mem_of_mem_erase⟩

theorem empty_represents (start : Machine) (users : Bytes → Prop) :
    Represents start users ⟨start, []⟩ .empty := by
  have none : ∀ g, ¬ Known .empty g := by
    rintro g (mem | ⟨o, held⟩)
    · cases mem
    · cases held
  refine ⟨rfl, ⟨?_, ?_, fun _ _ _ => rfl⟩, ?_⟩
  · exact fun _ _ no => (nomatch no)
  · exact fun _ _ no => (nomatch no)
  · exact ⟨fun _ _ no => (nomatch no), fun g known => absurd known (none g),
      fun g known => absurd known (none g), fun g known => absurd known (none g),
      fun g known => absurd known (none g), fun g _ known => absurd known (none g)⟩

/-- In every state of every run the registry renders the store that the same run of
takings and releases leads to. -/
theorem store_rendered (clean : Untouched start) (distinct : Distinct users)
    (run : Trace (Operation users) ⟨start, []⟩ outcomes system) :
    ∃ events store, List.Forall₂ Means outcomes events ∧
      Trace (Leases.Step Generation.owner) .empty events store ∧
      Represents start users system store :=
  (operation_matched clean distinct).run run (empty_represents start users)

/-- Once every handle is closed, and none was forgotten, everything is as it was. -/
theorem closed_run_restores (clean : Untouched start) (distinct : Distinct users)
    (run : Trace (Operation users) ⟨start, []⟩ outcomes system)
    (kept : ∀ handle, Outcome.forgotten handle ∉ outcomes) (all : system.handles = []) :
    system.registry.values = start.values := by
  obtain ⟨events, store, means, abstract, rendered, renders, -⟩ :=
    (operation_matched clean distinct).run run (empty_represents start users)
  have undropped : ∀ g, Leases.Event.dropped g ∉ events := by
    intro g mem
    obtain ⟨outcome, there, same⟩ := exists_of_forall₂ means.flip mem
    cases same
    exact kept _ there
  have empty : store.live = [] := List.map_eq_nil_iff.mp (rendered.symm.trans all)
  have free := Leases.run_released abstract undropped empty
  funext base k
  refine renders.rest base k ?_
  rintro ⟨o, g, held, -⟩
  rw [free o] at held
  cases held

end Runs

section Samples

open Simulation

def sampleGlobal : Except NrptError RuleSet × Machine :=
  exec sampleHandler (sampleApply (bytes ".")) sampleEmpty

def sampleClosed : Except NrptError Unit × Machine :=
  exec sampleHandler (close sampleHandle).run sampleGlobal.2

/-- An identifier is only asked for while there is no record. -/
def sampleUnrecorded (s : Machine) (c : RegCall) : Bool :=
  sampleFresh s c && (c ≠ .createGuid || (s stateBase).isNone)

theorem sampleHandler_supplying (s : Machine) (c : RegCall) (good : sampleUnrecorded s c = true) :
    (supplying sampleOrder []).answers s c (sampleHandler s c).1 (sampleHandler s c).2 := by
  obtain ⟨fresh, unrecorded⟩ := Bool.and_eq_true_iff.mp good
  refine ⟨sampleSupply s, fun ask => ⟨of_decide_eq_true fresh ask, ?_⟩, rfl⟩
  have absent : s stateBase = none := by simpa [ask] using unrecorded
  rintro o (tagged | ⟨ids, record, -⟩ | ⟨handle, mem, -⟩)
  · have gone : s.values nrptBase (fold (bracedGuid (sampleSupply s))) = none :=
      of_decide_eq_true fresh ask
    simp [tag, gone] at tagged
  · simp [Hive.value, Hive.values, Hive.find, statePath, absent] at record
  · cases mem

/-- A close asks for no identifier. -/
def sampleAskless (_ : Machine) (c : RegCall) : Bool := c ≠ .createGuid

theorem sampleHandler_askless {handles : List RuleSet} (s : Machine) (c : RegCall)
    (askless : sampleAskless s c = true) :
    (supplying sampleOrder handles).answers s c (sampleHandler s c).1 (sampleHandler s c).2 :=
  ⟨sampleSupply s, fun ask => absurd ask (of_decide_eq_true askless), rfl⟩

set_option maxRecDepth 20000 in
/-- Global DNS is applied and closed again. -/
theorem sampleClosed_run : Trace (Operation (· = sampleOwner)) ⟨sampleEmpty, []⟩
    [.applied sampleOwner [.v4 ⟨10, 0, 0, 53⟩] [bytes "."] (.ok sampleHandle),
      .closed sampleHandle (.ok ())] ⟨sampleClosed.2, []⟩ := by
  have applied : Ends (supplying sampleOrder []) (sampleApply (bytes ".")) sampleEmpty
      sampleGlobal.1 sampleGlobal.2 := ends_passes sampleHandler_supplying (by decide)
  have closed : Ends (supplying sampleOrder [sampleHandle]) (close sampleHandle).run sampleGlobal.2
      sampleClosed.1 sampleClosed.2 := ends_passes sampleHandler_askless (by decide)
  rw [show sampleGlobal.1 = .ok sampleHandle from by decide] at applied
  rw [show sampleClosed.1 = .ok () from by decide] at closed
  have first : Operation (· = sampleOwner) ⟨sampleEmpty, []⟩
      (.applied sampleOwner [.v4 ⟨10, 0, 0, 53⟩] (namespacesForGlobalOrSplit []) (.ok sampleHandle))
      ⟨sampleGlobal.2, [sampleHandle]⟩ := .applied rfl applied
  have last : Operation (· = sampleOwner) ⟨sampleGlobal.2, [sampleHandle]⟩
      (.closed sampleHandle (.ok ())) ⟨sampleClosed.2, []⟩ := .closed (.head _) closed
  exact .cons first (.cons last (.nil _))

theorem sampleOwner_distinct : Distinct (· = sampleOwner) := fun _ _ h h' _ => h.trans h'.symm

theorem store_rendered_sample : ∃ events store,
    List.Forall₂ Means [.applied sampleOwner [.v4 ⟨10, 0, 0, 53⟩] [bytes "."] (.ok sampleHandle),
      .closed sampleHandle (.ok ())] events ∧
      Trace (Leases.Step Generation.owner) .empty events store ∧
      Represents sampleEmpty (· = sampleOwner) ⟨sampleClosed.2, []⟩ store :=
  store_rendered sampleEmpty_untouched sampleOwner_distinct sampleClosed_run

theorem closed_run_restores_sample : sampleClosed.2.values = sampleEmpty.values :=
  closed_run_restores sampleEmpty_untouched sampleOwner_distinct sampleClosed_run
    (by simp) rfl

end Samples

end Setdns.Windows.Nrpt
