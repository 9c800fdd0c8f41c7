import Setdns.Config.Domains
import Setdns.Handle
import Setdns.Linux.Dispatch
import Setdns.Linux.Handover
import Setdns.Linux.LinkRestore

/-!
The Linux backend as one machine: the slot of `/etc/resolv.conf` and the settings of every
link. The machine computes the result of every application and close, and as long as no
call fails the clients of the crate get exactly these results, whichever of the two
mechanisms their configurations are sent to.
-/

namespace Setdns.Linux

open Text Effects Effects.Program Simulation Handle
open Effects.Resolve1 (BusCall BusError Link ENODEV)
open Effects.Files (Fs FsCall)
open ResolvConf (Slot)

section Machine

/-- What the backend makes of the system. -/
structure Model (original : Bytes) where
  slot : Slot original
  links : Int32 → Option Link

namespace Model

variable {original : Bytes} (bus : Resolve1.Machine) (model : Model original)

def set (ifindex : Int32) (link : Link) : Model original :=
  { model with links := Function.update model.links ifindex (some link) }

def applyLink (config : NormalizedConfig) (device : Bytes) :
    Except Error SetDns × Model original :=
  let ifindex := (bus.index device).toInt32
  if 0 ∈ device then (.error (.resolved (.invalidInterfaceName device)), model)
  else if bus.index device = 0 then (.error (.resolved (.interfaceIndex device ENODEV)), model)
  else match model.links ifindex with
    | some _ => (.ok (.resolved ⟨ifindex⟩), model.set ifindex (Resolved.wanted config))
    | none => (.error (.resolved (.method (bytes "SetLinkDNS") .noSuchLink)), model)

def applyFile (config : NormalizedConfig) (valid : ValidOwner config.owner) :
    Except Error SetDns × Model original :=
  if ResolvConf.resolvConfOnlyUsesResolvedStub model.slot.content then
    (.error managedByResolved, model)
  else
    (wrap (model.slot.apply config valid).1,
      { model with slot := (model.slot.apply config valid).2 })

def apply (config : NormalizedConfig) (valid : ValidOwner config.owner) :
    Except Error SetDns × Model original :=
  match bus.hasOwner Resolved.destination, config.device with
  | true, some device => model.applyLink bus config (bytes device)
  | managed, _ =>
      if config.domains = [] then model.applyFile config valid
      else if managed then
        (.error (.linux (.unsupportedSplitDns
          (bytes "Linux split DNS requires a device/interface name"))), model)
      else (.error (.linux (.splitDnsNeedsResolved .noOwner)), model)

def close : SetDns → Except Error Unit × Model original
  | .resolved inner =>
      match model.links inner.ifindex with
      | some _ => (.ok (), model.set inner.ifindex .default)
      | none => (.error (.resolved (.method (bytes "RevertLink") .noSuchLink)), model)
  | .resolvConf inner =>
      ((model.slot.close inner).1.mapError .resolvConf,
        { model with slot := (model.slot.close inner).2 })

/-- An application configures a link that is there, or takes the slot, or changes nothing. -/
theorem apply_cases (config : NormalizedConfig) (valid : ValidOwner config.owner) :
    (∃ e, model.apply bus config valid = (.error e, model)) ∨
      (∃ ifindex link, model.links ifindex = some link ∧ model.apply bus config valid =
        (.ok (.resolved ⟨ifindex⟩), model.set ifindex (Resolved.wanted config))) ∨
      ∃ foreign, model.apply bus config valid = (.ok (.resolvConf ⟨config.owner⟩),
        { model with slot := .held config valid foreign }) := by
  have file : (∃ e, model.applyFile config valid = (.error e, model)) ∨
      ∃ foreign, model.applyFile config valid = (.ok (.resolvConf ⟨config.owner⟩),
        { model with slot := .held config valid foreign }) := by
    unfold applyFile
    split
    · exact .inl ⟨_, rfl⟩
    · rcases model.slot.apply_cases config valid with ⟨foreign, taken, -⟩ | ⟨e, refused⟩
      · rw [taken]
        exact .inr ⟨foreign, rfl⟩
      · rw [refused]
        exact .inl ⟨_, rfl⟩
  unfold apply
  split
  · unfold applyLink
    dsimp only
    split
    · exact .inl ⟨_, rfl⟩
    split
    · exact .inl ⟨_, rfl⟩
    split
    case h_1 link there => exact .inr (.inl ⟨_, link, there, rfl⟩)
    case h_2 => exact .inl ⟨_, rfl⟩
  · split
    · exact file.imp_right .inr
    · split <;> exact .inl ⟨_, rfl⟩

theorem close_link_cases (handle : Resolved.SetDns) :
    (∃ link, model.links handle.ifindex = some link ∧
      model.close (.resolved handle) = (.ok (), model.set handle.ifindex .default)) ∨
      model.links handle.ifindex = none ∧
        ∃ e, model.close (.resolved handle) = (.error e, model) := by
  unfold close
  cases there : model.links handle.ifindex with
  | some link => exact .inl ⟨link, rfl, by simp [there]⟩
  | none =>
      simp only [there]
      exact .inr ⟨trivial, _, rfl⟩

variable {model}

/-- The model with the handles of its applications. -/
inductive Step : Model original × List SetDns → Event SetDns Error →
    Model original × List SetDns → Prop
  | applied {model : Model original} {live : List SetDns} {config : NormalizedConfig}
      (valid : ValidOwner config.owner) :
      Step (model, live) (.applied config (model.apply bus config valid).1)
        ((model.apply bus config valid).2, opened (model.apply bus config valid).1 live)
  | closed {model : Model original} {front back : List SetDns} {handle : SetDns} :
      Step (model, front ++ handle :: back) (.closed handle (model.close handle).1)
        ((model.close handle).2, front ++ back)
  | forgotten {model : Model original} {front back : List SetDns} {handle : SetDns} :
      Step (model, front ++ handle :: back) (.forgotten handle) (model, front ++ back)

section Emptied

variable {bus : Resolve1.Machine} {events : List (Event SetDns Error)}
  {p p' : Model original × List SetDns}

@[simp] theorem set_links (model : Model original) (ifindex : Int32) (link : Link) :
    (model.set ifindex link).links = Function.update model.links ifindex (some link) := rfl

/-- An application has configured the link. -/
def Configured (events : List (Event SetDns Error)) (ifindex : Int32) : Prop :=
  ∃ config, .applied config (.ok (.resolved ⟨ifindex⟩)) ∈ events

theorem configured_cons {event : Event SetDns Error} {ifindex : Int32} :
    Configured (event :: events) ifindex ↔
      (∃ config, event = .applied config (.ok (.resolved ⟨ifindex⟩))) ∨
        Configured events ifindex := by
  simp only [Configured, List.mem_cons, exists_or, eq_comm]

/-- Some handle has configured the link or is going to. -/
def Touches (events : List (Event SetDns Error)) (live : List SetDns) (ifindex : Int32) : Prop :=
  Configured events ifindex ∨ .resolved ⟨ifindex⟩ ∈ live

/-- The handles are for links that are there. -/
def Present (p : Model original × List SetDns) : Prop :=
  ∀ inner, .resolved inner ∈ p.2 → p.1.links inner.ifindex ≠ none

variable {model : Model original} {live front back : List SetDns} {ifindex : Int32}
  {config : NormalizedConfig} {valid : ValidOwner config.owner} {handle : SetDns}

theorem set_present {model : Model original} {other : Int32} {link : Link}
    (present : Present (model, live)) : Present (model.set other link, live) := by
  intro inner mem
  rw [set_links]
  by_cases here : inner.ifindex = other
  · simp [here]
  · rw [Function.update_of_ne here]
    exact present inner mem

/-- What an application configures is its handle's to reset. -/
theorem applied_touches :
    Touches (.applied config (model.apply bus config valid).1 :: events) live ifindex ↔
      Touches events (opened (model.apply bus config valid).1 live) ifindex := by
  cases model.apply_cases bus config valid with
  | inl failed =>
      obtain ⟨e, result⟩ := failed
      rw [result]
      simp [Touches, configured_cons, opened]
  | inr done =>
      cases done with
      | inl linked =>
          obtain ⟨other, link, -, result⟩ := linked
          rw [result]
          simp only [Touches, configured_cons, opened, List.mem_cons, Event.applied.injEq,
            Except.ok.injEq, SetDns.resolved.injEq, Resolved.SetDns.mk.injEq, exists_eq_left',
            eq_comm (a := other)]
          tauto
      | inr filed =>
          obtain ⟨foreign, result⟩ := filed
          rw [result]
          simp [Touches, configured_cons, opened]

theorem applied_links
    (untouched : ¬ Touches events (opened (model.apply bus config valid).1 live) ifindex) :
    (model.apply bus config valid).2.links ifindex = model.links ifindex := by
  cases model.apply_cases bus config valid with
  | inl failed =>
      obtain ⟨e, result⟩ := failed
      rw [result]
  | inr done =>
      cases done with
      | inl linked =>
          obtain ⟨other, link, -, result⟩ := linked
          rw [result] at untouched ⊢
          have ne : ifindex ≠ other := by
            intro same
            subst same
            exact untouched (.inr (.head _))
          exact Function.update_of_ne ne _ _
      | inr filed =>
          obtain ⟨foreign, result⟩ := filed
          rw [result]

theorem applied_present (present : Present (model, live)) :
    Present ((model.apply bus config valid).2, opened (model.apply bus config valid).1 live) := by
  cases model.apply_cases bus config valid with
  | inl failed =>
      obtain ⟨e, result⟩ := failed
      rw [result]
      exact present
  | inr done =>
      cases done with
      | inl linked =>
          obtain ⟨other, link, -, result⟩ := linked
          rw [result]
          intro inner mem
          cases mem with
          | head => simp
          | tail _ mem => exact set_present present inner mem
      | inr filed =>
          obtain ⟨foreign, result⟩ := filed
          rw [result]
          intro inner mem
          cases mem with
          | tail _ mem => exact present inner mem

theorem closed_touches {r : Except Error Unit} :
    Touches (.closed handle r :: events) (front ++ handle :: back) ifindex ↔
      handle = .resolved ⟨ifindex⟩ ∨ Touches events (front ++ back) ifindex := by
  simp only [Touches, configured_cons, reduceCtorEq, exists_false, false_or, List.mem_append,
    List.mem_cons, eq_comm]
  tauto

/-- Closing resets the link of the handle and no other. -/
theorem closed_links (present : Present (model, front ++ handle :: back)) :
    (handle = .resolved ⟨ifindex⟩ → (model.close handle).2.links ifindex = some .default) ∧
      (handle ≠ .resolved ⟨ifindex⟩ →
        (model.close handle).2.links ifindex = model.links ifindex) := by
  cases handle with
  | resolvConf inner => exact ⟨nofun, fun _ => rfl⟩
  | resolved inner =>
      obtain ⟨other⟩ := inner
      cases model.close_link_cases ⟨other⟩ with
      | inr gone => exact absurd gone.1 (present ⟨other⟩ (List.mem_append_right _ (.head _)))
      | inl found =>
          obtain ⟨link, -, result⟩ := found
          rw [result]
          constructor
          · intro same
            cases same
            exact Function.update_self ..
          · intro differs
            have ne : ifindex ≠ other := fun same => differs (by rw [same])
            exact Function.update_of_ne ne _ _

theorem closed_present (present : Present (model, front ++ handle :: back)) :
    Present ((model.close handle).2, front ++ back) := by
  have fewer : Present (model, front ++ back) :=
    fun inner mem => present inner (mem_of_others mem)
  cases handle with
  | resolvConf inner => exact fewer
  | resolved inner =>
      cases model.close_link_cases inner with
      | inl found =>
          obtain ⟨link, -, result⟩ := found
          rw [result]
          exact set_present fewer
      | inr gone =>
          obtain ⟨-, e, result⟩ := gone
          rw [result]
          exact fewer

/-- When all handles have been closed, the links that they configured are at their defaults, and
the others as they were. -/
theorem run_links (run : Trace (Step bus) p events p') (kept : ∀ handle, .forgotten handle ∉ events)
    (all : p'.2 = []) (present : Present p) (ifindex : Int32) :
    (Touches events p.2 ifindex → p'.1.links ifindex = some .default) ∧
      (¬ Touches events p.2 ifindex → p'.1.links ifindex = p.1.links ifindex) := by
  induction run with
  | nil p =>
      have none : ¬ Touches [] p.2 ifindex := by simp [Touches, Configured, all]
      exact ⟨fun touched => absurd touched none, fun _ => rfl⟩
  | @cons p p₁ p' event events first _ ih =>
      have later : ∀ handle, .forgotten handle ∉ events :=
        fun handle mem => kept handle (.tail _ mem)
      cases first with
      | applied valid =>
          obtain ⟨defaults, unchanged⟩ := ih later all (applied_present present)
          rw [applied_touches]
          exact ⟨defaults, fun untouched => (unchanged untouched).trans (applied_links untouched)⟩
      | @closed model front back handle =>
          obtain ⟨defaults, unchanged⟩ := ih later all (closed_present present)
          obtain ⟨reset, others⟩ := @closed_links _ _ front back ifindex handle present
          rw [closed_touches, not_or]
          constructor
          · intro touched
            by_cases again : Touches events (front ++ back) ifindex
            · exact defaults again
            · exact (unchanged again).trans (reset (touched.resolve_right again))
          · intro untouched
            exact (unchanged untouched.2).trans (others untouched.1)
      | forgotten => exact absurd (.head _) (kept _)

/-- A slot that is held is held in the name of a handle. -/
def Owned (p : Model original × List SetDns) : Prop :=
  ∀ config valid foreign, p.1.slot = .held config valid foreign →
    ∃ inner, .resolvConf inner ∈ p.2 ∧ inner.owner = config.owner

theorem step_owned {event : Event SetDns Error} (step : Step bus p event p')
    (kept : ∀ handle, event ≠ .forgotten handle) (owned : Owned p) : Owned p' := by
  cases step with
  | @applied model live config valid =>
      rcases model.apply_cases bus config valid with ⟨e, result⟩ |
        ⟨other, link, found, result⟩ | ⟨foreign, result⟩
      · rw [result]
        exact owned
      · rw [result]
        intro config valid foreign held
        obtain ⟨inner, mem, mine⟩ := owned config valid foreign held
        exact ⟨inner, .tail _ mem, mine⟩
      · rw [result]
        rintro _ _ _ ⟨⟩
        exact ⟨⟨config.owner⟩, .head _, rfl⟩
  | @closed model front back handle =>
      cases handle with
      | resolved inner =>
          intro config valid foreign held
          have held : model.slot = .held config valid foreign := by
            rcases model.close_link_cases inner with ⟨link, -, result⟩ | ⟨-, e, result⟩
            · rwa [result] at held
            · rwa [result] at held
          obtain ⟨other, mem, mine⟩ := owned config valid foreign held
          refine ⟨other, ?_, mine⟩
          have mem : SetDns.resolvConf other ∈ front ++ .resolved inner :: back := mem
          simpa using mem
      | resolvConf inner =>
          intro config valid foreign held
          rcases model.slot.close_cases inner with ⟨result, -⟩ | ⟨⟨e, result⟩, lost⟩
          · have held : (model.slot.close inner).2 = .held config valid foreign := held
            rw [result] at held
            cases held
          · have still : (model.slot.close inner).2 = .held config valid foreign := held
            rw [result] at still
            obtain ⟨other, mem, mine⟩ := owned config valid foreign still
            refine ⟨other, ?_, mine⟩
            have mem : SetDns.resolvConf other ∈ front ++ .resolvConf inner :: back := mem
            have ne : other ≠ inner := by
              rintro rfl
              exact lost config valid foreign still mine
            simpa [ne] using mem
  | forgotten => exact absurd rfl (kept _)

theorem run_free {links : Int32 → Option Link} {live : List SetDns}
    (run : Trace (Step bus) (⟨.free, links⟩, live) events p')
    (kept : ∀ handle, .forgotten handle ∉ events) (all : p'.2 = []) : p'.1.slot = .free := by
  have owned : Owned p' := by
    refine run.keeps (fun p event p' mem owned step => ?_) fun _ _ _ held => (nomatch held)
    exact step_owned step (fun handle same => kept handle (same ▸ mem)) owned
  cases held : p'.1.slot with
  | free => rfl
  | held config valid foreign =>
      obtain ⟨inner, mem, -⟩ := owned config valid foreign held
      rw [all] at mem
      cases mem

end Emptied

end Model
end Machine

section Links

open Resolved
open Effects.Resolve1 (Machine)

/-- No call on the bus fails. -/
abbrev calmBus : World BusCall BusCall.Ret Machine := World.of Machine.perform

variable {s t : Machine} {ifindex : Int32} {link : Link}

theorem ask_yields {ε : Type} {c : BusCall} {α : Type} {ask : BusCall.Ret c → Except BusError α}
    {r : BusCall.Ret c} {error : BusError → ε} (performed : s.perform c = (r, t)) :
    Yields calmBus (mapErr (.call c fun r => .ret (ask r)) error).run s
      ((ask r).mapError error) t :=
  Yields.mapErr (Yields.answer
    (fun _ _ given => Prod.mk.inj (Eq.symm (performed.symm.trans given))) (.ret _ _))

theorem connect_yields (s : Machine) : Yields calmBus connect.run s
    (if s.hasOwner destination then .ok ⟨⟩ else .error .noOwner) s := by
  refine Yields.tryOk (ask_yields (c := .system) rfl) ?_
  refine Yields.tryOk (ask_yields (c := .newProxy _ _ _) rfl) ?_
  refine Yields.tryOk (ask_yields (c := .nameHasOwner _) rfl) ?_
  cases s.hasOwner destination <;> exact .ret _ _

theorem change_gone (gone : s.links ifindex = none) (f : Link → Link) :
    s.change ifindex f = (.error .noSuchLink, s) := by
  simp [Machine.change, gone]

theorem set_set (s : Machine) (link link' : Link) :
    (s.set ifindex link).set ifindex link' = s.set ifindex link' := by
  simp [Machine.set]

theorem interfaceIndex_yields (s : Machine) (name : Bytes) :
    Yields calmBus (interfaceIndex name).run s
      (if 0 ∈ name then .error (.invalidInterfaceName name)
        else if s.index name = 0 then .error (.interfaceIndex name ENODEV)
        else .ok (s.index name).toInt32) s := by
  unfold interfaceIndex
  by_cases nul : 0 ∈ name
  · simp only [nul, ite_true]
    exact .ret _ _
  simp only [nul, ite_false]
  have asked : Yields calmBus (Effects.Resolve1.Bus.ifNameToIndex name) s
      (s.index name, ENODEV) s :=
    Yields.answer (fun _ _ given => Prod.mk.inj (Eq.symm given)) (.ret _ _)
  refine Yields.lift asked ?_
  by_cases unknown : s.index name = 0
  · simp only [unknown, ite_true]
    exact .ret _ _
  · simp only [unknown, ite_false]
    exact .ret _ _

/-- Nothing but the link of the device is changed, and only if it is there. -/
theorem manager_yields (s : Machine) (manager : Manager) (config : NormalizedConfig)
    (device : config.device.isSome) {original : Bytes} (slot : Slot original) :
    ∃ r, Yields calmBus (manager.apply config device).run s r
        { s with links := (Model.applyLink s ⟨slot, s.links⟩ config
          (bytes (config.device.get device))).2.links } ∧
      (r.map SetDns.resolved).mapError Error.resolved = (Model.applyLink s ⟨slot, s.links⟩ config
        (bytes (config.device.get device))).1 ∧
      (Model.applyLink s ⟨slot, s.links⟩ config (bytes (config.device.get device))).2.slot =
        slot := by
  rw [apply_eq]
  generalize bytes (config.device.get device) = name
  have proxy : Yields calmBus managerProxy.run s (.ok ()) s :=
    ask_yields (c := .newProxy _ _ _) rfl
  have index := interfaceIndex_yields s name
  unfold Model.applyLink
  by_cases nul : 0 ∈ name
  · rw [if_pos nul] at index
    simp only [nul, ite_true]
    exact ⟨_, Yields.tryError index, rfl, trivial⟩
  by_cases unknown : s.index name = 0
  · rw [if_neg nul, if_pos unknown] at index
    simp only [nul, unknown, ite_true, ite_false]
    exact ⟨_, Yields.tryError index, rfl, trivial⟩
  rw [if_neg nul, if_neg unknown] at index
  simp only [nul, unknown, ite_false]
  generalize (s.index name).toInt32 = ifindex at index ⊢
  cases there : s.links ifindex with
  | none =>
      refine ⟨_, Yields.tryOk index (Yields.tryOk proxy (Yields.tryError ?_)), rfl, rfl⟩
      exact ask_yields (c := .setLinkDns _ _) (change_gone there _)
  | some link =>
      refine ⟨.ok ⟨ifindex⟩, Yields.tryOk index (Yields.tryOk proxy ?_), rfl, rfl⟩
      refine Yields.tryOk (ask_yields (c := .setLinkDns _ _) (change_there there _)) ?_
      refine Yields.tryOk (ask_yields (c := .setLinkDomains _ _)
        (change_there (links_set _ _ _) _)) ?_
      refine Yields.tryOk (ask_yields (c := .setLinkDefaultRoute _ _)
        (change_there (links_set _ _ _) _)) ?_
      refine Yields.tryOk (ask_yields (c := .flushCaches) rfl) ?_
      rw [set_set, set_set]
      exact .ret _ _

theorem revert_yields (s : Machine) (handle : Resolved.SetDns) {original : Bytes}
    (slot : Slot original) :
    ∃ r, Yields calmBus (Resolved.close handle).run s r
        { s with links := (Model.close ⟨slot, s.links⟩ (.resolved handle)).2.links } ∧
      r.mapError Error.resolved = (Model.close ⟨slot, s.links⟩ (.resolved handle)).1 ∧
      (Model.close ⟨slot, s.links⟩ (.resolved handle)).2.slot = slot := by
  have proxy : Yields calmBus managerProxy.run s (.ok ()) s :=
    ask_yields (c := .newProxy _ _ _) rfl
  unfold Model.close
  cases there : s.links handle.ifindex with
  | none =>
      simp only [there]
      refine ⟨_, Yields.tryOk proxy (Yields.tryError ?_), rfl, trivial⟩
      exact ask_yields (c := .revertLink _) (change_gone there _)
  | some link =>
      simp only [there]
      refine ⟨.ok (), Yields.tryOk proxy ?_, rfl, rfl⟩
      refine Yields.tryOk (ask_yields (c := .revertLink _) (change_there there _)) ?_
      exact ask_yields (c := .flushCaches) rfl

end Links

section Backend

variable {original : Bytes} {start : Resolve1.Machine} {model : Model original}
  {s : Resolve1.Machine × Fs} (walk : Bytes → Bytes)

/-- No call fails. -/
abbrev calm : World (BusCall ⊕ FsCall) (Joint BusCall.Ret FsCall.Ret) (Resolve1.Machine × Fs) :=
  calmBus.both (Files.calm walk)

/-- The links have the settings of the model, and the files those of its slot. -/
structure Shows (start : Resolve1.Machine) (model : Model original) (s : Resolve1.Machine × Fs) :
    Prop where
  bus : s.1 = { start with links := model.links }
  files : model.slot.Represents s.2

theorem slot_text (represents : model.slot.Represents s.2) : Utf8 model.slot.content := by
  cases held : model.slot with
  | free => exact represents.text
  | held config valid foreign => exact (ResolvConf.ascii_render valid.ascii config.servers).utf8

theorem file_yields (shows : Shows start model s) (config : NormalizedConfig)
    (valid : ValidOwner config.owner) :
    ∃ s', Yields (calm walk) (applyResolvConf config).run s (model.applyFile config valid).1 s' ∧
      Shows start (model.applyFile config valid).2 s' := by
  obtain ⟨bus, fs⟩ := s
  have managed := ResolvConf.isManagedByResolved_calm walk shows.files.content
    (slot_text shows.files)
  unfold Model.applyFile
  cases stub : ResolvConf.resolvConfOnlyUsesResolvedStub model.slot.content with
  | true =>
      rw [stub] at managed
      exact ⟨_, Yields.lift (managed.right bus) (.ret _ _), shows⟩
  | false =>
      rw [stub] at managed
      obtain ⟨fs', yields, represents, -⟩ :=
        ResolvConf.Slot.apply_refines walk shows.files config valid
      refine ⟨(bus, fs'), Yields.lift (managed.right bus) ?_, shows.bus, represents⟩
      cases result : (model.slot.apply config valid).1 with
      | ok inner =>
          rw [result] at yields
          exact Yields.tryOk (Yields.mapErr (yields.right bus)) (.ret _ _)
      | error e =>
          rw [result] at yields
          exact Yields.tryError (Yields.mapErr (yields.right bus))

theorem link_yields (shows : Shows start model s) (manager : Resolved.Manager)
    (config : NormalizedConfig) (device : config.device.isSome) :
    ∃ s', Yields (calm walk) (do
        let inner ← mapErr (manager.apply config device).run.left .resolved
        pure (.resolved inner) : Result SetDns).run s
          (model.applyLink start config (bytes (config.device.get device))).1 s' ∧
      Shows start (model.applyLink start config (bytes (config.device.get device))).2 s' := by
  obtain ⟨bus, fs⟩ := s
  obtain ⟨rfl, files⟩ := shows
  obtain ⟨r, yields, result, slot⟩ := manager_yields { start with links := model.links } manager
    config device model.slot
  refine ⟨(_, fs), ?_, rfl, ?_⟩
  · have same : (model.applyLink start config (bytes (config.device.get device))).1 =
        (r.map SetDns.resolved).mapError Error.resolved := result.symm
    rw [same]
    cases r with
    | ok inner => exact Yields.tryOk (Yields.mapErr (yields.left fs)) (.ret _ _)
    | error e => exact Yields.tryError (Yields.mapErr (yields.left fs))
  · have same : (model.applyLink start config (bytes (config.device.get device))).2.slot =
        model.slot := slot
    rw [same]
    exact files

/-- An application has the result that the model computes, and leads where the model does. -/
theorem apply_follows (shows : Shows start model s) (config : NormalizedConfig)
    (valid : ValidOwner config.owner) :
    ∃ s', Yields (calm walk) (apply config).run s (model.apply start config valid).1 s' ∧
      Shows start (model.apply start config valid).2 s' := by
  have connected : Yields (calm walk) Resolved.connect.run.left s
      (if start.hasOwner Resolved.destination then .ok ⟨⟩ else .error .noOwner) s := by
    obtain ⟨bus, fs⟩ := s
    obtain ⟨rfl, -⟩ := shows
    exact (connect_yields _).left fs
  have file := file_yields walk shows config valid
  have link := link_yields walk shows ⟨⟩ config
  unfold Model.apply
  cases managed : start.hasOwner Resolved.destination with
  | true =>
      rw [managed, if_pos rfl] at connected
      cases named : config.device with
      | some device =>
          have isSome : config.device.isSome := by simp [named]
          have same : config.device.get isSome = device := by simp [named]
          obtain ⟨s', yields, after⟩ := link isSome
          rw [same] at yields after
          refine ⟨s', Yields.lift connected ?_, after⟩
          cases global : config.domains.isEmpty <;>
            simpa only [global, isSome, dite_true, ite_true, ite_false, Bool.false_eq_true] using
              yields
      | none =>
          have isNone : ¬ config.device.isSome := by simp [named]
          by_cases global : config.domains = []
          · obtain ⟨s', yields, after⟩ := file
            simp only [global, ite_true]
            refine ⟨s', Yields.lift connected ?_, after⟩
            rw [global, dif_neg isNone]
            exact yields
          · simp only [global, ite_false, ite_true]
            refine ⟨s, Yields.lift connected ?_, shows⟩
            rw [if_neg (by rwa [List.isEmpty_iff])]
            dsimp only
            rw [dif_neg isNone]
            exact .ret _ _
  | false =>
      rw [managed, if_neg Bool.false_ne_true] at connected
      by_cases global : config.domains = []
      · obtain ⟨s', yields, after⟩ := file
        simp only [global, ite_true]
        refine ⟨s', Yields.lift connected ?_, after⟩
        simp only [global, List.isEmpty_nil, ite_true]
        split <;> exact yields
      · simp only [global, ite_false, Bool.false_eq_true]
        refine ⟨s, Yields.lift connected ?_, shows⟩
        simp only [List.isEmpty_iff, global, ite_false]
        exact .ret _ _

theorem close_follows (shows : Shows start model s) (handle : SetDns)
    (valid : ∀ inner, handle = .resolvConf inner → ValidOwner inner.owner) :
    ∃ s', Yields (calm walk) (close handle).run s (model.close handle).1 s' ∧
      Shows start (model.close handle).2 s' := by
  obtain ⟨bus, fs⟩ := s
  obtain ⟨rfl, files⟩ := shows
  cases handle with
  | resolved inner =>
      obtain ⟨r, yields, result, slot⟩ := revert_yields { start with links := model.links } inner
        model.slot
      refine ⟨(_, fs), ?_, rfl, ?_⟩
      · have same : (model.close (.resolved inner)).1 = r.mapError Error.resolved := result.symm
        rw [same]
        exact Yields.mapErr (yields.left fs)
      · have same : (model.close (.resolved inner)).2.slot = model.slot := slot
        rw [same]
        exact files
  | resolvConf inner =>
      obtain ⟨fs', yields, represents, -⟩ :=
        ResolvConf.Slot.close_refines walk files inner (valid inner rfl)
      exact ⟨(_, fs'), Yields.mapErr (yields.right _), rfl, represents⟩

end Backend

section Clients

variable {parseDnsName : Bytes → Except Bytes Unit} {walk : Bytes → Bytes} {original : Bytes}
  {start : Resolve1.Machine} {admits : List SetDns → SetDns → Prop}

def platform : (c : PlatformCall SetDns) → Io (PlatformCall.Ret SetDns Error c)
  | .apply config => (apply config).run
  | .close inner => (close inner).run

/-- The machine is in the state of the model, and the handles are those of the model. -/
structure Related (start : Resolve1.Machine) (p : (Resolve1.Machine × Fs) × List SetDns)
    (q : Model original × List SetDns) : Prop where
  shows : Shows start q.1 p.1
  live : p.2 = q.2
  valid : ∀ inner, .resolvConf inner ∈ q.2 → ValidOwner inner.owner

/-- What the configuration check promises of an application. -/
def Checked (event : Event SetDns Error) : Prop :=
  ∀ config r, event = .applied config r → ValidOwner config.owner

theorem platform_matched :
    Forward (fun p event p' => Checked event ∧
        PlatformStep ((calm walk).implemented platform) admits p event p')
      (Model.Step start) (@Related original start) Eq := by
  rintro p ⟨model, live⟩ event p' related ⟨checked, use⟩
  obtain ⟨shows, same, mine⟩ := related
  cases use with
  | @applied s s' live' config r answer =>
      obtain rfl : live' = live := same
      have valid := checked config r rfl
      obtain ⟨_, yields, after⟩ := apply_follows walk shows config valid
      obtain ⟨rfl, rfl⟩ := yields.ends answer
      refine ⟨_, _, rfl, .applied valid, after, rfl, fun inner mem => ?_⟩
      rcases model.apply_cases start config valid with ⟨e, result⟩ | ⟨ifindex, link, -, result⟩ |
        ⟨foreign, result⟩
      · rw [result] at mem
        exact mine inner mem
      · rw [result] at mem
        cases mem with
        | tail _ mem => exact mine inner mem
      · rw [result] at mem
        cases mem with
        | head => exact valid
        | tail _ mem => exact mine inner mem
  | @closed s s' front back handle r order answer =>
      obtain rfl : front ++ handle :: back = live := same
      obtain ⟨_, yields, after⟩ := close_follows walk shows handle fun inner same =>
        mine inner (same ▸ List.mem_append_right _ (.head _))
      obtain ⟨rfl, rfl⟩ := yields.ends answer
      exact ⟨_, _, rfl, .closed, after, rfl, fun inner mem => mine inner (mem_of_others mem)⟩
  | @forgotten s front back handle =>
      obtain rfl : front ++ handle :: back = live := same
      exact ⟨_, _, rfl, .forgotten, shows, rfl, fun inner mem => mine inner (mem_of_others mem)⟩

variable {fs : Fs} {s : Resolve1.Machine × Fs} {outcomes : List (Outcome SetDns Error)}
  {handles : List (Handle.SetDns SetDns)}

theorem checked_of_means {pieces : List (List (Event SetDns Error))}
    (means : List.Forall₂ (Means parseDnsName) outcomes pieces) :
    ∀ event ∈ pieces.flatten, Checked event := by
  rintro event mem config r rfl
  obtain ⟨_, accepted, -⟩ := exists_applied means mem
  exact (normalize_eq_ok accepted).1

theorem start_related (free : (Slot.free : Slot original).Represents fs) :
    Related start ((start, fs), []) ((⟨.free, start.links⟩ : Model original), []) :=
  ⟨⟨rfl, free⟩, rfl, by simp⟩

/-- The results that clients get, and every state they lead to, are those of the model. -/
theorem clients_follow (free : (Slot.free : Slot original).Represents fs)
    (run : Trace (ClientStep parseDnsName ((calm walk).implemented platform) admits)
      ⟨(start, fs), []⟩ outcomes ⟨s, handles⟩) :
    ∃ (pieces : List (List (Event SetDns Error))) (model : Model original),
      List.Forall₂ (Means parseDnsName) outcomes pieces ∧
      Trace (Model.Step start) (⟨.free, start.links⟩, []) pieces.flatten
        (model, handles.filterMap Handle.SetDns.inner) ∧
      Shows start model s := by
  obtain ⟨pieces, p, means, uses, shows⟩ := client_expands.run run rfl
  subst shows
  obtain ⟨⟨model, live⟩, follows, ⟨shown, rfl, -⟩⟩ :=
    platform_matched.follow (uses.only (checked_of_means means)) (start_related free)
  exact ⟨pieces, model, means, follows, shown⟩

/-- Once every handle is closed or dropped, in any order, `/etc/resolv.conf` is as it was and
there is no backup. The links that were configured are at their defaults, and all others as
they were. -/
theorem clients_revert (free : (Slot.free : Slot original).Represents fs)
    (run : Trace (ClientStep parseDnsName ((calm walk).implemented platform) admits)
      ⟨(start, fs), []⟩ outcomes ⟨s, []⟩) (kept : ∀ handle, .forgotten handle ∉ outcomes) :
    s.2 ResolvConf.resolvConf = some (.file original) ∧ s.2 ResolvConf.backup = none ∧
      ∀ ifindex,
        ((∃ config, .applied config (.ok ⟨some (.resolved ⟨ifindex⟩)⟩) ∈ outcomes) →
          s.1.links ifindex = some .default) ∧
        ((¬ ∃ config, .applied config (.ok ⟨some (.resolved ⟨ifindex⟩)⟩) ∈ outcomes) →
          s.1.links ifindex = start.links ifindex) := by
  obtain ⟨pieces, p, means, uses, shows⟩ := client_expands.run run rfl
  subst shows
  obtain ⟨⟨model, live⟩, follows, ⟨⟨bus, files⟩, rfl, -⟩⟩ :=
    platform_matched.follow (uses.only (checked_of_means means)) (start_related free)
  have unforgotten : ∀ handle, .forgotten handle ∉ pieces.flatten := fun handle mem =>
    kept _ (exists_forgotten means mem)
  have slot : model.slot = .free :=
    Model.run_free follows unforgotten rfl
  have text := files.content
  have backup := files.kept
  rw [slot] at text backup
  refine ⟨text, backup, fun ifindex => ?_⟩
  obtain ⟨defaults, unchanged⟩ := Model.run_links follows unforgotten rfl nofun ifindex
  rw [bus]
  constructor
  · rintro ⟨config, mem⟩
    obtain ⟨normalized, there⟩ := applied_mem means mem
    exact defaults (.inl ⟨normalized, there⟩)
  · intro never
    refine unchanged ?_
    rintro (⟨normalized, there⟩ | none)
    · obtain ⟨config, -, mem⟩ := exists_applied means there
      exact never ⟨config, mem⟩
    · cases none

end Clients

section Samples

/-- A link for the manager, and a file of somebody else. -/
def sampleStart : Resolve1.Machine × Fs :=
  (Resolved.sampleMachine Resolved.sampleLink, ResolvConf.sampleFs)

def sampleRun {α : Type} (p : Handle.SetDns.Io SetDns Error α) (s : Resolve1.Machine × Fs) :
    α × (Resolve1.Machine × Fs) :=
  exec (Handler.both Resolve1.Machine.perform (Files.perform id false)) (p.implement platform) s

theorem sampleRun_ends {α : Type} (p : Handle.SetDns.Io SetDns Error α)
    (s : Resolve1.Machine × Fs) :
    Ends ((calm id).implemented platform) p s (sampleRun p s).1 (sampleRun p s).2 := by
  refine ends_implement.mp (ends_exec (fun s c => ?_) _ _)
  cases c with
  | inl c => exact ⟨rfl, rfl⟩
  | inr c => exact ⟨Files.calm_perform id false s.2 c, rfl⟩

def sampleLinked : Config := ⟨bytes "vpn", [.v4 ⟨10, 0, 0, 53⟩], [bytes "corp"], some "tun0"⟩
def samplePlain : Config := ⟨bytes "vpn", [.v4 ⟨10, 0, 0, 54⟩], [], none⟩

def sampleFirst : Handle.SetDns SetDns := ⟨some (.resolved ⟨7⟩)⟩
def sampleSecond : Handle.SetDns SetDns := ⟨some (.resolvConf ⟨bytes "vpn"⟩)⟩

def sampleOnce : Resolve1.Machine × Fs :=
  (sampleRun (Handle.SetDns.apply sampleAny sampleLinked).run sampleStart).2

def sampleTwice : Resolve1.Machine × Fs :=
  (sampleRun (Handle.SetDns.apply sampleAny samplePlain).run sampleOnce).2

def sampleDropped : Resolve1.Machine × Fs := (sampleRun sampleFirst.drop sampleTwice).2
def sampleRestored : Resolve1.Machine × Fs := (sampleRun sampleSecond.close sampleDropped).2

def sampleOutcomes : List (Outcome SetDns Error) :=
  [.applied sampleLinked (.ok sampleFirst), .applied samplePlain (.ok sampleSecond),
    .dropped sampleFirst, .closed sampleSecond (.ok ())]

set_option maxRecDepth 20000 in
/-- A link and the file are configured. One handle is dropped and the other one closed. -/
theorem sampleRestored_run : Trace (ClientStep sampleAny ((calm id).implemented platform)
    fun _ _ => True) ⟨sampleStart, []⟩ sampleOutcomes ⟨sampleRestored, []⟩ := by
  have first := sampleRun_ends (Handle.SetDns.apply sampleAny sampleLinked).run sampleStart
  have second := sampleRun_ends (Handle.SetDns.apply sampleAny samplePlain).run sampleOnce
  have third := sampleRun_ends sampleSecond.close sampleDropped
  rw [show (sampleRun (Handle.SetDns.apply sampleAny sampleLinked).run sampleStart).1 =
    .ok sampleFirst from rfl] at first
  rw [show (sampleRun (Handle.SetDns.apply sampleAny samplePlain).run sampleOnce).1 =
    .ok sampleSecond from rfl] at second
  rw [show (sampleRun sampleSecond.close sampleDropped).1 = .ok () from rfl] at third
  have dropped : ClientStep sampleAny ((calm id).implemented platform) (fun _ _ => True)
      ⟨sampleTwice, [sampleSecond] ++ sampleFirst :: []⟩ (.dropped sampleFirst)
      ⟨sampleDropped, [sampleSecond] ++ []⟩ := .dropped (fun _ _ => trivial) (sampleRun_ends _ _)
  have closed : ClientStep sampleAny ((calm id).implemented platform) (fun _ _ => True)
      ⟨sampleDropped, [] ++ sampleSecond :: []⟩ (.closed sampleSecond (.ok ()))
      ⟨sampleRestored, [] ++ []⟩ := .closed (fun _ _ => trivial) third
  exact .cons (.applied first) (.cons (.applied second) (.cons dropped (.cons closed (.nil _))))

theorem sampleFs_free :
    (Slot.free : Slot ResolvConf.sampleContent).Represents ResolvConf.sampleFs where
  ready := ResolvConf.sample_ready
  text := by decide
  content := rfl
  kept := by decide

theorem clients_follow_sample : ∃ (pieces : List (List (Event SetDns Error)))
    (model : Model ResolvConf.sampleContent),
    List.Forall₂ (Means sampleAny) sampleOutcomes pieces ∧
      Trace (Model.Step sampleStart.1) (⟨.free, sampleStart.1.links⟩, []) pieces.flatten
        (model, []) ∧ Shows sampleStart.1 model sampleRestored :=
  clients_follow sampleFs_free sampleRestored_run

/-- The link had settings, and is left without. -/
theorem clients_revert_sample :
    sampleRestored.2 ResolvConf.resolvConf = some (.file ResolvConf.sampleContent) ∧
      sampleRestored.1.links 7 = some .default := by
  obtain ⟨file, -, links⟩ := clients_revert sampleFs_free sampleRestored_run
    (by simp [sampleOutcomes])
  exact ⟨file, (links 7).1 ⟨sampleLinked, .head _⟩⟩

end Samples

end Setdns.Linux
