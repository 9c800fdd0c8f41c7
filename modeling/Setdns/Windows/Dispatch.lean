import Setdns.Windows.Restoring

/-!
The Windows backend. Rules are applied in any case. The interface of the device is
set before them, for global DNS only, and put back when the rules cannot be applied.
A close removes the rules and puts the interface back, and reports the first error.
-/

namespace Setdns.Windows

open Text Effects Effects.Program Effects.NetSettings
open Interface (Call InterfaceDns InterfaceError)
open Nrpt (NrptError RuleSet)

/-- The boxed error of a part of the backend. -/
inductive Error where
  | nrpt (source : NrptError)
  | interface (source : InterfaceError)
  deriving DecidableEq, Repr

structure SetDns where
  nrptRules : RuleSet
  interfaceDns : Option InterfaceDns
  deriving DecidableEq, Repr

abbrev Io (α : Type) : Type := Program Call Call.Ret α

abbrev Result (α : Type) : Type := ExceptT Error (Program Call Call.Ret) α

def flushDnsCache : Io Unit := do
  let _ ← (Net.status [bytes "ipconfig", bytes "/flushdns"]).right
  pure ()

def applyInterface (config : NormalizedConfig) : Result (Option InterfaceDns) :=
  if config.domains.isEmpty then
    match config.device with
    | some device => mapErr (Interface.apply (bytes device) config.servers).run .interface
    | none => pure none
  else pure none

def applyRules (config : NormalizedConfig) : Io (Except NrptError RuleSet) :=
  (Nrpt.apply config.owner config.servers
    (Nrpt.namespacesForGlobalOrSplit config.domains)).run.left

/-- A failure is logged. -/
def closeInterface : Option InterfaceDns → Io (Except InterfaceError Unit)
  | some handle => (Interface.close handle).run
  | none => pure (.ok ())

def apply (config : NormalizedConfig) : Result SetDns := do
  let interfaceDns ← applyInterface config
  match ← (liftM (applyRules config) : Result _) with
  | .ok nrptRules => do
      flushDnsCache
      pure ⟨nrptRules, interfaceDns⟩
  | .error error => do
      let _ ← (liftM (closeInterface interfaceDns) : Result (Except InterfaceError Unit))
      throw (.nrpt error)

def close (handle : SetDns) : Result Unit := do
  let nrptResult ← (liftM ((Nrpt.close handle.nrptRules).run.left : Io _) :
    Result (Except NrptError Unit))
  let interfaceResult ← (liftM (closeInterface handle.interfaceDns) :
    Result (Except InterfaceError Unit))
  flushDnsCache
  match nrptResult, interfaceResult with
  | .error error, _ => throw (.nrpt error)
  | .ok (), .error error => throw (.interface error)
  | .ok (), .ok () => pure ()

section Runs

variable {W : World Call Call.Ret Nrpt.Machine} {config : NormalizedConfig}
  {s t : Nrpt.Machine}

/-- The parts of an application. The interface fails, or the rules fail after it, or neither. -/
inductive Applies (W : World Call Call.Ret Nrpt.Machine) (config : NormalizedConfig)
    (s : Nrpt.Machine) : Except Error SetDns → Nrpt.Machine → Prop
  | interface {e : Error} {t : Nrpt.Machine}
      (failed : Ends W (applyInterface config).run s (.error e) t) : Applies W config s (.error e) t
  | rules {interfaceDns : Option InterfaceDns} {e : NrptError} {r : Except InterfaceError Unit}
      {s₁ s₂ t : Nrpt.Machine} (set : Ends W (applyInterface config).run s (.ok interfaceDns) s₁)
      (failed : Ends W (applyRules config) s₁ (.error e) s₂)
      (undone : Ends W (closeInterface interfaceDns) s₂ r t) :
      Applies W config s (.error (.nrpt e)) t
  | done {interfaceDns : Option InterfaceDns} {rules : RuleSet} {s₁ s₂ t : Nrpt.Machine}
      (set : Ends W (applyInterface config).run s (.ok interfaceDns) s₁)
      (applied : Ends W (applyRules config) s₁ (.ok rules) s₂)
      (flushed : Ends W flushDnsCache s₂ () t) : Applies W config s (.ok ⟨rules, interfaceDns⟩) t

theorem apply_parts {r : Except Error SetDns} (run : Ends W (apply config).run s r t) :
    Applies W config s r t := by
  rcases Ends.tryBind_cases run with ⟨interfaceDns, s₁, set, rest⟩ | ⟨e, rfl, failed⟩
  swap
  · exact .interface failed
  obtain ⟨applied, s₂, rules, last⟩ := Ends.lift_cases rest
  cases applied with
  | ok rules' =>
      obtain ⟨_, s₃, flushed, last⟩ := Ends.lift_cases last
      cases last
      exact .done set rules flushed
  | error error =>
      obtain ⟨_, s₃, undone, last⟩ := Ends.lift_cases last
      cases last
      exact .rules set rules undone

/-- The first error is reported. -/
def firstError : Except NrptError Unit → Except InterfaceError Unit → Except Error Unit
  | .error error, _ => .error (.nrpt error)
  | .ok (), .error error => .error (.interface error)
  | .ok (), .ok () => .ok ()

theorem firstError_ok_iff {nrptResult : Except NrptError Unit}
    {interfaceResult : Except InterfaceError Unit} :
    firstError nrptResult interfaceResult = .ok () ↔
      nrptResult = .ok () ∧ interfaceResult = .ok () := by
  cases nrptResult <;> cases interfaceResult <;> simp [firstError]

/-- Both parts of a close are run, whatever the first one returns. -/
theorem close_parts {handle : SetDns} {r : Except Error Unit}
    (run : Ends W (close handle).run s r t) :
    ∃ nrptResult interfaceResult s₁ s₂,
      Ends W (Nrpt.close handle.nrptRules).run.left s nrptResult s₁ ∧
      Ends W (closeInterface handle.interfaceDns) s₁ interfaceResult s₂ ∧
      Ends W flushDnsCache s₂ () t ∧ r = firstError nrptResult interfaceResult := by
  obtain ⟨nrptResult, s₁, rules, rest⟩ := Ends.lift_cases run
  obtain ⟨interfaceResult, s₂, restored, rest⟩ := Ends.lift_cases rest
  obtain ⟨_, s₃, flushed, last⟩ := Ends.lift_cases rest
  refine ⟨nrptResult, interfaceResult, s₁, s₂, rules, restored, ?_⟩
  cases nrptResult with
  | error error =>
      cases last
      exact ⟨flushed, rfl⟩
  | ok _ =>
      cases interfaceResult <;> cases last <;> exact ⟨flushed, rfl⟩

end Runs

end Setdns.Windows
