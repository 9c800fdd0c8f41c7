import Setdns.Effects.Transcript
import Setdns.Handle
import Setdns.TestRunner.Plan

/-!
The test runner. It starts its server, configures the system through the crate, asks the system
resolver for the names of the plan, closes the handle and asks once more. Whatever happens on
the way, what it does to the platform is settled by how it exits, and it passes only on evidence
for every case.
-/

namespace Setdns.TestRunner

open Text TestDns Effects Effects.Program Simulation
open Handle (PlatformCall SetDns Outcome ClientStep)

/-- A TUN device, which is gone when it is dropped. -/
structure Device where
  id : Nat
  deriving DecidableEq, Repr

inductive RunnerCall where
  | envVar (name : Bytes)
  | envVarOs (name : Bytes)
  | pathExists (path : Bytes)
  | readSystemConf
  | createDevice (address netmask : Ipv4Addr)
  | tunName (device : Device)
  | dropDevice (device : Device)
  | now
  | processId
  | lookup (name : Bytes)
  | sleep (millis : Nat)

/-- The time is in nanoseconds since the epoch, if it is not before. -/
abbrev RunnerCall.Ret : RunnerCall → Type
  | .envVar _ => Except Unit Bytes
  | .envVarOs _ => Option Bytes
  | .pathExists _ => Bool
  | .readSystemConf => Except Unit (List IpAddr)
  | .createDevice _ _ => Except Unit Device
  | .tunName _ => Except Unit String
  | .dropDevice _ => Unit
  | .now => Option Nat
  | .processId => UInt32
  | .lookup _ => Except Unit (List IpAddr)
  | .sleep _ => Unit

variable {H E : Type}

/-- The calls of the runner itself. -/
abbrev OwnCall : Type := RunnerCall ⊕ ServerCall
abbrev OwnCall.Ret : OwnCall → Type := Joint RunnerCall.Ret ServerCall.Ret

abbrev Io (α : Type) : Type := Program OwnCall OwnCall.Ret α

def runner (c : RunnerCall) : Io (RunnerCall.Ret c) := .call (.inl c) .ret
def server (c : ServerCall) : Io (ServerCall.Ret c) := .call (.inr c) .ret

inductive Error (E : Type) where
  | guard
  | systemConf
  | noParents
  | pointsBack (parent : IpAddr)
  | stub (parent : IpAddr)
  | createDevice
  | deviceName
  | bindServer (listenIp : IpAddr)
  | setdns (source : Handle.Error E)
  | unresolved (name : Bytes)
  | noAddresses (name : Bytes)
  | notOverlay (name : Bytes) (ips : List IpAddr)
  | stillOverlay (name : Bytes) (ips : List IpAddr)
  | unexpectedQuery (name : Bytes) (counters : Counters)
  | notReceived (name : Bytes) (counters : Counters)
  | notAnswered (name : Bytes) (counters : Counters)
  | notForwarded (name : Bytes) (counters : Counters)
  | didNotRun
  | both (assertion restore : Error E)

abbrev Result (E α : Type) : Type := ExceptT (Error E) (Program OwnCall OwnCall.Ret) α

abbrev ask (c : RunnerCall) : Result E (RunnerCall.Ret c) :=
  liftM (runner c : Io (RunnerCall.Ret c))

/-- The result is looked at, not passed on. -/
abbrev outcome {α : Type} (x : Result E α) : Result E (Except (Error E) α) :=
  liftM (x.run : Io (Except (Error E) α))

section EnvGuard

/-- The disjunction of Rust: what follows a true test is not asked. -/
def anyOf : List (Io Bool) → Io Bool
  | [] => pure false
  | test :: tests => do
      match ← test with
      | true => pure true
      | false => anyOf tests

def isTruthy (value : Bytes) : Bool :=
  !(["", "0", "false", "FALSE", "False"].any fun text => value = bytes text)

def envIs (name : String) (good : Bytes → Bool) : Io Bool := do
  match ← runner (.envVar (bytes name)) with
  | .ok value => pure (good value)
  | .error _ => pure false

def envSet (name : String) : Io Bool := do
  let value ← runner (.envVarOs (bytes name))
  pure value.isSome

def recognizedCi : Io Bool :=
  anyOf [envIs "CI" isTruthy, envSet "GITHUB_ACTIONS", envSet "GITLAB_CI", envSet "BUILDKITE",
    envSet "TF_BUILD", envSet "JENKINS_URL"]

def recognizedContainer : Io Bool :=
  anyOf [runner (.pathExists (bytes "/.dockerenv")),
    runner (.pathExists (bytes "/run/.containerenv")), envSet "KUBERNETES_SERVICE_HOST",
    envIs "container" fun value => !value.isEmpty]

def check (bypass : Bool) : Result E Unit := do
  match ← (liftM (anyOf [pure bypass, recognizedCi, recognizedContainer] : Io Bool) :
    Result E Bool) with
  | true => pure ()
  | false => throw .guard

end EnvGuard

section SystemDns

def SYSTEMD_RESOLVED_STUBS : List Ipv4Addr := [⟨127, 0, 0, 53⟩, ⟨127, 0, 0, 54⟩]

def isStub : IpAddr → Bool
  | .v4 ip => SYSTEMD_RESOLVED_STUBS.any fun stub => ip = stub
  | .v6 _ => false

def validateEach (testDnsIp : IpAddr) : List IpAddr → Except (Error E) Unit
  | [] => .ok ()
  | parent :: parents =>
      if parent = testDnsIp then .error (.pointsBack parent)
      else if isStub parent then .error (.stub parent)
      else validateEach testDnsIp parents

def validateParentDns (parents : List IpAddr) (testDnsIp : IpAddr) : Except (Error E) Unit :=
  if parents.isEmpty then .error .noParents else validateEach testDnsIp parents

def readParents : Option IpAddr → Result E (List IpAddr)
  | some ip => pure [ip]
  | none => do
      match ← ask .readSystemConf with
      | .error _ => throw .systemConf
      | .ok nameServers => pure nameServers

def selectParentDns (overrideIp : Option IpAddr) (testDnsIp : IpAddr) :
    Result E (List IpAddr) := do
  let parents ← readParents overrideIp
  ExceptT.mk (pure (validateParentDns parents testDnsIp))
  pure parents

end SystemDns

section TestTun

def TUN_DNS_IPV4 : Ipv4Addr := ⟨198, 18, 0, 53⟩
abbrev TUN_DNS_IP : IpAddr := .v4 TUN_DNS_IPV4

structure TestTun where
  name : String
  device : Device
  deriving DecidableEq, Repr

def TestTun.create : Result E TestTun := do
  match ← ask (.createDevice TUN_DNS_IPV4 ⟨255, 255, 255, 255⟩) with
  | .error _ => throw .createDevice
  | .ok device =>
      match ← ask (.tunName device) with
      | .error _ => do
          ask (.dropDevice device)
          throw .deviceName
      | .ok name => pure ⟨name, device⟩

def dropTun : Option TestTun → Io Unit
  | some tun => runner (.dropDevice tun.device)
  | none => pure ()

end TestTun

section Verifier

def isOverlayIp : IpAddr → Bool
  | .v4 ip => ip = OVERLAY_IPV4
  | .v6 ip => ip = OVERLAY_IPV6

def resolveSystemIps (name : Bytes) : Result E (List IpAddr) := do
  match ← ask (.lookup name) with
  | .error _ => throw (.unresolved name)
  | .ok ips => pure ips

def expectResolves (name : Bytes) : Result E (List IpAddr) := do
  let ips ← resolveSystemIps name
  if ips.isEmpty then throw (.noAddresses name) else pure ips

def expectOverlay (name : Bytes) : Result E Unit := do
  let ips ← expectResolves name
  if ips.all isOverlayIp then pure () else throw (.notOverlay name ips)

def expectNotOverlay (name : Bytes) : Result E Unit := do
  match ← outcome (resolveSystemIps name) with
  | .ok ips => if ips.any isOverlayIp then throw (.stillOverlay name ips) else pure ()
  | .error _ => pure ()

end Verifier

section Assertions

def expectNoNameCounter (counters : Counters) (name : Bytes) : Except (Error E) Unit :=
  if counters.byName name ≠ 0 then .error (.unexpectedQuery name counters) else .ok ()

def expectNameCounter (counters : Counters) (name : Bytes) : Except (Error E) Unit :=
  if counters.byName name = 0 then .error (.notReceived name counters) else .ok ()

def expectOverlayCounter (counters : Counters) (name : Bytes) : Except (Error E) Unit := do
  expectNameCounter counters name
  if counters.overlayByName name = 0 then .error (.notAnswered name counters) else .ok ()

def expectForwardCounter (counters : Counters) (name : Bytes) : Except (Error E) Unit := do
  expectNameCounter counters name
  if counters.forwardedByName name = 0 then .error (.notForwarded name counters) else .ok ()

def assertResolution (name : Bytes) : ResolutionExpectation → Result E Unit
  | .resolves => do
      let _ ← expectResolves name
      pure ()

abbrev readCounters : Result E Counters := liftM (server .counters : Io Counters)

def assertCase (mode : Mode) (case : NameCase) : Result E Unit :=
  match case.expectation with
  | .overlay => do
      expectOverlay case.name
      let counters ← readCounters
      ExceptT.mk (pure (expectOverlayCounter counters case.name))
  | .forwarded route => do
      let _ ← outcome (resolveSystemIps case.name)
      let counters ← readCounters
      if routeUsesTestDns route mode then
        ExceptT.mk (pure (expectForwardCounter counters case.name))
      else ExceptT.mk (pure (expectNoNameCounter counters case.name))
  | .resolve resolution => assertResolution case.name resolution

def runAssertions (mode : Mode) : List NameCase → Result E Unit
  | [] => pure ()
  | case :: cases => do
      assertCase mode case
      runAssertions mode cases

def runRestoreAssertions : List NameCase → Result E Unit
  | [] => pure ()
  | case :: cases =>
      (if case.expectation = .overlay then expectNotOverlay case.name else pure ()) >>= fun _ =>
        runRestoreAssertions cases

abbrev DNS_POLL_ATTEMPTS : Nat := 20
/-- In milliseconds. -/
abbrev DNS_POLL_DELAY : Nat := 50

def waitForSystemDns (assertion : Result E Unit) : Io (Except (Error E) Unit) :=
  assertion.run.poll (runner (.sleep DNS_POLL_DELAY)) DNS_POLL_ATTEMPTS .didNotRun

def mergeAssertions : Except (Error E) Unit → Except (Error E) Unit → Except (Error E) Unit
  | .ok _, .ok _ => .ok ()
  | .error error, .ok _ => .error error
  | .ok _, .error error => .error error
  | .error assertion, .error restore => .error (.both assertion restore)

end Assertions

section Run

inductive ExitKind where
  | pass
  | assertionFailed
  | unsupported
  | restoreFailed
  deriving DecidableEq, Repr

structure ScenarioError (E : Type) where
  kind : ExitKind
  source : Error E

structure ScenarioOptions where
  mode : Mode
  tun : Bool
  parentDns : Option IpAddr

abbrev DEFAULT_TEST_DNS_LISTEN_IP : IpAddr := .v4 ⟨127, 0, 0, 1⟩

def ScenarioOptions.testDnsIp (options : ScenarioOptions) : IpAddr :=
  if options.tun then TUN_DNS_IP else DEFAULT_TEST_DNS_LISTEN_IP

def createTunIfRequested (enabled : Bool) : Result E (Option TestTun) :=
  if enabled then do
    let tun ← TestTun.create
    pure (some tun)
  else pure none

def newPlan : Io TestPlan := do
  let nanos ← runner .now
  let processId ← runner .processId
  pure (.new processId (nanos.getD 0))

abbrev Call (H : Type) : Type := OwnCall ⊕ PlatformCall H
abbrev Call.Ret (H E : Type) : Call H → Type := Joint OwnCall.Ret (PlatformCall.Ret H E)

abbrev Runs (H E α : Type) : Type := Program (Call H) (Call.Ret H E) α

/-- The scenario with its server at work. -/
def runScenario (parseDnsName : Bytes → Except Bytes Unit) (options : ScenarioOptions)
    (testDnsIp : IpAddr) (tun : Option TestTun) (plan : TestPlan) :
    Runs H E (Except (ScenarioError E) Unit) := do
  let config := scenarioConfig options.mode testDnsIp (tun.map TestTun.name) plan
  match ← (SetDns.apply parseDnsName config).run.right with
  | .error error => do
      (server .abort).left
      (dropTun tun).left
      pure (.error ⟨.unsupported, .setdns error⟩)
  | .ok handle => do
      let assertion ← (waitForSystemDns (runAssertions options.mode plan.cases)).left
      match ← handle.close.right with
      | .error error => do
          (server .abort).left
          (dropTun tun).left
          pure (.error ⟨.restoreFailed, .setdns error⟩)
      | .ok _ => do
          (dropTun tun).left
          let restoreAssertion ← (waitForSystemDns (runRestoreAssertions plan.cases)).left
          (server .abort).left
          match mergeAssertions assertion restoreAssertion with
          | .error error => pure (.error ⟨.assertionFailed, error⟩)
          | .ok _ => pure (.ok ())

/-- What is owned is dropped on every way out, the last one first. -/
def run (parseDnsName : Bytes → Except Bytes Unit) (options : ScenarioOptions) :
    Runs H E (Except (ScenarioError E) Unit) := do
  let testDnsIp := options.testDnsIp
  match ← (selectParentDns options.parentDns testDnsIp).run.left with
  | .error error => pure (.error ⟨.unsupported, error⟩)
  | .ok parentDns =>
      match ← (createTunIfRequested options.tun).run.left with
      | .error error => pure (.error ⟨.unsupported, error⟩)
      | .ok tun => do
          let plan ← newPlan.left
          match ← (server (.start testDnsIp parentDns plan.overlayNames)).left with
          | .error _ => do
              (dropTun tun).left
              pure (.error ⟨.unsupported, .bindServer testDnsIp⟩)
          | .ok _ => runScenario parseDnsName options testDnsIp tun plan

def exitCode : ExitKind → UInt8
  | .pass => 0
  | .assertionFailed => 1
  | .unsupported => 2
  | .restoreFailed => 3

def main (parseDnsName : Bytes → Except Bytes Unit) (bypassEnvironmentGuard : Bool)
    (options : ScenarioOptions) : Runs H E UInt8 := do
  match ← (check bypassEnvironmentGuard : Result E Unit).run.left with
  | .error _ => pure (exitCode .unsupported)
  | .ok _ =>
      match ← run parseDnsName options with
      | .ok _ => pure (exitCode .pass)
      | .error error => pure (exitCode error.kind)

end Run

section Evidence

abbrev Entry : Type := Sigma OwnCall.Ret

def looked (name : Bytes) (r : Except Unit (List IpAddr)) : Entry := ⟨.inl (.lookup name), r⟩
def counted (counters : Counters) : Entry := ⟨.inr .counters, counters⟩
def started (listenIp : IpAddr) (parentDns : List IpAddr) (overlayNames : List Bytes) : Entry :=
  ⟨.inr (.start listenIp parentDns overlayNames), .ok ()⟩

/-- What a passing case has shown. -/
inductive Shows (mode : Mode) : NameCase → List Entry → Prop
  | overlay {name : Bytes} {ips : List IpAddr} {counters : Counters} (some : ips ≠ [])
      (only : ∀ ip ∈ ips, isOverlayIp ip = true) (received : counters.byName name ≠ 0)
      (answered : counters.overlayByName name ≠ 0) :
      Shows mode ⟨name, .overlay⟩ [looked name (.ok ips), counted counters]
  | forwarded {name : Bytes} {route : TestDnsRoute} {r : Except Unit (List IpAddr)}
      {counters : Counters} (uses : routeUsesTestDns route mode = true)
      (received : counters.byName name ≠ 0) (forwarded : counters.forwardedByName name ≠ 0) :
      Shows mode ⟨name, .forwarded route⟩ [looked name r, counted counters]
  | elsewhere {name : Bytes} {route : TestDnsRoute} {r : Except Unit (List IpAddr)}
      {counters : Counters} (uses : routeUsesTestDns route mode = false)
      (none : counters.byName name = 0) :
      Shows mode ⟨name, .forwarded route⟩ [looked name r, counted counters]
  | resolves {name : Bytes} {ips : List IpAddr} (some : ips ≠ []) :
      Shows mode ⟨name, .resolve .resolves⟩ [looked name (.ok ips)]

/-- After the restore nobody answers with an overlay address. -/
inductive Gone : NameCase → List Entry → Prop
  | unresolved {name : Bytes} {expectation : NameExpectation} :
      Gone ⟨name, expectation⟩ [looked name (.error ())]
  | resolved {name : Bytes} {expectation : NameExpectation} {ips : List IpAddr}
      (none : ∀ ip ∈ ips, isOverlayIp ip = false) :
      Gone ⟨name, expectation⟩ [looked name (.ok ips)]

variable {log : List Entry} {name : Bytes} {mode : Mode}

theorem runner_log {c : RunnerCall} {r : RunnerCall.Ret c} (t : Transcript (runner c) log r) :
    log = [⟨.inl c, r⟩] := by
  cases t with
  | call r rest =>
      cases rest
      rfl

theorem server_log {c : ServerCall} {r : ServerCall.Ret c} (t : Transcript (server c) log r) :
    log = [⟨.inr c, r⟩] := by
  cases t with
  | call r rest =>
      cases rest
      rfl

theorem resolveSystemIps_log {r : Except (Error E) (List IpAddr)}
    (t : Transcript (resolveSystemIps name).run log r) :
    ∃ answer, log = [looked name answer] ∧ r = answer.mapError fun _ => .unresolved name := by
  obtain ⟨answer, front, back, rfl, first, last⟩ := Transcript.lift_iff.mp t
  obtain rfl := runner_log first
  cases answer with
  | ok ips =>
      cases last
      exact ⟨.ok ips, rfl, rfl⟩
  | error e =>
      cases last
      exact ⟨.error e, rfl, rfl⟩

theorem expectResolves_log {ips : List IpAddr}
    (t : Transcript (expectResolves name : Result E (List IpAddr)).run log (.ok ips)) :
    log = [looked name (.ok ips)] ∧ ips ≠ [] := by
  cases Transcript.tryBind_iff.mp t with
  | inl found =>
      obtain ⟨found, front, back, rfl, first, last⟩ := found
      obtain ⟨answer, rfl, same⟩ := resolveSystemIps_log first
      cases answer with
      | error e => cases same
      | ok answer =>
          cases same
          split at last
          · cases last
          · rename_i some
            cases last
            exact ⟨rfl, fun none => some (by rw [none]; rfl)⟩
  | inr failed =>
      obtain ⟨error, same, -⟩ := failed
      cases same

theorem expectOverlay_log
    (t : Transcript (expectOverlay name : Result E Unit).run log (.ok ())) :
    ∃ ips, log = [looked name (.ok ips)] ∧ ips ≠ [] ∧ ∀ ip ∈ ips, isOverlayIp ip = true := by
  cases Transcript.tryBind_iff.mp t with
  | inl found =>
      obtain ⟨ips, front, back, rfl, first, last⟩ := found
      obtain ⟨rfl, some⟩ := expectResolves_log first
      split at last
      · rename_i only
        cases last
        exact ⟨ips, rfl, some, List.all_eq_true.mp only⟩
      · cases last
  | inr failed =>
      obtain ⟨error, same, -⟩ := failed
      cases same

theorem expectNotOverlay_log {case : NameCase}
    (t : Transcript (expectNotOverlay case.name : Result E Unit).run log (.ok ())) :
    Gone case log := by
  obtain ⟨r, front, back, rfl, first, last⟩ := Transcript.lift_iff.mp t
  obtain ⟨answer, rfl, rfl⟩ := resolveSystemIps_log first
  cases answer with
  | error e =>
      cases last
      exact .unresolved
  | ok ips =>
      simp only [Except.mapError] at last
      split at last
      · cases last
      · rename_i none
        cases last
        refine .resolved fun ip mem => ?_
        exact Bool.eq_false_iff.mpr fun overlay => none (List.any_eq_true.mpr ⟨ip, mem, overlay⟩)

/-- Both counters of a name that passes have moved. -/
theorem expectCounter_ok {counters : Counters} {count : UInt64} {error : Error E}
    (ok : (expectNameCounter counters name >>= fun _ =>
      if count = 0 then .error error else .ok ()) = .ok ()) :
    counters.byName name ≠ 0 ∧ count ≠ 0 := by
  unfold expectNameCounter at ok
  split at ok
  · cases ok
  · rename_i received
    refine ⟨received, fun none => ?_⟩
    rw [none] at ok
    cases ok

theorem expectNoNameCounter_ok {counters : Counters}
    (ok : (expectNoNameCounter counters name : Except (Error E) Unit) = .ok ()) :
    counters.byName name = 0 := by
  unfold expectNoNameCounter at ok
  by_contra some
  simp [some] at ok

/-- A case passes only on its evidence. -/
theorem assertCase_log {case : NameCase}
    (t : Transcript (assertCase mode case : Result E Unit).run log (.ok ())) :
    Shows mode case log := by
  obtain ⟨name, expectation⟩ := case
  cases expectation with
  | overlay =>
      cases Transcript.tryBind_iff.mp t with
      | inl resolved =>
          obtain ⟨_, front, back, rfl, first, rest⟩ := resolved
          obtain ⟨ips, rfl, some, only⟩ := expectOverlay_log first
          obtain ⟨counters, front, back, rfl, read, last⟩ := Transcript.lift_iff.mp rest
          obtain rfl := server_log read
          obtain ⟨rfl, passed⟩ := Transcript.ret_iff.mp last
          obtain ⟨received, answered⟩ := expectCounter_ok passed.symm
          exact .overlay some only received answered
      | inr failed =>
          obtain ⟨error, same, -⟩ := failed
          cases same
  | forwarded route =>
      obtain ⟨r, front, back, rfl, first, rest⟩ := Transcript.lift_iff.mp t
      obtain ⟨answer, rfl, -⟩ := resolveSystemIps_log first
      obtain ⟨counters, front, back, rfl, read, last⟩ := Transcript.lift_iff.mp rest
      obtain rfl := server_log read
      cases uses : routeUsesTestDns route mode with
      | true =>
          simp only [uses, ite_true] at last
          obtain ⟨rfl, passed⟩ := Transcript.ret_iff.mp last
          obtain ⟨received, forwarded⟩ := expectCounter_ok passed.symm
          exact .forwarded uses received forwarded
      | false =>
          simp only [uses, Bool.false_eq_true, ite_false] at last
          obtain ⟨rfl, passed⟩ := Transcript.ret_iff.mp last
          exact .elsewhere uses (expectNoNameCounter_ok passed.symm)
  | resolve resolution =>
      cases Transcript.tryBind_iff.mp t with
      | inl resolved =>
          obtain ⟨ips, front, back, rfl, first, last⟩ := resolved
          obtain ⟨rfl, some⟩ := expectResolves_log first
          cases last
          exact .resolves some
      | inr failed =>
          obtain ⟨error, same, -⟩ := failed
          cases same

theorem runAssertions_log {cases : List NameCase}
    (t : Transcript (runAssertions mode cases : Result E Unit).run log (.ok ())) :
    ∃ pieces, List.Forall₂ (Shows mode) cases pieces ∧ log = pieces.flatten := by
  induction cases generalizing log with
  | nil =>
      cases t
      exact ⟨[], .nil, rfl⟩
  | cons case cases ih =>
      cases Transcript.tryBind_iff.mp t with
      | inl passed =>
          obtain ⟨_, front, back, rfl, first, rest⟩ := passed
          obtain ⟨pieces, shows, rfl⟩ := ih rest
          exact ⟨front :: pieces, .cons (assertCase_log first) shows, rfl⟩
      | inr failed =>
          obtain ⟨error, same, -⟩ := failed
          cases same

theorem runRestoreAssertions_log {cases : List NameCase}
    (t : Transcript (runRestoreAssertions cases : Result E Unit).run log (.ok ())) :
    ∃ pieces, List.Forall₂ Gone (cases.filter fun case => case.expectation = .overlay) pieces ∧
      log = pieces.flatten := by
  induction cases generalizing log with
  | nil =>
      cases t
      exact ⟨[], .nil, rfl⟩
  | cons case cases ih =>
      cases Transcript.tryBind_iff.mp t with
      | inl passed =>
          obtain ⟨_, front, back, rfl, first, rest⟩ := passed
          obtain ⟨pieces, gone, rfl⟩ := ih rest
          by_cases overlay : case.expectation = .overlay
          · rw [if_pos overlay] at first
            refine ⟨front :: pieces, ?_, rfl⟩
            rw [List.filter_cons_of_pos (by simpa using overlay)]
            exact .cons (expectNotOverlay_log first) gone
          · rw [if_neg overlay] at first
            cases first
            refine ⟨pieces, ?_, rfl⟩
            rwa [List.filter_cons_of_neg (by simpa using overlay)]
      | inr failed =>
          obtain ⟨error, same, -⟩ := failed
          cases same

end Evidence

section Courses

/-- A call that starts a server. -/
def Restarts : OwnCall → Prop
  | .inl _ => False
  | .inr c => c.Starts

variable {parseDnsName : Bytes → Except Bytes Unit} {options : ScenarioOptions}

/-- What a run has done, once the server is at work. -/
inductive Course (parseDnsName : Bytes → Except Bytes Unit) (config : Config) (mode : Mode)
    (plan : TestPlan) : List (Sigma (Call.Ret H E)) → Except (ScenarioError E) Unit → Prop
  | refused {asked : List (Sigma (PlatformCall.Ret H E))} {after : List Entry}
      {error : Handle.Error E}
      (applied : Transcript (SetDns.apply parseDnsName config).run asked (.error error)) :
      Course parseDnsName config mode plan (asked.map ofRight ++ after.map ofLeft)
        (.error ⟨.unsupported, .setdns error⟩)
  | unrestored {asked closing : List (Sigma (PlatformCall.Ret H E))} {asserted after : List Entry}
      {handle : SetDns H} {error : Handle.Error E}
      (applied : Transcript (SetDns.apply parseDnsName config).run asked (.ok handle))
      (closed : Transcript handle.close closing (.error error)) :
      Course parseDnsName config mode plan
        (asked.map ofRight ++ (asserted.map ofLeft ++ (closing.map ofRight ++ after.map ofLeft)))
        (.error ⟨.restoreFailed, .setdns error⟩)
  | settled {asked closing : List (Sigma (PlatformCall.Ret H E))}
      {asserted released restored after : List Entry} {handle : SetDns H}
      {assertion restoreAssertion : Except (Error E) Unit}
      (applied : Transcript (SetDns.apply parseDnsName config).run asked (.ok handle))
      (between : Transcript (waitForSystemDns (runAssertions mode plan.cases)) asserted assertion)
      (closed : Transcript handle.close closing (.ok ()))
      (last : Transcript (waitForSystemDns (runRestoreAssertions plan.cases)) restored
        restoreAssertion) (kept : ∀ entry ∈ released ++ after, ¬ Restarts entry.1) :
      Course parseDnsName config mode plan
        (asked.map ofRight ++ (asserted.map ofLeft ++ (closing.map ofRight ++
          (released ++ (restored ++ after)).map ofLeft)))
        ((mergeAssertions assertion restoreAssertion).mapError fun error =>
          ⟨.assertionFailed, error⟩)

theorem dropTun_kept {tun : Option TestTun} {log : List Entry}
    (t : Transcript (dropTun tun) log ()) : ∀ entry ∈ log, ¬ Restarts entry.1 := by
  cases tun with
  | none =>
      cases t
      simp
  | some tun =>
      rw [runner_log t]
      intro entry mem
      cases List.mem_singleton.mp mem
      exact id

theorem runScenario_course {testDnsIp : IpAddr} {tun : Option TestTun} {plan : TestPlan}
    {log : List (Sigma (Call.Ret H E))} {r : Except (ScenarioError E) Unit}
    (t : Transcript (runScenario parseDnsName options testDnsIp tun plan) log r) :
    Course parseDnsName (scenarioConfig options.mode testDnsIp (tun.map TestTun.name) plan)
      options.mode plan log r := by
  obtain ⟨result, _, rest, rfl, applying, t₁⟩ := Transcript.bind_iff.mp t
  obtain ⟨asked, rfl, applied⟩ := applying.right
  cases result with
  | error error =>
      obtain ⟨_, _, rest, rfl, stops, t₂⟩ := Transcript.bind_iff.mp t₁
      obtain ⟨_, _, rest, rfl, drops, t₃⟩ := Transcript.bind_iff.mp t₂
      obtain ⟨aborted, rfl, -⟩ := stops.left
      obtain ⟨dropped, rfl, -⟩ := drops.left
      cases t₃
      rw [List.append_nil, ← List.map_append]
      exact .refused applied
  | ok handle =>
      obtain ⟨assertion, _, rest, rfl, asserting, t₂⟩ := Transcript.bind_iff.mp t₁
      obtain ⟨result, _, rest, rfl, closing, t₃⟩ := Transcript.bind_iff.mp t₂
      obtain ⟨asserted, rfl, asserts⟩ := asserting.left
      obtain ⟨closings, rfl, closed⟩ := closing.right
      cases result with
      | error error =>
          obtain ⟨_, _, rest, rfl, stops, t₄⟩ := Transcript.bind_iff.mp t₃
          obtain ⟨_, _, rest, rfl, drops, t₅⟩ := Transcript.bind_iff.mp t₄
          obtain ⟨aborted, rfl, -⟩ := stops.left
          obtain ⟨dropped, rfl, -⟩ := drops.left
          cases t₅
          rw [List.append_nil, ← List.map_append]
          exact .unrestored applied closed
      | ok _ =>
          obtain ⟨_, _, rest, rfl, drops, t₄⟩ := Transcript.bind_iff.mp t₃
          obtain ⟨restoreAssertion, _, rest, rfl, restoring, t₅⟩ := Transcript.bind_iff.mp t₄
          obtain ⟨_, _, rest, rfl, stops, t₆⟩ := Transcript.bind_iff.mp t₅
          obtain ⟨released, rfl, dropped⟩ := drops.left
          obtain ⟨restored, rfl, restores⟩ := restoring.left
          obtain ⟨aborted, rfl, stopped⟩ := stops.left
          have kept : ∀ entry ∈ released ++ aborted, ¬ Restarts entry.1 := by
            intro entry mem
            cases List.mem_append.mp mem with
            | inl mem => exact dropTun_kept dropped entry mem
            | inr mem =>
                rw [server_log stopped] at mem
                cases List.mem_singleton.mp mem
                exact id
          have ended : rest = [] ∧ r = (mergeAssertions assertion restoreAssertion).mapError
              fun error => ⟨.assertionFailed, error⟩ := by
            cases merged : mergeAssertions assertion restoreAssertion with
            | error error =>
                rw [merged] at t₆
                cases t₆
                exact ⟨rfl, rfl⟩
            | ok _ =>
                rw [merged] at t₆
                cases t₆
                exact ⟨rfl, rfl⟩
          obtain ⟨rfl, rfl⟩ := ended
          rw [List.append_nil, ← List.map_append, ← List.map_append]
          exact .settled applied asserts closed restores kept

theorem selectParentDns_valid {override : Option IpAddr} {testDnsIp : IpAddr} {log : List Entry}
    {parents : List IpAddr}
    (t : Transcript (selectParentDns override testDnsIp : Result E (List IpAddr)).run log
      (.ok parents)) :
    (validateParentDns parents testDnsIp : Except (Error E) Unit) = .ok () := by
  rcases Transcript.tryBind_iff.mp t with ⟨found, _, _, rfl, -, t₁⟩ | ⟨error, same, -⟩
  · rcases Transcript.tryBind_iff.mp t₁ with ⟨_, _, _, rfl, valid, t₂⟩ | ⟨error, same, -⟩
    · cases t₂
      obtain ⟨-, same⟩ := Transcript.ret_iff.mp valid
      exact same.symm
    · cases same
  · cases same

/-- Before the server is at work the platform is left alone. -/
theorem run_course {log : List (Sigma (Call.Ret H E))} {r : Except (ScenarioError E) Unit}
    (t : Transcript (run parseDnsName options) log r) :
    (∃ (own : List Entry) (error : Error E), log = own.map ofLeft ∧
      r = .error ⟨.unsupported, error⟩) ∨
    ∃ (own : List Entry) (device : Option String) (processId : UInt32) (nanos : Nat)
        (parents : List IpAddr) (rest : List (Sigma (Call.Ret H E))),
      log = (own ++ [started options.testDnsIp parents
        (TestPlan.new processId nanos).overlayNames]).map ofLeft ++ rest ∧
      (validateParentDns parents options.testDnsIp : Except (Error E) Unit) = .ok () ∧
      Course parseDnsName
        (scenarioConfig options.mode options.testDnsIp device (.new processId nanos))
        options.mode (.new processId nanos) rest r := by
  obtain ⟨result, _, rest, rfl, selecting, t₁⟩ := Transcript.bind_iff.mp t
  obtain ⟨selected, rfl, selects⟩ := selecting.left
  cases result with
  | error error =>
      cases t₁
      exact .inl ⟨selected, error, List.append_nil _, rfl⟩
  | ok parents =>
      obtain ⟨result, _, rest, rfl, creating, t₂⟩ := Transcript.bind_iff.mp t₁
      obtain ⟨created, rfl, -⟩ := creating.left
      cases result with
      | error error =>
          cases t₂
          refine .inl ⟨selected ++ created, error, ?_, rfl⟩
          rw [List.append_nil, List.map_append]
      | ok tun =>
          obtain ⟨plan, _, rest, rfl, planning, t₃⟩ := Transcript.bind_iff.mp t₂
          obtain ⟨result, _, rest, rfl, starting, t₄⟩ := Transcript.bind_iff.mp t₃
          obtain ⟨planned, rfl, plans⟩ := planning.left
          obtain ⟨started, rfl, starts⟩ := starting.left
          obtain rfl := server_log starts
          cases result with
          | error _ =>
              obtain ⟨_, _, rest, rfl, drops, t₅⟩ := Transcript.bind_iff.mp t₄
              obtain ⟨dropped, rfl, -⟩ := drops.left
              cases t₅
              rw [List.append_nil, ← List.map_append, ← List.map_append, ← List.map_append,
                ← List.map_append]
              exact .inl ⟨_, .bindServer options.testDnsIp, rfl, rfl⟩
          | ok _ =>
              obtain ⟨nanos, _, _, rfl, -, plans⟩ := Transcript.bind_iff.mp plans
              obtain ⟨processId, _, _, rfl, -, plans⟩ := Transcript.bind_iff.mp plans
              obtain ⟨rfl, rfl⟩ := Transcript.ret_iff.mp plans
              have course := runScenario_course t₄
              rw [← List.append_assoc, ← List.append_assoc, ← List.append_assoc,
                ← List.map_append, ← List.map_append, ← List.map_append]
              exact .inr ⟨_, tun.map TestTun.name, processId, nanos.getD 0, parents, rest, rfl,
                selectParentDns_valid selects, course⟩

end Courses

section Platforms

variable {σ₁ σ₂ : Type} {W₁ : World OwnCall OwnCall.Ret σ₁}
  {W₂ : World (PlatformCall H) (PlatformCall.Ret H E) σ₂} {parseDnsName : Bytes → Except Bytes Unit}
  {options : ScenarioOptions} {admits : List H → H → Prop} {s s' : σ₁} {t t' : σ₂}

def ScenarioOptions.Chosen (options : ScenarioOptions) (config : Config) : Prop :=
  ∃ device processId nanos,
    config = scenarioConfig options.mode options.testDnsIp device (.new processId nanos)

/-- How the exit kind follows from what was asked of the crate, and how it was answered. -/
inductive Settles (options : ScenarioOptions) : ExitKind → List (Outcome H E) → Prop
  | untouched : Settles options .unsupported []
  | refused {config : Config} {error : Handle.Error E} (chosen : options.Chosen config) :
      Settles options .unsupported [.applied config (.error error)]
  | unrestored {config : Config} {handle : SetDns H} {error : Handle.Error E}
      (chosen : options.Chosen config) :
      Settles options .restoreFailed
        [.applied config (.ok handle), .closed handle (.error error)]
  | failed {config : Config} {handle : SetDns H} (chosen : options.Chosen config) :
      Settles options .assertionFailed [.applied config (.ok handle), .closed handle (.ok ())]
  | passed {config : Config} {handle : SetDns H} (chosen : options.Chosen config) :
      Settles options .pass [.applied config (.ok handle), .closed handle (.ok ())]

def exitKind : Except (ScenarioError E) Unit → ExitKind
  | .ok _ => .pass
  | .error error => error.kind

theorem closed_alone (alone : ∀ inner, admits [] inner) {handle : SetDns H}
    {r : Except (Handle.Error E) Unit} (ends : Ends W₂ handle.close t r t') :
    ClientStep parseDnsName W₂ admits ⟨t, [handle]⟩ (.closed handle r) ⟨t', []⟩ := by
  have step : ClientStep parseDnsName W₂ admits ⟨t, [] ++ handle :: []⟩ (.closed handle r)
      ⟨t', [] ++ []⟩ := .closed (fun inner _ => alone inner) ends
  exact step

theorem course_settles {config : Config} {plan : TestPlan} {log : List (Sigma (Call.Ret H E))}
    {r : Except (ScenarioError E) Unit} (course : Course parseDnsName config options.mode plan log r)
    (chosen : options.Chosen config) (alone : ∀ inner, admits [] inner)
    (admitted : Trace W₂.Admits t (log.filterMap rightEntry) t') :
    ∃ outcomes, Trace (ClientStep parseDnsName W₂ admits) ⟨t, []⟩ outcomes ⟨t', []⟩ ∧
      Settles options (exitKind r) outcomes := by
  cases course with
  | refused applied =>
      simp only [List.filterMap_append, filterMap_ofRight, filterMap_ofLeft, List.append_nil]
        at admitted
      have ends := ends_iff_transcript.mpr ⟨_, applied, admitted⟩
      exact ⟨_, .single (.applied ends), .refused chosen⟩
  | unrestored applied closed =>
      simp only [List.filterMap_append, filterMap_ofRight, filterMap_ofLeft, List.append_nil,
        List.nil_append] at admitted
      obtain ⟨t₁, asks, closes⟩ := admitted.append_cases
      have ends := ends_iff_transcript.mpr ⟨_, applied, asks⟩
      have ends' := ends_iff_transcript.mpr ⟨_, closed, closes⟩
      exact ⟨_, .cons (.applied ends) (.single (closed_alone alone ends')), .unrestored chosen⟩
  | @settled _ _ _ _ _ _ handle assertion restoreAssertion applied _ closed _ _ =>
      simp only [List.filterMap_append, filterMap_ofRight, filterMap_ofLeft, List.append_nil,
        List.nil_append] at admitted
      obtain ⟨t₁, asks, closes⟩ := admitted.append_cases
      have ends := ends_iff_transcript.mpr ⟨_, applied, asks⟩
      have ends' := ends_iff_transcript.mpr ⟨_, closed, closes⟩
      refine ⟨_, .cons (.applied ends) (.single (closed_alone alone ends')), ?_⟩
      cases mergeAssertions assertion restoreAssertion with
      | ok _ => exact .passed chosen
      | error error => exact .failed chosen

theorem main_run {bypass : Bool} {code : UInt8} {log : List (Sigma (Call.Ret H E))}
    (transcript : Transcript (main parseDnsName bypass options) log code) :
    (∃ own : List Entry, log = own.map ofLeft ∧ code = exitCode .unsupported) ∨
      ∃ (own : List Entry) (rest : List (Sigma (Call.Ret H E)))
        (r : Except (ScenarioError E) Unit), log = own.map ofLeft ++ rest ∧
        Transcript (run parseDnsName options) rest r ∧ code = exitCode (exitKind r) := by
  obtain ⟨result, _, rest, rfl, checking, t₁⟩ := Transcript.bind_iff.mp transcript
  obtain ⟨own, rfl, -⟩ := checking.left
  cases result with
  | error _ =>
      cases t₁
      exact .inl ⟨own, List.append_nil _, rfl⟩
  | ok _ =>
      obtain ⟨r, rest, _, rfl, runs, t₂⟩ := Transcript.bind_iff.mp t₁
      cases r with
      | ok _ =>
          cases t₂
          rw [List.append_nil]
          exact .inr ⟨own, rest, _, rfl, runs, rfl⟩
      | error error =>
          cases t₂
          rw [List.append_nil]
          exact .inr ⟨own, rest, _, rfl, runs, rfl⟩

/-- Whatever the runner meets on its way, it is a client that owns at most one handle and ends
with none, and its exit code tells how its use of the crate went. -/
theorem main_settles {bypass : Bool} {code : UInt8} (alone : ∀ inner, admits [] inner)
    (ends : Ends (W₁.both W₂) (main parseDnsName bypass options) (s, t) code (s', t')) :
    ∃ kind outcomes, code = exitCode kind ∧
      Trace (ClientStep parseDnsName W₂ admits) ⟨t, []⟩ outcomes ⟨t', []⟩ ∧
      Settles options kind outcomes := by
  obtain ⟨log, transcript, admitted⟩ := ends_iff_transcript.mp ends
  have platform := trace_right admitted
  rcases main_run transcript with ⟨own, rfl, rfl⟩ | ⟨own, rest, r, rfl, runs, rfl⟩
  · rw [filterMap_ofLeft] at platform
    cases platform
    exact ⟨.unsupported, [], rfl, .nil _, .untouched⟩
  · rw [List.filterMap_append, filterMap_ofLeft, List.nil_append] at platform
    rcases run_course runs with ⟨_, error, rfl, rfl⟩ |
      ⟨_, device, processId, nanos, _, scenario, rfl, -, course⟩
    · rw [filterMap_ofLeft] at platform
      cases platform
      exact ⟨.unsupported, [], rfl, .nil _, .untouched⟩
    · rw [List.filterMap_append, filterMap_ofLeft, List.nil_append] at platform
      obtain ⟨outcomes, steps, settles⟩ :=
        course_settles course ⟨device, processId, nanos, rfl⟩ alone platform
      exact ⟨_, outcomes, rfl, steps, settles⟩

end Platforms

section Samples

/-- A machine of a CI that answers so many lookups with an overlay address. -/
def sampleRunner (limit : Nat) : Handler RunnerCall RunnerCall.Ret Nat
  | n, .envVar _ => (.ok (bytes "true"), n)
  | n, .envVarOs _ => (none, n)
  | n, .pathExists _ => (false, n)
  | n, .readSystemConf => (.ok [.v4 ⟨192, 0, 2, 1⟩], n)
  | n, .createDevice _ _ => (.ok ⟨1⟩, n)
  | n, .tunName _ => (.ok "tun0", n)
  | n, .dropDevice _ => ((), n)
  | n, .now => (some 255, n)
  | n, .processId => (31, n)
  | n, .lookup _ => (.ok (if n < limit then [.v4 OVERLAY_IPV4] else []), n + 1)
  | n, .sleep _ => ((), n)

/-- A server that has seen every query. -/
def sampleCounters : Handler ServerCall ServerCall.Ret Unit
  | (), .start _ _ _ => (.ok (), ())
  | (), .counters => (⟨1, 1, fun _ => 1, fun _ => 1, fun _ => 1, fun _ => 1⟩, ())
  | (), .abort => ((), ())

def sampleOptions : ScenarioOptions := ⟨.global, false, none⟩

abbrev SampleState : Type := (Nat × Unit) × Nat

def sampleMain (limit : Nat) : UInt8 × SampleState :=
  exec (Handler.both (Handler.both (sampleRunner limit) sampleCounters) Handle.sampleNumbering)
    (main Handle.sampleAny false sampleOptions) ((0, ()), 0)

theorem sampleMain_ends (limit : Nat) :
    Ends (((World.of (sampleRunner limit)).both (World.of sampleCounters)).both
        (World.of Handle.sampleNumbering))
      (main Handle.sampleAny false sampleOptions) ((0, ()), 0) (sampleMain limit).1
      (sampleMain limit).2 := by
  refine ends_exec (fun s c => ?_) _ _
  rcases c with (c | c) | c
  · exact ⟨⟨rfl, rfl⟩, rfl⟩
  · exact ⟨⟨rfl, rfl⟩, rfl⟩
  · exact ⟨rfl, rfl⟩

/-- The last two lookups are those after the restore. -/
theorem main_settles_sample : ∃ kind outcomes, (sampleMain 6).1 = exitCode kind ∧
    Trace (ClientStep Handle.sampleAny (World.of Handle.sampleNumbering) fun _ _ => True)
      ⟨0, []⟩ outcomes ⟨(sampleMain 6).2.2, []⟩ ∧ Settles sampleOptions kind outcomes :=
  main_settles (fun _ => trivial) (sampleMain_ends 6)

end Samples

end Setdns.TestRunner
