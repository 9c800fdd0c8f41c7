import Setdns.TestRunner.Scenario

/-!
What the exit code of the test runner is worth. A pass rests on evidence for every case of the
plan, gathered while the configuration was applied and after it was given back, and the server
has received a query for every name that was to reach it. An assertion failure is reported only
after every attempt has failed.
-/

namespace Setdns.TestRunner

open Text TestDns Effects Effects.Program Simulation
open Handle (PlatformCall SetDns)

variable {H E : Type} {parseDnsName : Bytes → Except Bytes Unit} {options : ScenarioOptions}
  {mode : Mode} {name : Bytes}

section Probes

/-- The calls that look at the system and leave it alone. -/
def Probes : OwnCall → Prop
  | .inl (.lookup _) | .inl (.sleep _) | .inr .counters => True
  | _ => False

theorem Probes.keeps {c : OwnCall} (probes : Probes c) : ¬ Restarts c := by
  cases c with
  | inl c => exact id
  | inr c =>
      cases c with
      | start => exact probes.elim
      | counters => exact id
      | abort => exact id

theorem resolveSystemIps_probes :
    Issues Probes (resolveSystemIps name : Result E (List IpAddr)).run :=
  Issues.lift (Issues.call trivial) fun answer => by cases answer <;> trivial

theorem expectResolves_probes :
    Issues Probes (expectResolves name : Result E (List IpAddr)).run :=
  resolveSystemIps_probes.tryBind fun ips => by
    split
    · trivial
    · trivial

theorem expectOverlay_probes : Issues Probes (expectOverlay name : Result E Unit).run :=
  expectResolves_probes.tryBind fun ips => by
    split
    · trivial
    · trivial

theorem expectNotOverlay_probes : Issues Probes (expectNotOverlay name : Result E Unit).run := by
  refine Issues.lift resolveSystemIps_probes fun answer => ?_
  cases answer with
  | error e => trivial
  | ok ips =>
      simp only
      split
      · trivial
      · trivial

theorem assertCase_probes (case : NameCase) :
    Issues Probes (assertCase mode case : Result E Unit).run := by
  obtain ⟨name, expectation⟩ := case
  cases expectation with
  | overlay =>
      exact expectOverlay_probes.tryBind fun _ => Issues.lift (Issues.call trivial) fun _ => trivial
  | forwarded route =>
      refine Issues.lift resolveSystemIps_probes fun _ =>
        Issues.lift (Issues.call trivial) fun counters => ?_
      split
      · trivial
      · trivial
  | resolve resolution => exact expectResolves_probes.tryBind fun _ => trivial

theorem runAssertions_probes (cases : List NameCase) :
    Issues Probes (runAssertions mode cases : Result E Unit).run := by
  induction cases with
  | nil => trivial
  | cons case cases ih => exact (assertCase_probes case).tryBind fun _ => ih

theorem runRestoreAssertions_probes (cases : List NameCase) :
    Issues Probes (runRestoreAssertions cases : Result E Unit).run := by
  induction cases with
  | nil => trivial
  | cons case cases ih =>
      refine Issues.tryBind ?_ fun _ => ih
      split
      · exact expectNotOverlay_probes
      · trivial

theorem waitForSystemDns_probes {assertion : Result E Unit} (probes : Issues Probes assertion.run) :
    Issues Probes (waitForSystemDns assertion) :=
  probes.poll (Issues.call trivial) _ _

end Probes

section Verdicts

/-- The configuration is in force from here on. -/
def entered (config : NormalizedConfig) (inner : H) : Sigma (Call.Ret H E) :=
  ⟨.inr (.apply config), .ok inner⟩

def given (inner : H) : Sigma (Call.Ret H E) := ⟨.inr (.close inner), .ok ()⟩

theorem apply_log {config : Config} {log : List (Sigma (PlatformCall.Ret H E))}
    {handle : SetDns H}
    (t : Transcript (SetDns.apply parseDnsName config).run log (.ok handle)) :
    ∃ normalized inner, config.normalize parseDnsName = .ok normalized ∧
      handle = ⟨some inner⟩ ∧ log.map (ofRight : _ → Sigma (Call.Ret H E)) =
        [entered normalized inner] := by
  unfold SetDns.apply at t
  cases accepted : config.normalize parseDnsName with
  | error e =>
      rw [accepted] at t
      cases t
  | ok normalized =>
      rw [accepted] at t
      cases t with
      | call r rest =>
          cases r with
          | error e => cases rest
          | ok inner =>
              cases rest
              exact ⟨normalized, inner, rfl, rfl, rfl⟩

theorem close_log {inner : H} {log : List (Sigma (PlatformCall.Ret H E))}
    (t : Transcript (SetDns.close ⟨some inner⟩) log (.ok ())) :
    log.map (ofRight : _ → Sigma (Call.Ret H E)) = [given inner] := by
  cases t with
  | call r rest =>
      cases r with
      | error e => cases rest
      | ok _ =>
          cases rest
          rfl

/-- What is on record when the handle was given back. -/
structure Closed (parseDnsName : Bytes → Except Bytes Unit) (options : ScenarioOptions)
    (plan : TestPlan) (before between after : List Entry)
    (log : List (Sigma (Call.Ret H E))) : Prop where
  order : ∃ normalized inner device,
    (scenarioConfig options.mode options.testDnsIp device plan).normalize parseDnsName =
        .ok normalized ∧
      log = before.map ofLeft ++ entered normalized inner ::
        (between.map ofLeft ++ given inner :: after.map ofLeft)
  served : ∃ parents own, before = own ++ [started options.testDnsIp parents plan.overlayNames] ∧
    (validateParentDns parents options.testDnsIp : Except (Error E) Unit) = .ok ()
  probes : ∀ entry ∈ between, Probes entry.1
  kept : ∀ entry ∈ after, ¬ Restarts entry.1

/-- Every attempt has failed, each one with an error of its own. -/
def Exhausted (assertion : Result E Unit) (log : List Entry) : Prop :=
  ∃ tries : List (List Entry × Error E), tries.length = DNS_POLL_ATTEMPTS ∧
    ∀ failed ∈ tries, Transcript assertion.run failed.1 (.error failed.2) ∧ failed.1 <:+: log

/-- A case by case record of the assertions, last before the handle was given back, and one of
the restore assertions after it. -/
structure Evidence (mode : Mode) (plan : TestPlan) (between after : List Entry) : Prop where
  shown : ∃ pieces, List.Forall₂ (Shows mode) plan.cases pieces ∧ pieces.flatten <:+ between
  gone : ∃ pieces,
    List.Forall₂ Gone (plan.cases.filter fun case => case.expectation = .overlay) pieces ∧
      pieces.flatten <:+: after

theorem poll_evidence {plan : TestPlan} {asserted restored before after : List Entry}
    {assertion restoreAssertion : Except (Error E) Unit}
    (between : Transcript (waitForSystemDns (runAssertions mode plan.cases)) asserted assertion)
    (last : Transcript (waitForSystemDns (runRestoreAssertions plan.cases)) restored
      restoreAssertion) :
    (mergeAssertions assertion restoreAssertion = .ok () ∧
        Evidence mode plan asserted (before ++ (restored ++ after))) ∨
      ∃ error, mergeAssertions assertion restoreAssertion = .error error ∧
        (Exhausted (runAssertions mode plan.cases : Result E Unit) asserted ∨
          Exhausted (runRestoreAssertions plan.cases : Result E Unit)
            (before ++ (restored ++ after))) := by
  have inside : restored <:+: before ++ (restored ++ after) :=
    ⟨before, after, List.append_assoc _ _ _⟩
  cases assertion with
  | error error =>
      obtain ⟨tries, count, all, -⟩ := poll_error between
      cases restoreAssertion with
      | ok _ => exact .inr ⟨error, rfl, .inl ⟨tries, count, all⟩⟩
      | error other => exact .inr ⟨.both error other, rfl, .inl ⟨tries, count, all⟩⟩
  | ok _ =>
      cases restoreAssertion with
      | error error =>
          obtain ⟨tries, count, all, -⟩ := poll_error last
          refine .inr ⟨error, rfl, .inr ⟨tries, count, fun failed mem => ?_⟩⟩
          exact ⟨(all failed mem).1, (all failed mem).2.trans inside⟩
      | ok _ =>
          obtain ⟨_, good, rfl, passed⟩ := poll_ok between
          obtain ⟨_, good', rfl, passed'⟩ := poll_ok last
          obtain ⟨pieces, shows, rfl⟩ := runAssertions_log passed
          obtain ⟨pieces', gone, rfl⟩ := runRestoreAssertions_log passed'
          exact .inl ⟨rfl, ⟨pieces, shows, List.suffix_append _ _⟩,
            pieces', gone, (List.suffix_append _ _).isInfix.trans inside⟩

/-- A run that gets as far as its verdict has closed its handle, and the verdict is that of its
two polls. -/
theorem main_verdict {bypass : Bool} {code : UInt8} {log : List (Sigma (Call.Ret H E))}
    (transcript : Transcript (main parseDnsName bypass options) log code)
    (settled : code = exitCode .pass ∨ code = exitCode .assertionFailed) :
    ∃ (processId : UInt32) (nanos : Nat) (before between after : List Entry),
      Closed parseDnsName options (.new processId nanos) before between after log ∧
      ((code = exitCode .pass ∧
          Evidence options.mode (.new processId nanos) between after) ∨
        (code = exitCode .assertionFailed ∧
          (Exhausted (runAssertions options.mode (TestPlan.new processId nanos).cases : Result E Unit)
              between ∨
            Exhausted (runRestoreAssertions (TestPlan.new processId nanos).cases : Result E Unit)
              after))) := by
  have early : ¬ (exitCode .unsupported = exitCode .pass ∨
      exitCode .unsupported = exitCode .assertionFailed) := by decide
  have stuck : ¬ (exitCode .restoreFailed = exitCode .pass ∨
      exitCode .restoreFailed = exitCode .assertionFailed) := by decide
  rcases main_run transcript with ⟨own, rfl, rfl⟩ | ⟨own, rest, r, rfl, runs, rfl⟩
  · exact absurd settled early
  rcases run_course runs with ⟨_, error, rfl, rfl⟩ |
    ⟨own', device, processId, nanos, parents, scenario, rfl, valid, course⟩
  · exact absurd settled early
  cases course with
  | refused => exact absurd settled early
  | unrestored => exact absurd settled stuck
  | @settled asked closing asserted released restored after handle assertion restoreAssertion
      applied between closed last kept =>
      obtain ⟨normalized, inner, accepted, rfl, asks⟩ := apply_log applied
      refine ⟨processId, nanos, own ++ (own' ++ [started options.testDnsIp parents
        (TestPlan.new processId nanos).overlayNames]), asserted, released ++ (restored ++ after),
        ⟨⟨normalized, inner, device, accepted, ?_⟩, ⟨parents, own ++ own', ?_, valid⟩, ?_, ?_⟩, ?_⟩
      · rw [asks, close_log closed]
        simp only [List.map_append, List.append_assoc, List.cons_append, List.nil_append]
      · rw [List.append_assoc]
      · exact between.issued (waitForSystemDns_probes (runAssertions_probes _))
      · intro entry mem
        have probes := last.issued (waitForSystemDns_probes (runRestoreAssertions_probes _))
        simp only [List.mem_append] at mem kept
        rcases mem with mem | mem | mem
        · exact kept entry (.inl mem)
        · exact (probes entry mem).keeps
        · exact kept entry (.inr mem)
      · cases poll_evidence between last with
        | inl passed => exact .inl ⟨by rw [passed.1]; rfl, passed.2⟩
        | inr failed =>
            obtain ⟨error, merged, exhausted⟩ := failed
            exact .inr ⟨by rw [merged]; rfl, exhausted⟩

/-- The runner passes only on evidence for every case. Between applying the configuration and
giving it back it does nothing but look. -/
theorem passed_evidence {bypass : Bool} {log : List (Sigma (Call.Ret H E))}
    (transcript : Transcript (main parseDnsName bypass options) log (exitCode .pass)) :
    ∃ (processId : UInt32) (nanos : Nat) (before between after : List Entry),
      Closed parseDnsName options (.new processId nanos) before between after log ∧
      Evidence options.mode (.new processId nanos) between after := by
  obtain ⟨processId, nanos, before, between, after, closed, verdict⟩ :=
    main_verdict transcript (.inl rfl)
  cases verdict with
  | inl passed => exact ⟨processId, nanos, before, between, after, closed, passed.2⟩
  | inr failed => exact absurd failed.1 (by decide)

end Verdicts

section Queries

variable {Name ρ σ τ : Type} {W : World RunnerCall RunnerCall.Ret ρ}
  {net : World UdpCall UdpCall.Ret σ} {codec : Codec Name}
  {platform : World (PlatformCall H) (PlatformCall.Ret H E) τ} {s s' : ρ} {v v' : Server σ}
  {t t' : τ}

/-- A query for the name is to reach the server. -/
def NameCase.Expected (mode : Mode) (case : NameCase) : Prop :=
  case.expectation = .overlay ∨
    ∃ route, case.expectation = .forwarded route ∧ routeUsesTestDns route mode = true

theorem Shows.received {case : NameCase} {piece : List Entry} (shows : Shows mode case piece)
    (expected : case.Expected mode) :
    ∃ counters, counted counters ∈ piece ∧ counters.byName case.name ≠ 0 := by
  cases shows with
  | overlay some only received answered => exact ⟨_, .tail _ (.head _), received⟩
  | forwarded uses received forwarded => exact ⟨_, .tail _ (.head _), received⟩
  | @elsewhere _ route _ _ uses none =>
      rcases expected with overlay | ⟨other, same, used⟩
      · cases overlay
      · cases same
        rw [uses] at used
        cases used
  | resolves some =>
      rcases expected with overlay | ⟨other, same, used⟩
      · cases overlay
      · cases same

theorem forall₂_mem {α β : Type} {R : α → β → Prop} {l : List α} {l' : List β} {a : α}
    (all : List.Forall₂ R l l') (mem : a ∈ l) : ∃ b ∈ l', R a b := by
  induction all with
  | nil => cases mem
  | cons first _ ih =>
      cases mem with
      | head => exact ⟨_, .head _, first⟩
      | tail _ mem =>
          obtain ⟨b, there, related⟩ := ih mem
          exact ⟨b, .tail _ there, related⟩

/-- With a server of its own, beside any network and any platform, a pass means that the server
has received a query for every name that was to reach it, and has handed on none that is its
own. -/
theorem passed_queries {bypass : Bool}
    (ends : Ends ((W.both (Server.background net codec)).both platform)
      (main parseDnsName bypass options) ((s, v), t) (exitCode .pass) ((s', v'), t')) :
    ∃ (processId : UInt32) (nanos : Nat) (parents : List IpAddr),
      (validateParentDns parents options.testDnsIp : Except (Error E) Unit) = .ok () ∧
      AllFit codec parents (TestPlan.new processId nanos).overlayNames v'.state.1.2 ∧
      ∀ case ∈ (TestPlan.new processId nanos).cases, case.Expected options.mode →
        ∃ recordType, (case.name, recordType) ∈ queriesOf codec v'.state.1.2 := by
  obtain ⟨log, transcript, admitted⟩ := ends_iff_transcript.mp ends
  obtain ⟨processId, nanos, before, between, after, closed, verdict⟩ :=
    main_verdict transcript (.inl rfl)
  obtain ⟨⟨normalized, inner, device, -, rfl⟩, ⟨parents, own, rfl, valid⟩, probes, kept⟩ := closed
  have served := trace_right (trace_left admitted)
  have mine : (((own ++ [started options.testDnsIp parents
      (TestPlan.new processId nanos).overlayNames]).map ofLeft ++ entered normalized inner ::
        (between.map ofLeft ++ given inner :: after.map ofLeft) :
          List (Sigma (Call.Ret H E))).filterMap leftEntry).filterMap rightEntry =
      own.filterMap rightEntry ++ ⟨.start options.testDnsIp parents
        (TestPlan.new processId nanos).overlayNames, .ok ()⟩ ::
        (between ++ after).filterMap rightEntry := by
    have skipped : leftEntry (entered normalized inner : Sigma (Call.Ret H E)) = none ∧
        leftEntry (given inner : Sigma (Call.Ret H E)) = none := ⟨rfl, rfl⟩
    simp only [List.filterMap_append, List.filterMap_cons, skipped, filterMap_leftEntry,
      List.filterMap_nil, List.append_assoc]
    rfl
  rw [mine] at served
  obtain ⟨v₁, v₂, -, first, rest⟩ := served.split
  have fresh : v₂.Good net codec parents (TestPlan.new processId nanos).overlayNames := by
    rcases first with ⟨failed, -⟩ | ⟨-, -, rfl⟩
    · cases failed
    · exact fresh_good _
  have quiet : ∀ entry ∈ (between ++ after).filterMap rightEntry, ¬ entry.1.Starts := by
    intro entry mem
    obtain ⟨⟨c, r⟩, there, same⟩ := List.mem_filterMap.mp mem
    have calm : ¬ Restarts c := by
      cases List.mem_append.mp there with
      | inl there => exact (probes _ there).keeps
      | inr there => exact kept _ there
    cases c with
    | inl c => cases same
    | inr c =>
        cases same
        exact calm
  obtain ⟨⟨good, -⟩, readings⟩ := background_readings rest quiet fresh
  refine ⟨processId, nanos, parents, valid, good.moment.1, fun case mem expected => ?_⟩
  rcases verdict with ⟨-, evidence⟩ | ⟨failed, -⟩
  · obtain ⟨pieces, shows, inside⟩ := evidence.shown
    obtain ⟨piece, there, shown⟩ := forall₂_mem shows mem
    obtain ⟨counters, read, received⟩ := shown.received expected
    have looked : (⟨.counters, counters⟩ : Sigma ServerCall.Ret) ∈
        (between ++ after).filterMap rightEntry :=
      List.mem_filterMap.mpr ⟨counted counters, List.mem_append_left _
        (inside.subset (List.mem_flatten.mpr ⟨piece, there, read⟩)), rfl⟩
    obtain ⟨events, earlier, accounts⟩ := readings counters looked
    obtain ⟨recordType, query⟩ := accounts.received received
    exact ⟨recordType, (earlier.filterMap _).subset query⟩
  · exact absurd failed (by decide)

end Queries

section Samples

theorem passed_evidence_sample :
    ∃ log : List (Sigma (Call.Ret Nat Unit)), ∃ (processId : UInt32) (nanos : Nat)
        (before between after : List Entry),
      Closed Handle.sampleAny sampleOptions (.new processId nanos) before between after log ∧
      Evidence sampleOptions.mode (.new processId nanos) between after := by
  obtain ⟨log, transcript, -⟩ := ends_iff_transcript.mp (sampleMain_ends 6)
  rw [show (sampleMain 6).1 = exitCode .pass from rfl] at transcript
  exact ⟨log, passed_evidence transcript⟩

/-- The names of the plan are asked for, one after the other. -/
def sampleQueries : List Bytes := (TestPlan.new 31 255).cases.map fun case => 1 :: case.name

def sampleWhole : UInt8 × (Nat × Server Nat) × Nat :=
  exec (Handler.both (Handler.both (sampleRunner 6) (sampleBackground sampleQueries))
      Handle.sampleNumbering)
    (main Handle.sampleAny false sampleOptions) ((0, ⟨none, ((0, []), .zero)⟩), 0)

theorem sampleWhole_ends :
    Ends (((World.of (sampleRunner 6)).both
        (Server.background (World.of (sampleNetwork sampleQueries)) sampleCodec)).both
        (World.of Handle.sampleNumbering))
      (main Handle.sampleAny false sampleOptions) ((0, ⟨none, ((0, []), .zero)⟩), 0)
      sampleWhole.1 sampleWhole.2 := by
  refine ends_exec (fun s c => ?_) _ _
  rcases c with (c | c) | c
  · exact ⟨⟨rfl, rfl⟩, rfl⟩
  · exact ⟨⟨sampleBackground_sound sampleQueries _ c, rfl⟩, rfl⟩
  · exact ⟨rfl, rfl⟩

theorem passed_queries_sample :
    ∃ (processId : UInt32) (nanos : Nat) (parents : List IpAddr),
      (validateParentDns parents sampleOptions.testDnsIp : Except (Error Unit) Unit) = .ok () ∧
      AllFit sampleCodec parents (TestPlan.new processId nanos).overlayNames
        sampleWhole.2.1.2.state.1.2 ∧
      ∀ case ∈ (TestPlan.new processId nanos).cases, case.Expected sampleOptions.mode →
        ∃ recordType, (case.name, recordType) ∈
          queriesOf sampleCodec sampleWhole.2.1.2.state.1.2 := by
  have ends := sampleWhole_ends
  rw [show sampleWhole.1 = exitCode .pass from rfl] at ends
  exact passed_queries ends

end Samples

end Setdns.TestRunner
