import Setdns.Config.Domains
import Setdns.TestRunner.TestDns

/-!
The test plan. Every name that it makes up is fresh for the run, and where a query for it is
expected to go is decided three times: by the expectation, by the domains of the configuration,
and by the names that the test server answers itself. The three agree.
-/

namespace Setdns.TestRunner

open Text TestDns

def OWNER : Bytes := bytes "test-runner"
def PUBLIC_SPLIT_DOMAIN : Bytes := bytes "example.com"
def LOCAL_SPLIT_DOMAIN : Bytes := bytes "setdns.test"
def NON_SPLIT_DOMAIN : Bytes := bytes "example.org"
def PUBLIC_FORWARD_NAME : Bytes := bytes "www.example.com"
def NON_SPLIT_NAME : Bytes := bytes "www.rust-lang.org"

inductive Mode where
  | global
  | split
  deriving DecidableEq, Repr

inductive TestDnsRoute where
  | allModes
  | globalOnly
  deriving DecidableEq, Repr

inductive ResolutionExpectation where
  | resolves
  deriving DecidableEq, Repr

inductive NameExpectation where
  | overlay
  | forwarded (route : TestDnsRoute)
  | resolve (resolution : ResolutionExpectation)
  deriving DecidableEq, Repr

/-- The first part of the name stands before the suffix of the run. -/
structure DynamicCaseSpec where
  casePrefix : Bytes
  domain : Bytes
  splitDomain : Bool
  expectation : NameExpectation
  deriving DecidableEq, Repr

structure StaticCaseSpec where
  name : Bytes
  expectation : NameExpectation
  deriving DecidableEq, Repr

def DYNAMIC_CASE_SPECS : List DynamicCaseSpec :=
  [⟨bytes "setdns", PUBLIC_SPLIT_DOMAIN, true, .overlay⟩,
    ⟨bytes "host", LOCAL_SPLIT_DOMAIN, true, .overlay⟩,
    ⟨bytes "forward", PUBLIC_SPLIT_DOMAIN, true, .forwarded .allModes⟩,
    ⟨bytes "outside", NON_SPLIT_DOMAIN, false, .forwarded .globalOnly⟩]

def STATIC_CASE_SPECS : List StaticCaseSpec :=
  [⟨PUBLIC_FORWARD_NAME, .resolve .resolves⟩, ⟨NON_SPLIT_NAME, .resolve .resolves⟩]

structure NameCase where
  name : Bytes
  expectation : NameExpectation
  deriving DecidableEq, Repr

structure TestPlan where
  cases : List NameCase
  overlayNames : List Bytes
  splitDomains : List Bytes

def uniqueRunSuffix (processId : UInt32) (nanos : Nat) : Bytes :=
  digits 16 processId.toNat ++ bytes "-" ++ digits 16 nanos

/-- Also the insertion into the set of overlay names. -/
def pushUniqueDomain (domains : List Bytes) (domain : Bytes) : List Bytes :=
  if domains.any fun existing => existing = domain then domains else domains ++ [domain]

def DynamicCaseSpec.name (suffix : Bytes) (spec : DynamicCaseSpec) : Bytes :=
  spec.casePrefix ++ bytes "-" ++ suffix ++ dot :: spec.domain

namespace TestPlan

def addDynamic (suffix : Bytes) (plan : TestPlan) (spec : DynamicCaseSpec) : TestPlan where
  cases := plan.cases ++ [⟨spec.name suffix, spec.expectation⟩]
  overlayNames :=
    if spec.expectation = .overlay then pushUniqueDomain plan.overlayNames (spec.name suffix)
    else plan.overlayNames
  splitDomains :=
    if spec.splitDomain then pushUniqueDomain plan.splitDomains spec.domain
    else plan.splitDomains

def addStatic (plan : TestPlan) (spec : StaticCaseSpec) : TestPlan :=
  { plan with cases := plan.cases ++ [⟨spec.name, spec.expectation⟩] }

def new (processId : UInt32) (nanos : Nat) : TestPlan :=
  STATIC_CASE_SPECS.foldl addStatic
    (DYNAMIC_CASE_SPECS.foldl (addDynamic (uniqueRunSuffix processId nanos)) ⟨[], [], []⟩)

end TestPlan

def scenarioConfig (mode : Mode) (testDnsIp : IpAddr) (device : Option String) (plan : TestPlan) :
    Config where
  owner := OWNER
  servers := [testDnsIp]
  domains :=
    match mode with
    | .global => []
    | .split => plan.splitDomains
  device := device

def routeUsesTestDns (route : TestDnsRoute) (mode : Mode) : Bool :=
  route = .allModes || (route = .globalOnly && mode = .global)

section Plans

variable {suffix d name : Bytes} {domains : List Bytes} {plan : TestPlan}

theorem mem_pushUniqueDomain : d ∈ pushUniqueDomain domains name ↔ d ∈ domains ∨ d = name := by
  unfold pushUniqueDomain
  split
  · rename_i there
    obtain ⟨existing, mem, same⟩ := List.any_eq_true.mp there
    obtain rfl : existing = name := of_decide_eq_true same
    constructor
    · exact .inl
    · rintro (mem | rfl)
      · exact mem
      · exact mem
  · rw [List.mem_append, List.mem_singleton]

theorem mem_pushed {c : Prop} [Decidable c] :
    d ∈ (if c then pushUniqueDomain domains name else domains) ↔ d ∈ domains ∨ c ∧ d = name := by
  split
  · rename_i holds
    rw [mem_pushUniqueDomain, and_iff_right holds]
  · rename_i fails
    simp [fails]

theorem mem_cases (specs : List DynamicCaseSpec) (case : NameCase) :
    case ∈ (specs.foldl (TestPlan.addDynamic suffix) plan).cases ↔ case ∈ plan.cases ∨
      ∃ spec ∈ specs, case = ⟨spec.name suffix, spec.expectation⟩ := by
  induction specs generalizing plan with
  | nil => simp
  | cons spec specs ih =>
      simp only [List.foldl_cons, List.mem_cons, exists_eq_or_imp, ih, TestPlan.addDynamic,
        List.mem_append, List.not_mem_nil, or_false, or_assoc]

theorem mem_overlayNames (specs : List DynamicCaseSpec) (name : Bytes) :
    name ∈ (specs.foldl (TestPlan.addDynamic suffix) plan).overlayNames ↔
      name ∈ plan.overlayNames ∨
        ∃ spec ∈ specs, spec.expectation = .overlay ∧ name = spec.name suffix := by
  induction specs generalizing plan with
  | nil => simp
  | cons spec specs ih =>
      simp only [List.foldl_cons, List.mem_cons, exists_eq_or_imp, ih, TestPlan.addDynamic,
        mem_pushed, or_assoc]

theorem mem_splitDomains (specs : List DynamicCaseSpec) (d : Bytes) :
    d ∈ (specs.foldl (TestPlan.addDynamic suffix) plan).splitDomains ↔
      d ∈ plan.splitDomains ∨ ∃ spec ∈ specs, spec.splitDomain = true ∧ d = spec.domain := by
  induction specs generalizing plan with
  | nil => simp
  | cons spec specs ih =>
      simp only [List.foldl_cons, List.mem_cons, exists_eq_or_imp, ih, TestPlan.addDynamic,
        mem_pushed, or_assoc]

theorem foldl_addStatic (statics : List StaticCaseSpec) :
    statics.foldl TestPlan.addStatic plan =
      { plan with cases := plan.cases ++ statics.map fun spec => ⟨spec.name, spec.expectation⟩ } := by
  induction statics generalizing plan with
  | nil => simp
  | cons spec statics ih => simp [ih, TestPlan.addStatic]

variable {processId : UInt32} {nanos : Nat}

theorem mem_new_cases (case : NameCase) : case ∈ (TestPlan.new processId nanos).cases ↔
    (∃ spec ∈ DYNAMIC_CASE_SPECS,
      case = ⟨spec.name (uniqueRunSuffix processId nanos), spec.expectation⟩) ∨
    ∃ spec ∈ STATIC_CASE_SPECS, case = ⟨spec.name, spec.expectation⟩ := by
  rw [TestPlan.new, foldl_addStatic, List.mem_append, mem_cases, List.mem_map]
  simp only [List.not_mem_nil, false_or, eq_comm]

theorem mem_new_overlayNames (name : Bytes) :
    name ∈ (TestPlan.new processId nanos).overlayNames ↔
      ∃ spec ∈ DYNAMIC_CASE_SPECS, spec.expectation = .overlay ∧
        name = spec.name (uniqueRunSuffix processId nanos) := by
  rw [TestPlan.new, foldl_addStatic, mem_overlayNames]
  simp only [List.not_mem_nil, false_or]

theorem mem_new_splitDomains (d : Bytes) : d ∈ (TestPlan.new processId nanos).splitDomains ↔
    ∃ spec ∈ DYNAMIC_CASE_SPECS, spec.splitDomain = true ∧ d = spec.domain := by
  rw [TestPlan.new, foldl_addStatic, mem_splitDomains]
  simp only [List.not_mem_nil, false_or]

end Plans

section Coverage

variable {front d name : Bytes}

theorem covers_below (front d : Bytes) : Covers d (front ++ dot :: d) := by
  unfold Covers
  simp only [toAsciiLowercase_eq, List.map_append, List.map_cons]
  rw [show asciiLowercase dot = dot from by decide, labels_append_dot]
  exact List.suffix_append _ _

/-- A name ends as its suffix does. -/
theorem covers_getLast? (covers : Covers d name) (some : d ≠ []) :
    (toAsciiLowercase name).getLast? = (toAsciiLowercase d).getLast? := by
  have tail : toAsciiLowercase d <:+ toAsciiLowercase name := by
    rcases (labels_suffix_iff _ _).mp covers with same | ⟨front, same⟩
    · rw [same]
    · rw [same]
      exact (List.suffix_cons _ _).trans (List.suffix_append _ _)
  obtain ⟨front, same⟩ := tail
  have nonempty : toAsciiLowercase d ≠ [] := by
    rw [toAsciiLowercase_eq]
    simpa using some
  rw [← same, List.getLast?_append_of_ne_nil _ nonempty]

end Coverage

section Agreement

variable {parseDnsName : Bytes → Except Bytes Unit} {processId : UInt32} {nanos : Nat}
  {mode : Mode} {testDnsIp : IpAddr} {device : Option String} {normalized : NormalizedConfig}
  {name : Bytes}

/-- The system asks the configured servers for the name. -/
def Directs (config : NormalizedConfig) (name : Bytes) : Prop :=
  config.domains = [] ∨ ∃ s ∈ config.domains, Covers s.domain name

/-- The expectation, the configuration and the test server agree on the case, whatever the
letter case of the query and however many dots end it. -/
structure Agrees (normalized : NormalizedConfig) (plan : TestPlan) (mode : Mode)
    (case : NameCase) : Prop where
  overlay : case.expectation = .overlay → Directs normalized case.name
  routed : ∀ route, case.expectation = .forwarded route →
    (routeUsesTestDns route mode = true ↔ Directs normalized case.name)
  answered : overlayContains plan.overlayNames case.name = true ↔ case.expectation = .overlay
  recognized : ∀ {Name : Type} (codec : Codec Name) (query : Name) (dots : Nat),
    toAsciiLowercase (codec.toAscii query) =
        toAsciiLowercase case.name ++ List.replicate dots dot →
      normalizeName codec query = case.name

theorem scenario_normalizes
    (parses : ∀ d ∈ (TestPlan.new processId nanos).splitDomains, parseDnsName d = .ok ()) :
    ∃ normalized, (scenarioConfig mode testDnsIp device
      (TestPlan.new processId nanos)).normalize parseDnsName = .ok normalized := by
  let config := scenarioConfig mode testDnsIp device (TestPlan.new processId nanos)
  have owner : validateOwner config.owner = .ok () := by
    show validateOwner OWNER = .ok ()
    decide
  have accepted : ∀ d ∈ config.domains, Accepted parseDnsName d := by
    intro d mem
    cases mode with
    | global => cases mem
    | split =>
        have parsed := parses d mem
        obtain ⟨spec, known, -, rfl⟩ := (mem_new_splitDomains d).mp mem
        have shape : ∀ spec ∈ DYNAMIC_CASE_SPECS, stripWildcard spec.domain = (spec.domain, false) ∧
            ¬ (spec.domain.isEmpty ∨ spec.domain = [dot] ∨ [dot] <+: spec.domain ∨
              [dot] <:+ spec.domain ∨ [dot, dot] <:+: spec.domain) ∧ Ascii spec.domain ∧
            42 ∉ spec.domain := by decide
        obtain ⟨plain, wellFormed, ascii, star⟩ := shape spec known
        rw [Accepted, plain]
        exact (validateDomain_eq_ok_iff _ _).mpr ⟨wellFormed, ascii, star, parsed⟩
  have domains := (normalizeDomains_eq_ok_iff parseDnsName _ _).mpr ⟨accepted, rfl⟩
  refine ⟨⟨OWNER, [testDnsIp], canonical config.domains, device⟩, ?_⟩
  show config.normalize parseDnsName = _
  unfold Config.normalize
  simp only [owner, domains]
  rfl

theorem directs_iff {plan : TestPlan}
    (accepted : (scenarioConfig mode testDnsIp device plan).normalize parseDnsName =
      .ok normalized) (some : plan.splitDomains ≠ []) :
    Directs normalized name ↔ mode = .global ∨ CoveredBy plan.splitDomains name := by
  obtain ⟨-, domains, -⟩ := normalize_eq_ok accepted
  unfold Directs
  rw [domains]
  cases mode with
  | global => simp [scenarioConfig, canonical, sortSuffixes, Coalesce.coalesce]
  | split =>
      obtain ⟨d, mem⟩ := List.exists_mem_of_ne_nil _ some
      have self : CoveredBy plan.splitDomains (stripWildcard d).1 :=
        ⟨d, mem, List.suffix_rfl⟩
      obtain ⟨s, there, -⟩ := coveredBy_iff_canonical _ |>.mp self
      have nonempty : canonical plan.splitDomains ≠ [] := List.ne_nil_of_mem there
      show canonical plan.splitDomains = [] ∨ (∃ s ∈ canonical plan.splitDomains, _) ↔ _
      rw [← coveredBy_iff_canonical]
      simp [nonempty]

theorem overlayContains_iff (names : List Bytes) :
    overlayContains names name = true ↔ name ∈ names := by
  rw [overlayContains, List.any_eq_true]
  constructor
  · rintro ⟨overlay, mem, same⟩
    exact of_decide_eq_true same ▸ mem
  · intro mem
    exact ⟨name, mem, decide_eq_true rfl⟩

theorem spec_name_getLast? {suffix : Bytes} {spec : DynamicCaseSpec}
    (known : spec ∈ DYNAMIC_CASE_SPECS) :
    (spec.name suffix).getLast? = spec.domain.getLast? := by
  have nonempty : ∀ spec ∈ DYNAMIC_CASE_SPECS, spec.domain ≠ [] := by decide
  have text : spec.name suffix =
      (spec.casePrefix ++ bytes "-" ++ suffix ++ [dot]) ++ spec.domain := by
    simp [DynamicCaseSpec.name]
  rw [text, List.getLast?_append_of_ne_nil _ (nonempty spec known)]

theorem spec_name_head? {suffix : Bytes} {spec : DynamicCaseSpec}
    (known : spec ∈ DYNAMIC_CASE_SPECS) : (spec.name suffix).head? = spec.casePrefix.head? := by
  have nonempty : ∀ spec ∈ DYNAMIC_CASE_SPECS, spec.casePrefix ≠ [] := by decide
  unfold DynamicCaseSpec.name
  rw [List.append_assoc, List.append_assoc, List.head?_append_of_ne_nil _ (nonempty spec known)]

/-- Below the domains of the split names is every split name, and no other. -/
theorem spec_covered {suffix : Bytes} {spec : DynamicCaseSpec}
    (known : spec ∈ DYNAMIC_CASE_SPECS) :
    CoveredBy (TestPlan.new processId nanos).splitDomains (spec.name suffix) ↔
      spec.splitDomain = true := by
  have plain : ∀ spec ∈ DYNAMIC_CASE_SPECS, (stripWildcard spec.domain).1 = spec.domain ∧
      spec.domain ≠ [] := by decide
  constructor
  · rintro ⟨d, mem, covers⟩
    obtain ⟨other, found, split, rfl⟩ := (mem_new_splitDomains d).mp mem
    rw [(plain other found).1] at covers
    have last := covers_getLast? covers (plain other found).2
    rw [toAsciiLowercase_eq, List.getLast?_map, spec_name_getLast? known] at last
    have apart : ∀ spec ∈ DYNAMIC_CASE_SPECS, ∀ other ∈ DYNAMIC_CASE_SPECS,
        other.splitDomain = true →
        spec.domain.getLast?.map asciiLowercase = (toAsciiLowercase other.domain).getLast? →
        spec.splitDomain = true := by decide
    exact apart spec known other found split last
  · intro split
    refine ⟨spec.domain, (mem_new_splitDomains _).mpr ⟨spec, known, split, rfl⟩, ?_⟩
    rw [(plain spec known).1]
    exact covers_below _ _

theorem spec_answered {spec : DynamicCaseSpec} (known : spec ∈ DYNAMIC_CASE_SPECS) :
    spec.name (uniqueRunSuffix processId nanos) ∈ (TestPlan.new processId nanos).overlayNames ↔
      spec.expectation = .overlay := by
  rw [mem_new_overlayNames]
  constructor
  · rintro ⟨other, found, overlay, same⟩
    have head := congrArg List.head? same
    rw [spec_name_head? known, spec_name_head? found] at head
    have apart : ∀ spec ∈ DYNAMIC_CASE_SPECS, ∀ other ∈ DYNAMIC_CASE_SPECS,
        other.expectation = .overlay → spec.casePrefix.head? = other.casePrefix.head? →
        spec.expectation = .overlay := by decide
    exact apart spec known other found overlay head
  · intro overlay
    exact ⟨spec, known, overlay, rfl⟩

/-- A name in lower case that ends in no dot is what the server makes of any way to write it. -/
theorem normalizeName_eq {Name : Type} {codec : Codec Name} {query : Name} {dots : Nat}
    (lower : toAsciiLowercase name = name) (last : name.getLast? ≠ some dot)
    (written : toAsciiLowercase (codec.toAscii query) =
      toAsciiLowercase name ++ List.replicate dots dot) : normalizeName codec query = name := by
  have commutes : ∀ text : Bytes, toAsciiLowercase (text.rdropWhile fun byte => byte = dot) =
      (toAsciiLowercase text).rdropWhile fun byte => byte = dot := by
    intro text
    simp only [toAsciiLowercase_eq, List.rdropWhile, ← List.map_reverse, List.dropWhile_map]
    congr 3
    funext byte
    simp only [Function.comp, asciiLowercase_eq_iff dot (by decide)]
  rw [normalizeName, commutes, written, lower]
  clear written
  induction dots with
  | zero =>
      rw [List.replicate_zero, List.append_nil, List.rdropWhile_eq_self_iff]
      intro nonempty isDot
      exact last (by rw [List.getLast?_eq_getLast_of_ne_nil nonempty, of_decide_eq_true isDot])
  | succ dots ih =>
      rw [List.replicate_succ', ← List.append_assoc, List.rdropWhile_concat_pos _ _ _ (by simp)]
      exact ih

theorem toAsciiLowercase_digits (n : Nat) : toAsciiLowercase (digits 16 n) = digits 16 n := by
  refine (List.map_congr_left fun x mem => ?_).trans (List.map_id _)
  have low : AddrByte x := addrByte_digits 16 n (by decide) (by decide) x mem
  show (if 65 ≤ x ∧ x ≤ 90 then x + 32 else x) = id x
  refine if_neg fun upper => ?_
  simp only [AddrByte, UInt8.le_iff_toNat_le, ← UInt8.toNat_inj, UInt8.toNat_ofNat] at low upper
  omega

theorem case_lower {case : NameCase} (mem : case ∈ (TestPlan.new processId nanos).cases) :
    toAsciiLowercase case.name = case.name := by
  cases (mem_new_cases case).mp mem with
  | inl made =>
      obtain ⟨spec, known, rfl⟩ := made
      have fixed : ∀ spec ∈ DYNAMIC_CASE_SPECS,
          spec.casePrefix.map asciiLowercase = spec.casePrefix ∧
            (dot :: spec.domain).map asciiLowercase = dot :: spec.domain := by decide
      have hyphen : (bytes "-").map asciiLowercase = bytes "-" := by decide
      have hex := toAsciiLowercase_digits
      simp only [toAsciiLowercase_eq] at hex
      obtain ⟨first, last⟩ := fixed spec known
      simp only [DynamicCaseSpec.name, uniqueRunSuffix, toAsciiLowercase_eq, List.map_append, first,
        last, hyphen, hex]
  | inr made =>
      obtain ⟨spec, known, rfl⟩ := made
      have fixed : ∀ spec ∈ STATIC_CASE_SPECS, toAsciiLowercase spec.name = spec.name := by decide
      exact fixed spec known

theorem case_getLast? {case : NameCase} (mem : case ∈ (TestPlan.new processId nanos).cases) :
    case.name.getLast? ≠ some dot := by
  cases (mem_new_cases case).mp mem with
  | inl made =>
      obtain ⟨spec, known, rfl⟩ := made
      have undotted : ∀ spec ∈ DYNAMIC_CASE_SPECS, spec.domain.getLast? ≠ some dot := by decide
      rw [spec_name_getLast? known]
      exact undotted spec known
  | inr made =>
      obtain ⟨spec, known, rfl⟩ := made
      have undotted : ∀ spec ∈ STATIC_CASE_SPECS, spec.name.getLast? ≠ some dot := by decide
      exact undotted spec known

/-- Every run of the test has a configuration that is accepted, and on every case of its plan
the expectation, the configuration and the test server agree. -/
theorem plan_agrees
    (parses : ∀ d ∈ (TestPlan.new processId nanos).splitDomains, parseDnsName d = .ok ()) :
    ∃ normalized, (scenarioConfig mode testDnsIp device
        (TestPlan.new processId nanos)).normalize parseDnsName = .ok normalized ∧
      ∀ case ∈ (TestPlan.new processId nanos).cases,
        Agrees normalized (TestPlan.new processId nanos) mode case := by
  obtain ⟨normalized, accepted⟩ := scenario_normalizes parses
  have split : (TestPlan.new processId nanos).splitDomains ≠ [] :=
    List.ne_nil_of_mem ((mem_new_splitDomains PUBLIC_SPLIT_DOMAIN).mpr
      ⟨_, .head _, rfl, rfl⟩)
  refine ⟨normalized, accepted, fun case mem => ?_⟩
  have recognized : ∀ {Name : Type} (codec : Codec Name) (query : Name) (dots : Nat),
      toAsciiLowercase (codec.toAscii query) =
          toAsciiLowercase case.name ++ List.replicate dots dot →
        normalizeName codec query = case.name := fun _ _ _ written =>
    normalizeName_eq (case_lower mem) (case_getLast? mem) written
  cases (mem_new_cases case).mp mem with
  | inl made =>
      obtain ⟨spec, known, rfl⟩ := made
      have directs : Directs normalized (spec.name (uniqueRunSuffix processId nanos)) ↔
          mode = .global ∨ spec.splitDomain = true := by
        rw [directs_iff accepted split, spec_covered known]
      refine ⟨fun overlay => directs.mpr (.inr ?_), fun route forwarded => ?_, ?_, recognized⟩
      · have inside : ∀ spec ∈ DYNAMIC_CASE_SPECS, spec.expectation = .overlay →
            spec.splitDomain = true := by decide
        exact inside spec known overlay
      · have routes : ∀ spec ∈ DYNAMIC_CASE_SPECS, ∀ route ∈ [TestDnsRoute.allModes, .globalOnly],
            ∀ mode ∈ [Mode.global, .split], spec.expectation = .forwarded route →
            (routeUsesTestDns route mode = true ↔ mode = .global ∨ spec.splitDomain = true) := by
          decide
        rw [directs]
        exact routes spec known route (by cases route <;> simp) mode (by cases mode <;> simp)
          forwarded
      · exact (overlayContains_iff _).trans (spec_answered known)
  | inr made =>
      obtain ⟨spec, known, rfl⟩ := made
      have resolves : ∀ spec ∈ STATIC_CASE_SPECS, spec.expectation = .resolve .resolves := by decide
      have expected := resolves spec known
      refine ⟨fun overlay => ?_, fun route forwarded => ?_, ?_, recognized⟩
      · simp [expected] at overlay
      · simp [expected] at forwarded
      · rw [overlayContains_iff, mem_new_overlayNames]
        refine iff_of_false ?_ (by simp [expected])
        rintro ⟨other, found, -, same⟩
        have head := congrArg List.head? same
        rw [spec_name_head? found] at head
        have apart : ∀ spec ∈ STATIC_CASE_SPECS, ∀ other ∈ DYNAMIC_CASE_SPECS,
            spec.name.head? ≠ other.casePrefix.head? := by decide
        exact apart spec known other found head

theorem plan_agrees_sample : ∃ normalized,
    (scenarioConfig .split (.v4 ⟨127, 0, 0, 1⟩) none (TestPlan.new 31 255)).normalize
        (fun _ => .ok ()) = .ok normalized ∧
      ∀ case ∈ (TestPlan.new 31 255).cases,
        Agrees normalized (TestPlan.new 31 255) .split case :=
  plan_agrees fun _ _ => rfl

end Agreement

end Setdns.TestRunner
