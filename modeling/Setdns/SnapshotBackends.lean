import Setdns.Macos.Global
import Setdns.Windows.InterfaceSnapshots
import Setdns.Windows.Orphans

/-!
The backends whose handles remember what they overwrote: the global backend of
macOS and the interface backend of Windows. In both the handles are snapshots of
all configuration, so that what remains after the last close depends on the order
of opens and closes.
-/

namespace Setdns

open Text Effects Relation

section Runs

variable (admits : Nat → Prop)

/-- Handles of the global backend of macOS are opened and closed, until all are closed. -/
def Macos.Global.Run (start s : SystemConfiguration.Machine) (closed : List Macos.Global.SetDns) :
    Prop :=
  ReflTransGen (Snapshots.Move Macos.Global.Opens Macos.Global.Closes admits)
    ⟨start, [], []⟩ ⟨s, [], closed⟩

/-- The same on one interface of Windows. -/
def Windows.Interface.Run (order : Registry.Enumeration) (platform : NetSettings.Platform)
    (guid : Registry.Guid) (start s : Windows.Nrpt.Machine)
    (closed : List Windows.Interface.InterfaceDns) : Prop :=
  ReflTransGen (Snapshots.Move (Windows.Interface.Opens order platform guid)
    (Windows.Interface.Closes order platform) admits) ⟨start, [], []⟩ ⟨s, [], closed⟩

end Runs

/-- In any order of opens and closes, each part of the configuration ends as the handle closed
last among those that cover it remembers it, and is back exactly where that is the original.
Handles that are closed in the reverse order of their opening restore everything. -/
theorem snapshots_restored_iff :
    (∀ start s closed, Macos.Global.Run Snapshots.AnyOrder start s closed → ∀ service,
      Macos.Global.view s service =
        (Snapshots.lastSeen (closed.map Macos.Global.shot) service).getD
          (Macos.Global.view start service) ∧
      (Macos.Global.view s service = Macos.Global.view start service ↔
        ∀ seen, Snapshots.lastSeen (closed.map Macos.Global.shot) service = some seen →
          seen = Macos.Global.view start service)) ∧
    (∀ start s closed, Macos.Global.Run Snapshots.Nested start s closed →
      Macos.Global.view s = Macos.Global.view start) ∧
    (∀ order platform guid start s closed, Windows.Interface.Wellformed guid start →
      Windows.Interface.Run Snapshots.AnyOrder order platform guid start s closed → ∀ cell,
      Windows.Interface.view s cell =
        (Snapshots.lastSeen (closed.map Windows.Interface.shot) cell).getD
          (Windows.Interface.view start cell) ∧
      (Windows.Interface.view s cell = Windows.Interface.view start cell ↔
        ∀ seen, Snapshots.lastSeen (closed.map Windows.Interface.shot) cell = some seen →
          seen = Windows.Interface.view start cell)) ∧
    (∀ order platform guid start s closed, Windows.Interface.Wellformed guid start →
      Windows.Interface.Run Snapshots.Nested order platform guid start s closed →
      Windows.Interface.view s = Windows.Interface.view start) := by
  refine ⟨?macos, ?macosNested, ?windows, ?windowsNested⟩
  case macos =>
    intro start s closed run service
    have snapshots := Macos.Global.snapshotting
    exact ⟨Snapshots.handles_all_closed snapshots trivial run service,
      Snapshots.handles_restored_iff snapshots trivial run service⟩
  case macosNested =>
    intro start s closed run
    exact Snapshots.nested_handles_restore Macos.Global.snapshotting trivial run
  case windows =>
    intro order platform guid start s closed well run cell
    have snapshots : Snapshots.Snapshotting (Windows.Interface.Opens order platform guid)
        (Windows.Interface.Closes order platform) (Windows.Interface.Wellformed guid)
        Windows.Interface.view Windows.Interface.shot := Windows.Interface.snapshotting
    exact ⟨Snapshots.handles_all_closed snapshots well run cell,
      Snapshots.handles_restored_iff snapshots well run cell⟩
  case windowsNested =>
    intro order platform guid start s closed well run
    exact Snapshots.nested_handles_restore Windows.Interface.snapshotting well run

section Sample

open SystemConfiguration Macos.Global

def sampleService : Service := ⟨some (bytes "A"), true, some ⟨some (bytes "en0")⟩⟩

/-- One service, whose DNS protocol has the given configuration. -/
def samplePreferences (dns : Option Dictionary) : Preferences :=
  ⟨[sampleService], some [bytes "A"], Function.update (fun _ => none) (bytes "A") (some dns)⟩

def sampleMachine (dns : Option Dictionary) : Machine :=
  ⟨samplePreferences dns, samplePreferences dns, fun _ => none⟩

def sampleConfig (server : IpAddr) : NormalizedConfig :=
  ⟨bytes "setdns", [server], [], some "en0"⟩

theorem sampleMachine_stored (dns next : Option Dictionary) :
    stored (sampleMachine dns) (bytes "A") next = samplePreferences next := by
  simp [stored, sampleMachine, samplePreferences]

set_option maxRecDepth 20000 in
theorem sample_opens (dns : Option Dictionary) (server : IpAddr) :
    Opens (sampleMachine dns) ⟨bytes "A", dns⟩
      (sampleMachine (some (dnsWithServers dns [server]))) := by
  refine ⟨sampleConfig server, ?_⟩
  have run : Ends calm (apply (sampleConfig server)).run (sampleMachine dns)
      (.ok ⟨bytes "A", dns⟩)
      ⟨stored (sampleMachine dns) (bytes "A") (some (dnsWithServers dns [server])),
        stored (sampleMachine dns) (bytes "A") (some (dnsWithServers dns [server])),
        fun _ => none⟩ :=
    ends_exec (W := calm) (fun _ _ => rfl) _ _
  rw [sampleMachine_stored] at run
  exact run

set_option maxRecDepth 20000 in
theorem sample_closes (dns previous : Option Dictionary) :
    Closes (sampleMachine dns) ⟨bytes "A", previous⟩ (sampleMachine previous) := by
  have run : Ends calm (close ⟨bytes "A", previous⟩).run (sampleMachine dns) (.ok ())
      ⟨stored (sampleMachine dns) (bytes "A") previous,
        stored (sampleMachine dns) (bytes "A") previous, fun _ => none⟩ :=
    ends_exec (W := calm) (fun _ _ => rfl) _ _
  rw [sampleMachine_stored] at run
  exact run

def sampleServer (last : UInt8) : IpAddr := .v4 ⟨10, 0, 0, last⟩

def firstHandle : SetDns := ⟨bytes "A", none⟩
def secondHandle : SetDns := ⟨bytes "A", some (dnsWithServers none [sampleServer 1])⟩

/-- Two handles on one service, of which the first is closed first. -/
theorem sample_crossed :
    Run Snapshots.AnyOrder (sampleMachine none)
      (sampleMachine (some (dnsWithServers none [sampleServer 1])))
      [secondHandle, firstHandle] := by
  have opened : ReflTransGen (Snapshots.Move Opens Closes Snapshots.AnyOrder)
      ⟨sampleMachine none, [], []⟩ ⟨_, [secondHandle, firstHandle], []⟩ :=
    (ReflTransGen.single (.opened (sample_opens none (sampleServer 1)))).tail
      (.opened (sample_opens _ (sampleServer 2)))
  have firstClosed : Snapshots.Move Opens Closes Snapshots.AnyOrder
      ⟨sampleMachine (some (dnsWithServers (secondHandle.originalDns) [sampleServer 2])),
        [secondHandle] ++ firstHandle :: [], []⟩
      ⟨sampleMachine none, [secondHandle], [firstHandle]⟩ :=
    .closed trivial (sample_closes _ none)
  have secondClosed : Snapshots.Move Opens Closes Snapshots.AnyOrder
      ⟨sampleMachine none, [] ++ secondHandle :: [], [firstHandle]⟩
      ⟨_, [], [secondHandle, firstHandle]⟩ :=
    .closed trivial (sample_closes _ _)
  exact (opened.tail firstClosed).tail secondClosed

/-- Closed in the order in which they were opened, the handles leave the servers of the first. -/
theorem crossed_handles_do_not_restore :
    ¬ ∀ start s closed, Run Snapshots.AnyOrder start s closed → view s = view start := by
  intro restores
  have same := congrFun (restores _ _ _ sample_crossed) (bytes "A")
  simp [view, sampleMachine, samplePreferences] at same

end Sample

section Interface

open Registry NetSettings Windows.Interface
open Windows.Nrpt (Machine bracedGuid sampleGuid sampleOrder)

def samplePlatform : Platform := ⟨fun _ => true, fun _ => .ok 7, fun _ => .ok (sampleGuid 1)⟩

/-- One interface without name servers. -/
def sampleInterface : Machine :=
  Hive.put (fun _ => none) ipv4Base ⟨bracedGuid (sampleGuid 1), rfl, fun _ => none⟩

def sampleHandler : Program.Handler Call Call.Ret Machine
  | s, .inl c => s.perform sampleOrder (sampleGuid 1) c
  | s, .inr c => NetSettings.perform samplePlatform bracedGuid s c

/-- No identifier is asked for. -/
def sampleQuiet (_ : Machine) : Call → Bool
  | .inl c => c ≠ .createGuid
  | .inr _ => true

theorem sampleHandler_sound (s : Machine) (c : Call) (quiet : sampleQuiet s c = true) :
    (calm sampleOrder samplePlatform).answers s c (sampleHandler s c).1 (sampleHandler s c).2 := by
  cases c with
  | inl c => exact ⟨(sampleGuid 1), fun guid => absurd guid (of_decide_eq_true quiet), rfl⟩
  | inr c => rfl

def sampleOpened : Except InterfaceError (Option InterfaceDns) × Machine :=
  Program.exec sampleHandler (apply (bytes "Ethernet") [sampleServer 1]).run sampleInterface

def sampleSnapshot : InterfaceDns := ⟨⟨some ⟨⟨ipv4Base, bracedGuid (sampleGuid 1)⟩, none⟩, none⟩⟩

def sampleClosed : Except InterfaceError Unit × Machine :=
  Program.exec sampleHandler (close sampleSnapshot).run sampleOpened.2

theorem sampleInterface_wellformed : Wellformed (sampleGuid 1) sampleInterface := by
  intro family value held
  have absent : view sampleInterface
      (cell ⟨family.registryBase, bracedGuid (sampleGuid 1)⟩ nameServer) = none := by
    cases family <;> decide
  cases absent.symm.trans held

set_option maxRecDepth 20000 in
theorem sample_interface {admits : Nat → Prop} (last : admits 0) :
    Run admits sampleOrder samplePlatform (sampleGuid 1) sampleInterface sampleClosed.2
      [sampleSnapshot] := by
  have handle : sampleOpened.1 = .ok (some sampleSnapshot) := by decide
  have done : sampleClosed.1 = .ok () := by decide
  have opened : Opens sampleOrder samplePlatform (sampleGuid 1) sampleInterface sampleSnapshot
      sampleOpened.2 := by
    refine ⟨bytes "Ethernet", [sampleServer 1], ⟨7, rfl, rfl⟩, ?_⟩
    rw [← handle]
    exact ends_passes sampleHandler_sound (by decide)
  have closed : Closes sampleOrder samplePlatform sampleOpened.2 sampleSnapshot sampleClosed.2 := by
    unfold Closes
    rw [← done]
    exact ends_passes sampleHandler_sound (by decide)
  have move : Snapshots.Move (Opens sampleOrder samplePlatform (sampleGuid 1))
      (Closes sampleOrder samplePlatform) admits
      ⟨sampleOpened.2, [] ++ sampleSnapshot :: [], []⟩ ⟨sampleClosed.2, [], [sampleSnapshot]⟩ :=
    .closed last closed
  exact (ReflTransGen.single (.opened opened)).tail move

/-- Crossed handles leave other servers, and a single one is taken back. -/
theorem snapshots_restored_sample :
    Macos.Global.view (sampleMachine (some (Macos.Global.dnsWithServers none [sampleServer 1])))
        (bytes "A") ≠ Macos.Global.view (sampleMachine none) (bytes "A") ∧
      view sampleClosed.2 = view sampleInterface := by
  obtain ⟨macos, -, -, nested⟩ := snapshots_restored_iff
  constructor
  · intro same
    have seen := (macos _ _ _ sample_crossed (bytes "A")).2.mp same _ rfl
    simp [Macos.Global.view, sampleMachine, samplePreferences, secondHandle] at seen
  · exact nested _ _ _ _ _ _ sampleInterface_wellformed (sample_interface rfl)

end Interface

end Setdns
