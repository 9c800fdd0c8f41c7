import Setdns.Config.Config
import Setdns.Effects.Registry
import Setdns.Text.Separated

/-!
NRPT rules on Windows. A rule is a registry key with a fresh identifier, and its
last value tags it with its owner. The identifiers of an owner's rules are
recorded under the owner's state key afterwards. The cleanup goes by that
record, and by the tags only where the record cannot be read.
-/

namespace Setdns.Windows.Nrpt

open Text Effects Effects.Program Effects.Registry

def namespaceChunkSize : Nat := 50
def nrptBase : Bytes :=
  bytes "SYSTEM\\CurrentControlSet\\Services\\Dnscache\\Parameters\\DnsPolicyConfig"
def stateBase : Bytes := bytes "SOFTWARE\\setdns\\Windows\\Nrpt"
def ownerValue : Bytes := bytes "setdns_owner"
def ruleIdsValue : Bytes := bytes "RuleIds"
def configOptionsUseGenericDnsServers : UInt32 := 0x8

inductive NrptError where
  | createRuleId (source : RegError)
  | registry (source : RegError)
  deriving DecidableEq, Repr

structure RuleSet where
  owner : Bytes
  ruleIds : List Bytes
  deriving DecidableEq, Repr

abbrev Result (α : Type) : Type := ExceptT NrptError (Program RegCall RegCall.Ret) α

def rulePath (ruleId : Bytes) : KeyPath := ⟨nrptBase, ruleId⟩
def statePath (owner : Bytes) : KeyPath := ⟨stateBase, owner⟩

/-- So many hexadecimal digits, the last ones of the number. -/
def hex : Nat → Nat → Bytes
  | 0, _ => []
  | width + 1, n => hex width (n / 16) ++ [(n % 16).digitChar.toUInt8]

/-- The registry spelling of an identifier. -/
def bracedGuid (guid : Guid) : Bytes :=
  bytes "\x7b" ++ hex 8 guid.data1.toNat ++ bytes "-" ++ hex 4 guid.data2.toNat ++ bytes "-" ++
    hex 4 guid.data3.toNat ++ bytes "-" ++
    (guid.data4.take 2).flatMap (fun byte => hex 2 byte.toNat) ++ bytes "-" ++
    (guid.data4.drop 2).flatMap (fun byte => hex 2 byte.toNat) ++ bytes "\x7d"

def namespacesForGlobalOrSplit (domains : List DomainSuffix) : List Bytes :=
  if domains.isEmpty then [bytes "."] else domains.map fun domain => dot :: domain.domain

def serverList (servers : List IpAddr) : Bytes :=
  servers.foldl
    (fun result server =>
      (if result.isEmpty then result else result ++ bytes ";") ++ server.display) []

def createRuleId : Result Bytes := do
  let guid ← mapErr Reg.createGuid .createRuleId
  pure (bracedGuid guid)

def writeRule (owner ruleId servers : Bytes) (domains : List Bytes) : Result Unit := do
  let path := rulePath ruleId
  mapErr (Reg.create path) .registry
  mapErr (Reg.setValue path (bytes "Version") (.dword 1)) .registry
  mapErr (Reg.setValue path (bytes "Name") (.multiString domains)) .registry
  mapErr (Reg.setValue path (bytes "GenericDNSServers") (.string servers)) .registry
  mapErr (Reg.setValue path (bytes "ConfigOptions")
    (.dword configOptionsUseGenericDnsServers)) .registry
  mapErr (Reg.setValue path ownerValue (.string owner)) .registry

def writeState (owner : Bytes) (ruleIds : List Bytes) : Result Unit := do
  mapErr (Reg.create (statePath owner)) .registry
  mapErr (Reg.setValue (statePath owner) ruleIdsValue (.multiString ruleIds)) .registry

/-- Removals that fail are logged and otherwise ignored. -/
def removeRules : List Bytes → Io Unit
  | [] => pure ()
  | ruleId :: ruleIds => do
      let _ ← Reg.removeTree (rulePath ruleId)
      removeRules ruleIds

/-- The iterator fetches each key when the loop asks for it, by its number among the
keys that are left, and ends the loop when there is none. -/
def removeTaggedRules (owner : Bytes) (index : Nat) : Nat → Io Unit
  | 0 => pure ()
  | remaining + 1 => do
      match ← Reg.nextKey nrptBase index with
      | .error _ => pure ()
      | .ok ruleId =>
          let path := rulePath ruleId
          match ← Reg.openKey path with
          | .error _ => removeTaggedRules owner (index + 1) remaining
          | .ok () =>
              match ← Reg.getString path ownerValue with
              | .error _ => removeTaggedRules owner (index + 1) remaining
              | .ok found =>
                  if found = owner then do
                    let _ ← Reg.removeTree path
                    removeTaggedRules owner (index + 1) remaining
                  else removeTaggedRules owner (index + 1) remaining

def removeOwnerTaggedRules (owner : Bytes) : Io Unit := do
  match ← Reg.openBase nrptBase with
  | .error _ => pure ()
  | .ok () =>
      match ← Reg.keys nrptBase with
      | .error _ => pure ()
      | .ok count => removeTaggedRules owner 0 count

def removeState (owner : Bytes) : Io Unit := do
  let _ ← Reg.removeTree (statePath owner)
  pure ()

def cleanupOwner (owner : Bytes) : Io Unit := do
  match ← Reg.openKey (statePath owner) with
  | .error _ => pure ()
  | .ok () =>
      match ← Reg.getMultiString (statePath owner) ruleIdsValue with
      | .error _ => do
          removeOwnerTaggedRules owner
          removeState owner
      | .ok ruleIds => do
          removeRules ruleIds
          removeState owner

/-- Consecutive pieces of at most `n` elements. -/
def chunksFrom {α : Type} (n : Nat) : Nat → List α → List (List α)
  | 0, _ => []
  | _ + 1, [] => []
  | fuel + 1, x :: xs => (x :: xs).take n :: chunksFrom n fuel ((x :: xs).drop n)

def chunks {α : Type} (n : Nat) (l : List α) : List (List α) := chunksFrom n l.length l

def writeRules (owner servers : Bytes) (ruleIds : List Bytes) :
    List (List Bytes) → Result (List Bytes)
  | [] => pure ruleIds
  | chunk :: rest => do
      let ruleId ← createRuleId
      let written ← (liftM (writeRule owner ruleId servers chunk).run :
        Result (Except NrptError Unit))
      match written with
      | .error error => do
          removeRules ruleIds
          throw error
      | .ok () => writeRules owner servers (ruleIds ++ [ruleId]) rest

def apply (owner : Bytes) (servers : List IpAddr) (namespaces : List Bytes) : Result RuleSet := do
  cleanupOwner owner
  let ruleIds ← writeRules owner (serverList servers) [] (chunks namespaceChunkSize namespaces)
  let written ← (liftM (writeState owner ruleIds).run : Result (Except NrptError Unit))
  match written with
  | .error error => do
      removeRules ruleIds
      throw error
  | .ok () => pure ⟨owner, ruleIds⟩

def removeRulesChecked : List Bytes → Result Unit
  | [] => pure ()
  | ruleId :: ruleIds => do
      mapErr (Reg.removeTree (rulePath ruleId)) .registry
      removeRulesChecked ruleIds

def removeStateChecked (owner : Bytes) : Result Unit :=
  mapErr (Reg.removeTree (statePath owner)) .registry

def close (handle : RuleSet) : Result Unit := do
  removeRulesChecked handle.ruleIds
  removeStateChecked handle.owner

theorem serverList_eq (servers : List IpAddr) :
    serverList servers = (servers.map IpAddr.display).foldl (push 59) [] :=
  List.foldl_map.symm

section Chunks

variable {α : Type}

theorem flatten_chunksFrom {n : Nat} (positive : 0 < n) (fuel : Nat) (l : List α)
    (enough : l.length ≤ fuel) : (chunksFrom n fuel l).flatten = l := by
  induction fuel generalizing l with
  | zero => simp [chunksFrom, List.length_eq_zero_iff.mp (Nat.le_zero.mp enough)]
  | succ fuel ih =>
      cases l with
      | nil => rfl
      | cons x xs =>
          have shorter : ((x :: xs).drop n).length ≤ fuel := by
            simp only [List.length_drop, List.length_cons] at enough ⊢
            omega
          rw [chunksFrom, List.flatten_cons, ih _ shorter, List.take_append_drop]

/-- The pieces are the list again. -/
theorem flatten_chunks {n : Nat} (positive : 0 < n) (l : List α) : (chunks n l).flatten = l :=
  flatten_chunksFrom positive l.length l (Nat.le_refl _)

/-- Every piece has at least one and at most `n` elements. -/
theorem chunks_bounds {n : Nat} (positive : 0 < n) {l piece : List α} (mem : piece ∈ chunks n l) :
    1 ≤ piece.length ∧ piece.length ≤ n := by
  have bounds : ∀ (fuel : Nat) (l : List α), piece ∈ chunksFrom n fuel l →
      1 ≤ piece.length ∧ piece.length ≤ n := by
    intro fuel
    induction fuel with
    | zero => exact fun l no => (nomatch no)
    | succ fuel ih =>
        intro l mem
        cases l with
        | nil => cases mem
        | cons x xs =>
            rcases List.mem_cons.mp mem with rfl | later
            · rw [List.length_take, List.length_cons]
              omega
            · exact ih _ later
  exact bounds _ _ mem

end Chunks

/-- Names of registry keys are compared ignoring ASCII case. -/
abbrev fold : Bytes → Bytes := toAsciiLowercase

abbrev Machine : Type := Hive fold

/-- No rule key has the identifier yet. -/
def Fresh (s : Machine) (guid : Guid) : Prop := s.values nrptBase (fold (bracedGuid guid)) = none

instance (s : Machine) (guid : Guid) : Decidable (Fresh s guid) :=
  decidable_of_iff ((s.values nrptBase (fold (bracedGuid guid))).isNone = true)
    (by simp [Fresh])

section Calls

variable {allowed : RegCall → Prop} {owner : Bytes}

theorem removeRules_issues (removes : ∀ ruleId, allowed (.removeTree (rulePath ruleId)))
    (ruleIds : List Bytes) : Issues allowed (removeRules ruleIds) := by
  induction ruleIds with
  | nil => trivial
  | cons ruleId ruleIds ih => exact ⟨removes ruleId, fun _ => ih⟩

theorem removeTaggedRules_issues (looks : ∀ c, Registry.Quiet c → allowed c)
    (removes : ∀ ruleId, allowed (.removeTree (rulePath ruleId))) (index remaining : Nat) :
    Issues allowed (removeTaggedRules owner index remaining) := by
  induction remaining generalizing index with
  | zero => trivial
  | succ remaining ih =>
      refine ⟨looks _ trivial, fun next => ?_⟩
      cases next with
      | error e => trivial
      | ok ruleId =>
          refine ⟨looks _ trivial, fun opened => ?_⟩
          cases opened with
          | error e => exact ih (index + 1)
          | ok _ =>
              refine ⟨looks _ trivial, fun read => ?_⟩
              cases read with
              | error e => exact ih (index + 1)
              | ok found =>
                  show Issues _ (if found = owner then _ else _)
                  split
                  · exact ⟨removes ruleId, fun _ => ih (index + 1)⟩
                  · exact ih (index + 1)

/-- A cleanup only looks and removes. -/
theorem cleanupOwner_issues (looks : ∀ c, Registry.Quiet c → allowed c)
    (removes : ∀ ruleId, allowed (.removeTree (rulePath ruleId)))
    (forgets : allowed (.removeTree (statePath owner))) :
    Issues allowed (cleanupOwner owner) := by
  have forgotten : Issues allowed (removeState owner) := ⟨forgets, fun _ => trivial⟩
  refine ⟨looks _ trivial, fun opened => ?_⟩
  cases opened with
  | error e => trivial
  | ok _ =>
      refine ⟨looks _ trivial, fun read => ?_⟩
      cases read with
      | ok ruleIds => exact (removeRules_issues removes ruleIds).bind fun _ => forgotten
      | error e =>
          refine .bind (p := removeOwnerTaggedRules owner) ⟨looks _ trivial, fun based => ?_⟩
            fun _ => forgotten
          cases based with
          | error e => trivial
          | ok _ =>
              refine ⟨looks _ trivial, fun listed => ?_⟩
              cases listed with
              | error e => trivial
              | ok count => exact removeTaggedRules_issues looks removes 0 count

/-- The call changes only rules and records. -/
def OnNrptKeys (c : RegCall) : Prop :=
  ∀ base folded, Targets fold c base folded → base = nrptBase ∨ base = stateBase

theorem onNrptKeys_of_quiet (c : RegCall) (quiet : Registry.Quiet c) : OnNrptKeys c := by
  intro base folded target
  cases c <;> first | exact target.elim | exact quiet.elim

theorem writeRule_onNrptKeys (ruleId servers : Bytes) (domains : List Bytes) :
    Issues OnNrptKeys (writeRule owner ruleId servers domains).run := by
  have create : OnNrptKeys (.create (rulePath ruleId)) := fun _ _ target => .inl target.1
  have set : ∀ name data, OnNrptKeys (.setValue (rulePath ruleId) name data) :=
    fun _ _ _ _ target => .inl target.1
  exact .tryBind (.mapErr (.call create)) fun _ => .tryBind (.mapErr (.call (set _ _))) fun _ =>
    .tryBind (.mapErr (.call (set _ _))) fun _ => .tryBind (.mapErr (.call (set _ _))) fun _ =>
      .tryBind (.mapErr (.call (set _ _))) fun _ => .mapErr (.call (set _ _))

theorem removeRules_onNrptKeys (ruleIds : List Bytes) : Issues OnNrptKeys (removeRules ruleIds) :=
  removeRules_issues (fun _ _ _ target => .inl target.1) ruleIds

theorem writeRules_onNrptKeys (servers : Bytes) (ruleIds : List Bytes)
    (chunks : List (List Bytes)) :
    Issues OnNrptKeys (writeRules owner servers ruleIds chunks).run := by
  induction chunks generalizing ruleIds with
  | nil => trivial
  | cons chunk rest ih =>
      refine Issues.tryBind (Issues.tryBind (Issues.mapErr (Issues.call fun _ _ => False.elim))
        fun _ => trivial) fun ruleId => ?_
      refine Issues.lift (writeRule_onNrptKeys ruleId servers chunk) fun written => ?_
      cases written with
      | ok _ => exact ih (ruleIds ++ [ruleId])
      | error e => exact Issues.lift (removeRules_onNrptKeys ruleIds) fun _ => trivial

theorem apply_onNrptKeys (owner : Bytes) (servers : List IpAddr) (namespaces : List Bytes) :
    Issues OnNrptKeys (apply owner servers namespaces).run := by
  refine Issues.lift (cleanupOwner_issues onNrptKeys_of_quiet (fun _ _ _ target => .inl target.1)
    fun _ _ target => .inr target.1) fun _ => ?_
  refine Issues.tryBind (writeRules_onNrptKeys _ [] _) fun ruleIds => ?_
  have recorded : Issues OnNrptKeys (writeState owner ruleIds).run :=
    .tryBind (.mapErr (.call fun _ _ target => .inr target.1)) fun _ =>
      .mapErr (.call fun _ _ target => .inr target.1)
  refine Issues.lift recorded fun written => ?_
  cases written with
  | ok _ => trivial
  | error e => exact Issues.lift (removeRules_onNrptKeys ruleIds) fun _ => trivial

theorem removeRulesChecked_issues (removes : ∀ ruleId, allowed (.removeTree (rulePath ruleId)))
    (ruleIds : List Bytes) : Issues allowed (removeRulesChecked ruleIds).run := by
  induction ruleIds with
  | nil => trivial
  | cons ruleId ruleIds ih => exact .tryBind (.mapErr (.call (removes ruleId))) fun _ => ih

theorem close_onNrptKeys (handle : RuleSet) : Issues OnNrptKeys (close handle).run :=
  .tryBind (removeRulesChecked_issues (fun _ _ _ target => .inl target.1) _) fun _ =>
    .mapErr (.call fun _ _ target => .inr target.1)

end Calls

example : bracedGuid ⟨0x12345678, 0x9abc, 0xdef0,
    [0x12, 0x34, 0x56, 0x78, 0x9a, 0xbc, 0xde, 0xf0], rfl⟩ =
      bytes "\x7b12345678-9abc-def0-1234-56789abcdef0\x7d" := by decide

example : serverList [.v4 ⟨1, 1, 1, 1⟩, .v6 ⟨[0, 0, 0, 0, 0, 0, 0, 1], rfl⟩] =
    bytes "1.1.1.1;::1" := by decide

end Setdns.Windows.Nrpt
