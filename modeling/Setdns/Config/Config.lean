import Mathlib.Data.List.Sort
import Setdns.Config.IpAddr

/-!
Validation and normalisation of a configuration. The only external check,
`parseDnsName`, is a parameter: it either accepts a name or reports the text of
its error.
-/

namespace Setdns

open Text

/-- The configuration half of the crate's error type. Backends report their own
error types. -/
inductive ConfigError where
  | invalidConfig (message : Bytes)
  deriving DecidableEq, Repr

structure Config where
  owner : Bytes
  servers : List IpAddr
  domains : List Bytes
  device : Option String

structure DomainSuffix where
  domain : Bytes
  wildcard : Bool
  deriving DecidableEq, Repr

structure NormalizedConfig where
  owner : Bytes
  servers : List IpAddr
  domains : List DomainSuffix
  device : Option String
  deriving DecidableEq

def isAsciiAlphanumeric (byte : UInt8) : Bool :=
  (48 ≤ byte && byte ≤ 57) || (65 ≤ byte && byte ≤ 90) || (97 ≤ byte && byte ≤ 122)

/-- Letters, digits, `.`, `_` and `-`. -/
def isOwnerByte (byte : UInt8) : Bool :=
  isAsciiAlphanumeric byte || byte = dot || byte = 95 || byte = 45

def validateOwner (owner : Bytes) : Except ConfigError Unit :=
  if owner.isEmpty then
    .error (.invalidConfig (bytes "owner must not be empty"))
  else if 64 < owner.length then
    .error (.invalidConfig (bytes "owner must be at most 64 bytes"))
  else if ¬ Ascii owner then
    .error (.invalidConfig (bytes "owner must be ASCII"))
  else if ¬ owner.all isOwnerByte then
    .error (.invalidConfig
      (bytes "owner may only contain ASCII letters, digits, '.', '_', and '-'"))
  else .ok ()

def toAsciiLowercase (s : Bytes) : Bytes :=
  s.map (fun byte => if 65 ≤ byte ∧ byte ≤ 90 then byte + 32 else byte)

def labelCount (domain : Bytes) : Nat :=
  (domain.filter (fun byte => byte = dot)).length + 1

def isChildSuffix (candidate parent : Bytes) : Bool :=
  parent.length < candidate.length && parent.isSuffixOf candidate &&
    candidate[candidate.length - parent.length - 1]? = some dot

section ExternalParser

variable (parseDnsName : Bytes → Except Bytes Unit)

def validateDomain (domain : Bytes) : Except ConfigError Unit :=
  if domain.isEmpty ∨ domain = [dot] ∨ [dot] <+: domain ∨ [dot] <:+ domain ∨
      [dot, dot] <:+: domain then
    .error (.invalidConfig (bytes "domain must contain non-empty labels separated by '.'"))
  else if ¬ Ascii domain then
    .error (.invalidConfig (bytes "domain must be ASCII"))
  else if 42 ∈ domain then
    .error (.invalidConfig (bytes "wildcard domains must use the '*.' prefix"))
  else
    match parseDnsName domain with
    | .ok () => .ok ()
    | .error source =>
        .error (.invalidConfig
          (bytes "invalid domain suffix '" ++ domain ++ bytes "': " ++ source))

/-- Strip one leading `*.`. -/
def stripWildcard : Bytes → Bytes × Bool
  | 42 :: 46 :: domain => (domain, true)
  | input => (input, false)

def parseDomainSuffix (input : Bytes) : Except ConfigError DomainSuffix := do
  let (domain, wildcard) := stripWildcard input
  validateDomain parseDnsName domain
  pure ⟨toAsciiLowercase domain, wildcard⟩

/-- The three sort keys: label count, then the domain, then plain before wildcard. -/
def suffixCmp : DomainSuffix → DomainSuffix → Ordering :=
  compareLex (compareOn fun s => labelCount s.domain)
    (compareLex (compareOn DomainSuffix.domain) (compareOn DomainSuffix.wildcard))

/-- The sort of the source is unstable. Suffixes that compare equal are equal, so
its result does not depend on the algorithm. -/
def sortSuffixes (suffixes : List DomainSuffix) : List DomainSuffix :=
  suffixes.insertionSort (fun left right => (suffixCmp left right).isLE)

def coalesceStep (coalesced : List DomainSuffix) (suffix : DomainSuffix) : List DomainSuffix :=
  if coalesced.any (fun kept =>
      suffix.domain = kept.domain || isChildSuffix suffix.domain kept.domain) then
    coalesced
  else coalesced ++ [suffix]

def normalizeDomains (domains : List Bytes) : Except ConfigError (List DomainSuffix) := do
  let suffixes ← domains.mapM (parseDomainSuffix parseDnsName)
  pure ((sortSuffixes suffixes).foldl coalesceStep [])

def Config.normalize (config : Config) : Except ConfigError NormalizedConfig := do
  validateOwner config.owner
  if config.servers.isEmpty then
    throw (.invalidConfig (bytes "servers must not be empty"))
  let domains ← normalizeDomains parseDnsName config.domains
  pure ⟨config.owner, config.servers, domains, config.device⟩

end ExternalParser

/-- Owners that pass `validateOwner`. -/
def ValidOwner (owner : Bytes) : Prop := validateOwner owner = .ok ()

instance (owner : Bytes) : Decidable (ValidOwner owner) :=
  match h : validateOwner owner with
  | .ok () => .isTrue h
  | .error _ => .isFalse fun ok => by cases h.symm.trans ok

theorem ValidOwner.isOwnerByte {owner : Bytes} (h : ValidOwner owner) :
    ∀ x ∈ owner, isOwnerByte x = true := by
  unfold ValidOwner validateOwner at h
  split at h
  · cases h
  split at h
  · cases h
  split at h
  · cases h
  split at h
  · cases h
  · rename_i allowed
    simpa using allowed

theorem isOwnerByte_lt {x : UInt8} (h : isOwnerByte x = true) : x < 128 := by
  simp only [isOwnerByte, isAsciiAlphanumeric, Bool.or_eq_true, Bool.and_eq_true,
    decide_eq_true_eq, UInt8.le_iff_toNat_le] at h
  rw [UInt8.lt_iff_toNat_lt]
  rcases h with ((((h | h) | h) | rfl) | rfl) | rfl
  all_goals first | decide | (simp at h ⊢; omega)

theorem not_isOwnerByte_lf : isOwnerByte lf = false := by decide

theorem ValidOwner.ascii {owner : Bytes} (h : ValidOwner owner) : Ascii owner :=
  fun x hx => isOwnerByte_lt (h.isOwnerByte x hx)

theorem ValidOwner.lf_not_mem {owner : Bytes} (h : ValidOwner owner) : lf ∉ owner := by
  intro hlf
  have := h.isOwnerByte lf hlf
  simp [not_isOwnerByte_lf] at this

end Setdns
