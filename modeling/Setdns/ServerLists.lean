import Setdns.Linux.ResolvConf
import Setdns.Linux.Resolved
import Setdns.Text.Separated
import Setdns.Windows.Interface

/-!
How the backends write down a list of servers: as one text with separators, as
one such text for each address family, as lines of a file, and as pairs of a
family and its bytes. Each of them can be read back.
-/

namespace Setdns

open Text
open Windows.Interface (foldl_display_eq_nil_iff nameserversByFamily_eq)
open Linux.ResolvConf (headerPrefix lines_renderResolvConf renderResolvConf)

/-- The texts of the `nameserver` lines. -/
def nameservers (content : Bytes) : List Bytes :=
  ((lines content).filter fun line => !(bytes "#").isPrefixOf line).filterMap fun line =>
    line.dropPrefix? (bytes "nameserver ")

/-- The segments that these bytes are, the high byte of each first. -/
def segmentsOf : List UInt8 → List UInt16
  | high :: low :: rest => UInt16.ofNat (high.toNat * 256 + low.toNat) :: segmentsOf rest
  | _ => []

/-- The address that a pair of a family and its bytes stands for. -/
def decodeServer (pair : Int32 × List UInt8) : Option IpAddr :=
  if pair.1 = Linux.Resolved.AF_INET then
    match pair.2 with
    | [a, b, c, d] => some (.v4 ⟨a, b, c, d⟩)
    | _ => none
  else if pair.1 = Linux.Resolved.AF_INET6 then
    if h : (segmentsOf pair.2).length = 8 then some (.v6 ⟨segmentsOf pair.2, h⟩) else none
  else none

/-- What is read back element by element is read back as a list. -/
theorem mapM_map {α β : Type} {read : β → Option α} {write : α → β} {l : List α}
    (inverts : ∀ x ∈ l, read (write x) = some x) : (l.map write).mapM read = some l := by
  induction l with
  | nil => rfl
  | cons x l ih =>
      obtain ⟨head, tail⟩ := List.forall_mem_cons.mp inverts
      rw [List.map_cons, List.mapM_cons, head, ih tail]
      rfl

section Texts

variable {servers : List IpAddr} {separator : UInt8}

/-- A text of displayed addresses can be taken apart. -/
theorem pieces_display (free : ¬ AddrByte separator) (servers : List IpAddr) :
    pieces separator ((servers.map IpAddr.display).foldl (push separator) []) =
      servers.map IpAddr.display := by
  have nonempty : ∀ text ∈ servers.map IpAddr.display, text ≠ [] :=
    List.forall_mem_map.mpr fun server _ => server.display_ne_nil
  rw [foldl_push nonempty]
  exact pieces_intercalate nonempty
    (List.forall_mem_map.mpr fun server _ => server.not_mem_display separator free)

theorem nameservers_render {owner : Bytes} (valid : ValidOwner owner) (servers : List IpAddr) :
    nameservers (renderResolvConf owner servers) =
      servers.map IpAddr.display := by
  have header : (bytes "#").isPrefixOf (headerPrefix ++ owner) = true := rfl
  have note : (bytes "#").isPrefixOf (bytes
      "# This file was written by setdns and will be restored when the handle closes.") = true := by
    decide
  have line : ∀ server : IpAddr,
      (bytes "#").isPrefixOf (bytes "nameserver " ++ server.display) = false := fun _ => rfl
  have value : ∀ server : IpAddr,
      (bytes "nameserver " ++ server.display).dropPrefix? (bytes "nameserver ") =
        some server.display := fun server => List.dropPrefix?_append_of_beq _ (by simp)
  have shown : ((servers.map fun server => bytes "nameserver " ++ server.display).filter
      fun line => !(bytes "#").isPrefixOf line) =
        servers.map fun server => bytes "nameserver " ++ server.display := by
    refine List.filter_eq_self.mpr (List.forall_mem_map.mpr fun server _ => ?_)
    rw [line]
    rfl
  rw [nameservers, lines_renderResolvConf valid, List.filter_cons_of_neg (by simp [header]),
    List.filter_cons_of_neg (by simp [note]), shown, List.filterMap_map, ← List.filterMap_eq_map]
  exact List.filterMap_congr fun server _ => value server

end Texts

section Pairs

theorem segmentsOf_flatMap (segments : List UInt16) :
    segmentsOf (segments.flatMap Linux.Resolved.octets) = segments := by
  induction segments with
  | nil => rfl
  | cons segment segments ih =>
      have whole : UInt16.ofNat ((segment >>> 8).toUInt8.toNat * 256 + segment.toUInt8.toNat) =
          segment := by
        rw [← UInt16.toNat_inj]
        have bound := segment.toNat_lt
        simp [Nat.shiftRight_eq_div_pow]
        omega
      exact congrArg₂ List.cons whole ih

theorem decodeServer_dnsServers (servers : List IpAddr) :
    (Linux.Resolved.dnsServers servers).mapM decodeServer = some servers := by
  refine mapM_map fun server _ => ?_
  cases server with
  | v4 addr => rfl
  | v6 addr =>
      have segments := segmentsOf_flatMap addr.segments
      have length : (segmentsOf (addr.segments.flatMap Linux.Resolved.octets)).length = 8 :=
        segments.symm ▸ addr.length_eq
      have other : Linux.Resolved.AF_INET6 ≠ Linux.Resolved.AF_INET := by decide
      rw [decodeServer, if_neg other, if_pos rfl, dif_pos length]
      simp only [segments]

end Pairs

/-- Every backend installs the servers of the list in their order. -/
theorem servers_read_back (parse : Bytes → Option IpAddr) (owner : Bytes) (servers : List IpAddr)
    (inverts : ∀ server ∈ servers, parse server.display = some server) (valid : ValidOwner owner) :
    (pieces 59 (Windows.Nrpt.serverList servers)).mapM parse = some servers ∧
      (pieces 44 (Windows.Interface.nameserversByFamily servers).1).mapM parse =
        some (servers.filter IpAddr.isIpv4) ∧
      (pieces 44 (Windows.Interface.nameserversByFamily servers).2).mapM parse =
        some (servers.filter IpAddr.isIpv6) ∧
      ((Windows.Interface.nameserversByFamily servers).1 = [] ↔
        ∀ server ∈ servers, server.isIpv4 = false) ∧
      ((Windows.Interface.nameserversByFamily servers).2 = [] ↔
        ∀ server ∈ servers, server.isIpv6 = false) ∧
      (nameservers (renderResolvConf owner servers)).mapM parse = some servers ∧
      (Linux.Resolved.dnsServers servers).mapM decodeServer = some servers := by
  have some_of : ∀ family : IpAddr → Bool, ∀ server ∈ servers.filter family,
      parse server.display = some server :=
    fun family server mem => inverts server (List.mem_of_mem_filter mem)
  have absent : ∀ family : IpAddr → Bool, servers.filter family = [] ↔
      ∀ server ∈ servers, family server = false := by
    simp [List.filter_eq_nil_iff]
  rw [Windows.Nrpt.serverList_eq, nameserversByFamily_eq]
  refine ⟨?_, ?_, ?_, ?_, ?_, ?_, decodeServer_dnsServers servers⟩
  · rw [pieces_display (by decide)]
    exact mapM_map inverts
  · rw [pieces_display (by decide)]
    exact mapM_map (some_of _)
  · rw [pieces_display (by decide)]
    exact mapM_map (some_of _)
  · rw [foldl_display_eq_nil_iff, absent]
  · rw [foldl_display_eq_nil_iff, absent]
  · rw [nameservers_render valid]
    exact mapM_map inverts

section Sample

def sampleServers : List IpAddr :=
  [.v4 ⟨1, 1, 1, 1⟩, .v6 ⟨[0, 0, 0, 0, 0, 0, 0, 1], rfl⟩, .v4 ⟨8, 8, 8, 8⟩]

/-- Reads the addresses of the sample. -/
def sampleParse (text : Bytes) : Option IpAddr :=
  sampleServers.find? fun server => server.display = text

set_option maxRecDepth 8000 in
theorem servers_read_back_sample :
    (pieces 59 (bytes "1.1.1.1;::1;8.8.8.8")).mapM sampleParse = some sampleServers :=
  (servers_read_back sampleParse (bytes "vpn") sampleServers (by decide) (by decide)).1

end Sample

end Setdns
