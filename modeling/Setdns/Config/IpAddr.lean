import Setdns.Text.Bytes

/-!
IP addresses and their textual form. `display` follows the standard library's
formatting: dotted decimal for IPv4, and for IPv6 the lower-case hexadecimal
form in which the first longest run of at least two zero segments is elided and
an IPv4-mapped address keeps its dotted tail.
-/

namespace Setdns

open Text

structure Ipv4Addr where
  a : UInt8
  b : UInt8
  c : UInt8
  d : UInt8
  deriving DecidableEq, Repr

structure Ipv6Addr where
  segments : List UInt16
  length_eq : segments.length = 8
  deriving DecidableEq, Repr

inductive IpAddr where
  | v4 (addr : Ipv4Addr)
  | v6 (addr : Ipv6Addr)
  deriving DecidableEq, Repr

def digits (base n : Nat) : Bytes := (Nat.toDigits base n).map Char.toUInt8

def Ipv4Addr.display (addr : Ipv4Addr) : Bytes :=
  digits 10 addr.a.toNat ++ dot :: digits 10 addr.b.toNat ++
    dot :: digits 10 addr.c.toNat ++ dot :: digits 10 addr.d.toNat

namespace Ipv6Addr

def toIpv4Mapped (addr : Ipv6Addr) : Option Ipv4Addr :=
  match addr.segments with
  | [0, 0, 0, 0, 0, 0xffff, ab, cd] =>
      some ⟨(ab >>> 8).toUInt8, ab.toUInt8, (cd >>> 8).toUInt8, cd.toUInt8⟩
  | _ => none

structure Span where
  start : Nat
  len : Nat

/-- The first longest run of zero segments. -/
def zeroes (segments : List UInt16) : Span :=
  let step := fun ((longest, current) : Span × Span) ((segment, i) : UInt16 × Nat) =>
    if segment = 0 then
      let current : Span := ⟨if current.len = 0 then i else current.start, current.len + 1⟩
      (if longest.len < current.len then current else longest, current)
    else (longest, ⟨0, 0⟩)
  (segments.zipIdx.foldl step (⟨0, 0⟩, ⟨0, 0⟩)).1

def fmtSubslice : List UInt16 → Bytes
  | [] => []
  | first :: tail => digits 16 first.toNat ++ tail.flatMap (fun s => 58 :: digits 16 s.toNat)

def display (addr : Ipv6Addr) : Bytes :=
  match addr.toIpv4Mapped with
  | some ipv4 => bytes "::ffff:" ++ ipv4.display
  | none =>
      let span := zeroes addr.segments
      if 1 < span.len then
        fmtSubslice (addr.segments.take span.start) ++ bytes "::" ++
          fmtSubslice (addr.segments.drop (span.start + span.len))
      else fmtSubslice addr.segments

end Ipv6Addr

def IpAddr.display : IpAddr → Bytes
  | .v4 addr => addr.display
  | .v6 addr => addr.display

/-- The bytes that can occur in a displayed address: lower-case hexadecimal
digits, `:` and `.`. -/
def AddrByte (x : UInt8) : Prop :=
  (48 ≤ x ∧ x ≤ 58) ∨ (97 ≤ x ∧ x ≤ 102) ∨ x = dot

instance (x : UInt8) : Decidable (AddrByte x) := inferInstanceAs (Decidable (_ ∨ _ ∨ _))

private theorem addrByte_digitChar (d : Nat) (h : d < 16) : AddrByte d.digitChar.toUInt8 := by
  have all : ∀ d : Fin 16, AddrByte d.val.digitChar.toUInt8 := by decide
  exact all ⟨d, h⟩

theorem addrByte_digits (base n : Nat) (h1 : 1 < base) (h2 : base ≤ 16) :
    ∀ x ∈ digits base n, AddrByte x := by
  induction n using Nat.strongRecOn with
  | ind n ih =>
      intro x hx
      rw [digits, Nat.toDigits_eq_if h1] at hx
      split at hx
      · rename_i small
        simp only [List.map_cons, List.map_nil, List.mem_singleton] at hx
        exact hx ▸ addrByte_digitChar n (by omega)
      · rename_i large
        simp only [List.map_append, List.map_cons, List.map_nil, List.mem_append,
          List.mem_singleton] at hx
        have hmod : n % base < base := Nat.mod_lt n (by omega)
        rcases hx with hx | rfl
        · exact ih (n / base) (Nat.div_lt_self (by omega) h1) x hx
        · exact addrByte_digitChar _ (by omega)

theorem Ipv4Addr.addrByte_display (addr : Ipv4Addr) : ∀ x ∈ addr.display, AddrByte x := by
  have digit := fun n => addrByte_digits 10 n (by decide) (by decide)
  have hdot : AddrByte dot := by decide
  intro x hx
  simp only [display, List.mem_append, List.mem_cons] at hx
  rcases hx with ((hx | rfl | hx) | rfl | hx) | rfl | hx
  all_goals first | exact hdot | exact digit _ x hx

theorem Ipv6Addr.addrByte_fmtSubslice (segments : List UInt16) :
    ∀ x ∈ fmtSubslice segments, AddrByte x := by
  have digit := fun n => addrByte_digits 16 n (by decide) (by decide)
  cases segments with
  | nil => simp [fmtSubslice]
  | cons first tail =>
      intro x hx
      simp only [fmtSubslice, List.mem_append, List.mem_flatMap, List.mem_cons] at hx
      rcases hx with hx | ⟨s, _, rfl | hx⟩
      · exact digit _ x hx
      · decide
      · exact digit _ x hx

theorem Ipv6Addr.addrByte_display (addr : Ipv6Addr) : ∀ x ∈ addr.display, AddrByte x := by
  have mapped : ∀ x ∈ bytes "::ffff:", AddrByte x := by decide
  have elided : ∀ x ∈ bytes "::", AddrByte x := by decide
  intro x hx
  unfold display at hx
  split at hx
  · rename_i ipv4 _
    rcases List.mem_append.mp hx with hx | hx
    · exact mapped x hx
    · exact ipv4.addrByte_display x hx
  · dsimp only at hx
    split at hx
    · simp only [List.mem_append] at hx
      rcases hx with (hx | hx) | hx
      · exact addrByte_fmtSubslice _ x hx
      · exact elided x hx
      · exact addrByte_fmtSubslice _ x hx
    · exact addrByte_fmtSubslice _ x hx

theorem IpAddr.addrByte_display (addr : IpAddr) : ∀ x ∈ addr.display, AddrByte x := by
  cases addr with
  | v4 addr => exact addr.addrByte_display
  | v6 addr => exact addr.addrByte_display

theorem IpAddr.ascii_display (addr : IpAddr) : Ascii addr.display := by
  intro x hx
  rcases addr.addrByte_display x hx with ⟨_, h⟩ | ⟨_, h⟩ | rfl
  · exact UInt8.lt_of_le_of_lt h (by decide)
  · exact UInt8.lt_of_le_of_lt h (by decide)
  · decide

theorem IpAddr.not_mem_display (addr : IpAddr) (x : UInt8) (h : ¬ AddrByte x) :
    x ∉ addr.display :=
  fun hx => h (addr.addrByte_display x hx)

/-- One resolver line per server. -/
theorem ascii_nameservers (servers : List IpAddr) :
    Ascii (servers.flatMap fun server => bytes "nameserver " ++ server.display ++ [lf]) := by
  have texts : Ascii (bytes "nameserver ") ∧ Ascii [lf] := by decide
  intro x hx
  obtain ⟨server, _, hx⟩ := List.mem_flatMap.mp hx
  have line : Ascii (bytes "nameserver " ++ server.display ++ [lf]) := by
    simp only [ascii_append]
    exact ⟨⟨texts.1, server.ascii_display⟩, texts.2⟩
  exact line x hx

theorem lines_servers (servers : List IpAddr) :
    lines (servers.flatMap fun server => bytes "nameserver " ++ server.display ++ [lf]) =
      servers.map fun server => bytes "nameserver " ++ server.display := by
  have fixed : ∀ x ∈ [lf, cr], x ∉ bytes "nameserver " ∧ ¬ AddrByte x := by decide
  have line : ∀ server : IpAddr, ∀ x ∈ [lf, cr], x ∉ bytes "nameserver " ++ server.display := by
    intro server x hx
    rw [List.mem_append, not_or]
    exact ⟨(fixed x hx).1, server.not_mem_display x (fixed x hx).2⟩
  induction servers with
  | nil => rfl
  | cons server servers ih =>
      rw [List.flatMap_cons, List.append_assoc, List.singleton_append,
        lines_cons_of_not_cr _ _ (line server lf (by simp)) (line server cr (by simp)), ih,
        List.map_cons]

/-- The number that decimal digits stand for. -/
def decimal (b : Bytes) : Nat := b.foldl (fun n x => n * 10 + (x.toNat - 48)) 0

set_option maxRecDepth 4000 in
theorem decimal_digits (octet : UInt8) :
    decimal (digits 10 octet.toNat) = octet.toNat ∧
      ∀ x ∈ digits 10 octet.toNat, x ≠ dot ∧ x ≠ 58 := by
  have all : ∀ n : Fin 256, decimal (digits 10 n.val) = n.val ∧
      ∀ x ∈ digits 10 n.val, x ≠ dot ∧ x ≠ 58 := by decide
  exact all ⟨octet.toNat, octet.toNat_lt⟩

theorem digits_inj {m n : UInt8} (h : digits 10 m.toNat = digits 10 n.toNat) : m = n := by
  have same := congrArg decimal h
  rw [(decimal_digits m).1, (decimal_digits n).1] at same
  exact UInt8.toNat_inj.mp same

theorem Ipv4Addr.display_inj {addr other : Ipv4Addr} (h : addr.display = other.display) :
    addr = other := by
  have free : ∀ octet : UInt8, dot ∉ digits 10 octet.toNat :=
    fun octet mem => ((decimal_digits octet).2 _ mem).1 rfl
  have split := congrArg (List.splitOn dot) h
  simp only [display, List.append_assoc, List.cons_append] at split
  simp only [List.splitOn_append_cons_self_of_not_mem (free _), List.cons.injEq] at split
  obtain ⟨a, b, c, last⟩ := split
  simp only [List.splitOn_eq_singleton (free _), List.cons.injEq, and_true] at last
  rcases addr with ⟨⟩
  rcases other with ⟨⟩
  simp only [Ipv4Addr.mk.injEq]
  exact ⟨digits_inj a, digits_inj b, digits_inj c, digits_inj last⟩

/-- An IPv6 address is displayed with a colon. -/
theorem Ipv6Addr.colon_mem_display (addr : Ipv6Addr) : 58 ∈ addr.display := by
  unfold display
  split
  · simp [show (58 : UInt8) ∈ bytes "::ffff:" from by decide]
  · dsimp only
    split
    · simp [show (58 : UInt8) ∈ bytes "::" from by decide]
    · obtain ⟨segments, length⟩ := addr
      match segments, length with
      | first :: second :: tail, _ => simp [fmtSubslice]

def IpAddr.isIpv4 : IpAddr → Bool
  | .v4 _ => true
  | .v6 _ => false

def IpAddr.isIpv6 (server : IpAddr) : Bool := !server.isIpv4

theorem IpAddr.display_ne_nil (server : IpAddr) : server.display ≠ [] := by
  cases server with
  | v4 addr => simp [display, Ipv4Addr.display]
  | v6 addr => exact List.ne_nil_of_mem addr.colon_mem_display

/-- The text of an IPv4 address names no other address. -/
theorem IpAddr.display_eq_v4 {server : IpAddr} {addr : Ipv4Addr} :
    server.display = addr.display ↔ server = .v4 addr := by
  refine ⟨fun h => ?_, fun h => by rw [h]; rfl⟩
  cases server with
  | v4 other => exact congrArg IpAddr.v4 (Ipv4Addr.display_inj h)
  | v6 other =>
      have colon : 58 ∈ addr.display := h ▸ other.colon_mem_display
      simp only [Ipv4Addr.display, List.mem_append, List.mem_cons] at colon
      have free : ∀ octet : UInt8, 58 ∉ digits 10 octet.toNat :=
        fun octet mem => ((decimal_digits octet).2 _ mem).2 rfl
      simp [free, show (58 : UInt8) ≠ dot by decide] at colon

example : (IpAddr.v4 ⟨10, 0, 0, 53⟩).display = bytes "10.0.0.53" := by decide
example : (IpAddr.v6 ⟨[0x2001, 0xdb8, 0, 0, 1, 0, 0, 1], rfl⟩).display =
    bytes "2001:db8::1:0:0:1" := by decide

end Setdns
