import Setdns.Linux.ResolvConf
import Setdns.Text.Whitespace

/-!
The detector of files that belong to `systemd-resolved`: a symbolic link into its
directory, or a file whose only name servers are the addresses of its stub. A
file that this program generated is read by the same detector.
-/

namespace Setdns.Linux.ResolvConf

open Text Effects Effects.Program Effects.Files

/-- The pattern is ASCII, so a lossy conversion of the target neither hides it nor
makes it appear. -/
def resolvConfSymlinkPointsToResolved : Io Bool := do
  match ← Fs.isSymlink resolvConf with
  | .error _ => pure false
  | .ok symlink =>
      if !symlink then pure false
      else
        match ← Fs.readLink resolvConf with
        | .error _ => pure false
        | .ok target => pure (decide (bytes "systemd/resolve" <:+: target))

/-- The addresses of the stub. -/
def stubAddresses : List Bytes := [bytes "127.0.0.53", bytes "127.0.0.54"]

def onlyUsesStub (sawNameserver : Bool) : List Bytes → Bool
  | [] => sawNameserver
  | line :: rest =>
      let line := trimStart line
      if line.isEmpty || line.head? = some 35 then onlyUsesStub sawNameserver rest
      else
        let fields := splitWhitespace line
        if fields.head? ≠ some (bytes "nameserver") then onlyUsesStub sawNameserver rest
        else if fields.tail.head?.any stubAddresses.contains then onlyUsesStub true rest
        else false

def resolvConfOnlyUsesResolvedStub (content : Bytes) : Bool := onlyUsesStub false (lines content)

def isManagedByResolved : Io Bool := do
  if ← resolvConfSymlinkPointsToResolved then pure true
  else
    match ← Fs.readToString resolvConf with
    | .error _ => pure false
    | .ok content => pure (resolvConfOnlyUsesResolvedStub content)

/-- An address that the detector takes for the stub. -/
def IsStub (server : IpAddr) : Prop :=
  server = .v4 ⟨127, 0, 0, 53⟩ ∨ server = .v4 ⟨127, 0, 0, 54⟩

instance (server : IpAddr) : Decidable (IsStub server) := inferInstanceAs (Decidable (_ ∨ _))

section Rendered

variable {owner : Bytes} {servers : List IpAddr} {sawNameserver : Bool} {rest : List Bytes}

theorem onlyUsesStub_comment (text : Bytes) :
    onlyUsesStub sawNameserver ((35 :: text) :: rest) = onlyUsesStub sawNameserver rest := by
  rw [onlyUsesStub, trimStart_solid (by decide)]
  simp

theorem mem_stubAddresses (server : IpAddr) :
    stubAddresses.contains server.display = true ↔ IsStub server := by
  have first : bytes "127.0.0.53" = (Ipv4Addr.mk 127 0 0 53).display := by decide
  have second : bytes "127.0.0.54" = (Ipv4Addr.mk 127 0 0 54).display := by decide
  simp [stubAddresses, first, second, IpAddr.display_eq_v4, IsStub]

theorem solid_addrByte {x : UInt8} (h : AddrByte x) : Solid x := by
  have low : ∀ e ∈ whitespace, ∀ y, e.head? = some y → y < 46 ∨ 102 < y := by
    simp [whitespace]
  intro encoding mem head
  have outside := low encoding mem x head
  simp only [UInt8.lt_iff_toNat_lt, UInt8.reduceToNat] at outside
  rcases h with ⟨ge, le⟩ | ⟨ge, le⟩ | rfl
  · simp only [UInt8.le_iff_toNat_le, UInt8.reduceToNat] at ge le
    omega
  · simp only [UInt8.le_iff_toNat_le, UInt8.reduceToNat] at ge le
    omega
  · exact absurd outside (by decide)

theorem onlyUsesStub_nameserver (server : IpAddr) :
    onlyUsesStub sawNameserver ((bytes "nameserver " ++ server.display) :: rest) =
      (decide (IsStub server) && onlyUsesStub true rest) := by
  obtain ⟨x, text, shown⟩ := List.exists_cons_of_ne_nil server.display_ne_nil
  have solid : ∀ z ∈ x :: text, Solid z := fun z mem =>
    solid_addrByte (server.addrByte_display z (shown ▸ mem))
  have word : bytes "nameserver" = 110 :: bytes "ameserver" := by decide
  have fields : splitWhitespace (110 :: bytes "ameserver" ++ 32 :: (x :: text)) =
      [110 :: bytes "ameserver", x :: text] := splitWhitespace_pair (by decide) solid
  have line : bytes "nameserver " ++ server.display =
      110 :: bytes "ameserver" ++ 32 :: (x :: text) := by
    rw [show bytes "nameserver " = 110 :: bytes "ameserver" ++ [32] by decide, shown,
      List.append_assoc, List.singleton_append]
  have member : decide (x :: text ∈ stubAddresses) = decide (IsStub server) := by
    have iff := mem_stubAddresses server
    rw [shown, List.contains_iff_mem] at iff
    exact decide_eq_decide.mpr iff
  rw [line, onlyUsesStub, List.cons_append, trimStart_solid (by decide)]
  simp only [← List.cons_append, fields]
  by_cases stub : IsStub server <;> simp_all

theorem onlyUsesStub_servers (servers : List IpAddr) (sawNameserver : Bool) :
    onlyUsesStub sawNameserver (servers.map fun server => bytes "nameserver " ++ server.display) =
      ((sawNameserver || !servers.isEmpty) &&
        servers.all fun server => decide (IsStub server)) := by
  induction servers generalizing sawNameserver with
  | nil => simp [onlyUsesStub]
  | cons server servers ih => simp [onlyUsesStub_nameserver, ih]

/-- The detector takes a generated file for the stub's exactly when all its servers are
the stub's addresses. -/
theorem resolvConfOnlyUsesResolvedStub_render (valid : ValidOwner owner) :
    resolvConfOnlyUsesResolvedStub (renderResolvConf owner servers) =
      (!servers.isEmpty && servers.all fun server => decide (IsStub server)) := by
  have first : headerPrefix = 35 :: bytes " setdns owner: " := by decide
  have second : bytes
      "# This file was written by setdns and will be restored when the handle closes." = 35 :: bytes
      " This file was written by setdns and will be restored when the handle closes." := by decide
  rw [resolvConfOnlyUsesResolvedStub, lines_renderResolvConf valid, first, second,
    List.cons_append, onlyUsesStub_comment, onlyUsesStub_comment, onlyUsesStub_servers]
  simp

end Rendered

example : resolvConfOnlyUsesResolvedStub
    (bytes "# nameserver 1.1.1.1\nnameserver 127.0.0.54\n\tnameserver  127.0.0.53 #\noptions edns0\n")
      = true := by decide

example : resolvConfOnlyUsesResolvedStub
    (bytes "nameserver 127.0.0.53\nnameserver 1.1.1.1\n") = false := by decide

section Reading

variable (walk : Bytes → Bytes) {fs : Fs} {content : Bytes}

theorem isManagedByResolved_quiet (fs : Fs) :
    Safe (faulty walk) (fun _ => True) (fun _ fs' => fs' = fs) isManagedByResolved fs := by
  have read : ∀ answer : Bool, Safe (faulty walk) (fun _ => True) (fun _ fs' => fs' = fs)
      (if answer then pure true else do
        match ← Fs.readToString resolvConf with
        | .error _ => pure false
        | .ok content => pure (resolvConfOnlyUsesResolvedStub content)) fs := by
    intro answer
    cases answer with
    | true => exact ⟨trivial, rfl⟩
    | false =>
        refine Safe.quiet (quiet_faulty trivial) trivial fun r _ => ?_
        cases r <;> exact ⟨trivial, rfl⟩
  refine (safe_bind _ _).mpr (Safe.post (Q := fun _ fs' => fs' = fs)
    (Safe.quiet (quiet_faulty trivial) trivial fun r _ => ?_) ?_)
  · cases r with
    | error e => exact ⟨trivial, rfl⟩
    | ok symlink =>
        cases symlink with
        | false => exact ⟨trivial, rfl⟩
        | true =>
            refine Safe.quiet (quiet_faulty trivial) trivial fun r _ => ?_
            cases r <;> exact ⟨trivial, rfl⟩
  · rintro answer _ - rfl
    exact read answer

/-- A regular file is judged by its content. -/
theorem isManagedByResolved_calm (file : fs resolvConf = some (.file content))
    (text : Utf8 content) : Yields (calm walk) isManagedByResolved fs
      (resolvConfOnlyUsesResolvedStub content) fs := by
  have plain : Plain fs resolvConf := plain_iff.mpr (.inr ⟨content, file⟩)
  have symlink : perform walk false fs (.isSymlink resolvConf) = (.ok false, fs) := by
    simp [perform, file]
  refine Yields.bind (calm_yields (by simp) symlink (.ret _ _)) ?_
  exact calm_yields (by simp) (perform_read plain file text) (.ret _ _)

end Reading

end Setdns.Linux.ResolvConf
