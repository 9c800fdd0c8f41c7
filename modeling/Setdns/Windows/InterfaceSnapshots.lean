import Setdns.Windows.Restoring

/-!
Handles of one interface where no call fails. A handle remembers what its
application overwrote, and closing it writes that back, whatever is there by then.
-/

namespace Setdns.Windows.Interface

open Text Effects Effects.Program Effects.Registry Effects.NetSettings
open Nrpt (bracedGuid fold Machine)

variable {order : Enumeration} {platform : Platform} {s s' : Machine} {path : KeyPath}
  {guid : Guid} {device : Bytes}

section Texts

theorem wellformed_overlay {shot : Snapshots.Shot Cell (Option Value)}
    (texts : ∀ i value, shot i = some (some value) → ∃ text, value = .string text)
    (well : Wellformed guid s) (written : view s' = Snapshots.overlay shot (view s)) :
    Wellformed guid s' := by
  intro family value held
  rw [written] at held
  cases covered : shot (cell ⟨family.registryBase, bracedGuid guid⟩ nameServer) with
  | none =>
      simp only [Snapshots.overlay, covered, Option.getD_none] at held
      exact well family value held
  | some data =>
      simp only [Snapshots.overlay, covered, Option.getD_some] at held
      exact texts _ value (held ▸ covered)

theorem shotIf_texts {snapshot : Option NameServerSnapshot} {i : Cell} {value : Value}
    (held : shotIf snapshot i = some (some value)) : ∃ text, value = .string text := by
  obtain ⟨snapshot, -, kept⟩ := Option.bind_eq_some_iff.mp held
  split at kept
  · obtain ⟨text, -, rfl⟩ := Option.map_eq_some_iff.mp (Option.some.inj kept)
    exact ⟨text, rfl⟩
  · cases kept

theorem newIf_texts {wanted : Bool} {text : Bytes} {i : Cell} {value : Value}
    (held : newIf wanted path text i = some (some value)) : ∃ text, value = .string text := by
  unfold newIf at held
  split at held
  · exact ⟨text, (Option.some.inj (Option.some.inj held)).symm⟩
  · cases held

theorem above_texts {later earlier : Snapshots.Shot Cell (Option Value)}
    (hl : ∀ i value, later i = some (some value) → ∃ text, value = .string text)
    (he : ∀ i value, earlier i = some (some value) → ∃ text, value = .string text) (i : Cell)
    (value : Value) (held : Snapshots.above later earlier i = some (some value)) :
    ∃ text, value = .string text := by
  unfold Snapshots.above at held
  rcases Option.or_eq_some_iff.mp held with late | ⟨-, early⟩
  · exact hl i value late
  · exact he i value early

end Texts

section Apply

theorem setDnsIf_spec (family : AddressFamily) (nameservers : Bytes) (s : Machine) :
    Safe (calm order platform) (fun _ => True)
      (fun r t => r = .ok () → view t = Snapshots.overlay
        (newIf (!nameservers.isEmpty) ⟨family.registryBase, bracedGuid guid⟩
          (fromWide (utf16NullTerminated nameservers))) (view s))
      (setDnsIf device guid family nameservers).run s := by
  cases empty : nameservers.isEmpty with
  | true =>
      simp only [setDnsIf, empty]
      refine ⟨trivial, fun _ => ?_⟩
      funext i
      simp [Snapshots.overlay, newIf]
  | false =>
      simp only [setDnsIf, empty]
      refine ask_spec fun code t a => ?_
      have performed : NetSettings.perform platform bracedGuid s
        (.setInterfaceDnsSettings guid family.flags (utf16NullTerminated nameservers)) =
          (code, t) := a
      simp only [NetSettings.perform, familyBase_flags] at performed
      split at performed
      · rename_i s' written
        obtain ⟨rfl, rfl⟩ := Prod.mk.inj performed
        refine ⟨trivial, fun _ => ?_⟩
        rw [view_write written]
        funext i
        by_cases here : i = cell ⟨family.registryBase, bracedGuid guid⟩ nameServer
        · simp [Snapshots.overlay, newIf, here]
        · simp [Snapshots.overlay, newIf, here]
      · obtain ⟨rfl, rfl⟩ := Prod.mk.inj performed
        exact ⟨trivial, by simp⟩

theorem setDns_spec (ipv4 ipv6 : Bytes) (s : Machine) :
    Safe (calm order platform) (fun _ => True)
      (fun r t => r = .ok () → view t = Snapshots.overlay (Snapshots.above
        (newIf (!ipv6.isEmpty) ⟨ipv6Base, bracedGuid guid⟩ (fromWide (utf16NullTerminated ipv6)))
        (newIf (!ipv4.isEmpty) ⟨ipv4Base, bracedGuid guid⟩ (fromWide (utf16NullTerminated ipv4))))
          (view s))
      (setDns device guid ipv4 ipv6).run s := by
  refine Safe.tryBind (setDnsIf_spec .ipv4 ipv4 s) ?_ (by simp)
  rintro _ s₁ - first
  refine (setDnsIf_spec .ipv6 ipv6 s₁).post ?_
  rintro r t - second ok
  rw [second ok, first rfl, Snapshots.overlay_above]
  rfl

theorem faulty_of_calm {c : Call} {r : Call.Ret c} (a : (calm order platform).answers s c r s') :
    (faulty order platform).answers s c r s' :=
  (rolling_of_calm a).1

/-- What an application does to the registry when it returns a handle. -/
theorem apply_spec (named : Names platform device guid) (well : Wellformed guid s)
    (servers : List IpAddr) :
    Safe (calm order platform) (fun _ => True)
      (fun r t => ∀ handle, r = .ok (some handle) →
        view t = Snapshots.overlay (new guid servers) (view s) ∧
        shot handle = Snapshots.take (new guid servers) (view s))
      (apply device servers).run s := by
  refine apply_safe (fun _ _ _ _ => faulty_of_calm) (by simp) (by simp)
    fun found snapshots _ named' read => ?_
  obtain rfl := named.unique named'
  obtain ⟨-, taken⟩ := (safe_calm (read_spec well _ _
    (fromWide (utf16NullTerminated (nameserversByFamily servers).1))
    (fromWide (utf16NullTerminated (nameserversByFamily servers).2)))).ends read
  obtain ⟨-, -, taken⟩ := taken snapshots rfl
  rw [glimpse_all] at taken
  refine Safe.lift ((setDns_spec _ _ s).post ?_)
  rintro (error | _) t - written
  · exact Safe.lift ((safe_calm (restore_spec snapshots t)).post fun _ _ _ _ => ⟨trivial, by simp⟩)
  · refine ⟨trivial, ?_⟩
    rintro _ ⟨⟩
    exact ⟨written rfl, taken⟩

end Apply

section Snapshots

/-- An application under some name of the interface that returns a handle. -/
def Opens (order : Enumeration) (platform : Platform) (guid : Guid) (s : Machine)
    (handle : InterfaceDns) (s' : Machine) : Prop :=
  ∃ device servers, Names platform device guid ∧
    Ends (calm order platform) (apply device servers).run s (.ok (some handle)) s'

def Closes (order : Enumeration) (platform : Platform) (s : Machine) (handle : InterfaceDns)
    (s' : Machine) : Prop :=
  Ends (calm order platform) (close handle).run s (.ok ()) s'

theorem snapshotting :
    Snapshots.Snapshotting (Opens order platform guid) (Closes order platform) (Wellformed guid)
      view shot where
  opens := by
    rintro s handle s' well ⟨device, servers, named, ended⟩
    obtain ⟨written, taken⟩ := (apply_spec named well servers).ends ended handle rfl
    refine ⟨wellformed_overlay ?_ well written, new guid servers, written, taken⟩
    exact above_texts (fun _ _ => newIf_texts) fun _ _ => newIf_texts
  closes := by
    intro s handle s' well ended
    have written := ((safe_calm (restore_spec handle.snapshots s)).ends ended).2 rfl
    refine ⟨wellformed_overlay ?_ well written, written⟩
    exact above_texts (fun _ _ => shotIf_texts) fun _ _ => shotIf_texts

end Snapshots

end Setdns.Windows.Interface
