import Setdns.Config.Domains
import Setdns.Macos.Resolver

/-!
Where the paths of a domain lead and what the lines of its file are. The checks
of a domain look at its dots only. A slash, a line feed, a trailing carriage
return or a long name pass them, and the backend joins whatever passed to its
directory and puts it on a line of its own.
-/

namespace Setdns.Macos.Resolver

open Text Effects.Directory

/-- The path of a single file name directly in the resolver directory. -/
def Inside (path : Bytes) : Prop :=
  ∃ name, FileName name ∧ components path = name :: components resolverDir

/-- Both paths of a domain stay in the directory and its file has the intended
lines. -/
structure Confined (owner domain : Bytes) (servers : List IpAddr) : Prop where
  path : Inside (resolverPath domain)
  tempPath : Inside (resolverPath (domain ++ tempSuffix))
  lines : lines (renderResolver owner domain servers) =
    ownerHeader owner :: (bytes "domain " ++ domain) ::
      servers.map fun server => bytes "nameserver " ++ server.display

/-- A short name without slash and NUL, possibly behind an absolute spelling of
the directory, on one line. -/
def Contained (domain : Bytes) : Prop :=
  lf ∉ domain ∧ domain.getLast? ≠ some cr ∧
    ∃ front name, domain = front ++ name ∧ slash ∉ name ∧ nul ∉ name ∧ name ≠ [] ∧
      name.length ≤ 244 ∧
      (front = [] ∨
        [slash] <+: front ∧ [slash] <:+ front ∧ components front = components resolverDir)

section Lines

variable {owner domain : Bytes}

theorem lf_not_mem_ownerHeader (valid : ValidOwner owner) : lf ∉ ownerHeader owner := by
  have fixed : lf ∉ bytes "# Added by setdns (" ∧ lf ∉ bytes ")" := by decide
  simp only [ownerHeader, List.mem_append, not_or]
  exact ⟨⟨fixed.1, valid.lf_not_mem⟩, fixed.2⟩

/-- The header ends with a parenthesis, so no carriage return is dropped from it. -/
theorem lines_ownerHeader (valid : ValidOwner owner) (rest : Bytes) :
    lines (ownerHeader owner ++ lf :: rest) = ownerHeader owner :: lines rest := by
  have last : (ownerHeader owner).getLast? ≠ some cr := by
    have fixed : (bytes ")").getLast? = some 41 := by decide
    simp [ownerHeader, List.getLast?_append, fixed, cr]
  rw [lines_cons _ _ (lf_not_mem_ownerHeader valid), if_neg last]

theorem render_eq (owner domain : Bytes) (servers : List IpAddr) :
    renderResolver owner domain servers = ownerHeader owner ++ lf :: ((bytes "domain " ++ domain) ++
      lf :: servers.flatMap fun server => bytes "nameserver " ++ server.display ++ [lf]) := by
  simp [renderResolver]

theorem hasOwnerHeader_render (valid : ValidOwner owner) (domain : Bytes)
    (servers : List IpAddr) :
    hasOwnerHeader (renderResolver owner domain servers) owner = true := by
  simp [hasOwnerHeader, render_eq, lines_ownerHeader valid]

theorem ascii_render (valid : ValidOwner owner) (ascii : Ascii domain) (servers : List IpAddr) :
    Ascii (renderResolver owner domain servers) := by
  have texts : Ascii (bytes "# Added by setdns (") ∧ Ascii (bytes ")") ∧ Ascii (bytes "domain ") ∧
      Ascii [lf] := by
    decide
  simp only [renderResolver, ownerHeader, ascii_append]
  exact ⟨⟨⟨⟨⟨⟨⟨texts.1, valid.ascii⟩, texts.2.1⟩, texts.2.2.2⟩, texts.2.2.1⟩, ascii⟩,
    texts.2.2.2⟩, ascii_nameservers servers⟩

theorem marked_render (valid : ValidOwner owner) (ascii : Ascii domain) (servers : List IpAddr) :
    Marked owner (renderResolver owner domain servers) :=
  ⟨(ascii_render valid ascii servers).utf8, hasOwnerHeader_render valid domain servers⟩

theorem marked_of_normalized {parseDnsName : Bytes → Except Bytes Unit} {config : Config}
    {normalized : NormalizedConfig} (accepted : config.normalize parseDnsName = .ok normalized)
    {s : DomainSuffix} (mem : s ∈ normalized.domains) :
    Marked normalized.owner (renderResolver normalized.owner s.domain normalized.servers) := by
  obtain ⟨valid, canonical, passed⟩ := normalize_eq_ok accepted
  rw [canonical] at mem
  exact marked_render valid (canonical_wellFormed passed mem).2 _

/-- The file has the intended lines if and only if the domain stays on its line. -/
theorem lines_render_iff (valid : ValidOwner owner) (domain : Bytes) (servers : List IpAddr) :
    lines (renderResolver owner domain servers) =
        ownerHeader owner :: (bytes "domain " ++ domain) ::
          (servers.map fun server => bytes "nameserver " ++ server.display) ↔
      lf ∉ domain ∧ domain.getLast? ≠ some cr := by
  have word : lf ∉ bytes "domain " := by decide
  rw [render_eq, lines_ownerHeader valid]
  by_cases hlf : lf ∈ domain
  · -- the domain's first line is shorter than the domain
    refine iff_of_false (fun h => ?_) (fun h => h.1 hlf)
    obtain ⟨first, rest, rfl, hfirst⟩ := List.eq_append_cons_of_mem hlf
    have hline : lf ∉ bytes "domain " ++ first := by
      simp only [List.mem_append, not_or]
      exact ⟨word, hfirst⟩
    rw [← List.append_assoc, List.append_assoc _ (lf :: rest), List.cons_append,
      lines_cons _ _ hline] at h
    have short := congrArg List.length (List.cons.inj (List.cons.inj h).2).1
    split at short <;>
      simp only [List.length_dropLast, List.length_append, List.length_cons] at short <;> omega
  · have hline : lf ∉ bytes "domain " ++ domain := by
      simp only [List.mem_append, not_or]
      exact ⟨word, hlf⟩
    have last : (bytes "domain " ++ domain).getLast? = some cr ↔ domain.getLast? = some cr := by
      have space : (bytes "domain ").getLast? = some 32 := by decide
      cases h : domain.getLast? <;> simp [List.getLast?_append, h, space, cr]
    rw [lines_cons _ _ hline, lines_servers]
    by_cases hcr : domain.getLast? = some cr
    · -- the line loses its last byte
      rw [if_pos (last.mpr hcr)]
      refine iff_of_false (fun h => ?_) (fun h => h.2 hcr)
      have short := congrArg List.length (List.cons.inj (List.cons.inj h).2).1
      have long := List.length_pos_of_mem (List.mem_of_getLast? hcr)
      simp only [List.length_dropLast, List.length_append] at short
      omega
    · rw [if_neg fun h => hcr (last.mp h)]
      exact iff_of_true rfl ⟨hlf, hcr⟩

end Lines

section Paths

variable {domain front name : Bytes}

theorem components_part (h : slash ∉ name) :
    components name = if name = [] ∨ name = [dot] then [] else [name] := by
  rw [components, List.splitOn_eq_singleton h]
  by_cases empty : name = []
  · simp [empty]
  · by_cases single : name = [dot] <;> simp [empty, single]

theorem components_slash (front : Bytes) : components (front ++ [slash]) = components front :=
  components_append front []

theorem resolverPath_relative (h : ¬ [slash] <+: domain) :
    resolverPath domain = resolverDir ++ slash :: domain := by
  have base : ¬ (resolverDir = [] ∨ [slash] <:+ resolverDir) := by decide
  rw [resolverPath, join, if_neg h, if_neg base]

theorem resolverPath_absolute (h : [slash] <+: domain) : resolverPath domain = domain := by
  rw [resolverPath, join, if_pos h]

theorem components_relative (h : ¬ [slash] <+: domain) :
    components (resolverPath domain) = components domain ++ components resolverDir := by
  rw [resolverPath_relative h, components_append]

theorem slash_not_mem_tempSuffix : slash ∉ tempSuffix := by decide
theorem nul_not_mem_tempSuffix : nul ∉ tempSuffix := by decide
theorem length_tempSuffix : tempSuffix.length = 11 := by decide

theorem slash_not_mem_temp (h : slash ∉ name) : slash ∉ name ++ tempSuffix := by
  rw [List.mem_append, not_or]
  exact ⟨h, slash_not_mem_tempSuffix⟩

theorem components_temp (h : slash ∉ name) :
    components (name ++ tempSuffix) = [name ++ tempSuffix] := by
  rw [components_part (slash_not_mem_temp h), if_neg]
  have long : 1 < (name ++ tempSuffix).length := by
    rw [List.length_append, length_tempSuffix]
    omega
  rintro (empty | single)
  · simp [empty] at long
  · simp [single] at long

theorem fileName_temp_iff (h : slash ∉ name) :
    FileName (name ++ tempSuffix) ↔ nul ∉ name ∧ name.length ≤ 244 := by
  have len := length_tempSuffix
  constructor
  · intro valid
    have short := valid.short
    rw [List.length_append] at short
    exact ⟨fun hn => valid.noNul (List.mem_append_left _ hn), by omega⟩
  · rintro ⟨hn, short⟩
    have long : 2 < (name ++ tempSuffix).length := by
      rw [List.length_append]
      omega
    refine ⟨fun e => ?_, fun e => ?_, fun e => ?_, slash_not_mem_temp h, ?_, ?_⟩
    · simp [e] at long
    · simp [e] at long
    · simp [e] at long
    · rw [List.mem_append, not_or]
      exact ⟨hn, nul_not_mem_tempSuffix⟩
    · rw [List.length_append]
      omega

/-- A name at the end of a contained domain stands directly in the directory. -/
theorem inside_of_front (valid : FileName name)
    (h : front = [] ∨ [slash] <+: front ∧ [slash] <:+ front ∧
      components front = components resolverDir) : Inside (resolverPath (front ++ name)) := by
  refine ⟨name, valid, ?_⟩
  rcases h with rfl | ⟨absolute, ⟨base, rfl⟩, same⟩
  · have relative : ¬ [slash] <+: name := fun h => valid.noSlash (h.subset List.mem_cons_self)
    rw [List.nil_append, components_relative relative, components_name valid, List.singleton_append]
  · rw [resolverPath_absolute (absolute.trans (List.prefix_append _ _)), List.append_assoc,
      List.singleton_append, components_append, components_name valid, ← components_slash base, same,
      List.singleton_append]

theorem exists_last_slash (h : slash ∈ domain) :
    ∃ base last, domain = base ++ slash :: last ∧ slash ∉ last := by
  obtain ⟨after, before, split, first⟩ := List.eq_append_cons_of_mem (List.mem_reverse.mpr h)
  refine ⟨before.reverse, after.reverse, ?_, by simpa using first⟩
  rw [← List.reverse_reverse domain, split]
  simp

/-- What stands before a slash leads somewhere when it starts with a name. -/
theorem components_ne_nil {base : Bytes} (nonempty : base ≠ []) (relative : ¬ [slash] <+: base)
    (name : ¬ [dot] <+: base) : components base ≠ [] := by
  obtain ⟨x, base, rfl⟩ := List.exists_cons_of_ne_nil nonempty
  have hx : x ≠ slash := fun h => relative (h ▸ ⟨base, rfl⟩)
  have hd : x ≠ dot := fun h => name (h ▸ ⟨base, rfl⟩)
  obtain ⟨part, parts, split⟩ := List.exists_cons_of_ne_nil (List.splitOn_ne_nil slash base)
  rw [components, List.splitOn_cons_eq_if_modifyHead]
  simp [hx, split, hd]

/-- A relative domain with a slash puts its temporary file below another directory. -/
theorem absolute_of_inside {base last : Bytes} (noDot : ¬ [dot] <+: base ++ slash :: last)
    (hl : slash ∉ last) (inside : Inside (resolverPath ((base ++ slash :: last) ++ tempSuffix))) :
    [slash] <+: base ++ slash :: last := by
  by_contra relative
  have start : ∀ x, ¬ [x] <+: base ++ slash :: last → ¬ [x] <+: base := fun x h start =>
    h (start.trans (List.prefix_append _ _))
  have nonempty : base ≠ [] := by
    rintro rfl
    exact relative ⟨last, rfl⟩
  have temp : (base ++ slash :: last) ++ tempSuffix = base ++ slash :: (last ++ tempSuffix) := by
    simp
  have relative' : ¬ [slash] <+: base ++ slash :: (last ++ tempSuffix) := by
    obtain ⟨x, rest, rfl⟩ := List.exists_cons_of_ne_nil nonempty
    simpa using relative
  obtain ⟨name, _, same⟩ := inside
  rw [temp, components_relative relative', components_append, components_temp hl,
    List.append_assoc, List.singleton_append] at same
  exact components_ne_nil nonempty (start slash relative) (start dot noDot)
    (List.append_left_eq_self.mp (List.cons.inj same).2)

end Paths

section Domains

variable {owner domain : Bytes} {servers : List IpAddr}

theorem contained_confined (valid : ValidOwner owner) (noDot : ¬ [dot] <:+ domain)
    (h : Contained domain) : Confined owner domain servers := by
  obtain ⟨hlf, hcr, front, name, rfl, hs, hn, hne, short, place⟩ := h
  have ends : ∀ rest, name = rest ++ [dot] → False := fun rest h =>
    noDot (h ▸ ⟨front ++ rest, by simp⟩)
  have file : FileName name :=
    ⟨hne, ends [], ends [dot], hs, hn, short.trans (by decide)⟩
  refine ⟨inside_of_front file place, ?_, (lines_render_iff valid _ servers).mpr ⟨hlf, hcr⟩⟩
  rw [List.append_assoc]
  exact inside_of_front ((fileName_temp_iff hs).mpr ⟨hn, short⟩) place

theorem confined_contained (valid : ValidOwner owner) (nonempty : domain ≠ [])
    (noDot : ¬ [dot] <+: domain) (h : Confined owner domain servers) : Contained domain := by
  obtain ⟨hlf, hcr⟩ := (lines_render_iff valid domain servers).mp h.lines
  refine ⟨hlf, hcr, ?_⟩
  by_cases slashed : slash ∈ domain
  · obtain ⟨base, last, rfl, hl⟩ := exists_last_slash slashed
    have absolute := absolute_of_inside noDot hl h.tempPath
    obtain ⟨temp, tempValid, tempSame⟩ := h.tempPath
    obtain ⟨name, nameValid, same⟩ := h.path
    rw [resolverPath_absolute (absolute.trans (List.prefix_append _ _)), List.append_assoc,
      List.cons_append, components_append, components_temp hl, List.singleton_append,
      List.cons.injEq] at tempSame
    rw [resolverPath_absolute absolute, components_append, tempSame.2] at same
    obtain ⟨hn, short⟩ := (fileName_temp_iff hl).mp (tempSame.1 ▸ tempValid)
    refine ⟨base ++ [slash], last, by simp, hl, hn, ?_, short,
      .inr ⟨?_, List.suffix_append _ _, ?_⟩⟩
    · rintro rfl
      simp [components] at same
    · refine List.prefix_of_prefix_length_le absolute ⟨last, by simp⟩ ?_
      simp
    · rw [components_slash, tempSame.2]
  · have relative : ¬ [slash] <+: domain := fun h => slashed (h.subset List.mem_cons_self)
    have relative' : ¬ [slash] <+: domain ++ tempSuffix := fun h =>
      slash_not_mem_temp slashed (h.subset List.mem_cons_self)
    obtain ⟨temp, tempValid, tempSame⟩ := h.tempPath
    rw [components_relative relative', components_temp slashed, List.singleton_append,
      List.cons.injEq] at tempSame
    obtain ⟨hn, short⟩ := (fileName_temp_iff slashed).mp (tempSame.1 ▸ tempValid)
    exact ⟨[], domain, rfl, slashed, hn, nonempty, short, .inl rfl⟩

/-- A domain of a normalised configuration keeps to its directory and its file
format if and only if it is a name that fits. -/
theorem confined_iff (parseDnsName : Bytes → Except Bytes Unit) {config : Config}
    {normalized : NormalizedConfig} (accepted : config.normalize parseDnsName = .ok normalized)
    {suffix : DomainSuffix} (mem : suffix ∈ normalized.domains) :
    Confined normalized.owner suffix.domain normalized.servers ↔ Contained suffix.domain := by
  obtain ⟨valid, canonical, passed⟩ := normalize_eq_ok accepted
  rw [canonical] at mem
  obtain ⟨wellFormed, -⟩ := canonical_wellFormed passed mem
  simp only [not_or] at wellFormed
  exact ⟨confined_contained valid (by simpa using wellFormed.1) wellFormed.2.2.1,
    contained_confined valid wellFormed.2.2.2.1⟩

/-- The checks of RFC 2181: nothing but lengths. -/
def rfc2181 (name : Bytes) : Except Bytes Unit :=
  if (∀ label ∈ labels name, 1 ≤ label.length ∧ label.length ≤ 63) ∧ name.length ≤ 253 then .ok ()
  else .error []

set_option maxRecDepth 4000 in
theorem confined_sample :
    Confined (bytes "tests") (bytes "corp.internal") [.v4 ⟨10, 0, 0, 53⟩] := by
  have accepted : (sampleConfig ["corp.internal"]).normalize rfc2181 =
      .ok (sampleNormalized ["corp.internal"]) := by
    decide
  have contained : Contained (bytes "corp.internal") :=
    ⟨by decide, by decide, [], bytes "corp.internal", by decide⟩
  exact (confined_iff rfc2181 accepted (List.mem_singleton_self _)).mpr contained

set_option maxRecDepth 4000 in
/-- The RFC 2181 checks accept a whole path as one label. -/
theorem absolute_domain_leaves_directory :
    ¬ ∀ (config : Config) (normalized : NormalizedConfig),
      config.normalize rfc2181 = .ok normalized →
      ∀ suffix ∈ normalized.domains,
        Confined normalized.owner suffix.domain normalized.servers := by
  intro h
  have accepted : (sampleConfig ["/etc/passwd"]).normalize rfc2181 =
      .ok (sampleNormalized ["/etc/passwd"]) := by
    decide
  obtain ⟨name, _, same⟩ := (h _ _ accepted _ (List.mem_singleton_self _)).path
  have leads : components (resolverPath (bytes "/etc/passwd")) = [bytes "passwd", bytes "etc"] := by
    decide
  have directory : components resolverDir = [bytes "resolver", bytes "etc"] := by decide
  rw [directory] at same
  cases leads.symm.trans same

end Domains

end Setdns.Macos.Resolver
