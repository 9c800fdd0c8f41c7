import Setdns.Effects.Links
import Setdns.Linux.ResolvConf

/-!
What each file-system helper of the backend can have done at any point where it
stops, when every call may fail. Later proofs cite these frames and never look
inside the helpers again.
-/

namespace Setdns.Linux.ResolvConf

open Text Effects Effects.Program Effects.Files

variable (walk : Bytes → Bytes) {fs : Fs} {src dst : Bytes}

/-- A failed answer, given its own type, is still a failed answer. -/
theorem ok_of_mapError {ε ε' : Type} {f : ε → ε'} {r : Except ε Unit} (h : r.mapError f = .ok ()) :
    r = .ok () := by
  cases r with
  | ok _ => rfl
  | error _ => cases h

section Rules

/-! The steps of the helpers for any invariant. -/

variable {I : Fs → Prop} {Q : Except ResolvConfError Unit → Fs → Prop} {path : Bytes}

theorem removeFile_safe {operation : String} (here : I fs) (gone : I (unlink fs path))
    (failed : ∀ e, Q (.error e) fs) (removed : ∀ r, Q r (unlink fs path)) :
    Safe (faulty walk) I Q (mapErr (Fs.removeFile path) (mapIo operation path)).run fs := by
  refine Safe.mapErr ⟨here, fun fs' torn => ?_, fun r fs' answer => ?_⟩
  · cases torn_removeFile torn with
    | inl same => exact same ▸ here
    | inr cut => exact cut ▸ gone
  · cases faulty_removeFile answer with
    | inl refused =>
        obtain ⟨refused, rfl⟩ := refused
        cases r with
        | ok _ => exact absurd rfl refused
        | error e => exact ⟨here, failed _⟩
    | inr done => exact done ▸ ⟨gone, removed _⟩

/-- The entry is moved, or nothing happens, or the busy route takes over. -/
theorem rename_safe (here : I fs) (failed : ∀ e, Q (.error e) fs)
    (moved : fs src ≠ none → I (move fs src dst) ∧ Q (.ok ()) (move fs src dst))
    (busy : Safe (faulty walk) I Q
      (do copyWithFsync src dst
          mapErr (Fs.removeFile src) (mapIo "remove" src) : Result Unit).run fs) :
    Safe (faulty walk) I Q (rename src dst).run fs := by
  refine Safe.lift ⟨here, fun fs' torn => ?_, fun r fs' answer => ?_⟩
  · cases torn_rename torn with
    | inl same => exact same ▸ here
    | inr cut => exact cut.2 ▸ (moved cut.1).1
  · cases faulty_rename answer with
    | inl refused =>
        obtain ⟨refused, rfl⟩ := refused
        cases r with
        | ok _ => exact absurd rfl refused
        | error source =>
            refine ⟨here, ?_⟩
            by_cases other : source.rawOsError = some EBUSY
            · simpa only [other, ite_true] using busy
            · simp only [other, ite_false]
              exact ⟨here, failed _⟩
    | inr done =>
        obtain ⟨there, rfl, rfl⟩ := done
        exact ⟨(moved there).1, moved there⟩

end Rules

theorem copyWithFsync_frame (hs : Plain fs src) (hd : Plain fs dst) (hne : src ≠ dst) :
    Safe (faulty walk) (CopiedPart fs src dst)
      (fun r fs' => r = .ok () → ∃ content, fs src = some (.file content) ∧
        fs' = Function.update fs dst (some (.file content)))
      (copyWithFsync src dst).run fs := by
  refine Safe.tryBind (M := fun r fs' => r = .ok () → ∃ content,
    fs src = some (.file content) ∧ fs' = Function.update fs dst (some (.file content)))
    (Safe.mapErr ⟨.inl rfl, fun _ torn => torn_copy hs hd hne torn, ?_⟩) ?_ (by simp)
  · intro r fs' answer
    obtain ⟨part, full⟩ := faulty_copy hs hd hne answer
    exact ⟨part, fun hr => full (ok_of_mapError hr)⟩
  · intro _ fs₁ part copied
    -- opening and syncing the copy changes nothing
    refine Safe.tryBind (M := fun _ fs' => fs' = fs₁)
      (Safe.mapErr (Safe.quiet (quiet_faulty trivial) part fun _ _ => ⟨part, rfl⟩)) ?_ (by simp)
    rintro _ _ - rfl
    exact Safe.mapErr (Safe.quiet (quiet_faulty trivial) part
      fun _ _ => ⟨part, fun _ => copied rfl⟩)

theorem rename_frame (hs : Plain fs src) (hd : Plain fs dst) (hne : src ≠ dst) :
    Safe (faulty walk) (MovedPart fs src dst)
      (fun r fs' => r = .ok () → (∃ content, fs src = some (.file content)) ∧
        fs' = move fs src dst)
      (rename src dst).run fs := by
  have start : MovedPart fs src dst fs := .inl (.inl rfl)
  refine rename_safe walk start (by simp)
    (fun there => ⟨.inr ⟨hs.file there, rfl⟩, fun _ => ⟨hs.file there, rfl⟩⟩) ?_
  have copy := (copyWithFsync_frame walk hs hd hne).imp
    (fun _ part => (.inl part : MovedPart fs src dst _)) (fun _ _ _ full => full)
  refine Safe.tryBind copy ?_ (by simp)
  intro _ fs₁ copied full
  obtain ⟨content, hsrc, rfl⟩ := full rfl
  have gone := unlink_update hne hsrc
  refine removeFile_safe walk copied (.inr ⟨⟨content, hsrc⟩, gone⟩) (by simp) ?_
  exact fun _ _ => ⟨⟨content, hsrc⟩, gone⟩

/-- What is written aside goes to where the temporary name leads, and nowhere else. -/
theorem writeTemp_frame_through (content : Bytes) (opens : refusal walk fs temp = none) :
    Safe (faulty walk) (Stored fs (follow walk fs temp))
      (fun r fs' => r = .ok () →
        fs' = Function.update fs (follow walk fs temp) (some (.file content)))
      (writeTemp content).run fs := by
  have stops := (plain_of_opens opens).not_link
  refine Safe.tryBind (M := fun _ _ => True)
    (Safe.mapErr ⟨.inl rfl, fun _ torn => torn_create torn,
      fun _ _ answer => ⟨faulty_create answer, trivial⟩⟩) ?_ (by simp)
  intro _ fs₁ stored₁ _
  have leads : follow walk fs₁ temp = follow walk fs temp := by
    rcases stored₁ with rfl | ⟨old, rfl⟩
    · rfl
    · exact follow_update_file stops old temp
  refine Safe.tryBind (M := fun r fs' => r = .ok () →
      fs' = Function.update fs₁ (follow walk fs temp) (some (.file content)))
    (Safe.mapErr ⟨stored₁, fun _ torn => stored₁.trans (leads ▸ torn_writeAll torn),
      fun _ _ answer => ?_⟩) ?_ (by simp)
  · obtain ⟨stored, whole⟩ := faulty_writeAll answer
    rw [leads] at stored whole
    exact ⟨stored₁.trans stored, fun hr => whole (ok_of_mapError hr)⟩
  intro _ fs₂ stored₂ written
  refine Safe.mapErr (Safe.quiet (quiet_faulty trivial) stored₂ fun _ _ => ⟨stored₂, fun _ => ?_⟩)
  rw [written rfl]
  rcases stored₁ with rfl | ⟨old, rfl⟩
  · rfl
  · exact Function.update_idem ..

theorem writeTemp_frame (content : Bytes) (h : Plain fs temp) :
    Safe (faulty walk) (Stored fs temp)
      (fun r fs' => r = .ok () → fs' = Function.update fs temp (some (.file content)))
      (writeTemp content).run fs := by
  have through := writeTemp_frame_through walk content (refusal_of_plain h)
  rwa [follow_of_plain h] at through

theorem syncDir_frame (path : Bytes) :
    Safe (faulty walk) (fun fs' => fs' = fs) (fun _ _ => True) (syncDir path).run fs := by
  refine Safe.tryBind (M := fun _ _ => True)
    (Safe.mapErr (Safe.quiet (quiet_faulty trivial) rfl fun _ _ => ⟨rfl, trivial⟩)) ?_ (by simp)
  rintro _ _ rfl -
  exact Safe.mapErr (Safe.quiet (quiet_faulty trivial) rfl fun _ _ => ⟨rfl, trivial⟩)

/-- The last step of an application. -/
theorem syncDir_last {α : Type} {I : Fs → Prop} {Q : Except ResolvConfError α → Fs → Prop} {a : α}
    (here : I fs) (failed : ∀ e, Q (.error e) fs) (done : Q (.ok a) fs) :
    Safe (faulty walk) I Q (do syncDir etc; pure a : Result α).run fs := by
  refine Safe.tryBind (M := fun _ fs' => fs' = fs) ((syncDir_frame walk etc).imp
    (fun _ same => same ▸ here) fun _ _ same _ => same) ?_ fun e _ _ same => same ▸ failed e
  intro _ fs' left same
  subst same
  exact ⟨left, done⟩

theorem restore_frame (hb : Plain fs backup) (hr : Plain fs resolvConf) :
    Safe (faulty walk) (MovedPart fs backup resolvConf)
      (fun r fs' => r = .ok () → (∃ content, fs backup = some (.file content)) ∧
        fs' = move fs backup resolvConf)
      restore.run fs := by
  refine Safe.tryBind (rename_frame walk hb hr backup_ne_resolvConf) ?_ (by simp)
  intro _ fs₁ part moved
  refine (syncDir_frame walk etc).imp ?_ ?_
  · rintro _ rfl
    exact part
  · rintro _ _ rfl - -
    exact moved rfl

end Setdns.Linux.ResolvConf
