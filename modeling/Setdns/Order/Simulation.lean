import Mathlib.Data.List.Forall2

/-!
Labelled runs, and the simulation of one system by another. Each step of the
concrete system is matched by one of the abstract system whose label means the
same, so whole runs match label by label. A step may also be matched by several
steps or by none, and then the labels of a run come in pieces.
-/

namespace Simulation

variable {σ τ ε δ : Type}

/-- A run with the labels of its steps. -/
inductive Trace (step : σ → ε → σ → Prop) : σ → List ε → σ → Prop
  | nil (s : σ) : Trace step s [] s
  | cons {s s₁ s' : σ} {label : ε} {labels : List ε} (first : step s label s₁)
      (rest : Trace step s₁ labels s') : Trace step s (label :: labels) s'

variable {step : σ → ε → σ → Prop} {s s' : σ} {labels : List ε}

/-- What every step keeps, a run keeps. -/
theorem Trace.keeps {I : σ → Prop} (run : Trace step s labels s')
    (kept : ∀ s label s', label ∈ labels → I s → step s label s' → I s') (here : I s) : I s' := by
  induction run with
  | nil s => exact here
  | cons first _ ih =>
      exact ih (fun s label s' mem => kept s label s' (.tail _ mem))
        (kept _ _ _ (.head _) here first)

theorem Trace.single {label : ε} (first : step s label s') : Trace step s [label] s' :=
  .cons first (.nil s')

theorem Trace.append {s₁ : σ} {labels' : List ε} (run : Trace step s labels s₁)
    (rest : Trace step s₁ labels' s') : Trace step s (labels ++ labels') s' := by
  induction run with
  | nil s => exact rest
  | cons first _ ih => exact .cons first (ih rest)

theorem Trace.append_cases {labels' : List ε} (run : Trace step s (labels ++ labels') s') :
    ∃ s₁, Trace step s labels s₁ ∧ Trace step s₁ labels' s' := by
  induction labels generalizing s with
  | nil => exact ⟨s, .nil s, run⟩
  | cons label labels ih =>
      cases run with
      | cons first rest =>
          obtain ⟨s₁, before, after⟩ := ih rest
          exact ⟨s₁, .cons first before, after⟩

/-- A run all of whose labels are good is one of good steps. -/
theorem Trace.only {good : ε → Prop} (run : Trace step s labels s')
    (all : ∀ label ∈ labels, good label) :
    Trace (fun s label s' => good label ∧ step s label s') s labels s' := by
  induction run with
  | nil s => exact .nil s
  | cons first _ ih =>
      obtain ⟨here, later⟩ := List.forall_mem_cons.mp all
      exact .cons ⟨here, first⟩ (ih later)

/-- A run that passes a label stops on either side of its step. -/
theorem Trace.split {label : ε} {front back : List ε}
    (run : Trace step s (front ++ label :: back) s') :
    ∃ s₁ s₂, Trace step s front s₁ ∧ step s₁ label s₂ ∧ Trace step s₂ back s' := by
  induction front generalizing s with
  | nil =>
      cases run with
      | cons first rest => exact ⟨s, _, .nil s, first, rest⟩
  | cons other front ih =>
      cases run with
      | cons first rest =>
          obtain ⟨s₁, s₂, before, here, after⟩ := ih rest
          exact ⟨s₁, s₂, .cons first before, here, after⟩

/-- A step of the abstract system for each step of the concrete one. -/
def Forward (concrete : σ → ε → σ → Prop) (abstract : τ → δ → τ → Prop) (related : σ → τ → Prop)
    (means : ε → δ → Prop) : Prop :=
  ∀ s t label s', related s t → concrete s label s' →
    ∃ label' t', means label label' ∧ abstract t label' t' ∧ related s' t'

theorem Forward.run {concrete : σ → ε → σ → Prop} {abstract : τ → δ → τ → Prop}
    {related : σ → τ → Prop} {means : ε → δ → Prop} {t : τ}
    (forward : Forward concrete abstract related means) (run : Trace concrete s labels s')
    (here : related s t) :
    ∃ labels' t', List.Forall₂ means labels labels' ∧ Trace abstract t labels' t' ∧
      related s' t' := by
  induction run generalizing t with
  | nil s => exact ⟨[], t, .nil, .nil t, here⟩
  | cons first _ ih =>
      obtain ⟨label', t₁, same, matched, next⟩ := forward _ t _ _ here first
      obtain ⟨labels', t', others, rest, last⟩ := ih next
      exact ⟨label' :: labels', t', .cons same others, .cons matched rest, last⟩

/-- When the labels are the same, the runs have the same ones. -/
theorem Forward.follow {concrete : σ → ε → σ → Prop} {abstract : τ → ε → τ → Prop}
    {related : σ → τ → Prop} {t : τ} (forward : Forward concrete abstract related Eq)
    (run : Trace concrete s labels s') (here : related s t) :
    ∃ t', Trace abstract t labels t' ∧ related s' t' := by
  obtain ⟨labels', t', same, matched, last⟩ := forward.run run here
  rw [List.forall₂_eq_eq_eq] at same
  exact ⟨t', same ▸ matched, last⟩

/-- A run of the abstract system for each step of the concrete one. -/
def Expands (concrete : σ → ε → σ → Prop) (abstract : τ → δ → τ → Prop) (related : σ → τ → Prop)
    (means : ε → List δ → Prop) : Prop :=
  ∀ s t label s', related s t → concrete s label s' →
    ∃ labels t', means label labels ∧ Trace abstract t labels t' ∧ related s' t'

theorem Expands.run {concrete : σ → ε → σ → Prop} {abstract : τ → δ → τ → Prop}
    {related : σ → τ → Prop} {means : ε → List δ → Prop} {t : τ}
    (expands : Expands concrete abstract related means) (run : Trace concrete s labels s')
    (here : related s t) :
    ∃ pieces t', List.Forall₂ means labels pieces ∧ Trace abstract t pieces.flatten t' ∧
      related s' t' := by
  induction run generalizing t with
  | nil s => exact ⟨[], t, .nil, .nil t, here⟩
  | cons first _ ih =>
      obtain ⟨piece, t₁, same, matched, next⟩ := expands _ t _ _ here first
      obtain ⟨pieces, t', others, rest, last⟩ := ih next
      exact ⟨piece :: pieces, t', .cons same others, matched.append rest, last⟩

end Simulation
