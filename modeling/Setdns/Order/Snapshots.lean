import Mathlib.Data.List.Basic
import Mathlib.Logic.Relation

/-!
Snapshots of shared cells. Opening a snapshot overwrites some cells and remembers
what they held; closing it writes that back, whatever they hold by then. Once
every snapshot is closed, a cell holds what the snapshot closed last among those
that cover it saw. Closed in the reverse order of their opening, the snapshots
restore everything.

A system whose handles remember what they overwrote behaves as these snapshots
do, and inherits both laws.
-/

namespace Snapshots

variable {ι V : Type}

/-- The covered cells, each with a value. -/
abbrev Shot (ι V : Type) : Type := ι → Option V

def overlay (shot : Shot ι V) (value : ι → V) : ι → V := fun i => (shot i).getD (value i)

/-- What the covered cells hold. -/
def take (new : Shot ι V) (value : ι → V) : Shot ι V := fun i => (new i).map fun _ => value i

/-- Both snapshots, of which the later one is written last. -/
def above (later shot : Shot ι V) : Shot ι V := fun i => (later i).or (shot i)

theorem overlay_above (later shot : Shot ι V) (value : ι → V) :
    overlay (above later shot) value = overlay later (overlay shot value) := by
  funext i
  cases covered : later i <;> simp [overlay, above, covered]

theorem take_above (later new : Shot ι V) (value : ι → V) :
    take (above later new) value = above (take later value) (take new value) := by
  funext i
  cases covered : later i <;> simp [take, above, covered]

/-- Writing back what was seen undoes every change of the covered cells. -/
theorem overlay_take_apply {new : Shot ι V} {value value' : ι → V} {i : ι}
    (same : new i = none → value' i = value i) : overlay (take new value) value' i = value i := by
  cases covered : new i with
  | none => simpa [overlay, take, covered] using same covered
  | some _ => simp [overlay, take, covered]

theorem overlay_take {new : Shot ι V} {value value' : ι → V}
    (same : ∀ i, new i = none → value' i = value i) : overlay (take new value) value' = value :=
  funext fun i => overlay_take_apply (same i)

structure State (ι V : Type) where
  value : ι → V
  live : List (Shot ι V)
  closed : List (Shot ι V)

/-- The condition says how many later snapshots may still be live when one is closed. -/
inductive Step (admits : Nat → Prop) : State ι V → State ι V → Prop
  | opened {value : ι → V} {live closed : List (Shot ι V)} (new : Shot ι V) :
      Step admits ⟨value, live, closed⟩ ⟨overlay new value, take new value :: live, closed⟩
  | closed {value : ι → V} {front back closed : List (Shot ι V)} {shot : Shot ι V}
      (order : admits front.length) :
      Step admits ⟨value, front ++ shot :: back, closed⟩
        ⟨overlay shot value, front ++ back, shot :: closed⟩

/-- Snapshots are closed in any order. -/
abbrev AnyOrder : Nat → Prop := fun _ => True

/-- Only the snapshot that was opened last is closed. -/
abbrev Nested : Nat → Prop := fun later => later = 0

/-- What the snapshot closed last among those that cover the cell saw there. -/
def lastSeen (closed : List (Shot ι V)) (i : ι) : Option V := closed.findSome? fun shot => shot i

variable {admits : Nat → Prop} {original value : ι → V} {live closed : List (Shot ι V)}
  {s s' : State ι V} {i : ι}

/-- A cell that no live snapshot covers. -/
def Settled (original : ι → V) (s : State ι V) : Prop :=
  ∀ i, (∀ shot ∈ s.live, shot i = none) → s.value i = (lastSeen s.closed i).getD (original i)

theorem step_settled (step : Step admits s s') (settled : Settled original s) :
    Settled original s' := by
  intro i uncovered
  cases step with
  | @opened value live closed new =>
      obtain ⟨fresh, others⟩ := List.forall_mem_cons.mp uncovered
      have missing : new i = none := Option.map_eq_none_iff.mp fresh
      show (new i).getD (value i) = _
      rw [missing]
      exact settled i others
  | @closed value front back closed shot _ =>
      cases covered : shot i with
      | some seen => simp [overlay, lastSeen, covered]
      | none =>
          have before : ∀ other ∈ front ++ shot :: back, other i = none := by
            intro other mem
            rcases List.mem_append.mp mem with early | late
            · exact uncovered other (List.mem_append_left _ early)
            · rcases List.mem_cons.mp late with rfl | later
              · exact covered
              · exact uncovered other (List.mem_append_right _ later)
          have held := settled i before
          simpa [overlay, lastSeen, covered] using held

theorem run_settled (run : Relation.ReflTransGen (Step admits) ⟨original, [], []⟩ s) :
    Settled original s := by
  induction run with
  | refl => exact fun _ _ => rfl
  | tail _ step ih => exact step_settled step ih

/-- Whatever the order, each cell ends with what was seen by the snapshot closed last. -/
theorem all_closed
    (run : Relation.ReflTransGen (Step admits) ⟨original, [], []⟩ ⟨value, [], closed⟩) (i : ι) :
    value i = (lastSeen closed i).getD (original i) :=
  run_settled run i (by simp)

theorem restored_iff
    (run : Relation.ReflTransGen (Step admits) ⟨original, [], []⟩ ⟨value, [], closed⟩) (i : ι) :
    value i = original i ↔ ∀ seen, lastSeen closed i = some seen → seen = original i := by
  rw [all_closed run]
  cases lastSeen closed i <;> simp

/-- Closing the live snapshots from the last one on leads back to the start. -/
theorem nested_unwinds (step : Step Nested s s')
    (unwinds : s.live.foldl (fun value shot => overlay shot value) s.value = original) :
    s'.live.foldl (fun value shot => overlay shot value) s'.value = original := by
  cases step with
  | @opened value live closed new =>
      have back : overlay (take new value) (overlay new value) = value :=
        overlay_take fun i uncovered => by simp [overlay, uncovered]
      rwa [List.foldl_cons, back]
  | closed order =>
      obtain rfl := List.length_eq_zero_iff.mp order
      exact unwinds

theorem nested_restores
    (run : Relation.ReflTransGen (Step Nested) ⟨original, [], []⟩ ⟨value, [], closed⟩) :
    value = original := by
  suffices unwinds : ∀ s : State ι V, Relation.ReflTransGen (Step Nested) ⟨original, [], []⟩ s →
      s.live.foldl (fun value shot => overlay shot value) s.value = original by
    exact unwinds _ run
  intro s run
  induction run with
  | refl => rfl
  | tail _ step ih => exact nested_unwinds step ih

section Unwinding

variable {front back : List (Shot ι V)} {shot : Shot ι V}

end Unwinding

section Handles

variable {σ H : Type}

/-- A machine, its live handles, the last one first, and the closed ones. -/
structure Session (σ H : Type) where
  state : σ
  live : List H
  closed : List H

variable (opens closes : σ → H → σ → Prop)

inductive Move (admits : Nat → Prop) : Session σ H → Session σ H → Prop
  | opened {s s' : σ} {live closed : List H} {handle : H} (opens : opens s handle s') :
      Move admits ⟨s, live, closed⟩ ⟨s', handle :: live, closed⟩
  | closed {s s' : σ} {front back closed : List H} {handle : H} (order : admits front.length)
      (closes : closes s handle s') :
      Move admits ⟨s, front ++ handle :: back, closed⟩ ⟨s', front ++ back, handle :: closed⟩

/-- The handles are snapshots of the cells that are in view. -/
structure Snapshotting (good : σ → Prop) (view : σ → ι → V) (shot : H → Shot ι V) : Prop where
  opens : ∀ s handle s', good s → opens s handle s' → good s' ∧
    ∃ new, view s' = overlay new (view s) ∧ shot handle = take new (view s)
  closes : ∀ s handle s', good s → closes s handle s' → good s' ∧
    view s' = overlay (shot handle) (view s)

variable {opens closes} {good : σ → Prop} {view : σ → ι → V} {shot : H → Shot ι V} {start s : σ}
  {closed : List H} {session session' : Session σ H}

/-- What the cells in view and the handles amount to. -/
def Session.abstract (view : σ → ι → V) (shot : H → Shot ι V) (session : Session σ H) : State ι V :=
  ⟨view session.state, session.live.map shot, session.closed.map shot⟩

theorem move_step (snapshots : Snapshotting opens closes good view shot)
    (move : Move opens closes admits session session') (well : good session.state) :
    good session'.state ∧
      Step admits (session.abstract view shot) (session'.abstract view shot) := by
  cases move with
  | opened opened =>
      obtain ⟨well, new, value, taken⟩ := snapshots.opens _ _ _ well opened
      refine ⟨well, ?_⟩
      simp only [Session.abstract, List.map_cons, value, taken]
      exact .opened new
  | closed order closed =>
      obtain ⟨well, value⟩ := snapshots.closes _ _ _ well closed
      refine ⟨well, ?_⟩
      simp only [Session.abstract, List.map_append, List.map_cons, value]
      exact .closed (by rwa [List.length_map])

theorem run_refines (snapshots : Snapshotting opens closes good view shot) (well : good start)
    (run : Relation.ReflTransGen (Move opens closes admits) ⟨start, [], []⟩ session) :
    good session.state ∧
      Relation.ReflTransGen (Step admits) ⟨view start, [], []⟩ (session.abstract view shot) := by
  induction run with
  | refl => exact ⟨well, .refl⟩
  | tail _ move ih =>
      obtain ⟨well, step⟩ := move_step snapshots move ih.1
      exact ⟨well, ih.2.tail step⟩

theorem handles_all_closed (snapshots : Snapshotting opens closes good view shot)
    (well : good start)
    (run : Relation.ReflTransGen (Move opens closes admits) ⟨start, [], []⟩ ⟨s, [], closed⟩)
    (i : ι) : view s i = (lastSeen (closed.map shot) i).getD (view start i) :=
  all_closed (run_refines snapshots well run).2 i

/-- Once every handle is closed, a cell is back exactly when the handle closed last among
those that cover it saw the original. -/
theorem handles_restored_iff (snapshots : Snapshotting opens closes good view shot)
    (well : good start)
    (run : Relation.ReflTransGen (Move opens closes admits) ⟨start, [], []⟩ ⟨s, [], closed⟩)
    (i : ι) : view s i = view start i ↔
      ∀ seen, lastSeen (closed.map shot) i = some seen → seen = view start i :=
  restored_iff (run_refines snapshots well run).2 i

theorem nested_handles_restore (snapshots : Snapshotting opens closes good view shot)
    (well : good start)
    (run : Relation.ReflTransGen (Move opens closes Nested) ⟨start, [], []⟩ ⟨s, [], closed⟩) :
    view s = view start :=
  nested_restores (run_refines snapshots well run).2

end Handles

end Snapshots
