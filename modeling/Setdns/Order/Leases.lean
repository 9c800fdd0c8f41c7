import Mathlib.Logic.Function.Basic
import Setdns.Order.Simulation

/-!
Leases of keys. Whoever takes a lease holds its key until somebody else takes
one of the same key, and releasing a lease gives the key back only while it is
still held under that lease. A lease may also be dropped, and then its key stays
held.
-/

namespace Leases

open Simulation

variable {Key Lease : Type}

/-- The lease that holds each key, and the leases that can still be released. -/
structure State (Key Lease : Type) where
  current : Key → Option Lease
  live : List Lease

inductive Event (Lease : Type) where
  | taken (lease : Lease)
  | released (lease : Lease)
  | refused (lease : Lease)
  | dropped (lease : Lease)

/-- No key is held. -/
def State.empty : State Key Lease := ⟨fun _ => none, []⟩

variable [DecidableEq Key] [DecidableEq Lease] (key : Lease → Key)

inductive Step : State Key Lease → Event Lease → State Key Lease → Prop
  | taken {current : Key → Option Lease} {live : List Lease} {lease : Lease}
      (new : lease ∉ live) :
      Step ⟨current, live⟩ (.taken lease)
        ⟨Function.update current (key lease) (some lease), lease :: live⟩
  | released {current : Key → Option Lease} {live : List Lease} {lease : Lease}
      (mem : lease ∈ live) (holds : current (key lease) = some lease) :
      Step ⟨current, live⟩ (.released lease)
        ⟨Function.update current (key lease) none, live.erase lease⟩
  | refused {current : Key → Option Lease} {live : List Lease} {lease : Lease}
      (mem : lease ∈ live) (lost : current (key lease) ≠ some lease) :
      Step ⟨current, live⟩ (.refused lease) ⟨current, live.erase lease⟩
  | dropped {current : Key → Option Lease} {live : List Lease} {lease : Lease}
      (mem : lease ∈ live) : Step ⟨current, live⟩ (.dropped lease) ⟨current, live.erase lease⟩

variable {key} {s s' : State Key Lease} {event : Event Lease} {events : List (Event Lease)}

/-- Every key that is held can still be given back. -/
def Redeemable (key : Lease → Key) (s : State Key Lease) : Prop :=
  ∀ k lease, s.current k = some lease → key lease = k ∧ lease ∈ s.live

theorem step_redeemable (step : Step key s event s') (kept : ∀ lease, event ≠ .dropped lease)
    (redeemable : Redeemable key s) : Redeemable key s' := by
  intro k lease held
  cases step with
  | @taken current live new _ =>
      have held : Function.update current (key new) (some new) k = some lease := held
      by_cases same : k = key new
      · subst same
        rw [Function.update_self] at held
        cases held
        exact ⟨rfl, .head _⟩
      · rw [Function.update_of_ne same] at held
        obtain ⟨mine, mem⟩ := redeemable k lease held
        exact ⟨mine, .tail _ mem⟩
  | @released current live old _ _ =>
      have held : Function.update current (key old) none k = some lease := held
      by_cases same : k = key old
      · subst same
        rw [Function.update_self] at held
        cases held
      · rw [Function.update_of_ne same] at held
        obtain ⟨mine, mem⟩ := redeemable k lease held
        refine ⟨mine, (List.mem_erase_of_ne ?_).mpr mem⟩
        rintro rfl
        exact same mine.symm
  | @refused current live old _ lost =>
      obtain ⟨rfl, mem⟩ := redeemable k lease held
      refine ⟨rfl, (List.mem_erase_of_ne ?_).mpr mem⟩
      rintro rfl
      exact lost held
  | dropped _ => exact absurd rfl (kept _)

/-- Once all leases are released, and none was dropped, no key is held. -/
theorem run_released (run : Trace (Step key) .empty events s)
    (kept : ∀ lease, Event.dropped lease ∉ events) (all : s.live = []) (k : Key) :
    s.current k = none := by
  have redeemable : Redeemable key s := by
    refine run.keeps (fun s event s' mem here step => ?_) fun _ _ no => (nomatch no)
    exact step_redeemable step (fun lease same => kept lease (same ▸ mem)) here
  cases held : s.current k with
  | none => rfl
  | some lease =>
      obtain ⟨-, mem⟩ := redeemable k lease held
      rw [all] at mem
      cases mem

end Leases
