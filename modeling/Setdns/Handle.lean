import Setdns.Config.Config
import Setdns.Effects.Implementation
import Setdns.Order.Simulation

/-!
The handle of the crate. It owns the handle of the platform's backend until it is closed
or dropped, and a drop is a close whose error is only logged. A client can also forget a
handle, which is neither. Whatever the platform answers, it is only asked to close what it
has handed out and nobody has closed before.
-/

namespace Setdns.Handle

open Text Effects Effects.Program Simulation

/-- The operations of a platform. -/
inductive PlatformCall (H : Type) where
  | apply (config : NormalizedConfig)
  | close (inner : H)

abbrev PlatformCall.Ret (H E : Type) : PlatformCall H → Type
  | .apply _ => Except E H
  | .close _ => Except E Unit

inductive Error (E : Type) where
  | invalidConfig (message : Bytes)
  | backend (source : E)

def Error.ofConfig {E : Type} : ConfigError → Error E
  | .invalidConfig message => .invalidConfig message

structure SetDns (H : Type) where
  inner : Option H

namespace SetDns

variable {H E : Type}

abbrev Io (H E α : Type) : Type := Program (PlatformCall H) (PlatformCall.Ret H E) α

abbrev Result (H E α : Type) : Type :=
  ExceptT (Error E) (Program (PlatformCall H) (PlatformCall.Ret H E)) α

def apply (parseDnsName : Bytes → Except Bytes Unit) (config : Config) : Result H E (SetDns H) :=
  match config.normalize parseDnsName with
  | .error e => throw (.ofConfig e)
  | .ok config => do
      let inner ← mapErr (.call (.apply config) .ret : Io H E (Except E H)) .backend
      pure ⟨some inner⟩

def take (handle : SetDns H) : Option H × SetDns H := (handle.inner, ⟨none⟩)

/-- A failure is logged. -/
def drop (handle : SetDns H) : Io H E Unit :=
  match handle.take.1 with
  | some inner => do
      let _ ← (.call (.close inner) .ret : Io H E (Except E Unit))
      pure ()
  | none => pure ()

def closeInner : Option H → Result H E Unit
  | some inner => mapErr (.call (.close inner) .ret : Io H E (Except E Unit)) .backend
  | none => pure ()

/-- The handle is dropped on return, also after an error. -/
def close (handle : SetDns H) : Io H E (Except (Error E) Unit) := do
  let (inner, handle) := handle.take
  let result ← (closeInner inner).run
  handle.drop
  pure result

end SetDns

section Clients

variable {σ H E : Type}

/-- A platform and the handles that clients own, the last one first. -/
structure Clients (σ H : Type) where
  state : σ
  handles : List (SetDns H)

/-- What a client did and how it ended. -/
inductive Outcome (H E : Type) where
  | applied (config : Config) (r : Except (Error E) (SetDns H))
  | closed (handle : SetDns H) (r : Except (Error E) Unit)
  | dropped (handle : SetDns H)
  | forgotten (handle : SetDns H)

def opened {ε γ : Type} : Except ε γ → List γ → List γ
  | .ok handle, handles => handle :: handles
  | .error _, handles => handles

theorem mem_of_others {α : Type} {front back : List α} {a b : α} (mem : b ∈ front ++ back) :
    b ∈ front ++ a :: back :=
  (List.mem_append.mp mem).elim (List.mem_append_left _) fun later =>
    List.mem_append_right _ (.tail _ later)

variable (parseDnsName : Bytes → Except Bytes Unit)
  (W : World (PlatformCall H) (PlatformCall.Ret H E) σ)

/-- One step of a client. The condition says which later handles may still be there when one
is closed. -/
inductive ClientStep (admits : List H → H → Prop) :
    Clients σ H → Outcome H E → Clients σ H → Prop
  | applied {s s' : σ} {handles : List (SetDns H)} {config : Config}
      {r : Except (Error E) (SetDns H)}
      (ends : Ends W (SetDns.apply parseDnsName config).run s r s') :
      ClientStep admits ⟨s, handles⟩ (.applied config r) ⟨s', opened r handles⟩
  | closed {s s' : σ} {front back : List (SetDns H)} {handle : SetDns H}
      {r : Except (Error E) Unit}
      (order : ∀ inner ∈ handle.inner, admits (front.filterMap SetDns.inner) inner)
      (ends : Ends W handle.close s r s') :
      ClientStep admits ⟨s, front ++ handle :: back⟩ (.closed handle r) ⟨s', front ++ back⟩
  | dropped {s s' : σ} {front back : List (SetDns H)} {handle : SetDns H}
      (order : ∀ inner ∈ handle.inner, admits (front.filterMap SetDns.inner) inner)
      (ends : Ends W handle.drop s () s') :
      ClientStep admits ⟨s, front ++ handle :: back⟩ (.dropped handle) ⟨s', front ++ back⟩
  | forgotten {s : σ} {front back : List (SetDns H)} {handle : SetDns H} :
      ClientStep admits ⟨s, front ++ handle :: back⟩ (.forgotten handle) ⟨s, front ++ back⟩

end Clients

section Platforms

variable {σ H E : Type}

/-- A call of the platform with its answer, or a handle that is never given back. -/
inductive Event (H E : Type) where
  | applied (config : NormalizedConfig) (r : Except E H)
  | closed (inner : H) (r : Except E Unit)
  | forgotten (inner : H)

/-- A platform whose handles are each used at most once. -/
inductive PlatformStep (W : World (PlatformCall H) (PlatformCall.Ret H E) σ)
    (admits : List H → H → Prop) : σ × List H → Event H E → σ × List H → Prop
  | applied {s s' : σ} {live : List H} {config : NormalizedConfig} {r : Except E H}
      (answer : W.answers s (.apply config) r s') :
      PlatformStep W admits (s, live) (.applied config r) (s', opened r live)
  | closed {s s' : σ} {front back : List H} {inner : H} {r : Except E Unit}
      (order : admits front inner) (answer : W.answers s (.close inner) r s') :
      PlatformStep W admits (s, front ++ inner :: back) (.closed inner r) (s', front ++ back)
  | forgotten {s : σ} {front back : List H} {inner : H} :
      PlatformStep W admits (s, front ++ inner :: back) (.forgotten inner) (s, front ++ back)

/-- What the client sees of a backend's result. -/
def wrap : Except E H → Except (Error E) (SetDns H)
  | .ok inner => .ok ⟨some inner⟩
  | .error source => .error (.backend source)

/-- The calls that a step of a client makes, and what it reports of them. -/
inductive Means (parseDnsName : Bytes → Except Bytes Unit) :
    Outcome H E → List (Event H E) → Prop
  | invalid {config : Config} {e : ConfigError}
      (refused : config.normalize parseDnsName = .error e) :
      Means parseDnsName (.applied config (.error (.ofConfig e))) []
  | applied {config : Config} {normalized : NormalizedConfig} {r : Except E H}
      (accepted : config.normalize parseDnsName = .ok normalized) :
      Means parseDnsName (.applied config (wrap r)) [.applied normalized r]
  | closed (inner : H) (r : Except E Unit) :
      Means parseDnsName (.closed ⟨some inner⟩ (r.mapError .backend)) [.closed inner r]
  | closedEmpty : Means parseDnsName (.closed ⟨none⟩ (.ok ())) []
  | dropped (inner : H) (r : Except E Unit) :
      Means parseDnsName (.dropped ⟨some inner⟩) [.closed inner r]
  | droppedEmpty : Means parseDnsName (.dropped ⟨none⟩) []
  | forgotten (inner : H) : Means parseDnsName (.forgotten ⟨some inner⟩) [.forgotten inner]
  | forgottenEmpty : Means parseDnsName (.forgotten ⟨none⟩) []

end Platforms

section Refinement

variable {σ H E : Type} {parseDnsName : Bytes → Except Bytes Unit}
  {W : World (PlatformCall H) (PlatformCall.Ret H E) σ} {admits : List H → H → Prop} {s s' : σ}

theorem apply_means {config : Config} {r : Except (Error E) (SetDns H)}
    (ends : Ends W (SetDns.apply parseDnsName config).run s r s') :
    (∃ e, config.normalize parseDnsName = .error e ∧ r = .error (.ofConfig e) ∧ s' = s) ∨
      ∃ normalized r', config.normalize parseDnsName = .ok normalized ∧ r = wrap r' ∧
        W.answers s (.apply normalized) r' s' := by
  unfold SetDns.apply at ends
  cases accepted : config.normalize parseDnsName with
  | error e =>
      rw [accepted] at ends
      cases ends
      exact .inl ⟨e, rfl, rfl, rfl⟩
  | ok normalized =>
      rw [accepted] at ends
      refine .inr ⟨normalized, ?_⟩
      rcases Ends.tryBind_cases ends with ⟨inner, s₁, made, last⟩ | ⟨error, rfl, failed⟩
      · obtain ⟨r', asked, same⟩ := Ends.mapErr_cases made
        cases last
        cases r' with
        | ok inner' =>
            cases same
            exact ⟨.ok _, rfl, rfl, asked.answer⟩
        | error e => cases same
      · obtain ⟨r', asked, same⟩ := Ends.mapErr_cases failed
        cases r' with
        | ok inner => cases same
        | error e =>
            cases same
            exact ⟨.error e, rfl, rfl, asked.answer⟩

theorem drop_means {inner : H} (ends : Ends W (SetDns.drop ⟨some inner⟩) s () s') :
    ∃ r, W.answers s (.close inner) r s' := by
  obtain ⟨r, s₁, asked, last⟩ := Ends.bind_cases ends
  cases last
  exact ⟨r, asked.answer⟩

theorem drop_empty (ends : Ends W (SetDns.drop ⟨none⟩) s () s') : s' = s := by
  cases ends
  rfl

theorem close_means {inner : H} {r : Except (Error E) Unit}
    (ends : Ends W (SetDns.close ⟨some inner⟩) s r s') :
    ∃ r', r = r'.mapError .backend ∧ W.answers s (.close inner) r' s' := by
  obtain ⟨result, s₁, asked, rest⟩ := Ends.bind_cases ends
  obtain ⟨_, s₂, dropped, last⟩ := Ends.bind_cases rest
  obtain rfl := drop_empty dropped
  cases last
  obtain ⟨r', asked, same⟩ := Ends.mapErr_cases asked
  exact ⟨r', same, asked.answer⟩

theorem close_empty {r : Except (Error E) Unit} (ends : Ends W (SetDns.close ⟨none⟩) s r s') :
    r = .ok () ∧ s' = s := by
  obtain ⟨result, s₁, asked, rest⟩ := Ends.bind_cases ends
  obtain ⟨_, s₂, dropped, last⟩ := Ends.bind_cases rest
  obtain rfl := drop_empty dropped
  cases last
  cases asked
  exact ⟨rfl, rfl⟩

/-- The platform sees the handles that the clients own. -/
def Shows (clients : Clients σ H) (platform : σ × List H) : Prop :=
  platform = (clients.state, clients.handles.filterMap SetDns.inner)

/-- Every step of a client is the use of at most one handle. -/
theorem client_expands : Expands (ClientStep parseDnsName W admits) (PlatformStep W admits) Shows
    (Means parseDnsName) := by
  intro clients platform outcome clients' shows step
  subst shows
  cases step with
  | applied ends =>
      rcases apply_means ends with ⟨e, refused, rfl, rfl⟩ | ⟨normalized, r', accepted, rfl, answer⟩
      · exact ⟨[], _, .invalid refused, .nil _, rfl⟩
      · refine ⟨_, _, .applied accepted, .single (.applied answer), ?_⟩
        cases r' <;> rfl
  | @closed s s' front back handle r order ends =>
      obtain ⟨inner⟩ := handle
      simp only [Shows, List.filterMap_append, List.filterMap_cons]
      cases inner with
      | some inner =>
          obtain ⟨r', rfl, answer⟩ := close_means ends
          exact ⟨_, _, .closed inner r', .single (.closed (order inner rfl) answer), rfl⟩
      | none =>
          obtain ⟨rfl, rfl⟩ := close_empty ends
          exact ⟨_, _, .closedEmpty, .nil _, rfl⟩
  | @dropped s s' front back handle order ends =>
      obtain ⟨inner⟩ := handle
      simp only [Shows, List.filterMap_append, List.filterMap_cons]
      cases inner with
      | some inner =>
          obtain ⟨r', answer⟩ := drop_means ends
          exact ⟨_, _, .dropped inner r', .single (.closed (order inner rfl) answer), rfl⟩
      | none =>
          obtain rfl := drop_empty ends
          exact ⟨_, _, .droppedEmpty, .nil _, rfl⟩
  | @forgotten s front back handle =>
      obtain ⟨inner⟩ := handle
      simp only [Shows, List.filterMap_append, List.filterMap_cons]
      cases inner with
      | some inner => exact ⟨_, _, .forgotten inner, .single .forgotten, rfl⟩
      | none => exact ⟨_, _, .forgottenEmpty, .nil _, rfl⟩

/-- Every use of the platform belongs to a step of a client. -/
theorem exists_outcome {outcomes : List (Outcome H E)} {pieces : List (List (Event H E))}
    (means : List.Forall₂ (Means parseDnsName) outcomes pieces) {event : Event H E}
    (mem : event ∈ pieces.flatten) :
    ∃ outcome piece, outcome ∈ outcomes ∧ Means parseDnsName outcome piece ∧ event ∈ piece := by
  induction means with
  | nil => cases mem
  | cons first _ ih =>
      rw [List.flatten_cons] at mem
      cases List.mem_append.mp mem with
      | inl here => exact ⟨_, _, .head _, first, here⟩
      | inr later =>
          obtain ⟨outcome, piece, mem, means, here⟩ := ih later
          exact ⟨outcome, piece, .tail _ mem, means, here⟩

theorem exists_applied {outcomes : List (Outcome H E)} {pieces : List (List (Event H E))}
    (means : List.Forall₂ (Means parseDnsName) outcomes pieces) {normalized : NormalizedConfig}
    {r : Except E H} (mem : .applied normalized r ∈ pieces.flatten) :
    ∃ config, config.normalize parseDnsName = .ok normalized ∧
      .applied config (wrap r) ∈ outcomes := by
  obtain ⟨outcome, piece, there, means, here⟩ := exists_outcome means mem
  cases means with
  | applied accepted =>
      cases List.mem_singleton.mp here
      exact ⟨_, accepted, there⟩
  | invalid | closedEmpty | droppedEmpty | forgottenEmpty => cases here
  | closed | dropped | forgotten => cases List.mem_singleton.mp here

theorem applied_mem {outcomes : List (Outcome H E)} {pieces : List (List (Event H E))}
    (means : List.Forall₂ (Means parseDnsName) outcomes pieces) {config : Config} {inner : H}
    (mem : .applied config (.ok ⟨some inner⟩) ∈ outcomes) :
    ∃ normalized, .applied normalized (.ok inner) ∈ pieces.flatten := by
  induction means with
  | nil => cases mem
  | @cons outcome piece outcomes pieces first _ ih =>
      rw [List.flatten_cons]
      cases mem with
      | head =>
          generalize same : (Except.ok ⟨some inner⟩ : Except (Error E) (SetDns H)) = result at first
          cases first with
          | @applied _ normalized r _ =>
              cases r with
              | ok other =>
                  cases same
                  exact ⟨normalized, List.mem_append_left _ (.head _)⟩
              | error e => cases same
          | invalid => cases same
      | tail _ later =>
          obtain ⟨normalized, there⟩ := ih later
          exact ⟨normalized, List.mem_append_right _ there⟩

theorem exists_forgotten {outcomes : List (Outcome H E)} {pieces : List (List (Event H E))}
    (means : List.Forall₂ (Means parseDnsName) outcomes pieces) {inner : H}
    (mem : .forgotten inner ∈ pieces.flatten) : .forgotten ⟨some inner⟩ ∈ outcomes := by
  obtain ⟨outcome, piece, there, means, here⟩ := exists_outcome means mem
  cases means with
  | forgotten =>
      cases List.mem_singleton.mp here
      exact there
  | invalid | closedEmpty | droppedEmpty | forgottenEmpty => cases here
  | applied | closed | dropped => cases List.mem_singleton.mp here

end Refinement

section Unsupported

inductive UnsupportedPlatformError where
  | globalDns
  | splitDns
  deriving DecidableEq, Repr

/-- The platform without a backend. -/
def unsupported : Handler (PlatformCall Unit) (PlatformCall.Ret Unit UnsupportedPlatformError) Unit
  | (), .apply config => (.error (if config.domains.isEmpty then .globalDns else .splitDns), ())
  | (), .close () => (.ok (), ())

theorem unsupported_owns_nothing {parseDnsName : Bytes → Except Bytes Unit}
    {admits : List Unit → Unit → Prop} {clients : Clients Unit Unit}
    {outcomes : List (Outcome Unit UnsupportedPlatformError)}
    (run : Trace (ClientStep parseDnsName (World.of unsupported) admits) ⟨(), []⟩ outcomes
      clients) : clients.handles = [] := by
  refine run.keeps (I := fun clients => clients.handles = []) ?_ rfl
  intro clients outcome clients' _ empty step
  cases step with
  | applied ends =>
      have none : _ = [] := empty
      rcases apply_means ends with ⟨e, -, rfl, -⟩ | ⟨normalized, r, -, rfl, answer⟩
      · exact none
      · obtain ⟨rfl, -⟩ := Prod.mk.inj answer
        exact none
  | closed | dropped | forgotten => exact absurd empty (by simp)

end Unsupported

section Balance

variable {σ H E : Type}

def Event.opened : Event H E → Option H
  | .applied _ (.ok inner) => some inner
  | _ => none

def Event.closed? : Event H E → Option H
  | .closed inner _ => some inner
  | _ => none

def Event.forgotten? : Event H E → Option H
  | .forgotten inner => some inner
  | _ => none

/-- The entry of the record. -/
def Event.call : Event H E → Option (Sigma (PlatformCall.Ret H E))
  | .applied config r => some ⟨.apply config, r⟩
  | .closed inner r => some ⟨.close inner, r⟩
  | .forgotten _ => none

variable {parseDnsName : Bytes → Except Bytes Unit}
  {W : World (PlatformCall H) (PlatformCall.Ret H E) σ} {admits : List H → H → Prop}

theorem platform_balanced {platform platform' : σ × List H} {events : List (Event H E)}
    (run : Trace (PlatformStep W admits) platform events platform') :
    (platform.2 ++ events.filterMap Event.opened).Perm
      (events.filterMap Event.closed? ++ events.filterMap Event.forgotten? ++ platform'.2) := by
  induction run with
  | nil platform => simp
  | cons first _ ih =>
      cases first with
      | @applied s s₁ live config r answer =>
          cases r with
          | ok inner => exact List.perm_middle.trans ih
          | error e => exact ih
      | @closed s s₁ front back inner r order answer =>
          simp only [List.filterMap_cons, Event.opened, Event.closed?, Event.forgotten?,
            List.append_assoc, List.cons_append] at ih ⊢
          exact List.perm_middle.trans (ih.cons inner)
      | @forgotten s front back inner =>
          simp only [List.filterMap_cons, Event.opened, Event.closed?, Event.forgotten?,
            List.append_assoc, List.cons_append] at ih ⊢
          exact (List.perm_middle.trans (ih.cons inner)).trans List.perm_middle.symm

theorem platform_record {platform platform' : (σ × List (Sigma (PlatformCall.Ret H E))) × List H}
    {events : List (Event H E)}
    (run : Trace (PlatformStep W.recorded admits) platform events platform') :
    platform'.1.2 = platform.1.2 ++ events.filterMap Event.call := by
  induction run with
  | nil platform => simp
  | cons first _ ih =>
      cases first with
      | applied answer => rw [ih, answer.2]; simp [Event.call]
      | closed order answer => rw [ih, answer.2]; simp [Event.call]
      | forgotten => exact ih

/-- Whatever clients do and whatever the platform answers, the calls of the platform are those
that the clients' steps stand for, with the results that the clients are told. Only accepted
configurations reach it, and every handle that it has handed out was closed once, was forgotten
or is still owned. -/
theorem handles_closed_once {s s' : σ} {log : List (Sigma (PlatformCall.Ret H E))}
    {outcomes : List (Outcome H E)} {handles : List (SetDns H)}
    (run : Trace (ClientStep parseDnsName W.recorded admits) ⟨(s, []), []⟩ outcomes
      ⟨(s', log), handles⟩) :
    ∃ pieces : List (List (Event H E)), List.Forall₂ (Means parseDnsName) outcomes pieces ∧
      log = pieces.flatten.filterMap Event.call ∧
      (pieces.flatten.filterMap Event.opened).Perm
        (pieces.flatten.filterMap Event.closed? ++ pieces.flatten.filterMap Event.forgotten? ++
          handles.filterMap SetDns.inner) := by
  obtain ⟨pieces, platform, means, uses, shows⟩ := client_expands.run run rfl
  subst shows
  exact ⟨pieces, means, platform_record uses, platform_balanced uses⟩

/-- Any run can be recorded. -/
theorem client_record {clients clients' : Clients σ H} {outcomes : List (Outcome H E)}
    (run : Trace (ClientStep parseDnsName W admits) clients outcomes clients')
    (log : List (Sigma (PlatformCall.Ret H E))) :
    ∃ log', Trace (ClientStep parseDnsName W.recorded admits)
      ⟨(clients.state, log), clients.handles⟩ outcomes
      ⟨(clients'.state, log'), clients'.handles⟩ := by
  induction run generalizing log with
  | nil clients => exact ⟨log, .nil _⟩
  | cons first _ ih =>
      cases first with
      | applied ends =>
          obtain ⟨log₁, recorded⟩ := ends.record log
          obtain ⟨log', rest⟩ := ih log₁
          exact ⟨log', .cons (.applied recorded) rest⟩
      | closed order ends =>
          obtain ⟨log₁, recorded⟩ := ends.record log
          obtain ⟨log', rest⟩ := ih log₁
          exact ⟨log', .cons (.closed order recorded) rest⟩
      | dropped order ends =>
          obtain ⟨log₁, recorded⟩ := ends.record log
          obtain ⟨log', rest⟩ := ih log₁
          exact ⟨log', .cons (.dropped order recorded) rest⟩
      | forgotten =>
          obtain ⟨log', rest⟩ := ih log
          exact ⟨log', .cons .forgotten rest⟩

end Balance

section Samples

/-- A platform that numbers its handles. -/
def sampleNumbering : Handler (PlatformCall Nat) (PlatformCall.Ret Nat Unit) Nat
  | next, .apply _ => (.ok next, next + 1)
  | next, .close _ => (.ok (), next)

def sampleAny (_ : Bytes) : Except Bytes Unit := .ok ()

def sampleRequest : Config := ⟨bytes "tests", [.v4 ⟨10, 0, 0, 53⟩], [bytes "corp"], none⟩

/-- A handle is dropped, and a configuration without servers is refused. -/
theorem sampleNumbering_run {admits : List Nat → Nat → Prop} (last : admits [] 0) :
    Trace (ClientStep sampleAny (World.of sampleNumbering) admits) ⟨0, []⟩
      [.applied sampleRequest (.ok ⟨some 0⟩), .dropped ⟨some 0⟩,
        .applied ⟨bytes "tests", [], [], none⟩
          (.error (.invalidConfig (bytes "servers must not be empty")))] ⟨1, []⟩ := by
  have applied := ends_exec (W := World.of sampleNumbering) (fun _ _ => rfl)
    (SetDns.apply sampleAny sampleRequest).run 0
  have refused := ends_exec (W := World.of sampleNumbering) (fun _ _ => rfl)
    (SetDns.apply sampleAny ⟨bytes "tests", [], [], none⟩).run 1
  have dropped := ends_exec (W := World.of sampleNumbering) (fun _ _ => rfl)
    (SetDns.drop ⟨some 0⟩) 1
  have order : ∀ inner ∈ some 0, admits [] inner := by
    rintro _ ⟨⟩
    exact last
  have given : ClientStep sampleAny (World.of sampleNumbering) admits ⟨1, [] ++ ⟨some 0⟩ :: []⟩
      (.dropped ⟨some 0⟩) ⟨1, [] ++ []⟩ := .dropped order dropped
  exact .cons (.applied applied) (.cons given (.cons (.applied refused) (.nil _)))

theorem handles_closed_once_sample :
    ∃ log, ∃ pieces : List (List (Event Nat Unit)), List.Forall₂ (Means sampleAny)
      [.applied sampleRequest (.ok ⟨some 0⟩), .dropped ⟨some 0⟩,
        .applied ⟨bytes "tests", [], [], none⟩
          (.error (.invalidConfig (bytes "servers must not be empty")))] pieces ∧
      log = pieces.flatten.filterMap Event.call ∧
      (pieces.flatten.filterMap Event.opened).Perm
        (pieces.flatten.filterMap Event.closed? ++ pieces.flatten.filterMap Event.forgotten? ++
          [].filterMap SetDns.inner) := by
  obtain ⟨log, run⟩ := client_record (@sampleNumbering_run (fun _ _ => True) trivial) []
  exact ⟨log, handles_closed_once run⟩

end Samples

end Setdns.Handle
