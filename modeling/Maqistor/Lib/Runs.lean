import Mathlib.Tactic.TypeStar
import Mathlib.Logic.Relation

/-! Runs of a transition system with partial, labelled steps: `step s a` is the state after action
`a` with the event that an observer sees, or `none` when `a` cannot happen in `s`. A run may only
take steps that a condition on the state and the action admits. -/

namespace Runs

variable {σ α ε : Type*}

/-- A run from one state to another by steps that `admits` allows, with its events in order. -/
inductive Run (step : σ → α → Option (σ × ε)) (admits : σ → α → Prop) : σ → List ε → σ → Prop
  | refl (s : σ) : Run step admits s [] s
  | step {s s' s'' : σ} {events : List ε} {a : α} {e : ε} : Run step admits s events s' →
      admits s' a → step s' a = some (s'', e) → Run step admits s (events ++ [e]) s''

variable {step : σ → α → Option (σ × ε)} {admits admits' : σ → α → Prop}

theorem Run.trans {s s' s'' : σ} {events events' : List ε} (h : Run step admits s events s')
    (h' : Run step admits s' events' s'') : Run step admits s (events ++ events') s'' := by
  induction h' with
  | refl => simpa using h
  | step _ hok hstep ih =>
    rw [← List.append_assoc]
    exact Run.step ih hok hstep

theorem Run.one {s s' : σ} {a : α} {e : ε} (hok : admits s a) (hstep : step s a = some (s', e)) :
    Run step admits s [e] s' :=
  Run.step (Run.refl s) hok hstep

/-- A run that a stronger condition admits. -/
theorem Run.mono (himp : ∀ s a, admits s a → admits' s a) {s s' : σ} {events : List ε}
    (h : Run step admits s events s') : Run step admits' s events s' := by
  induction h with
  | refl => exact Run.refl _
  | step _ hok hstep ih => exact Run.step ih (himp _ _ hok) hstep

/-- A property that every admitted step keeps holds at the end of a run that starts with it. -/
theorem Run.invariant {s s' : σ} {events : List ε} (h : Run step admits s events s')
    (P : σ → Prop) (hstart : P s)
    (hkeep : ∀ {s s' : σ} {a : α} {e : ε}, P s → admits s a → step s a = some (s', e) → P s') :
    P s' := by
  induction h with
  | refl => exact hstart
  | step _ hok hstep ih => exact hkeep ih hok hstep

/-- A property of the states and of what has happened so far that every admitted step keeps. -/
theorem Run.history {s s' : σ} {events : List ε} (h : Run step admits s events s')
    (P : σ → List ε → Prop) (hstart : P s [])
    (hkeep : ∀ {s s' : σ} {a : α} {e : ε} {events : List ε}, P s events → admits s a →
      step s a = some (s', e) → P s' (events ++ [e])) : P s' events := by
  induction h with
  | refl => exact hstart
  | step _ hok hstep ih => exact hkeep ih hok hstep

/-- Induction from the first step of a run, for what depends on the steps that are still to come. -/
theorem Run.head_induction {motive : σ → List ε → Prop} {s last : σ} {events : List ε}
    (h : Run step admits s events last) (hlast : motive last [])
    (hhead : ∀ {s s' : σ} {a : α} {e : ε} {events : List ε}, admits s a → step s a = some (s', e) →
      motive s' events → motive s (e :: events)) : motive s events := by
  have hall : ∀ events', motive last events' → motive s (events ++ events') := by
    clear hlast
    induction h with
    | refl => exact fun _ hmotive => hmotive
    | step _ hok hstep ih =>
      intro events' hmotive
      rw [List.append_assoc]
      exact ih _ (hhead hok hstep hmotive)
  simpa using hall [] hlast

/-- Along a run whose states all have `P`, a fact about the events of one step from a state with
`P` holds for every event. -/
theorem Run.events {s s' : σ} {events : List ε} (h : Run step admits s events s')
    (P : σ → Prop) (Q : ε → Prop) (hstart : P s)
    (hkeep : ∀ {s s' : σ} {a : α} {e : ε}, P s → admits s a → step s a = some (s', e) →
      P s' ∧ Q e) : P s' ∧ ∀ e ∈ events, Q e := by
  induction h with
  | refl => exact ⟨hstart, by simp⟩
  | step _ hok hstep ih =>
    obtain ⟨hP, hQ⟩ := hkeep ih.1 hok hstep
    refine ⟨hP, fun e he => ?_⟩
    rcases List.mem_append.mp he with he | he
    · exact ih.2 e he
    · rw [List.mem_singleton.mp he]
      exact hQ

/-- A run whose steps each move an abstraction along one edge, or leave it, moves it along edges. -/
theorem Run.simulates {τ : Type*} {s s' : σ} {events : List ε} (h : Run step admits s events s')
    (P : σ → Prop) (hstart : P s) (abstraction : σ → τ) (edge : τ → τ → Prop)
    (hkeep : ∀ {s s' : σ} {a : α} {e : ε}, P s → admits s a → step s a = some (s', e) → P s' ∧
      (abstraction s' = abstraction s ∨ edge (abstraction s) (abstraction s'))) :
    Relation.ReflTransGen edge (abstraction s) (abstraction s') := by
  have hall : P s' ∧ Relation.ReflTransGen edge (abstraction s) (abstraction s') := by
    induction h with
    | refl => exact ⟨hstart, .refl⟩
    | step _ hok hstep ih =>
      obtain ⟨hP, hmoved | hmoved⟩ := hkeep ih.1 hok hstep
      · exact ⟨hP, hmoved ▸ ih.2⟩
      · exact ⟨hP, ih.2.tail hmoved⟩
  exact hall.2

/-- When each step takes what comes in with it into a stock and hands out the rest of it, so does a
run. -/
theorem Run.balance {β : Type*} {s s' : σ} {events : List ε} (h : Run step admits s events s')
    (P : σ → Prop) (hstart : P s) (gains losses : ε → List β) (stock : σ → List β)
    (hkeep : ∀ {s s' : σ} {a : α} {e : ε}, P s → admits s a → step s a = some (s', e) → P s' ∧
      (gains e ++ stock s).Perm (losses e ++ stock s')) :
    (events.flatMap gains ++ stock s).Perm (events.flatMap losses ++ stock s') := by
  have hall : P s' ∧ (events.flatMap gains ++ stock s).Perm (events.flatMap losses ++ stock s') := by
    induction h with
    | refl => exact ⟨hstart, .refl _⟩
    | @step s' s'' events a e _ hok hstep ih =>
      obtain ⟨hP, hbalance⟩ := hkeep ih.1 hok hstep
      refine ⟨hP, ?_⟩
      have hbefore : (gains e ++ (events.flatMap gains ++ stock s)).Perm
          (events.flatMap losses ++ (gains e ++ stock s')) :=
        (ih.2.append_left _).trans (List.perm_append_comm_assoc _ _ _)
      rw [List.flatMap_append, List.flatMap_append, List.flatMap_singleton, List.flatMap_singleton]
      refine (List.perm_append_comm.append_right _).trans ?_
      rw [List.append_assoc, List.append_assoc]
      exact hbefore.trans (hbalance.append_left _)
  exact hall.2

/-- The run that a list of actions makes, when each is admitted and can happen. -/
def exec (step : σ → α → Option (σ × ε)) (admits : σ → α → Prop) [∀ s a, Decidable (admits s a)] :
    σ → List α → Option (σ × List ε)
  | s, [] => some (s, [])
  | s, a :: rest =>
    if admits s a then
      match step s a with
      | none => none
      | some (s', e) => (exec step admits s' rest).map fun result => (result.1, e :: result.2)
    else none

theorem Run.of_exec [∀ s a, Decidable (admits s a)] {s s' : σ} {actions : List α}
    {events : List ε} (h : exec step admits s actions = some (s', events)) :
    Run step admits s events s' := by
  induction actions generalizing s events with
  | nil =>
    simp only [exec, Option.some.injEq, Prod.mk.injEq] at h
    obtain ⟨rfl, rfl⟩ := h
    exact Run.refl s
  | cons a rest ih =>
    rw [exec] at h
    split at h
    · next hok =>
      split at h
      · cases h
      · next middle e hstep =>
        obtain ⟨⟨last, more⟩, hrest, heq⟩ := Option.map_eq_some_iff.mp h
        obtain ⟨rfl, rfl⟩ := Prod.mk.inj heq
        exact (Run.one hok hstep).trans (ih hrest)
    · cases h

/-- The states that admitted steps reach from a start state. -/
def Reachable (step : σ → α → Option (σ × ε)) (admits : σ → α → Prop) (start s : σ) : Prop :=
  ∃ events, Run step admits start events s

theorem Reachable.of_exec [∀ s a, Decidable (admits s a)] {start s : σ} (actions : List α)
    (h : (exec step admits start actions).map Prod.fst = some s) :
    Reachable step admits start s := by
  obtain ⟨⟨_, events⟩, hexec, rfl⟩ := Option.map_eq_some_iff.mp h
  exact ⟨events, Run.of_exec hexec⟩

theorem Reachable.run {start s s' : σ} {events : List ε} (h : Reachable step admits start s)
    (hrun : Run step admits s events s') : Reachable step admits start s' := by
  obtain ⟨earlier, h⟩ := h
  exact ⟨_, h.trans hrun⟩

theorem Reachable.mono (himp : ∀ s a, admits s a → admits' s a) {start s : σ}
    (h : Reachable step admits start s) : Reachable step admits' start s := by
  obtain ⟨events, hrun⟩ := h
  exact ⟨events, hrun.mono himp⟩

end Runs
