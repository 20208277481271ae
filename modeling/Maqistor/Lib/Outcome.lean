import Mathlib.Data.List.Basic

/-! Loops over computations that may fail: what a success of the whole says about its steps, and
when every step succeeds. -/

namespace Outcome

variable {ε α β σ : Type}

theorem bind_eq_ok {x : Except ε α} {f : α → Except ε β} {b : β} :
    x >>= f = .ok b ↔ ∃ a, x = .ok a ∧ f a = .ok b := by
  cases x with
  | error e => simp [bind, Except.bind]
  | ok a => simp [bind, Except.bind]

theorem guard_eq_ok {p : Prop} [Decidable p] {e : ε} :
    (if p then .error e else .ok () : Except ε Unit) = .ok () ↔ ¬p := by
  split
  · next hp => simp [hp]
  · next hp => simp [hp]

theorem map_eq_ok {x : Except ε α} {f : α → β} {b : β} :
    (do let a ← x; return f a) = .ok b ↔ ∃ a, x = .ok a ∧ f a = b := by
  rw [bind_eq_ok]
  simp [pure, Except.pure]

theorem bind_eq_error {x : Except ε α} {f : α → Except ε β} {e : ε} :
    x >>= f = .error e ↔ x = .error e ∨ ∃ a, x = .ok a ∧ f a = .error e := by
  cases x with
  | error e' => simp [bind, Except.bind]
  | ok a => simp [bind, Except.bind]

theorem map_eq_error {x : Except ε α} {f : α → β} {e : ε} :
    (do let a ← x; return f a) = .error e ↔ x = .error e := by
  rw [bind_eq_error]
  simp [pure, Except.pure]

theorem mapM_of_ok {f : α → Except ε β} {g : α → β} {items : List α}
    (h : ∀ item ∈ items, f item = .ok (g item)) : items.mapM f = .ok (items.map g) := by
  induction items with
  | nil => rfl
  | cons item items ih =>
    rw [List.mapM_cons, h item List.mem_cons_self,
      ih fun other hother => h other (List.mem_cons_of_mem _ hother)]
    rfl

/-- A loop that succeeds has succeeded on every item, in order. -/
theorem mapM_ok {f : α → Except ε β} {items : List α} {results : List β}
    (h : items.mapM f = .ok results) :
    List.Forall₂ (fun item result => f item = .ok result) items results := by
  induction items generalizing results with
  | nil =>
    simp only [List.mapM_nil, pure, Except.pure, Except.ok.injEq] at h
    subst h
    exact List.Forall₂.nil
  | cons item items ih =>
    rw [List.mapM_cons, bind_eq_ok] at h
    obtain ⟨first, hfirst, h⟩ := h
    rw [map_eq_ok] at h
    obtain ⟨rest, hrest, rfl⟩ := h
    exact List.Forall₂.cons hfirst (ih hrest)

theorem exists_of_mapM_ok {f : α → Except ε β} {items : List α} {results : List β} {result : β}
    (h : items.mapM f = .ok results) (hresult : result ∈ results) :
    ∃ item ∈ items, f item = .ok result := by
  have hall := mapM_ok h
  clear h
  induction hall with
  | nil => cases hresult
  | cons hfirst _ ih =>
    rcases List.mem_cons.mp hresult with rfl | hrest
    · exact ⟨_, List.mem_cons_self, hfirst⟩
    · obtain ⟨item, hitem, hok⟩ := ih hrest
      exact ⟨item, List.mem_cons_of_mem _ hitem, hok⟩

theorem mapM_error {f : α → Except ε β} {items : List α} {e : ε}
    (h : items.mapM f = .error e) : ∃ item ∈ items, f item = .error e := by
  induction items with
  | nil => simp [pure, Except.pure] at h
  | cons item items ih =>
    rw [List.mapM_cons, bind_eq_error] at h
    rcases h with h | ⟨first, -, h⟩
    · exact ⟨item, List.mem_cons_self, h⟩
    · obtain ⟨other, hother, hf⟩ := ih (map_eq_error.mp h)
      exact ⟨other, List.mem_cons_of_mem _ hother, hf⟩

theorem foldlM_error {f : σ → α → Except ε σ} {items : List α} {s : σ} {e : ε}
    (h : items.foldlM f s = .error e) : ∃ s' item, item ∈ items ∧ f s' item = .error e := by
  induction items generalizing s with
  | nil => simp [pure, Except.pure] at h
  | cons item items ih =>
    rw [List.foldlM_cons, bind_eq_error] at h
    rcases h with h | ⟨middle, -, h⟩
    · exact ⟨s, item, List.mem_cons_self, h⟩
    · obtain ⟨s', other, hother, hf⟩ := ih h
      exact ⟨s', other, List.mem_cons_of_mem _ hother, hf⟩

end Outcome
