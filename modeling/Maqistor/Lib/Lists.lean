import Mathlib.Data.List.Perm.Basic
import Mathlib.Algebra.BigOperators.Group.List.Basic
import Mathlib.Algebra.GroupWithZero.Nat

/-! A list with one item replaced, folds that replace items one by one, and lists that are related
item by item. -/

namespace Lists

variable {α β : Type*} {list : List α} {i : Nat} {item : α}

theorem modify_of_some {f : α → α} (h : list[i]? = some item) :
    list.modify i f = list.set i (f item) := by
  rw [List.modify_eq_set_getElem?, h]
  rfl

/-- What stands in a list after one of its items was replaced. -/
theorem getElem?_set_of_some {j : Nat} {new other : α} (hitem : list[i]? = some item)
    (h : (list.set i new)[j]? = some other) :
    j = i ∧ other = new ∨ j ≠ i ∧ list[j]? = some other := by
  rw [List.getElem?_set] at h
  split at h
  · next heq =>
    rw [if_pos (heq ▸ (List.getElem?_eq_some_iff.mp hitem).1)] at h
    exact Or.inl ⟨heq.symm, (Option.some.inj h).symm⟩
  · next hne => exact Or.inr ⟨fun heq => hne heq.symm, h⟩

/-- The list around the item that is replaced. -/
theorem split_set (h : list[i]? = some item) :
    ∃ before after, list = before ++ item :: after ∧
      ∀ other, list.set i other = before ++ other :: after := by
  obtain ⟨hlt, hitem⟩ := List.getElem?_eq_some_iff.mp h
  refine ⟨list.take i, list.drop (i + 1), ?_, fun other => List.set_eq_take_append_cons_drop.trans ?_⟩
  · rw [← hitem, List.cons_getElem_drop_succ, List.take_append_drop]
  · rw [if_pos hlt]

/-- The list with one item taken out. -/
theorem perm_eraseIdx (h : list[i]? = some item) : list.Perm (item :: list.eraseIdx i) := by
  obtain ⟨hlt, rfl⟩ := List.getElem?_eq_some_iff.mp h
  exact (List.getElem_cons_eraseIdx_perm hlt).symm

theorem map_set_self {f : α → β} {other : α} (h : list[i]? = some item) (hsame : f other = f item) :
    (list.set i other).map f = list.map f := by
  obtain ⟨before, after, rfl, hset⟩ := split_set h
  rw [hset, List.map_append, List.map_append, List.map_cons, List.map_cons, hsame]

theorem filterMap_set_self {f : α → Option β} {other : α} (h : list[i]? = some item)
    (hsame : f other = f item) : (list.set i other).filterMap f = list.filterMap f := by
  obtain ⟨before, after, rfl, hset⟩ := split_set h
  rw [hset, List.filterMap_append, List.filterMap_append, List.filterMap_cons, List.filterMap_cons,
    hsame]

/-- An item that counted for nothing counts for one. -/
theorem filterMap_set_perm {f : α → Option β} {other : α} {value : β} (h : list[i]? = some item)
    (hnone : f item = none) (hsome : f other = some value) :
    ((list.set i other).filterMap f).Perm (value :: list.filterMap f) := by
  obtain ⟨before, after, rfl, hset⟩ := split_set h
  rw [hset, List.filterMap_append, List.filterMap_append, List.filterMap_cons_none hnone,
    List.filterMap_cons_some hsome]
  exact List.perm_middle

/-- What an item counts for goes out of a list when another one replaces it. -/
theorem filterMap_set_balance {f : α → Option β} (h : list[i]? = some item) (other : α) :
    ((f other).toList ++ list.filterMap f).Perm
      ((f item).toList ++ (list.set i other).filterMap f) := by
  obtain ⟨before, after, rfl, hset⟩ := split_set h
  have hcons : ∀ x, ((x :: after).filterMap f) = (f x).toList ++ after.filterMap f := by
    intro x
    cases hx : f x with
    | none => simp [List.filterMap_cons_none hx]
    | some value => simp [List.filterMap_cons_some hx]
  rw [hset, List.filterMap_append, List.filterMap_append, hcons, hcons]
  refine (List.perm_append_comm_assoc _ _ _).trans ?_
  refine List.Perm.trans ?_ (List.perm_append_comm_assoc _ _ _).symm
  exact (List.perm_append_comm_assoc _ _ _).append_left _

theorem sum_set {f : α → Nat} (h : list[i]? = some item) (other : α) :
    ((list.set i other).map f).sum + f item = (list.map f).sum + f other := by
  obtain ⟨before, after, rfl, hset⟩ := split_set h
  simp only [hset, List.map_append, List.map_cons, List.sum_append, List.sum_cons]
  omega

section Folds

variable {f : List α → β → List α} {items : List β}

theorem length_foldl (hf : ∀ list item, (f list item).length = list.length) (items : List β)
    (list : List α) : (items.foldl f list).length = list.length := by
  induction items generalizing list with
  | nil => rfl
  | cons item items ih => rw [List.foldl_cons, ih, hf]

/-- A place that no step of the fold touches. -/
theorem getElem?_foldl_of_keep (hf : ∀ item ∈ items, ∀ list, (f list item)[i]? = list[i]?)
    (list : List α) : (items.foldl f list)[i]? = list[i]? := by
  induction items generalizing list with
  | nil => rfl
  | cons item items ih =>
    rw [List.foldl_cons, ih fun other hmem => hf other (List.mem_cons_of_mem _ hmem),
      hf item List.mem_cons_self]

/-- A place that some step of the fold sets to a value and no step sets to another one. -/
theorem getElem?_foldl_of_set {value : α} (hlength : ∀ list item, (f list item).length = list.length)
    (hf : ∀ list item, (f list item)[i]? = list[i]? ∨ (f list item)[i]? = some value)
    (h : list[i]? = some value ∨
      ∃ item ∈ items, ∀ list, i < list.length → (f list item)[i]? = some value)
    (hlt : i < list.length) : (items.foldl f list)[i]? = some value := by
  induction items generalizing list with
  | nil => exact h.resolve_right fun ⟨item, hmem, _⟩ => List.not_mem_nil hmem
  | cons head rest ih =>
    refine ih ?_ (by rwa [hlength])
    rcases h with h | ⟨item, hmem, hset⟩
    · exact Or.inl ((hf list head).elim (fun heq => heq.trans h) id)
    · rcases List.mem_cons.mp hmem with rfl | hmem
      · exact Or.inl (hset list hlt)
      · exact Or.inr ⟨item, hmem, hset⟩

end Folds

/-! ### Item by item -/

section Pairs

variable {γ : Type*} {R : α → β → Prop} {S : β → γ → Prop} {as : List α} {bs : List β} {cs : List γ}

/-- Related items are items of the two lists. -/
theorem forall₂_mem (h : List.Forall₂ R as bs) :
    List.Forall₂ (fun a b => a ∈ as ∧ b ∈ bs ∧ R a b) as bs := by
  refine List.forall₂_iff_zip.mpr ⟨h.length_eq, fun hmem => ?_⟩
  obtain ⟨ha, hb⟩ := List.of_mem_zip hmem
  exact ⟨ha, hb, List.forall₂_zip h hmem⟩

theorem forall₂_comp (h : List.Forall₂ R as bs) (h' : List.Forall₂ S bs cs) :
    List.Forall₂ (fun a c => ∃ b, R a b ∧ S b c) as cs := by
  induction h generalizing cs with
  | nil =>
    cases h'
    exact .nil
  | cons hab _ ih =>
    cases h' with
    | cons hbc hrest => exact .cons ⟨_, hab, hbc⟩ (ih hrest)

theorem map_eq_of_forall₂ {f : α → γ} {g : β → γ} (h : List.Forall₂ R as bs)
    (hsame : ∀ a b, R a b → f a = g b) : as.map f = bs.map g := by
  induction h with
  | nil => rfl
  | cons hab _ ih => rw [List.map_cons, List.map_cons, hsame _ _ hab, ih]

end Pairs

end Lists
