import Mathlib.Data.List.Nodup
import Mathlib.Data.List.Perm.Basic

/-! Answers written at their requests' places: a list of values, each with the position it is
stored at, scattered over a vector of default answers. -/

namespace Scatter

variable {ρ δ : Type}

/-- Store every value of `writes` at its position. -/
def scatter (writes : List (Nat × δ)) (answers : List δ) : List δ :=
  writes.foldl (fun answers write => answers.set write.1 write.2) answers

@[simp] theorem scatter_nil (answers : List δ) : scatter [] answers = answers := rfl

@[simp] theorem scatter_cons (write : Nat × δ) (writes : List (Nat × δ)) (answers : List δ) :
    scatter (write :: writes) answers = scatter writes (answers.set write.1 write.2) := rfl

theorem scatter_append (first second : List (Nat × δ)) (answers : List δ) :
    scatter (first ++ second) answers = scatter second (scatter first answers) := by
  simp [scatter, List.foldl_append]

@[simp] theorem length_scatter (writes : List (Nat × δ)) (answers : List δ) :
    (scatter writes answers).length = answers.length := by
  induction writes generalizing answers with
  | nil => rfl
  | cons write writes ih => simp [ih]

theorem scatter_getElem?_of_notMem {writes : List (Nat × δ)} {answers : List δ} {i : Nat}
    (h : i ∉ writes.map Prod.fst) : (scatter writes answers)[i]? = answers[i]? := by
  induction writes generalizing answers with
  | nil => rfl
  | cons write writes ih =>
    rw [List.map_cons, List.mem_cons, not_or] at h
    rw [scatter_cons, ih h.2, List.getElem?_set_ne (Ne.symm h.1)]

theorem scatter_getElem?_of_mem {writes : List (Nat × δ)} {answers : List δ} {write : Nat × δ}
    (hdistinct : (writes.map Prod.fst).Nodup) (hmem : write ∈ writes)
    (hlt : write.1 < answers.length) : (scatter writes answers)[write.1]? = some write.2 := by
  induction writes generalizing answers with
  | nil => simp at hmem
  | cons head rest ih =>
    rw [List.map_cons, List.nodup_cons] at hdistinct
    rcases List.mem_cons.mp hmem with rfl | hmem
    · rw [scatter_cons, scatter_getElem?_of_notMem hdistinct.1, List.getElem?_set_self hlt]
    · rw [scatter_cons, ih hdistinct.2 hmem (by simpa using hlt)]

/-- Writing a value where it already stands changes nothing. -/
theorem set_eq_self {answers : List δ} {i : Nat} {d : δ} (h : answers[i]? = some d) :
    answers.set i d = answers := by
  obtain ⟨hlt, rfl⟩ := List.getElem?_eq_some_iff.mp h
  exact List.set_getElem_self hlt

/-- When the writes cover every position once, each request is paired with the value written at
its position. -/
theorem zip_scatter_perm {requests : List ρ} {writes : List ((ρ × Nat) × δ)} (d : δ)
    (hcover : (writes.map Prod.fst).Perm requests.zipIdx) :
    (requests.zip (scatter (writes.map fun write => (write.1.2, write.2))
      (List.replicate requests.length d))).Perm (writes.map fun write => (write.1.1, write.2)) := by
  -- The value at each position, as a function of the position alone.
  have hindex : ((writes.map fun write => (write.1.2, write.2)).map Prod.fst).Nodup := by
    have h := hcover.map Prod.snd
    rw [List.map_map] at h ⊢
    apply h.symm.nodup
    rw [List.zipIdx_map_snd]
    exact List.nodup_range'
  set answers := scatter (writes.map fun write => (write.1.2, write.2))
    (List.replicate requests.length d) with hanswers
  have hlen : answers.length = requests.length := by simp [hanswers]
  have hvalue : ∀ write ∈ writes, write.1.2 < requests.length ∧
      answers[write.1.2]? = some write.2 := by
    intro write hwrite
    have hmem : write.1 ∈ requests.zipIdx := hcover.mem_iff.mp (List.mem_map_of_mem hwrite)
    have hlt : write.1.2 < requests.length := by
      obtain ⟨hlt, -⟩ := List.getElem?_eq_some_iff.mp (List.mem_zipIdx_iff_getElem?.mp hmem)
      exact hlt
    refine ⟨hlt, ?_⟩
    have hwrites : (write.1.2, write.2) ∈ writes.map fun write => (write.1.2, write.2) :=
      List.mem_map_of_mem hwrite
    exact scatter_getElem?_of_mem hindex hwrites (by simpa using hlt)
  have hzip : requests.zip answers =
      requests.zipIdx.map fun entry => (entry.1, answers.getD entry.2 d) := by
    apply List.ext_getElem (by simp [hlen])
    intro i h₁ h₂
    have hi : i < requests.length := by simp at h₂; exact h₂
    simp [List.getD_eq_getElem?_getD, List.getElem?_eq_getElem (hlen ▸ hi : i < answers.length)]
  have hmap : (writes.map fun write => (write.1.1, write.2)) =
      (writes.map Prod.fst).map fun entry => (entry.1, answers.getD entry.2 d) := by
    rw [List.map_map]
    apply List.map_congr_left
    intro write hwrite
    simp [List.getD_eq_getElem?_getD, (hvalue write hwrite).2]
  rw [hzip, hmap]
  exact (hcover.map _).symm

end Scatter
