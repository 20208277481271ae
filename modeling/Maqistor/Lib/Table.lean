import Mathlib.Data.List.Nodup
import Mathlib.Data.List.Perm.Basic

/-! Tables as lists of rows, and the statements that a store runs on them: lookups by a unique
column, row ids, slices cut into chunks, and `UPDATE .. FROM (VALUES ..) .. RETURNING`, whose
result SQL leaves partly open. -/

namespace Table

variable {α β κ : Type}

/-- What SQL leaves open in a statement: the join row that `UPDATE .. FROM` uses when several
match, and the order of the rows that a statement without `ORDER BY` returns. -/
structure Choice where
  pick : {α β : Type} → α → β → List β → β
  pick_mem : ∀ {α β : Type} (row : α) (first : β) (rest : List β),
    pick row first rest ∈ first :: rest
  order : {α : Type} → List α → List α
  order_perm : ∀ {α : Type} (rows : List α), (order rows).Perm rows

/-- The choice of the first matching join row, with rows returned in table order. -/
def Choice.first : Choice where
  pick _ b _ := b
  pick_mem _ _ _ := List.mem_cons_self
  order rows := rows
  order_perm _ := List.Perm.refl _

@[simp] theorem Choice.mem_order (choice : Choice) {rows : List α} {row : α} :
    row ∈ choice.order rows ↔ row ∈ rows :=
  (choice.order_perm rows).mem_iff

/-! ### Lookups by a column -/

section Lookup

variable [DecidableEq κ] {key : α → κ} {k : κ} {rows : List α} {row : α}

/-- The first row whose column `key` holds `k`. -/
def lookup (key : α → κ) (k : κ) (rows : List α) : Option α :=
  rows.find? fun row => key row = k

@[simp] theorem lookup_nil : lookup key k [] = none := rfl

theorem lookup_cons : lookup key k (row :: rows) =
    if key row = k then some row else lookup key k rows := by
  by_cases h : key row = k <;> simp [lookup, h]

theorem key_of_lookup (h : lookup key k rows = some row) : key row = k := by
  simpa using List.find?_some h

theorem mem_of_lookup (h : lookup key k rows = some row) : row ∈ rows :=
  List.mem_of_find?_eq_some h

theorem lookup_eq_none : lookup key k rows = none ↔ ∀ row ∈ rows, key row ≠ k := by
  simp [lookup]

theorem lookup_append (more : List α) :
    lookup key k (rows ++ more) = (lookup key k rows).or (lookup key k more) := by
  simp [lookup]

/-- In a table where the column is unique, a row is found under its own value. -/
theorem lookup_of_mem (hunique : (rows.map key).Nodup) (h : row ∈ rows) :
    lookup key (key row) rows = some row := by
  induction rows with
  | nil => simp at h
  | cons head rest ih =>
    rw [List.map_cons, List.nodup_cons] at hunique
    rcases List.mem_cons.mp h with rfl | h
    · simp [lookup_cons]
    · have hne : key head ≠ key row := fun he => hunique.1 (he ▸ List.mem_map_of_mem h)
      rw [lookup_cons, if_neg hne, ih hunique.2 h]

/-- A rewrite of every row that keeps the column commutes with lookups. -/
theorem lookup_map {f : α → α} (hf : ∀ row, key (f row) = key row) :
    lookup key k (rows.map f) = (lookup key k rows).map f := by
  induction rows with
  | nil => rfl
  | cons head rest ih =>
    rw [List.map_cons, lookup_cons, lookup_cons, hf, ih]
    split <;> rfl

/-- Rows that a filter keeps whenever they have the value are still found under it. -/
theorem lookup_filter_of_keeps {p : α → Bool} (h : ∀ row, key row = k → p row = true) :
    lookup key k (rows.filter p) = lookup key k rows := by
  induction rows with
  | nil => rfl
  | cons head rest ih =>
    rw [List.filter_cons]
    by_cases hk : key head = k
    · simp [h head hk, lookup_cons, hk]
    · by_cases hp : p head <;> simp [hp, hk, lookup_cons, ih]

end Lookup

/-! ### Row ids -/

/-- The row id of the next inserted row: one above the largest id present, or 1 when the table is
empty. -/
def nextRowid (ids : List Int) : Int :=
  match ids.max? with
  | none => 1
  | some largest => largest + 1

theorem lt_nextRowid {ids : List Int} {id : Int} (h : id ∈ ids) : id < nextRowid ids := by
  unfold nextRowid
  cases hmax : ids.max? with
  | none =>
    rw [List.max?_eq_none_iff] at hmax
    simp [hmax] at h
  | some largest =>
    exact Int.lt_add_one_of_le ((List.max?_eq_some_iff.mp hmax).2 id h)

theorem nextRowid_notMem (ids : List Int) : nextRowid ids ∉ ids :=
  fun h => Int.lt_irrefl _ (lt_nextRowid h)

theorem nextRowid_eq {ids : List Int} {largest : Int} (hmem : largest ∈ ids)
    (hle : ∀ id ∈ ids, id ≤ largest) : nextRowid ids = largest + 1 := by
  rw [nextRowid, List.max?_eq_some_iff.mpr ⟨hmem, hle⟩]

/-- Inserting a row moves the next id up by one. -/
theorem nextRowid_append (ids : List Int) :
    nextRowid (ids ++ [nextRowid ids]) = nextRowid ids + 1 := by
  apply nextRowid_eq (List.mem_append_right _ (List.mem_singleton_self _))
  intro id hid
  rcases List.mem_append.mp hid with hid | hid
  · exact Int.le_of_lt (lt_nextRowid hid)
  · exact Int.le_of_eq (List.mem_singleton.mp hid)

/-! ### Chunks -/

/-- The first `fuel` slices of `n` elements of a list. -/
def chunksFrom (n : Nat) : Nat → List α → List (List α)
  | 0, _ => []
  | _ + 1, [] => []
  | fuel + 1, x :: xs => (x :: xs).take n :: chunksFrom n fuel ((x :: xs).drop n)

/-- A list cut into slices of `n` elements, the last one possibly shorter. -/
def chunks (n : Nat) (xs : List α) : List (List α) := chunksFrom n xs.length xs

theorem chunksFrom_flatten {n : Nat} (hn : 0 < n) (fuel : Nat) (xs : List α)
    (hfuel : xs.length ≤ fuel) : (chunksFrom n fuel xs).flatten = xs := by
  induction fuel generalizing xs with
  | zero => simp [chunksFrom, List.eq_nil_of_length_eq_zero (Nat.le_zero.mp hfuel)]
  | succ fuel ih =>
    cases xs with
    | nil => rfl
    | cons x xs =>
      have hlen : ((x :: xs).drop n).length ≤ fuel := by simp at hfuel ⊢; omega
      rw [chunksFrom, List.flatten_cons, ih _ hlen, List.take_append_drop]

theorem chunks_flatten {n : Nat} (hn : 0 < n) (xs : List α) : (chunks n xs).flatten = xs :=
  chunksFrom_flatten hn _ xs (Nat.le_refl _)

/-- What is read off every chunk, in the order of the chunks, is read off the whole list. -/
theorem chunks_flatMap_map {n : Nat} (hn : 0 < n) (xs : List α) (f : α → β) :
    ((chunks n xs).flatMap fun chunk => chunk.map f) = xs.map f := by
  rw [List.flatMap_def, ← List.map_flatten, chunks_flatten hn]

theorem chunksFrom_ne_nil {n : Nat} (hn : 0 < n) (fuel : Nat) (xs : List α) {chunk : List α}
    (h : chunk ∈ chunksFrom n fuel xs) : chunk ≠ [] := by
  induction fuel generalizing xs with
  | zero => cases h
  | succ fuel ih =>
    cases xs with
    | nil => cases h
    | cons x xs =>
      rw [chunksFrom, List.mem_cons] at h
      rcases h with rfl | h
      · obtain ⟨m, rfl⟩ := Nat.exists_eq_succ_of_ne_zero (Nat.ne_of_gt hn)
        exact List.cons_ne_nil _ _
      · exact ih _ h

/-- No chunk is empty. -/
theorem chunks_ne_nil {n : Nat} (hn : 0 < n) {xs chunk : List α} (h : chunk ∈ chunks n xs) :
    chunk ≠ [] :=
  chunksFrom_ne_nil hn _ _ h

/-- A list that fits in one chunk is its only chunk. -/
theorem chunks_of_length_le {n : Nat} {xs : List α} (hne : xs ≠ []) (hlen : xs.length ≤ n) :
    chunks n xs = [xs] := by
  obtain ⟨x, rest, rfl⟩ := List.exists_cons_of_ne_nil hne
  rw [chunks, List.length_cons, chunksFrom, List.take_of_length_le hlen,
    List.drop_eq_nil_of_le hlen]
  cases rest <;> rfl

/-- Rewriting the table once for each chunk rewrites each row by all chunks in turn. -/
theorem foldl_map_rows (f : β → α → α) (parts : List β) (rows : List α) :
    parts.foldl (fun rows part => rows.map (f part)) rows =
      rows.map fun row => parts.foldl (fun row part => f part row) row := by
  induction parts generalizing rows with
  | nil => simp
  | cons part parts ih => simp [ih, List.map_map, Function.comp_def]

/-! ### `UPDATE .. FROM (VALUES ..) .. RETURNING` -/

section UpdateFrom

variable {choice : Choice} {assign : α → β → α} {cond : α → β → Bool} {values : List β}
  {row row' : α}

/-- The row that `UPDATE .. SET assign FROM values WHERE cond` makes of `row`, if it matches. -/
def updatedRow (choice : Choice) (assign : α → β → α) (cond : α → β → Bool) (values : List β)
    (row : α) : Option α :=
  match values.filter (cond row) with
  | [] => none
  | first :: rest => some (assign row (choice.pick row first rest))

/-- The row after the statement, whether it matched or not. -/
def rowAfter (choice : Choice) (assign : α → β → α) (cond : α → β → Bool) (values : List β)
    (row : α) : α :=
  (updatedRow choice assign cond values row).getD row

/-- The table after `UPDATE .. FROM`, and the rows it returns. -/
def updateFrom (choice : Choice) (assign : α → β → α) (cond : α → β → Bool) (values : List β)
    (rows : List α) : List α × List α :=
  (rows.map (rowAfter choice assign cond values),
    choice.order (rows.filterMap (updatedRow choice assign cond values)))

theorem updatedRow_eq_none : updatedRow choice assign cond values row = none ↔
    ∀ value ∈ values, cond row value = false := by
  unfold updatedRow
  cases h : values.filter (cond row) with
  | nil => simpa [List.filter_eq_nil_iff] using h
  | cons first rest =>
    have hmem : first ∈ values.filter (cond row) := h ▸ List.mem_cons_self
    rw [List.mem_filter] at hmem
    simp only [reduceCtorEq, false_iff, not_forall]
    exact ⟨first, hmem.1, by simp [hmem.2]⟩

theorem updatedRow_eq_some (h : updatedRow choice assign cond values row = some row') :
    ∃ value ∈ values, cond row value = true ∧ row' = assign row value := by
  unfold updatedRow at h
  cases hfilter : values.filter (cond row) with
  | nil => simp [hfilter] at h
  | cons first rest =>
    simp only [hfilter, Option.some.injEq] at h
    have hmem := choice.pick_mem row first rest
    rw [← hfilter, List.mem_filter] at hmem
    exact ⟨_, hmem.1, hmem.2, h.symm⟩

theorem updatedRow_isSome : (updatedRow choice assign cond values row).isSome ↔
    ∃ value ∈ values, cond row value = true := by
  rw [← not_iff_not, Option.not_isSome_iff_eq_none, updatedRow_eq_none]
  simp

theorem rowAfter_cases (choice : Choice) (assign : α → β → α) (cond : α → β → Bool)
    (values : List β) (row : α) :
    ((∀ value ∈ values, cond row value = false) ∧
        rowAfter choice assign cond values row = row) ∨
      ∃ value ∈ values, cond row value = true ∧
        rowAfter choice assign cond values row = assign row value := by
  cases h : updatedRow choice assign cond values row with
  | none => exact Or.inl ⟨updatedRow_eq_none.mp h, by rw [rowAfter, h, Option.getD_none]⟩
  | some row' =>
    obtain ⟨value, hmem, hcond, rfl⟩ := updatedRow_eq_some h
    exact Or.inr ⟨value, hmem, hcond, by rw [rowAfter, h, Option.getD_some]⟩

/-- A column that `SET` does not assign is kept in every row. -/
theorem rowAfter_keeps {γ : Type} {column : α → γ}
    (h : ∀ row value, column (assign row value) = column row) :
    column (rowAfter choice assign cond values row) = column row := by
  rcases rowAfter_cases choice assign cond values row with ⟨-, he⟩ | ⟨value, -, -, he⟩
  · rw [he]
  · rw [he, h]

/-- Statements run one after another on a row whose update takes it out of their condition: the
row keeps its value, or is updated once by one of the values. -/
theorem foldl_rowAfter_cases (choice : Choice)
    (hstop : ∀ row value other, cond row value = true → cond (assign row value) other = false)
    (parts : List (List β)) (row : α) :
    ((∀ value ∈ parts.flatten, cond row value = false) ∧
        parts.foldl (fun row part => rowAfter choice assign cond part row) row = row) ∨
      ∃ value ∈ parts.flatten, cond row value = true ∧
        parts.foldl (fun row part => rowAfter choice assign cond part row) row =
          assign row value := by
  induction parts generalizing row with
  | nil => simp
  | cons part parts ih =>
    simp only [List.foldl_cons, List.flatten_cons, List.mem_append]
    rcases rowAfter_cases choice assign cond part row with ⟨hnone, he⟩ | ⟨value, hv, hc, he⟩
    · rw [he]
      rcases ih row with ⟨hrest, hfold⟩ | ⟨value, hv, hc, hfold⟩
      · exact Or.inl ⟨fun v hv => hv.elim (hnone v) (hrest v), hfold⟩
      · exact Or.inr ⟨value, Or.inr hv, hc, hfold⟩
    · rw [he]
      refine Or.inr ⟨value, Or.inl hv, hc, ?_⟩
      rcases ih (assign row value) with ⟨-, hfold⟩ | ⟨other, -, hc', -⟩
      · exact hfold
      · rw [hstop row value other hc] at hc'
        cases hc'

theorem mem_updateFrom_returned {rows : List α} :
    row' ∈ (updateFrom choice assign cond values rows).2 ↔
      ∃ row ∈ rows, updatedRow choice assign cond values row = some row' := by
  simp [updateFrom]

end UpdateFrom

end Table
