import Mathlib.Data.List.Basic
import Mathlib.Data.List.Perm.Subperm

/-! Lists as tables: rows are appended at the end and changed in place, and a row number
stands for the same row from then on. -/
namespace Table

variable {rows : List α} {new row found : α} {f : α → α} {i j : Nat}

theorem getElem?_snoc_cases (at_i : (rows ++ [new])[i]? = some row) :
    rows[i]? = some row ∨ i = rows.length ∧ row = new := by
  rw [List.getElem?_append] at at_i
  split at at_i
  · exact .inl at_i
  · rw [List.getElem?_singleton] at at_i
    split at at_i
    · cases at_i
      exact .inr ⟨by omega,rfl⟩
    · cases at_i

theorem getElem?_snoc_old (at_i : rows[i]? = some row) : (rows ++ [new])[i]? = some row := by
  obtain ⟨below,-⟩ := List.getElem?_eq_some_iff.mp at_i
  rw [List.getElem?_append_left below]
  exact at_i

theorem getElem?_modify_row (at_j : rows[j]? = some row) :
    (rows.modify i f)[j]? = some (if i = j then f row else row) := by
  rw [List.getElem?_modify,at_j]
  split <;> rfl

theorem getElem?_modify_cases (at_j : (rows.modify i f)[j]? = some row) :
    ∃ old, rows[j]? = some old ∧ (i ≠ j ∧ row = old ∨ i = j ∧ row = f old) := by
  cases before : rows[j]? with
  | none =>
    rw [List.getElem?_modify,before] at at_j
    cases at_j
  | some old =>
    refine ⟨old,rfl,?_⟩
    rw [getElem?_modify_row before,Option.some.injEq] at at_j
    by_cases same : i = j
    · exact .inr ⟨same,by rw [← at_j,if_pos same]⟩
    · exact .inl ⟨same,by rw [← at_j,if_neg same]⟩

/-- A change that leaves a column alone. -/
theorem map_modify_eq {column : α → β} (same : ∀ row, column (f row) = column row) :
    (rows.modify i f).map column = rows.map column := by
  apply List.ext_getElem?
  intro j
  rw [List.getElem?_map,List.getElem?_map]
  cases before : rows[j]? with
  | none =>
    rw [List.getElem?_modify,before]
    rfl
  | some row =>
    rw [getElem?_modify_row before]
    by_cases eq : i = j <;> simp [eq,same]

theorem getElem?_set_cases (at_j : (rows.set i new)[j]? = some row) :
    i = j ∧ row = new ∨ i ≠ j ∧ rows[j]? = some row := by
  rw [List.getElem?_set] at at_j
  split at at_j
  · rename_i same
    split at at_j
    · exact .inl ⟨same,(Option.some.inj at_j).symm⟩
    · cases at_j
  · exact .inr ⟨by assumption,at_j⟩

/-- Replacing a row moves a count by what the old and the new row contribute. -/
theorem countP_set_row (at_i : rows[i]? = some row) (new : α) (p : α → Bool) :
    (rows.set i new).countP p + (if p row then 1 else 0) =
      rows.countP p + (if p new then 1 else 0) := by
  obtain ⟨below,rfl⟩ := List.getElem?_eq_some_iff.mp at_i
  rw [List.countP_set below]
  by_cases counted : p rows[i] = true
  · have positive : 0 < rows.countP p := List.countP_pos_iff.mpr ⟨_,List.getElem_mem below,counted⟩
    simp only [counted,if_true]
    omega
  · simp [counted]

/-- Rows that satisfy `p` and have distinct keys in a list are at most as many as the keys. -/
theorem countP_le_of_distinct (key : α → β) {keys : List β} {p : α → Bool} {q : β → Bool}
    (distinct : ∀ (i j : Nat) (x y : α), rows[i]? = some x → rows[j]? = some y → p x = true →
      p y = true → key x = key y → i = j)
    (listed : ∀ x ∈ rows, p x = true → key x ∈ keys ∧ q (key x) = true) :
    rows.countP p ≤ keys.countP q := by
  have nodup : ((rows.filter p).map key).Nodup := by
    rw [List.nodup_iff_pairwise_ne,List.pairwise_map,List.pairwise_filter,List.pairwise_iff_getElem]
    intro i j below below' less px py same
    have eq := distinct i j _ _ (List.getElem?_eq_getElem below) (List.getElem?_eq_getElem below') px py same
    omega
  have subset : (rows.filter p).map key ⊆ keys.filter q := by
    intro k member
    obtain ⟨x,inside,rfl⟩ := List.mem_map.mp member
    obtain ⟨found,px⟩ := List.mem_filter.mp inside
    exact List.mem_filter.mpr (listed x found px)
  have short := (nodup.subperm subset).length_le
  simpa [List.countP_eq_length_filter] using short

/-- Two tables whose rows look the same through `f`. -/
def SeenAlike (f : Nat → α → β) (rows rows' : List α) : Prop := ∀ i : Nat, rows'[i]?.map (f i) = rows[i]?.map (f i)

section Seen
variable {f : Nat → α → β} {rows rows' : List α} {old new new' : α}

theorem SeenAlike.symm (alike : SeenAlike f rows rows') : SeenAlike f rows' rows := fun i => (alike i).symm

theorem SeenAlike.same_row (alike : SeenAlike f rows rows') (found : rows[i]? = some old) :
    ∃ row, rows'[i]? = some row ∧ f i row = f i old := by
  have same := alike i
  rw [found,Option.map_some,Option.map_eq_some_iff] at same
  exact same

theorem SeenAlike.length_le (alike : SeenAlike f rows rows') : rows'.length ≤ rows.length := by
  have out := alike rows.length
  rw [List.getElem?_eq_none (Nat.le_refl _),Option.map_none,Option.map_eq_none_iff] at out
  exact List.getElem?_eq_none_iff.mp out

theorem SeenAlike.length (alike : SeenAlike f rows rows') : rows'.length = rows.length :=
  Nat.le_antisymm alike.length_le alike.symm.length_le

theorem SeenAlike.snoc (alike : SeenAlike f rows rows') (new : α) : SeenAlike f (rows ++ [new]) (rows' ++ [new]) := by
  intro i
  rw [List.getElem?_append,List.getElem?_append,alike.length]
  split
  · exact alike i
  · rfl

theorem SeenAlike.set (alike : SeenAlike f rows rows') (j : Nat) (fits : f j new' = f j new) :
    SeenAlike f (rows.set j new) (rows'.set j new') := by
  intro i
  rw [List.getElem?_set,List.getElem?_set,alike.length]
  split
  · rename_i here
    subst here
    split
    · rw [Option.map_some,Option.map_some,fits]
    · rfl
  · exact alike i

/-- A row may be changed into one that looks the same. -/
theorem SeenAlike.set_left (alike : SeenAlike f rows rows') (found : rows[j]? = some old) (fits : f j new = f j old) :
    SeenAlike f (rows.set j new) rows' := by
  intro i
  rw [alike i,List.getElem?_set]
  split
  · rename_i here
    subst here
    obtain ⟨below,_⟩ := List.getElem?_eq_some_iff.mp found
    rw [found,if_pos below,Option.map_some,Option.map_some,fits]
  · rfl

end Seen

end Table
