import Mathlib.Data.List.Basic

/-! Multimaps as lists of pairs: what matters is the list of values of each key. -/
namespace Multimap

variable {κ α : Type} [DecidableEq κ]

/-- The values of a key, in order. -/
def values (map : List (κ × α)) (key : κ) : List α := (map.filter (·.1 = key)).map (·.2)

/-- The first value of a key. -/
def get (map : List (κ × α)) (key : κ) : Option α := (values map key).head?

/-- Replace the values of a key by one. -/
def insert (map : List (κ × α)) (key : κ) (value : α) : List (κ × α) :=
  map.filter (·.1 ≠ key) ++ [(key,value)]

/-- Insert the pairs of a list one after the other. -/
def insertAll (map items : List (κ × α)) : List (κ × α) :=
  items.foldl (fun map item => insert map item.1 item.2) map

variable {map items : List (κ × α)} {key other : κ} {value : α}

@[simp] theorem values_nil : values ([] : List (κ × α)) key = [] := rfl

theorem values_append (left right : List (κ × α)) :
    values (left ++ right) key = values left key ++ values right key := by
  simp [values]

theorem values_cons (item : κ × α) (rest : List (κ × α)) :
    values (item :: rest) key = if item.1 = key then item.2 :: values rest key else values rest key := by
  by_cases same : item.1 = key <;> simp [values,same]

/-- The values of a key after a filter by key. -/
theorem values_filter (map : List (κ × α)) (key : κ) (keep : κ → Bool) :
    values (map.filter (keep ·.1)) key = if keep key then values map key else [] := by
  induction map with
  | nil => simp
  | cons item rest ih =>
    by_cases same : item.1 = key
    · subst same
      by_cases kept : keep item.1 = true <;> simp_all [values_cons]
    · by_cases kept : keep item.1 = true <;> simp_all [values_cons]

@[simp] theorem values_insert_self : values (insert map key value) key = [value] := by
  have dropped := values_filter map key (fun k => decide (k ≠ key))
  simp only [ne_eq,not_true_eq_false,decide_false,Bool.false_eq_true,if_false] at dropped
  rw [insert,values_append,dropped]
  simp [values_cons]

@[simp] theorem values_insert_ne (different : other ≠ key) :
    values (insert map key value) other = values map other := by
  have kept := values_filter map other (fun k => decide (k ≠ key))
  simp only [different,ne_eq,not_false_eq_true,decide_true,if_true] at kept
  rw [insert,values_append,kept]
  simp [values_cons,Ne.symm different]

/-- Of several values that are inserted under one key the last is kept. -/
theorem values_insertAll : values (insertAll map items) key =
    ((values items key).getLast?.map fun last => [last]).getD (values map key) := by
  induction items generalizing map with
  | nil => rfl
  | cons item rest ih =>
    rw [insertAll,List.foldl_cons]
    refine ih.trans ?_
    by_cases same : item.1 = key
    · subst same
      rw [values_cons,if_pos rfl,values_insert_self]
      cases values rest item.1 with
      | nil => rfl
      | cons first later => simp [List.getLast?_cons]
    · rw [values_cons,if_neg same,values_insert_ne (Ne.symm same)]

end Multimap
