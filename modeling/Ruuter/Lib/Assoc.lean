import Mathlib.Data.List.AList

/-! Association lists with distinct keys: changing the values, dropping keys, and folds over
their entries. -/
namespace Assoc

/-- What every step of a fold leaves alone the fold leaves alone. -/
theorem foldl_keeps {f : β → γ} {step : β → α → β} (kept : ∀ b a, f (step b a) = f b) (items : List α)
    (b : β) : f (items.foldl step b) = f b := by
  induction items generalizing b with
  | nil => rfl
  | cons a rest ih => exact (ih (step b a)).trans (kept b a)

/-- What every step of a fold preserves the fold preserves. -/
theorem foldl_preserves {P : β → Prop} {step : β → α → β} (kept : ∀ b a, P b → P (step b a))
    (items : List α) (holds : P b) : P (items.foldl step b) := by
  induction items generalizing b with
  | nil => exact holds
  | cons a rest ih => exact ih (kept b a holds)

variable {κ α β : Type} [DecidableEq κ]

/-- The keys of a map filled from a list. -/
theorem mem_foldl_insert {items : List β} {key : β → κ} {value : β → α} {map : AList fun _ : κ => α} :
    name ∈ items.foldl (fun map item => map.insert (key item) (value item)) map ↔
      name ∈ map ∨ ∃ item ∈ items, key item = name := by
  induction items generalizing map with
  | nil => simp
  | cons item rest ih =>
    rw [List.foldl_cons,ih,AList.mem_insert]
    simp only [List.mem_cons,exists_eq_or_imp]
    constructor
    · rintro ((rfl | held) | later)
      · exact .inr (.inl rfl)
      · exact .inl held
      · exact .inr (.inr later)
    · rintro (held | rfl | later)
      · exact .inl (.inr held)
      · exact .inl (.inl rfl)
      · exact .inr later

/-- In a map filled from a list the last item of a key is kept. -/
theorem lookup_foldl_insert (items : List β) (key : β → κ) (value : β → α) (map : AList fun _ : κ => α)
    (name : κ) :
    (items.foldl (fun map item => map.insert (key item) (value item)) map).lookup name =
      ((items.reverse.find? (key · = name)).map value).or (map.lookup name) := by
  induction items generalizing map with
  | nil => rfl
  | cons item rest ih =>
    rw [List.foldl_cons,ih,List.reverse_cons,List.find?_append]
    cases rest.reverse.find? (key · = name) with
    | some later => rfl
    | none =>
      by_cases same : key item = name
      · subst same
        simp
      · simp [same,AList.lookup_insert_ne (Ne.symm same)]

/-- A key that all items give one value has that value. -/
theorem lookup_foldl_insert_of_forall {items : List β} (key : β → κ) (value : β → α)
    {map : AList fun _ : κ => α} (member : item ∈ items) (same : key item = name)
    (agree : ∀ other ∈ items, key other = name → value other = value item) :
    (items.foldl (fun map item => map.insert (key item) (value item)) map).lookup name =
      some (value item) := by
  rw [lookup_foldl_insert]
  cases found : items.reverse.find? (key · = name) with
  | none =>
    have none := List.find?_eq_none.mp found item (List.mem_reverse.mpr member)
    simp [same] at none
  | some last =>
    have held := List.find?_some found
    have inside := List.mem_reverse.mp (List.mem_of_find?_eq_some found)
    simp [agree last inside (by simpa using held)]

/-- A key that no item has is as before. -/
theorem lookup_foldl_insert_of_not_mem {items : List β} (key : β → κ) (value : β → α)
    {map : AList fun _ : κ => α} (absent : ∀ item ∈ items, key item ≠ name) :
    (items.foldl (fun map item => map.insert (key item) (value item)) map).lookup name =
      map.lookup name := by
  rw [lookup_foldl_insert]
  have none : items.reverse.find? (key · = name) = none := by
    simpa using absent
  rw [none]
  rfl

/-- A map laid over another, its values changed: its own entries win. -/
theorem lookup_foldl_entries (f : α → β) (upper : AList fun _ : κ => α) (lower : AList fun _ : κ => β)
    (name : κ) :
    (upper.entries.foldl (fun map entry => map.insert entry.1 (f entry.2)) lower).lookup name =
      ((upper.lookup name).map f).or (lower.lookup name) := by
  cases found : upper.lookup name with
  | some value =>
    have member : (⟨name,value⟩ : Sigma fun _ : κ => α) ∈ upper.entries := AList.mem_lookup_iff.mp found
    refine lookup_foldl_insert_of_forall Sigma.fst (fun entry => f entry.2) member rfl ?_
    rintro ⟨other,held⟩ inside rfl
    have same := AList.mem_lookup_iff.mpr inside
    rw [Option.mem_def,found] at same
    cases same
    rfl
  | none =>
    refine lookup_foldl_insert_of_not_mem Sigma.fst (fun entry : Sigma fun _ : κ => α => f entry.2) ?_
    rintro ⟨other,held⟩ inside rfl
    have given := AList.mem_lookup_iff.mpr inside
    rw [Option.mem_def,found] at given
    cases given

/-- A search that one key alone meets finds the value of that key. -/
theorem find?_entries {map : AList fun _ : κ => α} {p : (Sigma fun _ : κ => α) → Bool}
    (only : ∀ entry ∈ map.entries, p entry = true ↔ entry.1 = name) :
    (map.entries.find? p).map (fun entry => entry.2) = map.lookup name := by
  cases found : map.entries.find? p with
  | none =>
    symm
    apply AList.lookup_eq_none.mpr
    intro present
    obtain ⟨entry,member,same⟩ := List.mem_map.mp (AList.mem_keys.mp present)
    exact List.find?_eq_none.mp found entry member ((only entry member).mpr same)
  | some entry =>
    have member := List.mem_of_find?_eq_some found
    obtain rfl := (only entry member).mp (List.find?_some found)
    exact (AList.mem_lookup_iff.mpr member).symm

/-- Change every value, keys unchanged. -/
def mapValues (f : κ → α → β) (map : AList fun _ : κ => α) : AList fun _ : κ => β where
  entries := map.entries.map fun entry => ⟨entry.1,f entry.1 entry.2⟩
  nodupKeys := by
    have keys : (map.entries.map fun entry => (⟨entry.1,f entry.1 entry.2⟩ : Sigma fun _ : κ => β)).keys =
        map.entries.keys := by
      simp [List.keys,Function.comp_def]
    unfold List.NodupKeys
    rw [keys]
    exact map.nodupKeys

theorem lookup_mapValues (f : κ → α → β) (map : AList fun _ : κ => α) (key : κ) :
    (mapValues f map).lookup key = (map.lookup key).map (f key) :=
  List.dlookup_map₂ (γ := fun _ => α) (δ := fun _ => β) key

/-- Change the entries one after the other, up to the first error. -/
def traverseEntries (f : κ → α → Except ε β) : (entries : List (Sigma fun _ : κ => α)) →
    Except ε { out : List (Sigma fun _ : κ => β) // out.keys = entries.keys }
  | [] => .ok ⟨[],rfl⟩
  | ⟨key,value⟩ :: rest =>
    match f key value with
    | .error e => .error e
    | .ok changed =>
      match traverseEntries f rest with
      | .error e => .error e
      | .ok ⟨out,same⟩ => .ok ⟨⟨key,changed⟩ :: out,by simp [same]⟩

/-- Change every value, keys unchanged, up to the first error. -/
def traverse (f : κ → α → Except ε β) (map : AList fun _ : κ => α) : Except ε (AList fun _ : κ => β) :=
  match traverseEntries f map.entries with
  | .error e => .error e
  | .ok ⟨out,same⟩ => .ok ⟨out,by unfold List.NodupKeys; rw [same]; exact map.nodupKeys⟩

omit [DecidableEq κ] in
theorem traverseEntries_pairs {f : κ → α → Except ε β} {entries : List (Sigma fun _ : κ => α)}
    {out : { out : List (Sigma fun _ : κ => β) // out.keys = entries.keys }}
    (given : traverseEntries f entries = .ok out) :
    List.Forall₂ (fun before after => after.1 = before.1 ∧ f before.1 before.2 = .ok after.2) entries
      out.1 := by
  induction entries with
  | nil =>
    cases given
    exact .nil
  | cons entry rest ih =>
    obtain ⟨key,value⟩ := entry
    unfold traverseEntries at given
    cases head : f key value with
    | error e => simp [head] at given
    | ok changed =>
      cases tail : traverseEntries f rest with
      | error e => simp [head,tail] at given
      | ok others =>
        simp only [head,tail,Except.ok.injEq] at given
        subst given
        exact .cons ⟨rfl,head⟩ (ih tail)

omit [DecidableEq κ] in
/-- The entries before and after, in the same order. -/
theorem traverse_pairs {f : κ → α → Except ε β} {map : AList fun _ : κ => α}
    (given : traverse f map = .ok out) :
    List.Forall₂ (fun before after => after.1 = before.1 ∧ f before.1 before.2 = .ok after.2)
      map.entries out.entries := by
  unfold traverse at given
  cases entries : traverseEntries f map.entries with
  | error e => simp [entries] at given
  | ok changed =>
    simp only [entries,Except.ok.injEq] at given
    subst given
    exact traverseEntries_pairs entries

theorem exists_of_forall₂ {R : α → β → Prop} (pairs : List.Forall₂ R before after) (member : a ∈ before) :
    ∃ b ∈ after, R a b := by
  induction pairs with
  | nil => cases member
  | cons related rest ih =>
    rcases List.mem_cons.mp member with rfl | later
    · exact ⟨_,List.mem_cons_self,related⟩
    · obtain ⟨b,found,held⟩ := ih later
      exact ⟨b,List.mem_cons_of_mem _ found,held⟩

/-- Each value was changed. -/
theorem lookup_traverse {f : κ → α → Except ε β} {map : AList fun _ : κ => α}
    (given : traverse f map = .ok out) (found : map.lookup key = some value) :
    ∃ changed, f key value = .ok changed ∧ out.lookup key = some changed := by
  have member : (⟨key,value⟩ : Sigma fun _ : κ => α) ∈ map.entries := AList.mem_lookup_iff.mp found
  obtain ⟨⟨other,changed⟩,kept,rfl,eq⟩ := exists_of_forall₂ (traverse_pairs given) member
  exact ⟨changed,eq,AList.mem_lookup_iff.mpr kept⟩

/-- Nothing was added. -/
theorem lookup_traverse_inv {f : κ → α → Except ε β} {map : AList fun _ : κ => α}
    (given : traverse f map = .ok out) (found : out.lookup key = some changed) :
    ∃ value, map.lookup key = some value ∧ f key value = .ok changed := by
  have member : (⟨key,changed⟩ : Sigma fun _ : κ => β) ∈ out.entries := AList.mem_lookup_iff.mp found
  obtain ⟨⟨other,value⟩,kept,rfl,eq⟩ := exists_of_forall₂ (traverse_pairs given).flip member
  exact ⟨value,AList.mem_lookup_iff.mpr kept,eq⟩

/-- Leave out a list of keys. -/
def dropKeys (dropped : List κ) (map : AList fun _ : κ => α) : AList fun _ : κ => α where
  entries := map.entries.filter fun entry => entry.1 ∉ dropped
  nodupKeys := map.nodupKeys.sublist List.filter_sublist

theorem lookup_dropKeys (member : key ∈ dropped) (map : AList fun _ : κ => α) :
    (dropKeys dropped map).lookup key = none := by
  apply AList.lookup_eq_none.mpr
  intro found
  obtain ⟨entry,kept,rfl⟩ := List.mem_map.mp (AList.mem_keys.mp found)
  have outside := (List.mem_filter.mp kept).2
  simp [member] at outside

section Alike

/-- Two maps with the same keys, whose values are related. -/
def Alike (R : α → β → Prop) (first : AList fun _ : κ => α) (second : AList fun _ : κ => β) : Prop :=
  ∀ key, Option.Rel R (first.lookup key) (second.lookup key)

theorem alike_of_mem {R : α → β → Prop} {first : AList fun _ : κ => α} {second : AList fun _ : κ => β}
    (keys : ∀ key, key ∈ first ↔ key ∈ second)
    (related : ∀ key a b, first.lookup key = some a → second.lookup key = some b → R a b) :
    Alike R first second := by
  intro key
  have both := keys key
  rw [← AList.lookup_isSome,← AList.lookup_isSome] at both
  cases one : first.lookup key with
  | none =>
    cases two : second.lookup key with
    | none => exact .none
    | some b => simp [one,two] at both
  | some a =>
    cases two : second.lookup key with
    | none => simp [one,two] at both
    | some b => exact .some (related key a b one two)

theorem alike_refl {R : α → α → Prop} (same : ∀ a, R a a) (map : AList fun _ : κ => α) : Alike R map map := by
  intro key
  cases map.lookup key with
  | none => exact .none
  | some a => exact .some (same a)

theorem alike_eq {first second : AList fun _ : κ => α} (same : ∀ key, first.lookup key = second.lookup key) :
    Alike Eq first second := by
  intro key
  rw [same key]
  cases second.lookup key with
  | none => exact .none
  | some a => exact .some rfl

theorem rel_lookup {R : α → β → Prop} {first : Option (AList fun _ : κ => α)} {second : Option (AList fun _ : κ => β)}
    (same : Option.Rel (Alike R) first second) (key : κ) :
    Option.Rel R (first.bind (·.lookup key)) (second.bind (·.lookup key)) := by
  cases same with
  | some alike => exact alike key
  | none => exact .none

theorem exists_lookup {map : AList fun _ : κ => α} (filled : map.entries ≠ []) :
    ∃ key a, map.lookup key = some a := by
  obtain ⟨entry,member⟩ := List.exists_mem_of_ne_nil _ filled
  exact ⟨entry.1,entry.2,AList.mem_lookup_iff.mpr member⟩

/-- Maps of maps that are nowhere empty are alike when the same can be looked up in them. -/
theorem alike_of_bind {ι : Type} [DecidableEq ι] {first second : AList fun _ : ι => AList fun _ : κ => α}
    (one : ∀ name bucket, first.lookup name = some bucket → bucket.entries ≠ [])
    (two : ∀ name bucket, second.lookup name = some bucket → bucket.entries ≠ [])
    (same : ∀ name key, (first.lookup name).bind (·.lookup key) = (second.lookup name).bind (·.lookup key)) :
    Alike (Alike Eq) first second := by
  apply alike_of_mem
  · intro name
    rw [← AList.lookup_isSome,← AList.lookup_isSome]
    constructor
    · intro held
      obtain ⟨bucket,found⟩ := Option.isSome_iff_exists.mp held
      obtain ⟨key,a,inside⟩ := exists_lookup (one name bucket found)
      have there := same name key
      rw [found,Option.bind_some,inside] at there
      cases other : second.lookup name with
      | none => simp [other] at there
      | some _ => rfl
    · intro held
      obtain ⟨bucket,found⟩ := Option.isSome_iff_exists.mp held
      obtain ⟨key,a,inside⟩ := exists_lookup (two name bucket found)
      have there := same name key
      rw [found,Option.bind_some,inside] at there
      cases other : first.lookup name with
      | none => simp [other] at there
      | some _ => rfl
  · intro name left right held found
    apply alike_eq
    intro key
    have there := same name key
    rwa [held,found] at there

end Alike

section Latest

variable {κ α ι : Type} [DecidableEq κ] [DecidableEq ι]

/-- The value of the last item with a key. -/
def latest (items : List (κ × α)) (key : κ) : Option α := (items.reverse.find? (·.1 = key)).map (·.2)

theorem latest_append (first second : List (κ × α)) (key : κ) :
    latest (first ++ second) key = (latest second key).or (latest first key) := by
  unfold latest
  rw [List.reverse_append,List.find?_append]
  cases second.reverse.find? (·.1 = key) <;> rfl

theorem latest_eq_none {items : List (κ × α)} (absent : ∀ item ∈ items, item.1 ≠ key) :
    latest items key = none := by
  unfold latest
  have none : items.reverse.find? (·.1 = key) = none := by simpa using absent
  rw [none]
  rfl

theorem latest_ne_none {items : List (κ × α)} (member : (key,value) ∈ items) : latest items key ≠ none := by
  intro absent
  have missing := List.find?_eq_none.mp (Option.map_eq_none_iff.mp absent)
  exact missing _ (List.mem_reverse.mpr member) (decide_eq_true rfl)

theorem mem_of_latest {items : List (κ × α)} (found : latest items key = some value) :
    (key,value) ∈ items := by
  unfold latest at found
  obtain ⟨item,held,rfl⟩ := Option.map_eq_some_iff.mp found
  have same := List.find?_some held
  have member := List.mem_reverse.mp (List.mem_of_find?_eq_some held)
  simp only [decide_eq_true_eq] at same
  subst same
  exact member

/-- Of items with different keys each one is the last with its key. -/
theorem latest_of_nodup {items : List (κ × α)} (nodup : (items.map Prod.fst).Nodup) :
    latest items key = some value ↔ (key,value) ∈ items := by
  refine ⟨mem_of_latest,?_⟩
  intro member
  cases found : latest items key with
  | none =>
    have absent := Option.map_eq_none_iff.mp found
    have other := List.find?_eq_none.mp absent (key,value) (List.mem_reverse.mpr member)
    simp at other
  | some held =>
    have same := List.inj_on_of_nodup_map nodup (mem_of_latest found) member rfl
    cases same
    rfl

theorem latest_perm {items others : List (κ × α)} (perm : items.Perm others)
    (nodup : (items.map Prod.fst).Nodup) (key : κ) : latest items key = latest others key := by
  have nodupOthers : (others.map Prod.fst).Nodup := (perm.map Prod.fst).nodup nodup
  apply Option.ext
  intro value
  rw [latest_of_nodup nodup,latest_of_nodup nodupOthers]
  exact perm.mem_iff

/-- Renaming the keys of a list. -/
theorem latest_map {f : κ → ι} (injective : Function.Injective f) (items : List (κ × α)) (key : κ) :
    latest (items.map fun item => (f item.1,item.2)) (f key) = latest items key := by
  unfold latest
  rw [← List.map_reverse,List.find?_map,Option.map_map]
  simp only [Function.comp_def,injective.eq_iff]

/-- In a list of items with different keys a lookup finds each of them. -/
theorem lookup_of_nodup {items : List (κ × α)} (nodup : (items.map Prod.fst).Nodup) :
    items.lookup key = some value ↔ (key,value) ∈ items := by
  constructor
  · intro found
    obtain ⟨before,later,rfl,_⟩ := List.lookup_eq_some_iff.mp found
    exact List.mem_append_right _ List.mem_cons_self
  · intro member
    obtain ⟨before,later,rfl⟩ := List.append_of_mem member
    refine List.lookup_eq_some_iff.mpr ⟨before,later,rfl,fun other inside => ?_⟩
    rw [List.map_append,List.map_cons] at nodup
    have apart := (List.nodup_append.mp nodup).2.2 other.1 (List.mem_map_of_mem inside) key List.mem_cons_self
    exact bne_iff_ne.mpr (Ne.symm apart)

/-- A map filled from a list of items. -/
theorem lookup_foldl_latest (items : List (κ × α)) (map : AList fun _ : κ => α) (key : κ) :
    (items.foldl (fun map item => map.insert item.1 item.2) map).lookup key =
      (latest items key).or (map.lookup key) :=
  lookup_foldl_insert items Prod.fst Prod.snd map key

theorem latest_entries (map : AList fun _ : κ => α) (key : κ) :
    latest (map.entries.map fun entry => (entry.1,entry.2)) key = map.lookup key := by
  have nodup : ((map.entries.map fun entry => (entry.1,entry.2)).map Prod.fst).Nodup := by
    rw [List.map_map]
    exact map.nodupKeys
  apply Option.ext
  intro value
  rw [latest_of_nodup nodup,← Option.mem_def,AList.mem_lookup_iff]
  constructor
  · intro member
    obtain ⟨entry,inside,same⟩ := List.mem_map.mp member
    cases same
    exact inside
  · intro inside
    exact List.mem_map.mpr ⟨_,inside,rfl⟩

end Latest

end Assoc
