import Ruuter.SingleFlight

/-! The size of the single-flight registry (`src/steps/single_flight.rs`) over runs of `claim` and
`remove` that are made one at a time. `retain` walks the map in an order of the map's own. -/
namespace Ruuter.SingleFlight
open Transition

/-- A claim comes with the order in which `retain` would meet the slots, and with the entry that
`Entry::new` would make. -/
inductive Call
  | claim (key : String) (order : List Slot) (fresh : Nat)
  | remove (key : String)

namespace Registry

def orInsert (r : Registry) (key : String) (fresh : Nat) : Registry :=
  match r.inner.lookup key with
  | some _ => r
  | none => { r with inner := r.inner.insert key fresh }

def call (r : Registry) : Call → Option Registry
  | .claim key order fresh =>
    if arranged : order.Perm r.inner.entries then some ((r.retain key order arranged).orInsert key fresh)
    else none
  | .remove key => some (r.remove key)

/-- The call makes no new slot, or finds room for it. -/
def Room (r : Registry) : Call → Prop
  | .claim key _ _ => key ∈ r.inner ∨ r.inner.entries.length < r.maxEntries
  | .remove _ => True

/-- The registry holds no more than its capacity. -/
def Bounded (r : Registry) : Prop := r.inner.entries.length ≤ r.maxEntries

instance (r : Registry) : Decidable r.Bounded := inferInstanceAs (Decidable (_ ≤ _))

variable {r : Registry} {key : String} {order : List Slot} {arranged : order.Perm r.inner.entries}

/-- What a claim of the interleaving model does to the registry. -/
theorem call_claim (s : State) (key : String) (order : List Slot) (arranged : order.Perm s.registry.inner.entries) :
    s.registry.call (.claim key order s.entries.length) = some (s.claim key order arranged).registry := by
  simp only [call,arranged,dif_pos]
  simp only [State.claim,State.orInsert,State.slot,Registry.orInsert]
  split <;> rename_i found <;> simp only [found]

theorem retain_maxEntries : (r.retain key order arranged).maxEntries = r.maxEntries := by
  unfold retain
  split <;> rfl

theorem orInsert_maxEntries (fresh : Nat) : (r.orInsert key fresh).maxEntries = r.maxEntries := by
  unfold orInsert
  split <;> rfl

/-- What `retain` leaves is all there was, or exactly the capacity. -/
theorem retain_length : (r.retain key order arranged).inner.entries.length =
    if key ∉ r.inner ∧ r.maxEntries ≤ r.inner.entries.length then r.maxEntries
    else r.inner.entries.length := by
  unfold retain
  split
  · rename_i full
    simp [arranged.length_eq,full.2]
  · rfl

theorem orInsert_length (r : Registry) (key : String) (fresh : Nat) : (r.orInsert key fresh).inner.entries.length =
    if key ∈ r.inner then r.inner.entries.length else r.inner.entries.length + 1 := by
  unfold orInsert
  cases found : r.inner.lookup key with
  | some e =>
    have held : key ∈ r.inner := AList.lookup_isSome.mp (by simp [found])
    simp [held]
  | none =>
    have absent : key ∉ r.inner := AList.lookup_eq_none.mp found
    simp [absent,List.kerase_of_notMem_keys (AList.mem_keys.not.mp absent)]

theorem remove_length_le (r : Registry) (key : String) :
    (r.remove key).inner.entries.length ≤ r.inner.entries.length :=
  (List.kerase_sublist key r.inner.entries).length_le

/-- A key that is not there is not there after the overflow check either. -/
theorem mem_retain : key ∈ (r.retain key order arranged).inner ↔ key ∈ r.inner := by
  unfold retain
  split
  · rename_i full
    refine iff_of_false ?_ full.1
    intro kept
    have sub : order.take r.maxEntries ⊆ r.inner.entries :=
      List.Subset.trans (List.take_subset ..) arranged.subset
    obtain ⟨slot,member,rfl⟩ := List.mem_map.mp kept
    exact full.1 (List.mem_map.mpr ⟨slot,sub member,rfl⟩)
  · rfl

/-- What a call does to the number of slots: it makes no new one, it finds room for one, or it
adds one to a whole capacity of them. -/
theorem call_length {c : Call} {u : Registry} (made : r.call c = some u) :
    u.maxEntries = r.maxEntries ∧
      (r.Room c ∧ u.inner.entries.length ≤ r.inner.entries.length ∨
        r.Room c ∧ u.inner.entries.length ≤ r.maxEntries ∨
        ¬ r.Room c ∧ u.inner.entries.length = r.maxEntries + 1) := by
  cases c with
  | remove key =>
    cases made
    exact ⟨rfl,.inl ⟨trivial,remove_length_le r key⟩⟩
  | claim key order fresh =>
    simp only [call] at made
    split at made
    · cases made
      rename_i arranged
      have size := orInsert_length (r.retain key order arranged) key fresh
      simp only [mem_retain,retain_length] at size
      refine ⟨by rw [orInsert_maxEntries,retain_maxEntries],?_⟩
      rw [size]
      by_cases held : key ∈ r.inner
      · exact .inl ⟨.inl held,by simp [held]⟩
      · by_cases full : r.maxEntries ≤ r.inner.entries.length
        · refine .inr (.inr ⟨?_,by simp [held,full]⟩)
          rintro (present | below)
          · exact held present
          · omega
        · refine .inr (.inl ⟨.inr (by omega),?_⟩)
          simp only [held,full,and_false,if_false]
          omega
    · cases made

/-- However it is used, the registry holds at most one slot above its capacity. -/
theorem length_le_succ (maxEntries : Nat) (calls : List Call)
    (reached : exec call { maxEntries } calls = some r) : r.inner.entries.length ≤ maxEntries + 1 := by
  have anyRun : Along call (fun _ _ _ => True) { maxEntries } calls :=
    along_of_invariant (I := fun _ => True) trivial (fun _ _ _ _ _ => ⟨trivial,trivial⟩) calls
  have kept : r.maxEntries = maxEntries ∧ r.inner.entries.length ≤ maxEntries + 1 := by
    refine anyRun.invariant (I := fun r => r.maxEntries = maxEntries ∧
      r.inner.entries.length ≤ maxEntries + 1) ⟨rfl,Nat.zero_le _⟩ ?_ reached
    rintro t c u ⟨same,small⟩ made _
    obtain ⟨kept,⟨_,less⟩ | ⟨_,less⟩ | ⟨_,less⟩⟩ := call_length made
    all_goals exact ⟨kept.trans same,by omega⟩
  exact kept.2

/-- From a registry within its bound a call leads to one exactly when it makes no new slot or
finds room for it. -/
theorem bounded_iff_room {c : Call} {u : Registry} (bounded : r.Bounded) (made : r.call c = some u) :
    u.Bounded ↔ r.Room c := by
  unfold Bounded at bounded ⊢
  obtain ⟨kept,⟨room,less⟩ | ⟨room,less⟩ | ⟨crowded,more⟩⟩ := call_length made
  · exact iff_of_true (by omega) room
  · exact iff_of_true (by omega) room
  · exact iff_of_false (by omega) crowded

end Registry

/-- The registry stays within its capacity along exactly those runs in which no claim makes a new
slot while it is full. -/
theorem bounded_along_iff (maxEntries : Nat) (calls : List Call) :
    Along Registry.call (fun _ _ u => u.Bounded) { maxEntries } calls ↔
      Along Registry.call (fun r c _ => r.Room c) { maxEntries } calls := by
  have empty : Registry.Bounded { maxEntries } := Nat.zero_le _
  constructor
  · intro within
    apply within.transfer empty
    · exact fun _ _ _ _ _ next => next
    · intro r c u bounded made next
      exact (Registry.bounded_iff_room bounded made).mp next
  · intro room
    apply room.transfer empty
    · intro r c u bounded made room
      exact (Registry.bounded_iff_room bounded made).mpr room
    · intro r c u bounded made room
      exact (Registry.bounded_iff_room bounded made).mpr room

/-- Two distinct keys in a registry for one. -/
theorem second_key_exceeds :
    ¬ Along Registry.call (fun _ _ u => u.Bounded) { maxEntries := 1 }
      [.claim "a" [] 0,.claim "b" [⟨"a",0⟩] 1] := by
  intro within
  have last := Along.transition [Call.claim "a" [] 0] (.claim "b" [⟨"a",0⟩] 1) [] within rfl rfl
  exact absurd last (by decide)

end Ruuter.SingleFlight
