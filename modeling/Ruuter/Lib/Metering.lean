import Mathlib.Algebra.GroupWithZero.Nat
import Mathlib.Data.List.Infix
import Mathlib.Data.Option.Basic

/-! Streams that are unfolded from a state, and meters: streams that pass the chunks of a source on
until a chunk fails or their total size exceeds a limit. -/
namespace Metering

section Polls
variable {σ α : Type} {next : σ → Option α × σ}

/-- The polls of a stream: what each of them gives, and the state it leaves. The poll that gives
nothing is the last one. -/
inductive Polls (next : σ → Option α × σ) : σ → List (Option α × σ) → Prop
  | ended {s t : σ} (poll : next s = (none,t)) : Polls next s [(none,t)]
  | item {s t : σ} {a : α} {rest : List (Option α × σ)} (poll : next s = (some a,t))
      (later : Polls next t rest) : Polls next s ((some a,t) :: rest)

/-- The items of a stream. -/
def items (polls : List (Option α × σ)) : List α := polls.filterMap Prod.fst

theorem Polls.unique {s : σ} {polls others : List (Option α × σ)} (run : Polls next s polls)
    (other : Polls next s others) : polls = others := by
  induction run generalizing others with
  | ended poll =>
    cases other with
    | ended same => rw [Prod.mk.inj (poll.symm.trans same) |>.2]
    | item same _ => cases poll.symm.trans same
  | item poll _ ih =>
    cases other with
    | ended same => cases poll.symm.trans same
    | item same later =>
      cases poll.symm.trans same
      rw [ih later]

/-- A stream whose items use something up comes to its end. -/
theorem Polls.exists_of_measure (left : σ → Nat)
    (less : ∀ s a t, next s = (some a,t) → left t < left s) (s : σ) : ∃ polls, Polls next s polls := by
  induction h : left s using Nat.strong_induction_on generalizing s with
  | _ n ih =>
    cases poll : next s with
    | mk item t =>
      cases item with
      | none => exact ⟨_,.ended poll⟩
      | some a =>
        obtain ⟨rest,later⟩ := ih (left t) (h ▸ less s a t poll) t rfl
        exact ⟨_,.item poll later⟩

end Polls

section Meter
variable {β ε : Type} {limit : Option Nat}

/-- The size keeps to the limit. -/
def Within (limit : Option Nat) (size : Nat) : Prop := ∀ cap ∈ limit, size ≤ cap

instance (limit : Option Nat) (size : Nat) : Decidable (Within limit size) :=
  inferInstanceAs (Decidable (∀ cap ∈ limit, size ≤ cap))

theorem Within.mono {size more : Nat} (within : Within limit more) (le : size ≤ more) : Within limit size :=
  fun cap member => Nat.le_trans le (within cap member)

/-- The size of chunks. -/
def size (chunks : List (List β)) : Nat := (chunks.map List.length).sum

@[simp] theorem size_nil : size ([] : List (List β)) = 0 := rfl

@[simp] theorem size_cons (chunk : List β) (chunks : List (List β)) :
    size (chunk :: chunks) = chunk.length + size chunks := by
  simp [size]

/-- What a meter makes of a source that has delivered `seen` bytes, where a chunk that fails is
`none`: the chunks that pass, and whether the meter breaks off. -/
def meter (limit : Option Nat) : Nat → List (Option (List β)) → List (List β) × Bool
  | _,[] => ([],false)
  | _,none :: _ => ([],true)
  | seen,some chunk :: rest =>
    if Within limit (seen + chunk.length) then
      (chunk :: (meter limit (seen + chunk.length) rest).1,(meter limit (seen + chunk.length) rest).2)
    else ([],true)

/-- The chunks of a source that come through whole. -/
def chunks (source : List (Option (List β))) : List (List β) := source.filterMap id

theorem meter_prefix (seen : Nat) (source : List (Option (List β))) :
    (meter limit seen source).1 <+: chunks source := by
  induction source generalizing seen with
  | nil => exact List.prefix_rfl
  | cons chunk rest ih =>
    cases chunk with
    | none => exact List.nil_prefix
    | some chunk =>
      rw [meter]
      split
      · exact (List.prefix_cons_inj chunk).mpr (ih _)
      · exact List.nil_prefix

theorem meter_within {seen : Nat} (start : Within limit seen) (source : List (Option (List β))) :
    Within limit (seen + size (meter limit seen source).1) := by
  induction source generalizing seen with
  | nil => exact start
  | cons chunk rest ih =>
    cases chunk with
    | none => exact start
    | some chunk =>
      rw [meter]
      split
      case isTrue within =>
        rw [size_cons,← Nat.add_assoc]
        exact ih within
      case isFalse => exact start

/-- A meter does not break off exactly when no chunk fails and all of them keep to the limit. -/
theorem meter_whole_iff {seen : Nat} (start : Within limit seen) (source : List (Option (List β))) :
    (meter limit seen source).2 = false ↔
      Within limit (seen + size (chunks source)) ∧ none ∉ source := by
  induction source generalizing seen with
  | nil => simpa [meter,chunks] using start
  | cons chunk rest ih =>
    cases chunk with
    | none => simp [meter]
    | some chunk =>
      have cons : chunks (some chunk :: rest) = chunk :: chunks rest := rfl
      rw [meter,cons,size_cons,← Nat.add_assoc]
      split
      case isTrue within =>
        rw [ih within]
        simp
      case isFalse beyond =>
        refine ⟨fun broken => (Bool.noConfusion broken),fun ⟨within,_⟩ => absurd ?_ beyond⟩
        exact within.mono (Nat.le_add_right _ _)

theorem meter_whole {seen : Nat} {source : List (Option (List β))}
    (unbroken : (meter limit seen source).2 = false) : (meter limit seen source).1 = chunks source := by
  induction source generalizing seen with
  | nil => rfl
  | cons chunk rest ih =>
    cases chunk with
    | none => cases unbroken
    | some chunk =>
      rw [meter] at unbroken ⊢
      split at unbroken
      case isTrue within =>
        rw [if_pos within]
        exact congrArg (chunk :: ·) (ih unbroken)
      case isFalse => cases unbroken

/-- The data among the items of a stream. -/
def delivered (items : List (Except ε (List β))) : List (List β) := items.filterMap Except.toOption

/-- The items of a metered stream over a source that is to deliver `inbound`, and does so without
a failure exactly when it is `sound`. -/
structure Metered (limit : Option Nat) (inbound : List (List β)) (sound : Prop)
    (items : List (Except ε (List β))) : Prop where
  isPrefix : delivered items <+: inbound
  within : Within limit (size (delivered items))
  whole : (delivered items = inbound ∧ ∀ item ∈ items, ∃ chunk, item = .ok chunk) ↔
    Within limit (size inbound) ∧ sound
  stops : ∀ before e after, items = before ++ .error e :: after → after = []

/-- The items of a meter: the chunks that pass, and an error behind them where it breaks off. -/
theorem metered_of_meter {source : List (Option (List β))} {items : List (Except ε (List β))}
    (tail : List ε) (broken : tail.length = if (meter limit 0 source).2 then 1 else 0)
    (made : items = (meter limit 0 source).1.map .ok ++ tail.map .error) :
    Metered limit (chunks source) (none ∉ source) items := by
  have start : Within limit 0 := fun _ _ => Nat.zero_le _
  have data : delivered items = (meter limit 0 source).1 := by
    simp only [made,delivered,List.filterMap_append,List.filterMap_map]
    have oks : Except.toOption ∘ (Except.ok : List β → Except ε (List β)) = some := rfl
    have errors : Except.toOption ∘ (Except.error : ε → Except ε (List β)) = fun _ => none := rfl
    rw [oks,errors]
    simp
  refine ⟨data ▸ meter_prefix 0 source,?_,?_,?_⟩
  · have within := meter_within start source
    rwa [Nat.zero_add,← data] at within
  · have iff := meter_whole_iff start source
    rw [Nat.zero_add] at iff
    rw [← iff]
    constructor
    · rintro ⟨_,ok⟩
      cases off : (meter limit 0 source).2 with
      | false => rfl
      | true =>
        rw [off,if_pos rfl] at broken
        obtain ⟨e,rfl⟩ := List.length_eq_one_iff.mp broken
        obtain ⟨chunk,same⟩ := ok (.error e) (by simp [made])
        cases same
    · intro unbroken
      rw [unbroken,if_neg Bool.false_ne_true] at broken
      rw [List.eq_nil_of_length_eq_zero broken,List.map_nil,List.append_nil] at made
      refine ⟨data.trans (meter_whole unbroken),?_⟩
      intro item member
      rw [made] at member
      obtain ⟨chunk,_,rfl⟩ := List.mem_map.mp member
      exact ⟨chunk,rfl⟩
  · intro before e after same
    have short : tail.length ≤ 1 := by rw [broken]; split <;> omega
    -- The error is no passed chunk, so it is the one behind them.
    rw [made,List.append_eq_append_iff] at same
    rcases same with ⟨middle,_,errors⟩ | ⟨middle,passed,errors⟩
    · have lengths := congrArg List.length errors
      simp only [List.length_map,List.length_append,List.length_cons] at lengths
      exact List.eq_nil_of_length_eq_zero (by omega)
    · cases middle with
      | nil =>
        have lengths := congrArg List.length errors
        simp only [List.nil_append,List.length_cons,List.length_map] at lengths
        exact List.eq_nil_of_length_eq_zero (by omega)
      | cons item rest =>
        cases (List.cons.inj errors).1
        have member : .error e ∈ (meter limit 0 source).1.map (Except.ok (ε := ε)) := by simp [passed]
        obtain ⟨_,_,same⟩ := List.mem_map.mp member
        cases same

end Meter

section Machine
variable {σ β ε : Type} {next : σ → Option (Except ε (List β)) × σ} {limit : Option Nat}

/-- A stream is a meter: what one poll does with the front of its source. -/
structure Meters (next : σ → Option (Except ε (List β)) × σ) (limit : Option Nat) (live : σ → Bool)
    (seen : σ → Nat) (source : σ → List (Option (List β))) : Prop where
  stopped : ∀ s, live s = false → (next s).1 = none
  ended : ∀ s, live s = true → source s = [] → (next s).1 = none
  failed : ∀ s rest, live s = true → source s = none :: rest →
    live (next s).2 = false ∧ ∃ e, (next s).1 = some (.error e)
  exceeds : ∀ s chunk rest, live s = true → source s = some chunk :: rest →
    ¬ Within limit (seen s + chunk.length) → live (next s).2 = false ∧ ∃ e, (next s).1 = some (.error e)
  passed : ∀ s chunk rest, live s = true → source s = some chunk :: rest →
    Within limit (seen s + chunk.length) →
    (next s).1 = some (.ok chunk) ∧ live (next s).2 = true ∧
      seen (next s).2 = seen s + chunk.length ∧ source (next s).2 = rest

variable {live : σ → Bool} {seen : σ → Nat} {source : σ → List (Option (List β))}

/-- The polls of a meter that has stopped. -/
theorem Meters.polls_stopped (meters : Meters next limit live seen source) {s : σ}
    {polls : List (Option (Except ε (List β)) × σ)} (run : Polls next s polls) (off : live s = false) :
    items polls = [] := by
  cases run with
  | ended => rfl
  | item poll _ =>
    have nothing := meters.stopped s off
    rw [poll] at nothing
    cases nothing

/-- The items of a run: what the meter passes, and one error where it breaks off. -/
theorem Meters.items (meters : Meters next limit live seen source) {s : σ}
    {polls : List (Option (Except ε (List β)) × σ)} (run : Polls next s polls) (on : live s = true) :
    ∃ tail : List ε, tail.length = (if (meter limit (seen s) (source s)).2 then 1 else 0) ∧
      items polls = (meter limit (seen s) (source s)).1.map .ok ++ tail.map .error := by
  have broke {t : σ} {a : Except ε (List β)} {e : ε} {rest} (later : Polls next t rest)
      (off : live t = false) (error : a = .error e) :
      Metering.items ((some a,t) :: rest) = [.error e] := by
    have none := meters.polls_stopped later off
    subst error
    simpa [Metering.items] using none
  induction run with
  | @ended s t poll =>
    cases front : source s with
    | nil => exact ⟨[],rfl,rfl⟩
    | cons chunk rest =>
      exfalso
      cases chunk with
      | none =>
        obtain ⟨_,e,some⟩ := meters.failed s rest on front
        rw [poll] at some
        cases some
      | some chunk =>
        by_cases within : Within limit (seen s + chunk.length)
        · have some := (meters.passed s chunk rest on front within).1
          rw [poll] at some
          cases some
        · obtain ⟨_,e,some⟩ := meters.exceeds s chunk rest on front within
          rw [poll] at some
          cases some
  | @item s t a later poll run ih =>
    cases front : source s with
    | nil =>
      have none := meters.ended s on front
      rw [poll] at none
      cases none
    | cons chunk rest =>
      cases chunk with
      | none =>
        obtain ⟨off,e,error⟩ := meters.failed s rest on front
        rw [poll] at off error
        exact ⟨[e],rfl,broke run off (Option.some.inj error)⟩
      | some chunk =>
        by_cases within : Within limit (seen s + chunk.length)
        · obtain ⟨same,still,counted,left⟩ := meters.passed s chunk rest on front within
          rw [poll] at same still counted left
          cases same
          obtain ⟨tail,length,made⟩ := ih still
          rw [counted,left] at length made
          refine ⟨tail,?_,?_⟩
          · rw [meter,if_pos within]
            exact length
          · rw [meter,if_pos within]
            exact congrArg (Except.ok chunk :: ·) made
        · obtain ⟨off,e,error⟩ := meters.exceeds s chunk rest on front within
          rw [poll] at off error
          refine ⟨[e],?_,?_⟩
          · rw [meter,if_neg within]
            rfl
          · rw [meter,if_neg within]
            exact broke run off (Option.some.inj error)

/-- Every run of a meter that has seen nothing yet is metered. -/
theorem Meters.metered (meters : Meters next limit live seen source) {s : σ}
    {polls : List (Option (Except ε (List β)) × σ)} (run : Polls next s polls) (on : live s = true)
    (fresh : seen s = 0) :
    Metered limit (chunks (source s)) (none ∉ source s) (Metering.items polls) := by
  obtain ⟨tail,length,made⟩ := meters.items run on
  rw [fresh] at length made
  exact metered_of_meter tail length made

end Machine

/-- How often what is held is given back along the states of a run. -/
def releases : Bool → List Bool → Nat
  | _,[] => 0
  | held,now :: rest => (if held && !now then 1 else 0) + releases now rest

end Metering
