import Mathlib.Data.List.DropRight
import Ruuter.Lib.Text

/-! What trimming leaves: a text without white space at its ends, which stays where a text has no
white space there. -/
namespace Text

/-- No white space at the ends. -/
structure Bare (text : List Char) : Prop where
  front : ∀ c, text.head? = some c → isWhiteSpace c = false
  back : ∀ c, text.getLast? = some c → isWhiteSpace c = false

theorem toList_trim (s : String) : (trim s).toList = (s.toList.dropWhile isWhiteSpace).rdropWhile isWhiteSpace := by
  rw [trim,String.toList_ofList,List.rdropWhile]

theorem dropWhile_front {text : List Char} (front : ∀ c, text.head? = some c → isWhiteSpace c = false) :
    text.dropWhile isWhiteSpace = text := by
  cases text with
  | nil => rfl
  | cons c rest => exact List.dropWhile_cons_of_neg (by simp [front c rfl])

theorem rdropWhile_back {text : List Char} (back : ∀ c, text.getLast? = some c → isWhiteSpace c = false) :
    text.rdropWhile isWhiteSpace = text := by
  refine List.rdropWhile_eq_self_iff.mpr fun nonempty => ?_
  simp [back _ (List.getLast?_eq_getLast_of_ne_nil nonempty)]

theorem trim_of_bare (bare : Bare s.toList) : trim s = s := by
  rw [← String.toList_inj,toList_trim,dropWhile_front bare.front,rdropWhile_back bare.back]

theorem bare_trim (s : String) : Bare (trim s).toList where
  front c head := by
    rw [toList_trim] at head
    obtain ⟨rest,whole⟩ := List.rdropWhile_prefix isWhiteSpace (s.toList.dropWhile isWhiteSpace)
    have stopped := List.head?_dropWhile_not isWhiteSpace s.toList
    rw [← whole,List.head?_append,head] at stopped
    simpa using stopped
  back c last := by
    rw [toList_trim] at last
    have nonempty := List.ne_nil_of_mem (List.mem_of_getLast? last)
    have stopped := List.rdropWhile_last_not _ _ nonempty
    rw [List.getLast?_eq_getLast_of_ne_nil nonempty,Option.some.injEq] at last
    rw [last] at stopped
    exact Bool.eq_false_iff.mpr stopped

theorem trim_trim (s : String) : trim (trim s) = trim s := trim_of_bare (bare_trim s)

theorem trim_eq_iff : trim s = s ↔ Bare s.toList :=
  ⟨fun same => same ▸ bare_trim s,trim_of_bare⟩

/-- Where a text starts with no white space, only its end is cut. -/
theorem trim_prefix (front : ∀ c, s.toList.head? = some c → isWhiteSpace c = false) : (trim s).toList <+: s.toList := by
  rw [toList_trim,dropWhile_front front]
  exact List.rdropWhile_prefix _ _

theorem trim_suffix (back : ∀ c, s.toList.getLast? = some c → isWhiteSpace c = false) :
    (trim s).toList <:+ s.toList := by
  have ends : s.toList.dropWhile isWhiteSpace <:+ s.toList := List.dropWhile_suffix _
  obtain ⟨gap,whole⟩ := ends
  have last : ∀ c, (s.toList.dropWhile isWhiteSpace).getLast? = some c → isWhiteSpace c = false := by
    intro c found
    exact back c (by rw [← whole,List.getLast?_append,found]; rfl)
  rw [toList_trim,rdropWhile_back last]
  exact ⟨gap,whole⟩

theorem trim_subset (s : String) : (trim s).toList ⊆ s.toList := by
  rw [toList_trim]
  exact fun c member => (List.dropWhile_suffix _).subset ((List.rdropWhile_prefix _ _).subset member)

end Text
