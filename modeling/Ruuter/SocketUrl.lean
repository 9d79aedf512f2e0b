import Ruuter.Outbound

/-! Where `parse_unix_url` (`src/http_client/uds.rs`) splits a `unix://` URL: the round trip of a socket
path and a request target. -/
namespace Ruuter
open Text

/-- An absolute path that ends in a marker, and `.sock` does not stand before that. -/
structure MarkedPath (marker path : String) : Prop where
  absolute : startsWith path "/" = true
  ends : endsWith path marker = true
  first : ∀ i, i + marker.toList.length < path.toList.length → ¬ OccursAt ".sock".toList path.toList i

/-- A path of a socket. -/
def SocketPath (path : String) : Prop := MarkedPath ".sock" path ∨ MarkedPath ".socket" path

/-- A path and a query, or nothing. -/
def RequestTarget (target : String) : Prop :=
  target = "" ∨ startsWith target "/" = true ∨ startsWith target "?" = true

/-- The URL is split where the path ends. -/
def SplitsAt (path target : String) : Prop :=
  parseUnixUrl ("unix://" ++ path ++ target) = .ok (path,if target = "" then "/" else target)

section SplitAfter
variable {marker text before after : List Char}

/-- The text is split behind the first occurrence of the marker. -/
theorem splitAfter_eq_some : splitAfter marker text = some (before,after) →
    ∃ i, OccursAt marker text i ∧ (∀ j < i, ¬ OccursAt marker text j) ∧
      before = text.take (i + marker.length) ∧ after = text.drop (i + marker.length) := by
  induction text generalizing before with
  | nil => intro found; cases found
  | cons c rest ih =>
    intro found
    unfold splitAfter at found
    split at found
    · rename_i starts
      have here := List.isPrefixOf_iff_prefix.mp starts
      cases found
      refine ⟨0,here,fun j later => absurd later (Nat.not_lt_zero j),?_,by rw [Nat.zero_add]⟩
      rw [Nat.zero_add]
      exact List.prefix_iff_eq_take.mp here
    · rename_i other
      obtain ⟨⟨earlier,later⟩,split,same⟩ := Option.map_eq_some_iff.mp found
      cases same
      obtain ⟨i,occurs,least,rfl,rfl⟩ := ih split
      refine ⟨i + 1,occurs,fun j bound => ?_,?_,?_⟩
      · cases j with
        | zero => exact fun here => other (List.isPrefixOf_iff_prefix.mpr here)
        | succ j => exact least j (Nat.lt_of_succ_lt_succ bound)
      · rw [Nat.succ_add,List.take_succ_cons]
      · rw [Nat.succ_add,List.drop_succ_cons]

theorem splitAfter_eq_none (nonempty : marker ≠ []) :
    splitAfter marker text = none ↔ ∀ i, ¬ OccursAt marker text i := by
  induction text with
  | nil => simp [splitAfter,OccursAt,nonempty]
  | cons c rest ih =>
    unfold splitAfter
    split
    · rename_i starts
      refine iff_of_false (by simp) fun never => never 0 (List.isPrefixOf_iff_prefix.mp starts)
    · rename_i other
      rw [Option.map_eq_none_iff,ih]
      constructor
      · intro never i
        cases i with
        | zero => exact fun here => other (List.isPrefixOf_iff_prefix.mpr here)
        | succ i => exact never i
      · exact fun never i => never (i + 1)

/-- The first occurrence decides the split. -/
theorem splitAfter_first (nonempty : marker ≠ []) (occurs : OccursAt marker text i)
    (least : ∀ j < i, ¬ OccursAt marker text j) :
    splitAfter marker text = some (text.take (i + marker.length),text.drop (i + marker.length)) := by
  cases found : splitAfter marker text with
  | none => exact absurd occurs ((splitAfter_eq_none nonempty).mp found i)
  | some parts =>
    obtain ⟨k,there,first,before,after⟩ := splitAfter_eq_some found
    have same : k = i := by
      rcases Nat.lt_trichotomy k i with less | same | more
      · exact absurd there (least k less)
      · exact same
      · exact absurd occurs (first i more)
    rw [← same,← before,← after]

end SplitAfter

section Paths
variable {path target marker : String}

/-- The end of a path that ends in a marker. -/
theorem MarkedPath.occurs (marked : MarkedPath marker path) :
    ∃ i, i + marker.toList.length = path.toList.length ∧ OccursAt marker.toList path.toList i := by
  obtain ⟨stem,same⟩ := List.isSuffixOf_iff_suffix.mp marked.ends
  refine ⟨stem.length,by rw [← same,List.length_append],?_⟩
  unfold OccursAt
  rw [← same,List.drop_left]

/-- A marker that begins with `.sock` does not stand before the end of the path, whatever follows. -/
theorem MarkedPath.not_before (marked : MarkedPath marker path) (longer : ".sock".toList <+: marker.toList)
    (end_eq : i + marker.toList.length = path.toList.length) (j : Nat) (before : j < i) (later : List Char) :
    ¬ OccursAt ".sock".toList (path.toList ++ later) j := by
  intro occurs
  have size : ".sock".toList.length ≤ marker.toList.length := longer.length_le
  rw [occursAt_append_left (by omega)] at occurs
  exact marked.first j (by omega) occurs

theorem parseUnixUrl_marked (absolute : startsWith path "/" = true) {socket tail : List Char}
    (found : ([".socket",".sock"].findSome? fun marker => splitAfter marker.toList (path ++ target).toList) =
      some (socket,tail)) :
    parseUnixUrl ("unix://" ++ path ++ target) =
      .ok (String.ofList socket,if tail.isEmpty then "/" else String.ofList tail) := by
  have rest : stripPrefix ("unix://" ++ path ++ target) "unix://" = some (path ++ target) := by
    unfold stripPrefix
    rw [String.append_assoc,if_pos (startsWith_append _ _),String.toList_append,List.drop_left,String.ofList_toList]
  have leading : startsWith (path ++ target) "/" = true := startsWith_trans absolute (startsWith_append _ _)
  unfold parseUnixUrl
  rw [rest]
  dsimp only
  rw [leading,found]
  rfl

/-- The split at the end of the path gives the path and the target. -/
theorem split_at_end (path target : String) : (String.ofList ((path ++ target).toList.take path.toList.length),
    if ((path ++ target).toList.drop path.toList.length).isEmpty then "/"
      else String.ofList ((path ++ target).toList.drop path.toList.length)) =
    (path,if target = "" then "/" else target) := by
  rw [String.toList_append,List.take_left,List.drop_left,String.ofList_toList,String.ofList_toList]
  congr 1
  by_cases empty : target = ""
  · subst empty
    rfl
  · rw [if_neg empty,if_neg]
    simpa using empty

/-- Behind a path with the longer marker the target is free. -/
theorem splits_socket (marked : MarkedPath ".socket" path) : SplitsAt path target := by
  obtain ⟨i,end_eq,occurs⟩ := marked.occurs
  have here : OccursAt ".socket".toList (path ++ target).toList i := by
    rw [String.toList_append]
    exact (occursAt_append_left (by omega)).mpr occurs
  have least : ∀ j < i, ¬ OccursAt ".socket".toList (path ++ target).toList j := by
    intro j before there
    rw [String.toList_append] at there
    exact marked.not_before (by decide) end_eq j before _ (List.IsPrefix.trans (by decide) there)
  have split := splitAfter_first (by decide) here least
  have found : ([".socket",".sock"].findSome? fun marker => splitAfter marker.toList (path ++ target).toList) =
      some ((path ++ target).toList.take path.toList.length,(path ++ target).toList.drop path.toList.length) := by
    rw [List.findSome?_cons,split,end_eq]
  exact (parseUnixUrl_marked marked.absolute found).trans (congrArg Except.ok (split_at_end path target))

/-- Behind a path with the shorter marker the longer one does not begin before the target. -/
theorem no_socket_across (marked : MarkedPath ".sock" path) (request : RequestTarget target)
    (clean : contains target ".socket" = false) (i : Nat) : ¬ OccursAt ".socket".toList (path ++ target).toList i := by
  intro there
  rw [String.toList_append] at there
  obtain ⟨stem,end_eq,occurs⟩ := marked.occurs
  have five : ".sock".toList.length = 5 := rfl
  rcases Nat.lt_trichotomy i stem with before | here | behind
  · exact marked.not_before (by decide) end_eq i before _ (List.IsPrefix.trans (by decide) there)
  · -- The marker of the path goes on with a letter, and no target begins with one.
    subst here
    have letter := there.getElem? (k := 5) (by decide)
    rw [List.getElem?_append_right (by omega),end_eq.symm,five,Nat.sub_self] at letter
    rcases request with rfl | path' | query
    · cases letter
    · obtain ⟨rest,rfl⟩ := startsWith_iff.mp path'
      simp at letter
    · obtain ⟨rest,rfl⟩ := startsWith_iff.mp query
      simp at letter
  · by_cases inside : i < path.toList.length
    · -- The marker begins with a dot, and there is none behind the first in `.sock`.
      have dot := there.getElem? (k := 0) (by decide)
      rw [Nat.add_zero,List.getElem?_append_left inside] at dot
      obtain ⟨k,rfl⟩ := Nat.exists_eq_add_of_lt behind
      have inMarker := occurs.getElem? (k := k + 1) (by omega)
      rw [← Nat.add_assoc,dot] at inMarker
      have absent : ∀ k < 4, ".sock".toList[k + 1]? ≠ some '.' := by decide
      exact absent k (by omega) inMarker.symm
    · obtain ⟨k,rfl⟩ := Nat.exists_eq_add_of_le (Nat.le_of_not_lt inside)
      have found : contains target ".socket" = true :=
        contains_iff.mpr (infix_iff_occursAt.mpr ⟨k,occursAt_append_right.mp there⟩)
      rw [clean] at found
      cases found

theorem splits_sock (marked : MarkedPath ".sock" path) (request : RequestTarget target)
    (clean : contains target ".socket" = false) : SplitsAt path target := by
  obtain ⟨i,end_eq,occurs⟩ := marked.occurs
  have none := (splitAfter_eq_none (by decide)).mpr (no_socket_across marked request clean)
  have here : OccursAt ".sock".toList (path ++ target).toList i := by
    rw [String.toList_append]
    exact (occursAt_append_left (by omega)).mpr occurs
  have least : ∀ j < i, ¬ OccursAt ".sock".toList (path ++ target).toList j := by
    intro j before there
    rw [String.toList_append] at there
    exact marked.not_before List.prefix_rfl end_eq j before _ there
  have split := splitAfter_first (by decide) here least
  have found : ([".socket",".sock"].findSome? fun marker => splitAfter marker.toList (path ++ target).toList) =
      some ((path ++ target).toList.take path.toList.length,(path ++ target).toList.drop path.toList.length) := by
    rw [List.findSome?_cons,none,List.findSome?_cons,split,end_eq]
  exact (parseUnixUrl_marked marked.absolute found).trans (congrArg Except.ok (split_at_end path target))

/-- A split at a longer marker in the target is not at the end of the path. -/
theorem not_splits_of_contains (absolute : startsWith path "/" = true) (short : endsWith path ".socket" = false)
    (longer : contains target ".socket" = true) : ¬ SplitsAt path target := by
  intro splits
  have inside : ".socket".toList <:+: (path ++ target).toList := by
    rw [String.toList_append]
    exact (contains_iff.mp longer).trans (List.suffix_append _ _).isInfix
  cases split : splitAfter ".socket".toList (path ++ target).toList with
  | none =>
    obtain ⟨i,occurs⟩ := infix_iff_occursAt.mp inside
    exact (splitAfter_eq_none (by decide)).mp split i occurs
  | some parts =>
    obtain ⟨socket,tail⟩ := parts
    have found : ([".socket",".sock"].findSome? fun marker => splitAfter marker.toList (path ++ target).toList) =
        some (socket,tail) := by
      rw [List.findSome?_cons,split]
    have same := (parseUnixUrl_marked absolute found).symm.trans splits
    simp only [Except.ok.injEq,Prod.mk.injEq] at same
    obtain ⟨i,occurs,_,before,_⟩ := splitAfter_eq_some split
    have ends : ".socket".toList <:+ socket := by
      obtain ⟨rest,whole⟩ := occurs
      rw [before,List.take_add,← whole,List.take_left]
      exact List.suffix_append _ _
    have marked : endsWith path ".socket" = true := by
      rw [← same.1]
      apply List.isSuffixOf_iff_suffix.mpr
      rw [String.toList_ofList (l := socket)]
      exact ends
    rw [short] at marked
    cases marked

end Paths

/-- A path and a target come apart again exactly when the path has the longer marker or the target does
not hold it. -/
theorem parseUnixUrl_splits_iff (path target : String) (socket : SocketPath path) (request : RequestTarget target) :
    SplitsAt path target ↔ endsWith path ".socket" = true ∨ contains target ".socket" = false := by
  constructor
  · intro splits
    by_contra neither
    simp only [not_or,Bool.not_eq_true,Bool.not_eq_false] at neither
    have absolute : startsWith path "/" = true := by
      rcases socket with short | long
      · exact short.absolute
      · exact long.absolute
    exact not_splits_of_contains absolute neither.1 neither.2 splits
  · intro free
    rcases socket with short | long
    · rcases free with long | clean
      · obtain ⟨stem,same⟩ := List.isSuffixOf_iff_suffix.mp long
        obtain ⟨other,whole⟩ := List.isSuffixOf_iff_suffix.mp short.ends
        have last := congrArg List.getLast? (same.trans whole.symm)
        simp at last
      · exact splits_sock short request clean
    · exact splits_socket long

theorem run_path_marked : MarkedPath ".sock" "/run/a.sock" := by
  refine ⟨by decide,by decide,fun i bound => ?_⟩
  have never : ∀ i < 6, ¬ ".sock".toList <+: "/run/a.sock".toList.drop i := by decide
  have size : i + 5 < 11 := bound
  exact never i (by omega)

theorem query_splits : SplitsAt "/run/a.sock" "/x?f=b.sock" := by
  have request : RequestTarget "/x?f=b.sock" := .inr (.inl (by decide))
  exact (parseUnixUrl_splits_iff "/run/a.sock" "/x?f=b.sock" (.inl run_path_marked) request).mpr (.inr (by decide))

/-- A request for a file with the longer marker in its name. -/
theorem socket_in_target_slips : SocketPath "/run/a.sock" ∧ RequestTarget "/b.socket" ∧
    ¬ SplitsAt "/run/a.sock" "/b.socket" := by
  have apart : ¬ SplitsAt "/run/a.sock" "/b.socket" :=
    not_splits_of_contains run_path_marked.absolute (by decide) (by decide)
  exact ⟨.inl run_path_marked,.inr (.inl (by decide)),apart⟩

end Ruuter
