import Ruuter.LoadSlots
import Ruuter.NestedGrammar

/-! The order in which `read_dir` lists a directory. Two listings of one tree give the same files, so
a load depends on the order only where two files have one key: the later one replaces the other. -/
namespace Ruuter

/-- An entry of a directory. -/
inductive Entry
  | file (name : String) (content : Except String String)
  | dir (name : String) (entries : Listing)

namespace Entry

def name : Entry → String
  | .file name _ => name
  | .dir name _ => name

def file? (name : String) : Entry → Option (Except String String)
  | .file other content => if other = name then some content else none
  | .dir _ _ => none

def dir? (name : String) : Entry → Option Listing
  | .file _ _ => none
  | .dir other entries => if other = name then some entries else none

def WellNamed : Entry → Prop
  | .file name _ => Listing.IsFileName name
  | .dir name entries => Listing.IsFileName name ∧ entries.WellNamed

theorem name_of_file? {entry : Entry} (found : entry.file? wanted = some content) : entry.name = wanted := by
  cases entry with
  | dir other entries => cases found
  | file other held =>
    simp only [file?] at found
    split at found
    · assumption
    · cases found

theorem name_of_dir? {entry : Entry} {inner : Listing} (found : entry.dir? wanted = some inner) :
    entry.name = wanted := by
  cases entry with
  | file other content => cases found
  | dir other entries =>
    simp only [dir?] at found
    split at found
    · assumption
    · cases found

end Entry

namespace Listing

def push : Entry → Listing → Listing
  | .file name content, rest => .file name content rest
  | .dir name entries, rest => .dir name entries rest

/-- Two listings of the same tree, whose directories may list their entries in different orders. -/
inductive Reorder : Listing → Listing → Prop
  | nil : Reorder .nil .nil
  | file (name : String) (content : Except String String) (later : Reorder rest other) :
    Reorder (.file name content rest) (.file name content other)
  | dir (name : String) (inner : Reorder entries listed) (later : Reorder rest other) :
    Reorder (.dir name entries rest) (.dir name listed other)
  | swap (first second : Entry) (rest : Listing) :
    Reorder (push first (push second rest)) (push second (push first rest))
  | trans (first : Reorder one two) (second : Reorder two three) : Reorder one three

theorem names_push (entry : Entry) (rest : Listing) : (push entry rest).names = entry.name :: rest.names := by
  cases entry <;> rfl

theorem file?_push (entry : Entry) (rest : Listing) (name : String) :
    (push entry rest).file? name = (entry.file? name).or (rest.file? name) := by
  cases entry with
  | dir other entries => rfl
  | file other content =>
    simp only [push,file?,Entry.file?]
    split <;> rfl

theorem dir?_push (entry : Entry) (rest : Listing) (name : String) :
    (push entry rest).dir? name = (entry.dir? name).or (rest.dir? name) := by
  cases entry with
  | file other content => rfl
  | dir other entries =>
    simp only [push,dir?,Entry.dir?]
    split <;> rfl

theorem wellNamed_push (entry : Entry) (rest : Listing) : (push entry rest).WellNamed ↔
    entry.WellNamed ∧ entry.name ∉ rest.names ∧ rest.WellNamed := by
  cases entry with
  | file name content => rfl
  | dir name entries =>
    constructor
    · rintro ⟨isName,absent,inside,distinct⟩
      exact ⟨⟨isName,inside⟩,absent,distinct⟩
    · rintro ⟨⟨isName,inside⟩,absent,distinct⟩
      exact ⟨isName,absent,inside,distinct⟩

namespace Reorder

theorem refl : (entries : Listing) → Reorder entries entries
  | .nil => .nil
  | .file name content rest => .file name content (refl rest)
  | .dir name entries rest => .dir name (refl entries) (refl rest)

theorem symm (same : Reorder entries other) : Reorder other entries := by
  induction same with
  | nil => exact .nil
  | file name content _ ih => exact .file name content ih
  | dir name _ _ ihInner ihLater => exact .dir name ihInner ihLater
  | swap first second rest => exact .swap second first rest
  | trans _ _ ihFirst ihSecond => exact ihSecond.trans ihFirst

theorem names (same : Reorder entries other) : entries.names.Perm other.names := by
  induction same with
  | nil => exact .refl _
  | file name content _ ih => exact ih.cons name
  | dir name _ _ _ ih => exact ih.cons name
  | swap first second rest =>
    simp only [names_push]
    exact .swap second.name first.name rest.names
  | trans _ _ ihFirst ihSecond => exact ihFirst.trans ihSecond

theorem wellNamed (same : Reorder entries other) (named : entries.WellNamed) : other.WellNamed := by
  induction same with
  | nil => exact named
  | file name content later ih =>
    exact ⟨named.1,fun member => named.2.1 (later.names.mem_iff.mpr member),ih named.2.2⟩
  | dir name inner later ihInner ihLater =>
    obtain ⟨isName,absent,inside,distinct⟩ := named
    exact ⟨isName,fun member => absent (later.names.mem_iff.mpr member),ihInner inside,ihLater distinct⟩
  | swap first second rest =>
    simp only [wellNamed_push,names_push,List.mem_cons,not_or] at named ⊢
    obtain ⟨one,⟨apart,absent⟩,two,fresh,distinct⟩ := named
    exact ⟨two,⟨Ne.symm apart,fresh⟩,one,absent,distinct⟩
  | trans _ _ ihFirst ihSecond => exact ihSecond (ihFirst named)

theorem or_comm_of_apart {a b : Option α} (apart : ∀ x y, a = some x → b ≠ some y) : a.or b = b.or a := by
  cases a with
  | none => exact Option.or_none.symm
  | some x =>
    cases b with
    | none => rfl
    | some y => exact absurd rfl (apart x y rfl)

theorem file? (same : Reorder entries other) (named : entries.names.Nodup) (name : String) :
    entries.file? name = other.file? name := by
  induction same with
  | nil => rfl
  | file held content _ ih =>
    unfold Listing.file?
    rw [ih (List.nodup_cons.mp named).2]
  | dir held _ _ _ ih => exact ih (List.nodup_cons.mp named).2
  | swap first second rest =>
    -- At most one of the two entries has the name.
    have apart : first.name ≠ second.name := by
      simp only [names_push,List.nodup_cons,List.mem_cons,not_or] at named
      exact named.1.1
    simp only [file?_push first,file?_push second]
    rw [← Option.or_assoc,← Option.or_assoc]
    congr 1
    apply or_comm_of_apart
    intro one two held found
    exact apart ((Entry.name_of_file? held).trans (Entry.name_of_file? found).symm)
  | trans first second ihFirst ihSecond =>
    exact (ihFirst named).trans (ihSecond (first.names.nodup named))

theorem dir?_some {inner : Listing} (same : Reorder entries other) (named : entries.names.Nodup)
    (found : entries.dir? name = some inner) : ∃ listed, other.dir? name = some listed ∧ Reorder inner listed := by
  induction same generalizing inner with
  | nil => cases found
  | file held content _ ih => exact ih (List.nodup_cons.mp named).2 found
  | dir held within _ _ ih =>
    unfold Listing.dir? at found ⊢
    split at found
    · rename_i here
      cases found
      rw [if_pos here]
      exact ⟨_,rfl,within⟩
    · rename_i elsewhere
      rw [if_neg elsewhere]
      exact ih (List.nodup_cons.mp named).2 found
  | swap first second rest =>
    refine ⟨inner,?_,refl inner⟩
    have apart : first.name ≠ second.name := by
      simp only [names_push,List.nodup_cons,List.mem_cons,not_or] at named
      exact named.1.1
    rw [← found]
    simp only [dir?_push first,dir?_push second]
    rw [← Option.or_assoc,← Option.or_assoc]
    congr 1
    apply or_comm_of_apart
    intro one two held found
    exact apart ((Entry.name_of_dir? found).trans (Entry.name_of_dir? held).symm)
  | trans first second ihFirst ihSecond =>
    obtain ⟨middle,held,inside⟩ := ihFirst named found
    obtain ⟨listed,last,within⟩ := ihSecond (first.names.nodup named) held
    exact ⟨listed,last,inside.trans within⟩

/-- What is collected entry by entry is the same up to its order. The index is what a directory
hands down to its entries. -/
theorem perm {F : ι → Listing → List α} {g : ι → Entry → List α}
    (push : ∀ i entry rest, F i (push entry rest) = g i entry ++ F i rest)
    (inside : ∀ {entries listed : Listing}, entries.WellNamed → Reorder entries listed →
      (∀ i, (F i entries).Perm (F i listed)) → ∀ i name, (g i (.dir name entries)).Perm (g i (.dir name listed)))
    (same : Reorder entries other) (named : entries.WellNamed) (i : ι) : (F i entries).Perm (F i other) := by
  induction same generalizing i with
  | nil => exact .refl _
  | @file rest later name content _ ih =>
    have first := push i (.file name content) rest
    have second := push i (.file name content) later
    simp only [Listing.push] at first second
    rw [first,second]
    exact (ih named.2.2 i).append_left _
  | @dir entries listed rest later name inner _ ihInner ihLater =>
    obtain ⟨_,_,within,distinct⟩ := named
    have first := push i (.dir name entries) rest
    have second := push i (.dir name listed) later
    simp only [Listing.push] at first second
    rw [first,second]
    exact (inside within inner (fun j => ihInner within j) i name).append (ihLater distinct i)
  | swap first second rest =>
    simp only [push]
    exact List.perm_append_comm_assoc _ _ _
  | trans first _ ihFirst ihSecond => exact (ihFirst named i).trans (ihSecond (first.wellNamed named) i)

end Reorder
theorem WellNamed.dir? {inner : Listing} : {entries : Listing} → entries.WellNamed → entries.dir? name = some inner →
    inner.WellNamed
  | .nil, _, found => by cases found
  | .file _ _ _, named, found => WellNamed.dir? named.2.2 found
  | .dir _ _ _, ⟨_,_,inside,distinct⟩, found => by
    unfold Listing.dir? at found
    split at found
    · cases found
      exact inside
    · exact WellNamed.dir? distinct found

end Listing

namespace DslLoader

open Listing Eff Assoc

variable {loader : DslLoader}

section Items

theorem scanItems_perm (same : Reorder entries other) (named : entries.WellNamed) (method path : String)
    (dirs : List String) :
    (loader.scanItems method path dirs entries).Perm (loader.scanItems method path dirs other) := by
  let collect (place : String × List String) (entries : Listing) := loader.scanItems method place.1 place.2 entries
  let item (place : String × List String) : Entry → List (Except RuuterError (Found × Dsl))
    | .file name content =>
      if loader.isProcessableFile name then [loader.fileItem method place.1 place.2 name content] else []
    | .dir name entries => loader.scanItems method (place.1 ++ "/" ++ name) (place.2 ++ [name]) entries
  refine same.perm (F := collect) (g := item) ?_ ?_ named (path,dirs)
  · intro place entry rest
    cases entry <;> rfl
  · intro entries listed _ _ inner place name
    exact inner (place.1 ++ "/" ++ name,place.2 ++ [name])

theorem channelItems_perm (same : Reorder entries other) (named : entries.WellNamed) (path : String) :
    (loader.channelItems path entries).Perm (loader.channelItems path other) := by
  let item (path : String) : Entry → List (Except RuuterError (String × Dsl))
    | .file name content => loader.channelItem path name content
    | .dir name _ => loader.channelItem path name (.error isDirectory)
  refine same.perm (F := loader.channelItems) (g := item) ?_ ?_ named path
  · intro path entry rest
    cases entry <;> rfl
  · intro entries listed _ _ _ path name
    exact .refl _

theorem triggerItems_perm (same : Reorder entries other) (named : entries.WellNamed) (path project : String) :
    (loader.triggerItems path project entries).Perm (loader.triggerItems path project other) := by
  let item (path : String) : Entry → List (Except RuuterError (Slot × Dsl))
    | .file _ _ => []
    | .dir channel entries =>
      (loader.channelItems (path ++ "/" ++ channel) entries).map
        (·.map fun item => (.trigger project channel item.1,item.2))
  refine same.perm (F := fun path => loader.triggerItems path project) (g := item) ?_ ?_ named path
  · intro path entry rest
    cases entry <;> rfl
  · intro entries listed within inner _ path name
    exact (channelItems_perm inner within (path ++ "/" ++ name)).map _

/-- The layout of a method directory does not depend on the order. -/
theorem methodEntries_reorder (same : Reorder entries other) (named : entries.WellNamed) (path name : String) :
    methodEntries path name entries = methodEntries path name other ∨
      ∃ here inner listed, methodEntries path name entries = .ok (some (here,inner)) ∧
        methodEntries path name other = .ok (some (here,listed)) ∧ inner.WellNamed ∧ Reorder inner listed := by
  have nodup := named.nodup
  have inbound : "inbound" ∈ entries.names ↔ "inbound" ∈ other.names := same.names.mem_iff
  have outbound : "outbound" ∈ entries.names ↔ "outbound" ∈ other.names := same.names.mem_iff
  unfold methodEntries
  simp only [← inbound,← outbound]
  split
  · split
    · cases found : entries.dir? "inbound" with
      | some inner =>
        obtain ⟨listed,held,inside⟩ := same.dir?_some nodup found
        rw [held]
        exact .inr ⟨_,inner,listed,rfl,rfl,named.dir? found,inside⟩
      | none =>
        refine .inl ?_
        cases held : other.dir? "inbound" with
        | none => rfl
        | some listed =>
          obtain ⟨_,given,_⟩ := same.symm.dir?_some (same.names.nodup nodup) held
          cases found.symm.trans given
    · split
      · exact .inl rfl
      · exact .inr ⟨path,entries,other,rfl,rfl,named,same⟩
  · exact .inr ⟨path,entries,other,rfl,rfl,named,same⟩

theorem methodItems_perm (same : Reorder entries other) (named : entries.WellNamed)
    (path project name : String) :
    (loader.methodItems path project name entries).Perm (loader.methodItems path project name other) := by
  unfold methodItems
  rcases methodEntries_reorder same named path name with equal | ⟨here,inner,listed,one,two,within,inside⟩
  · rw [equal]
  · rw [one,two]
    exact (scanItems_perm inside within name here []).map _

theorem subdirItems_perm (same : Reorder entries other) (named : entries.WellNamed)
    (path project name : String) :
    (loader.subdirItems path project name entries).Perm (loader.subdirItems path project name other) := by
  unfold subdirItems
  split
  · exact triggerItems_perm same named _ project
  · split
    · exact .refl _
    · exact methodItems_perm same named _ project name

theorem subdirsItems_perm (same : Reorder entries other) (named : entries.WellNamed)
    (path project : String) :
    (loader.subdirsItems path project entries).Perm (loader.subdirsItems path project other) := by
  let item (path : String) : Entry → List (Except RuuterError (Slot × Dsl))
    | .file _ _ => []
    | .dir name entries => loader.subdirItems path project name entries
  refine same.perm (F := fun path => loader.subdirsItems path project) (g := item) ?_ ?_ named path
  · intro path entry rest
    cases entry <;> rfl
  · intro entries listed within inner _ path name
    exact subdirItems_perm inner within path project name

theorem projectGuardItems_reorder (same : Reorder entries other) (named : entries.WellNamed)
    (path project : String) :
    loader.projectGuardItems path project entries = loader.projectGuardItems path project other := by
  have files : (fun name => (entries.file? name).map (name,·)) = fun name => (other.file? name).map (name,·) :=
    funext fun name => by rw [same.file? named.nodup name]
  unfold projectGuardItems loadProjectGuard
  rw [files]

theorem projectItems_perm (same : Reorder entries other) (named : entries.WellNamed)
    (path project : String) :
    (loader.projectItems path project entries).Perm (loader.projectItems path project other) := by
  unfold projectItems
  rw [projectGuardItems_reorder same named path project]
  exact (subdirsItems_perm same named path project).append_left _

/-- The files that a load reads do not depend on the order. -/
theorem items_perm (same : Reorder root other) (named : root.WellNamed) :
    (loader.items root).Perm (loader.items other) := by
  let item (_ : Unit) : Entry → List (Except RuuterError (Slot × Dsl))
    | .file _ _ => []
    | .dir project entries => loader.projectItems (loader.configPath ++ "/" ++ project) project entries
  refine same.perm (F := fun _ : Unit => loader.items) (g := item) ?_ ?_ named ()
  · intro _ entry rest
    cases entry <;> rfl
  · intro entries listed within inner _ _ project
    exact projectItems_perm inner within _ project

theorem isMethodDir_reorder (same : Reorder entries other) (named : entries.WellNamed) (name : String) :
    isMethodDir name entries = isMethodDir name other := by
  unfold isMethodDir
  congr 1
  rcases methodEntries_reorder same named "" name with equal | ⟨here,inner,listed,one,two,_,_⟩
  · rw [equal]
  · rw [one,two]

theorem methodNames_perm (same : Reorder entries other) (named : entries.WellNamed) :
    (methodNames entries).Perm (methodNames other) := by
  let item (_ : Unit) : Entry → List String
    | .file _ _ => []
    | .dir name entries => if isMethodDir name entries then [name] else []
  refine same.perm (F := fun _ : Unit => methodNames) (g := item) ?_ ?_ named ()
  · intro _ entry rest
    cases entry <;> rfl
  · intro entries listed within inner _ _ name
    simp only [item,isMethodDir_reorder inner within name]
    exact .refl _

theorem buckets_perm (same : Reorder root other) (named : root.WellNamed) :
    (buckets root).Perm (buckets other) := by
  let item (_ : Unit) : Entry → List (String × Option String)
    | .file _ _ => []
    | .dir project entries => (project,none) :: (methodNames entries).map fun method => (project,some method)
  refine same.perm (F := fun _ : Unit => buckets) (g := item) ?_ ?_ named ()
  · intro _ entry rest
    cases entry <;> rfl
  · intro entries listed within inner _ _ project
    exact ((methodNames_perm inner within).map _).cons _

end Items

end DslLoader

namespace LoadedProjects

open Assoc

/-- The same HTTP, guard and trigger trees. -/
structure Same (first second : LoadedProjects) : Prop where
  http : Alike (Alike (Alike Eq)) first.http second.http
  guards : Alike (Alike Eq) first.guards second.guards
  triggers : Alike (Alike Eq) first.triggers second.triggers

theorem same_of_find (one : first.Filled) (two : second.Filled) (finds : ∀ slot, first.find slot = second.find slot)
    (has : ∀ bucket, first.HasBucket bucket ↔ second.HasBucket bucket) : Same first second := by
  refine ⟨?_,?_,?_⟩
  · apply alike_of_mem fun project => has (project,none)
    intro project left right held found
    apply alike_of_mem
    · intro method
      have both := has (project,some method)
      simp only [HasBucket,held,found,Option.some.injEq,exists_eq_left'] at both
      exact both
    · intro method inner other within beside
      apply alike_eq
      intro key
      have same := finds (.route project method key)
      simp only [LoadedProjects.find,held,found,within,beside,Option.bind_some] at same
      exact same
  · exact alike_of_bind one.guards two.guards fun project key => finds (.guard project key)
  · exact alike_of_bind one.triggers two.triggers fun name key => finds (.trigger name.1 name.2 key)

end LoadedProjects

/-- Both loads fail, or both give the same trees. -/
def SameOutcome : Except RuuterError LoadedProjects → Except RuuterError LoadedProjects → Prop
  | .error _, .error _ => True
  | .ok first, .ok second => first.Same second
  | _, _ => False

/-- A directory tree. -/
structure FileTree where
  listing : Listing
  named : listing.WellNamed

namespace DslLoader

open Listing Eff Assoc

variable (loader : DslLoader)

/-- The slots of the files that can be read. -/
def slots (root : Listing) : List Slot := (loader.items root).filterMap fun item => item.toOption.map (·.1)

/-- Two orders of the entries make a load fail or give the same trees, and two files of one slot
make it fail. -/
def OrderIndependent (tree : FileTree) : Prop :=
  (∀ other, tree.listing.Reorder other →
    SameOutcome (loader.loadEverything tree.listing) (loader.loadEverything other)) ∧
  (¬ (loader.slots tree.listing).Nodup → ∃ e, loader.loadEverything tree.listing = .error e)

/-- Some file is refused, or no two files have one slot. -/
def Apart (root : Listing) : Prop := (∃ e, .error e ∈ loader.items root) ∨ (loader.slots root).Nodup

variable {loader : DslLoader}

theorem slots_of_allOk (given : AllOk (loader.items root) loaded) : loader.slots root = loaded.map Prod.fst := by
  unfold slots
  rw [given,List.filterMap_map]
  exact congrFun List.filterMap_eq_map loaded

theorem loadEverything_error_iff (named : root.WellNamed) :
    (∃ e, loader.loadEverything root = .error e) ↔ ∃ e, .error e ∈ loader.items root := by
  have accepted : (∃ out, loader.loadEverything root = .ok out) ↔ _ := loadEverything_ok_iff named
  rw [exists_allOk_iff] at accepted
  cases outcome : loader.loadEverything root with
  | error e =>
    refine iff_of_true ⟨e,rfl⟩ ?_
    by_contra none
    rw [not_exists] at none
    obtain ⟨out,ok⟩ := accepted.mpr none
    cases outcome.symm.trans ok
  | ok out =>
    refine iff_of_false (fun ⟨_,impossible⟩ => by cases impossible) ?_
    rintro ⟨e,member⟩
    exact accepted.mp ⟨out,outcome⟩ e member

/-- Files with different slots are loaded alike in every order. -/
theorem sameOutcome_reorder (same : Reorder root other) (named : root.WellNamed) (apart : loader.Apart root) :
    SameOutcome (loader.loadEverything root) (loader.loadEverything other) := by
  have perm : (loader.items root).Perm (loader.items other) := items_perm same named
  have namedOther := same.wellNamed named
  by_cases refused : ∃ e, .error e ∈ loader.items root
  · obtain ⟨_,one⟩ := (loadEverything_error_iff named).mpr refused
    obtain ⟨e,member⟩ := refused
    obtain ⟨_,two⟩ := (loadEverything_error_iff namedOther).mpr ⟨e,perm.mem_iff.mp member⟩
    rw [one,two]
    trivial
  · obtain ⟨loaded,given⟩ := exists_allOk_iff.mpr (not_exists.mp refused)
    obtain ⟨later,givenOther,reordered⟩ := given.perm perm
    obtain ⟨first,one,filled,finds,has⟩ := loadEverything_find named given
    obtain ⟨second,two,full,seen,holds⟩ := loadEverything_find namedOther givenOther
    have nodup := apart.resolve_left refused
    rw [slots_of_allOk given] at nodup
    rw [one,two]
    apply LoadedProjects.same_of_find filled full
    · intro slot
      rw [finds,seen,latest_perm reordered nodup]
    · intro bucket
      rw [has,holds]
      exact (buckets_perm same named).mem_iff

/-- The order of the entries does not matter exactly when no two loaded files have one slot. -/
theorem orderIndependent_iff (loader : DslLoader) (tree : FileTree) :
    loader.OrderIndependent tree ↔ loader.Apart tree.listing := by
  constructor
  · rintro ⟨_,collision⟩
    by_contra apart
    have clash : ¬ (loader.slots tree.listing).Nodup := fun nodup => apart (.inr nodup)
    exact apart (.inl ((loadEverything_error_iff tree.named).mp (collision clash)))
  · intro apart
    refine ⟨fun other same => sameOutcome_reorder same tree.named apart,?_⟩
    intro clash
    rcases apart with refused | nodup
    · exact (loadEverything_error_iff tree.named).mpr refused
    · exact absurd nodup clash

section Spellings

def firstContent : String := "done:\n  return: first\n"

def secondContent : String := "done:\n  return: second\n"

def returning (text : String) : StringMap Yaml := AList.singleton "done" (.mapping [(.string "return",.string text)])

def returningDsl (text : String) : Dsl where
  steps := AList.singleton "done" (.returnStep { returnValue := .string text })

def spellingLoader : DslLoader where
  parser :=
    { serde :=
      { (DslParser.oneDocument firstContent (returning "first")).serde with
        yaml := fun text => if text = firstContent then .ok (returning "first")
          else if text = secondContent then .ok (returning "second") else .error "unexpected document" } }
  configPath := "DSL"

theorem parsed_first : spellingLoader.parser.parseContent firstContent = .ok (returningDsl "first") := by
  have text := spellingLoader.parser.replaceConstants_plain (show '#' ∉ firstContent.toList by decide +kernel)
  have loaded : spellingLoader.parser.serde.yaml (spellingLoader.parser.replaceConstants firstContent) =
      .ok (returning "first") := by
    rw [text]
    simp only [spellingLoader,if_true]
  rw [DslParser.parseContent_loaded loaded]
  rfl

theorem parsed_second : spellingLoader.parser.parseContent secondContent = .ok (returningDsl "second") := by
  have text := spellingLoader.parser.replaceConstants_plain (show '#' ∉ secondContent.toList by decide +kernel)
  have other : secondContent ≠ firstContent := by decide +kernel
  have loaded : spellingLoader.parser.serde.yaml (spellingLoader.parser.replaceConstants secondContent) =
      .ok (returning "second") := by
    rw [text]
    simp only [spellingLoader,other,if_false,if_true]
  rw [DslParser.parseContent_loaded loaded]
  rfl

theorem parseFile_first (path : String) :
    spellingLoader.parseFile path (.ok firstContent) = .ok (returningDsl "first") := by
  simp only [parseFile,parsed_first]

theorem parseFile_second (path : String) :
    spellingLoader.parseFile path (.ok secondContent) = .ok (returningDsl "second") := by
  simp only [parseFile,parsed_second]

/-- One route in two spellings. -/
def spelling : Bool → Entry
  | true => .file "a.yml" (.ok firstContent)
  | false => .file "a.yaml" (.ok secondContent)

def spellings (front back : Bool) : Listing :=
  .dir "app" (.dir "GET" (push (spelling front) (push (spelling back) .nil)) .nil) .nil

theorem spellings_wellNamed (front : Bool) : (spellings front !front).WellNamed := by
  have outer : IsFileName "app" ∧ IsFileName "GET" := by unfold IsFileName; decide +kernel
  have files : IsFileName "a.yml" ∧ IsFileName "a.yaml" := by unfold IsFileName; decide +kernel
  cases front with
  | true =>
    exact ⟨outer.1,by simp [names],⟨outer.2,by simp [names],⟨files.1,by decide +kernel,files.2,by simp [names],trivial⟩,
      trivial⟩,trivial⟩
  | false =>
    exact ⟨outer.1,by simp [names],⟨outer.2,by simp [names],⟨files.2,by decide +kernel,files.1,by simp [names],trivial⟩,
      trivial⟩,trivial⟩

theorem spellings_items (front back : Bool) : AllOk (spellingLoader.items (spellings front back))
    ([front,back].map fun spelled =>
      (.route "app" "GET" "GET/a",returningDsl (if spelled then "first" else "second"))) := by
  have one : spellingLoader.fileItem "GET" "DSL/app/GET" [] "a.yml" (.ok firstContent) =
      .ok (.route "GET/a",returningDsl "first") := by
    unfold fileItem
    rw [if_neg (by decide +kernel),parseFile_first,
      show buildDslKey [] "a.yml" "GET" = "GET/a" by decide +kernel]
    rfl
  have two : spellingLoader.fileItem "GET" "DSL/app/GET" [] "a.yaml" (.ok secondContent) =
      .ok (.route "GET/a",returningDsl "second") := by
    unfold fileItem
    rw [if_neg (by decide +kernel),parseFile_second,
      show buildDslKey [] "a.yaml" "GET" = "GET/a" by decide +kernel]
    rfl
  have processed :
      spellingLoader.isProcessableFile "a.yml" = true ∧ spellingLoader.isProcessableFile "a.yaml" = true := by
    decide +kernel
  have scanned : ∀ spelled rest, spellingLoader.scanItems "GET" "DSL/app/GET" [] (push (spelling spelled) rest) =
      .ok (.route "GET/a",returningDsl (if spelled then "first" else "second")) ::
        spellingLoader.scanItems "GET" "DSL/app/GET" [] rest := by
    intro spelled rest
    cases spelled with
    | true =>
      simp only [spelling,push,scanItems,processed.1,one,if_true]
      rfl
    | false =>
      simp only [spelling,push,scanItems,processed.2,two,if_true]
      rfl
  have method : spellingLoader.subdirItems "DSL/app" "app" "GET"
      (push (spelling front) (push (spelling back) .nil)) =
        (spellingLoader.scanItems "GET" "DSL/app/GET" [] (push (spelling front) (push (spelling back) .nil))).map
          (·.map fun item => (item.1.slot "app" "GET",item.2)) := by
    rfl
  unfold AllOk spellings
  simp only [items,projectItems,subdirsItems,List.append_nil]
  rw [show spellingLoader.configPath ++ "/" ++ "app" = "DSL/app" from rfl,method,scanned,scanned]
  rfl

/-- The file that is listed last is the route. -/
theorem spelling_order_matters :
    (spellings true false).Reorder (spellings false true) ∧
    (∃ out, spellingLoader.loadEverything (spellings true false) = .ok out ∧
      out.find (.route "app" "GET" "GET/a") = some (returningDsl "second")) ∧
    (∃ out, spellingLoader.loadEverything (spellings false true) = .ok out ∧
      out.find (.route "app" "GET" "GET/a") = some (returningDsl "first")) ∧
    ¬ spellingLoader.OrderIndependent ⟨spellings true false,spellings_wellNamed true⟩ := by
  obtain ⟨one,loadedOne,_,findsOne,_⟩ := loadEverything_find (spellings_wellNamed true) (spellings_items true false)
  obtain ⟨two,loadedTwo,_,findsTwo,_⟩ := loadEverything_find (spellings_wellNamed false) (spellings_items false true)
  refine ⟨?_,⟨one,loadedOne,?_⟩,⟨two,loadedTwo,?_⟩,?_⟩
  · exact .dir "app" (.dir "GET" (.swap (spelling true) (spelling false) .nil) .nil) .nil
  · rw [findsOne]
    rfl
  · rw [findsTwo]
    rfl
  · rintro ⟨_,collision⟩
    have clash : ¬ (spellingLoader.slots (spellings true false)).Nodup := by
      rw [slots_of_allOk (spellings_items true false)]
      simp
    obtain ⟨e,refused⟩ := collision clash
    cases loadedOne.symm.trans refused

end Spellings

end DslLoader
end Ruuter
