import Ruuter.LoadOrder

/-! Which routes a guard file covers. The keys of guards and routes are compared piece by piece, so a
guard covers what it is named after unless its name is malformed, the scan does not reach it, a
backslash in a name makes a separator of its own, or its method is the project guard's key. -/
namespace Ruuter

/-- A file with the directories it is in, from the method directory on. -/
structure DslFile where
  dirs : List String
  name : String
  content : Except String String

namespace Listing

/-- The files at and below a directory. -/
def filesBelow (dirs : List String) : Listing → List DslFile
  | .nil => []
  | .file name content rest => ⟨dirs,name,content⟩ :: rest.filesBelow dirs
  | .dir name entries rest => entries.filesBelow (dirs ++ [name]) ++ rest.filesBelow dirs

/-- The directories of a project that hold routes and guards. -/
def methodDirs : Listing → List (String × Listing)
  | .nil => []
  | .file _ _ rest => rest.methodDirs
  | .dir name entries rest => (if name ∈ reservedSubdirs then [] else [(name,entries)]) ++ rest.methodDirs

/-- Where the load of a method directory begins. -/
def scanBase (name : String) (entries : Listing) : Option (List String) :=
  if name = "WS" then
    if "inbound" ∈ entries.names then some ["inbound"]
    else if "outbound" ∈ entries.names then none
    else some []
  else some []

end Listing

open Listing

/-- `s.guard.<ext>`. -/
def IsSibling (name stem : String) : Prop :=
  stem ≠ "" ∧ ∃ ext, '.' ∉ ext.toList ∧ name = stem ++ ".guard." ++ ext

/-- What a guard file is named after: the directory it is in, or what has its stem beside it. -/
inductive NamedAfter (file : DslFile) : List String → Prop
  | inFolder (own : isInFolderGuard file.name = true) : NamedAfter file file.dirs
  | sibling (own : IsSibling file.name stem) : NamedAfter file (file.dirs ++ [stem])

/-- A file below a directory, or beside it with the name of the directory and an extension. -/
def LiesAt (target dirs : List String) (name : String) : Prop :=
  target <+: dirs ∨ ∃ stem ext, target = dirs ++ [stem] ∧ name = stem ++ "." ++ ext ∧ '.' ∉ ext.toList

/-- What a request to a route has to pass where no guard overrides the others. -/
def stackMatches (guards : GuardDsls) (project dslKey : String) : List String :=
  match guards.lookup project with
  | none => []
  | some projectGuards =>
    (projectGuards.keys.find? (· == projectGuardKey)).toList ++ methodScopedMatches projectGuards dslKey

namespace DslLoader

variable (loader : DslLoader)

structure GuardFile (entries : Listing) (place : String × Listing) (file : DslFile) : Prop where
  inside : place ∈ entries.methodDirs
  below : file ∈ place.2.filesBelow []
  processed : loader.isProcessableFile file.name = true
  classified : isGuardFile file.name = true

structure RouteFile (entries : Listing) (place : String × Listing) (file : DslFile) : Prop where
  inside : place ∈ entries.methodDirs
  below : file ∈ place.2.filesBelow []
  processed : loader.isProcessableFile file.name = true
  classified : isGuardFile file.name = false

/-- The directories of a file from where the load begins. -/
def ScannedAt (place : String × Listing) (file : DslFile) (dirs : List String) : Prop :=
  ∃ base, scanBase place.1 place.2 = some base ∧ file.dirs = base ++ dirs

/-- A guard file that has been loaded under a key. -/
def LoadedGuard (out : LoadedProjects) (project : String) (place : String × Listing) (file : DslFile)
    (key : String) : Prop :=
  ∃ dirs text dsl, ScannedAt place file dirs ∧ buildGuardKey dirs file.name place.1 = .ok key ∧
    file.content = .ok text ∧ loader.parser.parseContent text = .ok dsl ∧
    out.find (.guard project key) = some dsl

/-- Every guard file is loaded and named after something, and its key matches exactly the routes
there. -/
def GuardsCover (out : LoadedProjects) (project : String) (entries : Listing) : Prop :=
  ∀ place file, loader.GuardFile entries place file →
    ∃ key target, loader.LoadedGuard out project place file key ∧ NamedAfter file target ∧
      ∀ other route dirs, loader.RouteFile entries other route → ScannedAt other route dirs →
        (key ∈ stackMatches out.guards project (buildDslKey dirs route.name other.1) ↔
          LiesAt (place.1 :: target) (other.1 :: route.dirs) route.name)

/-- Names as the pieces that their backslashes make. -/
def pieces (parts : List String) : List String := parts.flatMap (Text.split · '\\')

/-- The place of a route without its extension. -/
def routePath (file : DslFile) : List String := file.dirs ++ [fileStem file.name]

/-- What the guard files of a project have to be like. -/
structure WellPlaced (entries : Listing) : Prop where
  named : ∀ place file, loader.GuardFile entries place file →
    isInFolderGuard file.name = true ∨ ∃ stem, IsSibling file.name stem
  scanned : ∀ place file, loader.GuardFile entries place file → ∃ dirs, ScannedAt place file dirs
  separators : ∀ place file target route, loader.GuardFile entries place file → NamedAfter file target →
    (∀ stem, IsSibling file.name stem → '\\' ∉ stem.toList) → loader.RouteFile entries place route →
    (∃ dirs, ScannedAt place route dirs) → pieces target <+: pieces (routePath route) →
    target <+: routePath route
  stems : ∀ place file stem route, loader.GuardFile entries place file → IsSibling file.name stem →
    '\\' ∈ stem.toList → loader.RouteFile entries place route → (∃ dirs, ScannedAt place route dirs) →
    ¬ file.dirs ++ [stem] <+: routePath route
  star : ∀ place file, loader.GuardFile entries place file → place.1 = projectGuardKey →
    isInFolderGuard file.name = true → file.dirs = [] → ∀ other route, loader.RouteFile entries other route →
    (∃ dirs, ScannedAt other route dirs) → other.1 = projectGuardKey

end DslLoader

section Names

/-- The dotted parts of a name, last part first. -/
theorem reverse_split (name : String) : ∃ first before, (Text.split name '.').reverse = first :: before ∧
    ".".intercalate (first :: before).reverse = name := by
  cases reversed : (Text.split name '.').reverse with
  | nil => exact absurd (List.reverse_eq_nil_iff.mp reversed) (Text.split_ne_nil name '.')
  | cons first before =>
    refine ⟨first,before,rfl,?_⟩
    rw [← reversed,List.reverse_reverse]
    exact Text.intercalate_split name '.'

theorem splitAtDot_iff : splitAtDot name = some (front,ext) ↔
    front ≠ "" ∧ '.' ∉ ext.toList ∧ name = front ++ "." ++ ext := by
  unfold splitAtDot
  constructor
  · intro found
    split at found
    · rename_i after first before reversed
      have cut : Text.split name '.' = (first :: before).reverse ++ [after] := by
        rw [← List.reverse_cons,← reversed,List.reverse_reverse]
      dsimp only at found
      split at found
      · cases found
      · rename_i filled
        have member : after ∈ Text.split name '.' := by
          rw [cut]
          exact List.mem_append_right _ (List.mem_singleton_self _)
        cases found
        refine ⟨filled,Text.not_mem_of_mem_split member,?_⟩
        have joined := String.intercalate_append_of_ne_nil (s := ".") (l := (first :: before).reverse) (m := [ext])
          (by simp) (by simp)
        rw [← cut,String.intercalate_singleton] at joined
        rw [← joined]
        exact (Text.intercalate_split name '.').symm
    · cases found
  · rintro ⟨filled,clean,rfl⟩
    have cut : Text.split (front ++ "." ++ ext) '.' = Text.split front '.' ++ [ext] :=
      (Text.split_append front ext '.').trans (congrArg _ (Text.split_of_not_mem clean))
    obtain ⟨first,before,reversed,joined⟩ := reverse_split front
    rw [cut,List.reverse_append,reversed]
    simp only [List.reverse_singleton,List.singleton_append,joined,filled,if_false]

theorem guardStem_of_sibling (own : IsSibling name stem) : guardStem name = some stem := by
  obtain ⟨_,ext,clean,rfl⟩ := own
  have cut : Text.split (stem ++ ".guard." ++ ext) '.' = Text.split stem '.' ++ ["guard",ext] := by
    have regroup : stem ++ ".guard." ++ ext = stem ++ "." ++ ("guard" ++ "." ++ ext) := by
      rw [show ".guard." = "." ++ ("guard" ++ ".") from rfl]
      simp only [String.append_assoc]
    rw [regroup]
    refine (Text.split_append stem _ '.').trans (congrArg _ ?_)
    refine (Text.split_append "guard" ext '.').trans ?_
    rw [Text.split_of_not_mem clean,Text.split_of_not_mem (show '.' ∉ "guard".toList by decide)]
    rfl
  obtain ⟨first,before,reversed,joined⟩ := reverse_split stem
  unfold guardStem
  rw [cut,List.reverse_append,reversed]
  exact congrArg some joined

theorem isInFolderGuard_of_sibling (own : IsSibling name stem) : isInFolderGuard name = false := by
  have found := guardStem_of_sibling own
  cases folder : isInFolderGuard name with
  | false => rfl
  | true =>
    unfold isInFolderGuard at folder
    simp only [Bool.or_eq_true,decide_eq_true_eq] at folder
    have empty : stem = "" := by
      rcases folder with (rfl | rfl) | rfl
      · cases found.symm.trans (show guardStem ".guard" = none by decide +kernel)
      · cases found.symm.trans (show guardStem ".guard.yml" = some "" by decide +kernel)
        rfl
      · cases found.symm.trans (show guardStem ".guard.yaml" = some "" by decide +kernel)
        rfl
    exact absurd empty own.1

theorem mem_fileStem (inside : c ∈ (fileStem name).toList) : c ∈ name.toList := by
  unfold fileStem at inside
  cases cut : splitAtDot name with
  | none =>
    rw [cut] at inside
    exact inside
  | some parts =>
    rw [cut] at inside
    obtain ⟨_,_,same⟩ := splitAtDot_iff.mp cut
    rw [same]
    simp only [String.toList_append,List.mem_append]
    exact .inl (.inl inside)

/-- A file is beside a directory of its stem, and below every directory that it is in. -/
theorem liesAt_iff (stemmed : name = fileStem name ++ "." ++ ext) (clean : '.' ∉ ext.toList) :
    LiesAt target dirs name ↔ target <+: dirs ++ [fileStem name] := by
  rw [List.prefix_concat_iff]
  constructor
  · rintro (below | ⟨stem,other,rfl,same,cleanOther⟩)
    · exact .inr below
    · left
      have last : Text.split name '.' = Text.split (fileStem name) '.' ++ [ext] := by
        conv_lhs => rw [stemmed]
        exact (Text.split_append _ ext '.').trans (congrArg _ (Text.split_of_not_mem clean))
      have lastOther : Text.split name '.' = Text.split stem '.' ++ [other] := by
        conv_lhs => rw [same]
        exact (Text.split_append _ other '.').trans (congrArg _ (Text.split_of_not_mem cleanOther))
      have pieces := (List.append_inj' (last.symm.trans lastOther) rfl).1
      rw [← Text.intercalate_split (fileStem name) '.',pieces,Text.intercalate_split]
  · rintro (rfl | below)
    · exact .inr ⟨fileStem name,ext,rfl,stemmed,clean⟩
    · exact .inl below

theorem stemmed_of_route {loader : DslLoader} (processed : loader.isProcessableFile name = true)
    (classified : isGuardFile name = false) : ∃ ext, name = fileStem name ++ "." ++ ext ∧ '.' ∉ ext.toList := by
  unfold isGuardFile at classified
  rw [Bool.or_eq_false_iff] at classified
  unfold DslLoader.isProcessableFile at processed
  rw [classified.1,Bool.false_or] at processed
  obtain ⟨ext,found,_⟩ := (Option.any_eq_true _ _).mp processed
  unfold extension at found
  obtain ⟨⟨front,back⟩,cut,rfl⟩ := Option.map_eq_some_iff.mp found
  obtain ⟨_,clean,same⟩ := splitAtDot_iff.mp cut
  refine ⟨back,?_,clean⟩
  unfold fileStem
  rw [cut]
  exact same

end Names

section Keys

open DslLoader

theorem split_joinPath (nonempty : parts ≠ []) (clean : ∀ part ∈ parts, '/' ∉ part.toList) :
    Text.split (replaceBackslash (joinPath parts)) '/' = pieces parts := by
  have joined : replaceBackslash (joinPath parts) = "/".intercalate (parts.map (Text.replaceChar '\\' '/')) :=
    Text.replaceChar_intercalate (by decide) parts
  rw [joined]
  refine (Text.split_intercalate_flatMap _ (by simpa using nonempty) '/').trans ?_
  unfold pieces
  rw [List.flatMap_map]
  exact List.flatMap_congr fun part member => Text.split_replaceChar (clean part member)

theorem split_slash (cleanMethod : '/' ∉ method.toList) (rest : String) :
    Text.split (method ++ "/" ++ rest) '/' = method :: Text.split rest '/' := by
  refine (Text.split_append method rest '/').trans ?_
  rw [Text.split_of_not_mem cleanMethod]
  rfl

theorem split_buildDslKey (cleanMethod : '/' ∉ method.toList) (clean : ∀ dir ∈ dirs, '/' ∉ dir.toList)
    (cleanName : '/' ∉ name.toList) :
    Text.split (buildDslKey dirs name method) '/' = method :: pieces (dirs ++ [fileStem name]) := by
  unfold buildDslKey
  rw [split_slash cleanMethod,split_joinPath (by simp)]
  intro part member
  rcases List.mem_append.mp member with dir | last
  · exact clean part dir
  · rw [List.mem_singleton.mp last]
    exact fun inside => cleanName (mem_fileStem inside)

theorem joinPath_eq_empty (filled : ∀ dir ∈ dirs, dir ≠ "") : replaceBackslash (joinPath dirs) = "" ↔ dirs = [] := by
  constructor
  · intro empty
    cases dirs with
    | nil => rfl
    | cons dir rest =>
      have none : joinPath (dir :: rest) = "" := by
        have chars := congrArg String.toList empty
        simp only [replaceBackslash,String.toList_ofList,String.toList_empty,List.map_eq_nil_iff] at chars
        exact String.toList_inj.mp chars
      refine absurd ?_ (filled dir List.mem_cons_self)
      unfold joinPath at none
      by_cases last : rest = []
      · subst last
        simpa using none
      · rw [String.intercalate_cons_of_ne_nil last] at none
        have chars := congrArg String.toList none
        simp at chars
  · rintro rfl
    rfl

theorem split_buildGuardKey_inFolder (cleanMethod : '/' ∉ method.toList)
    (clean : ∀ dir ∈ dirs, '/' ∉ dir.toList) (filled : ∀ dir ∈ dirs, dir ≠ "")
    (own : isInFolderGuard name = true) (built : buildGuardKey dirs name method = .ok key) :
    Text.split key '/' = method :: pieces dirs := by
  unfold buildGuardKey at built
  rw [if_pos own] at built
  simp only [joinPath_eq_empty filled,Except.ok.injEq] at built
  subst built
  split
  · rename_i root
    subst root
    exact Text.split_of_not_mem cleanMethod
  · rename_i nonempty
    rw [split_slash cleanMethod,split_joinPath nonempty clean]

theorem split_buildGuardKey_sibling (cleanMethod : '/' ∉ method.toList)
    (clean : ∀ dir ∈ dirs, '/' ∉ dir.toList) (filled : ∀ dir ∈ dirs, dir ≠ "") (cleanName : '/' ∉ name.toList)
    (own : IsSibling name stem) (built : buildGuardKey dirs name method = .ok key) :
    Text.split key '/' = method :: pieces dirs ++ [stem] := by
  have cleanStem : '/' ∉ stem.toList := by
    obtain ⟨_,ext,_,same⟩ := own
    intro inside
    apply cleanName
    rw [same]
    simp only [String.toList_append,List.mem_append]
    exact .inl (.inl inside)
  unfold buildGuardKey at built
  rw [if_neg (by rw [isInFolderGuard_of_sibling own]; exact Bool.false_ne_true),guardStem_of_sibling own] at built
  simp only [joinPath_eq_empty filled,Except.ok.injEq] at built
  subst built
  rw [split_slash cleanMethod]
  split
  · rename_i root
    subst root
    rw [Text.split_of_not_mem cleanStem]
    rfl
  · rename_i nonempty
    have cut := Text.split_append (replaceBackslash (joinPath dirs)) stem '/'
    rw [split_joinPath nonempty clean,Text.split_of_not_mem cleanStem] at cut
    exact congrArg (method :: ·) cut

/-- A guard of the bucket is matched as the project guard, or by the pieces of its key. -/
theorem mem_stackMatches (held : guards.lookup project = some projectGuards) (present : key ∈ projectGuards) :
    key ∈ stackMatches guards project dslKey ↔
      key = projectGuardKey ∨ Text.split key '/' <+: Text.split dslKey '/' := by
  have covers : guardMatches dslKey key = true ↔ Text.split key '/' <+: Text.split dslKey '/' := by
    rw [Text.split_prefix_iff]
    unfold guardMatches
    rw [Bool.or_eq_true,beq_iff_eq]
    rfl
  unfold stackMatches
  rw [held]
  simp only [projectGuard_toList,List.mem_append,mem_methodScopedMatches,Scoped,covers]
  by_cases own : key = projectGuardKey
  · subst own
    simp [present]
  · simp only [own,present,false_or,ne_eq,not_false_eq_true,true_and]
    refine or_iff_right ?_
    split
    · simpa using own
    · exact List.not_mem_nil

end Keys
namespace Listing

section Files

variable {file : DslFile} {entries inner : Listing} {name : String} {dirs back : List String}

theorem filesBelow_append (front back : List String) (entries : Listing) : entries.filesBelow (front ++ back) =
    (entries.filesBelow back).map fun file => { file with dirs := front ++ file.dirs } := by
  induction entries generalizing back with
  | nil => rfl
  | file name content rest ih =>
    unfold filesBelow
    rw [ih]
    rfl
  | dir name inner rest ihInner ihRest =>
    unfold filesBelow
    rw [ihRest,List.append_assoc,ihInner,List.map_append]

/-- The names of the directories that a file is in, and its own. -/
theorem isFileName_of_mem (named : entries.WellNamed) (inside : file ∈ entries.filesBelow dirs)
    (given : ∀ dir ∈ dirs, IsFileName dir) : (∀ dir ∈ file.dirs, IsFileName dir) ∧ IsFileName file.name := by
  induction entries generalizing dirs with
  | nil => cases inside
  | file name content rest ih =>
    obtain ⟨isName,_,distinct⟩ := named
    rcases List.mem_cons.mp inside with rfl | later
    · exact ⟨given,isName⟩
    · exact ih distinct later given
  | dir name inner rest ihInner ihRest =>
    obtain ⟨isName,_,within,distinct⟩ := named
    rcases List.mem_append.mp inside with here | later
    · refine ihInner within here ?_
      intro dir member
      rcases List.mem_append.mp member with before | last
      · exact given dir before
      · rw [List.mem_singleton.mp last]
        exact isName
    · exact ihRest distinct later given

theorem mem_names_of_dir? : {entries : Listing} → entries.dir? name = some inner → name ∈ entries.names
  | .nil, found => by cases found
  | .file _ _ _, found => List.mem_cons_of_mem _ (mem_names_of_dir? found)
  | .dir other _ _, found => by
    unfold dir? at found
    split at found
    · rename_i same
      exact List.mem_cons.mpr (.inl same.symm)
    · exact List.mem_cons_of_mem _ (mem_names_of_dir? found)

/-- A file of a subdirectory. -/
theorem mem_filesBelow_dir (inside : file ∈ entries.filesBelow dirs) (named : entries.names.Nodup)
    (within : file.dirs = dirs ++ name :: back) :
    ∃ inner, entries.dir? name = some inner ∧ file ∈ inner.filesBelow (dirs ++ [name]) := by
  have under {inner : Listing} {other : String} (inside : file ∈ inner.filesBelow (dirs ++ [other])) :
      other = name := by
    rw [← List.append_nil (dirs ++ [other]),filesBelow_append] at inside
    obtain ⟨_,_,rfl⟩ := List.mem_map.mp inside
    simp only [List.append_assoc,List.append_cancel_left_eq,List.singleton_append,List.cons.injEq] at within
    exact within.1
  induction entries with
  | nil => cases inside
  | file other content rest ih =>
    rcases List.mem_cons.mp inside with rfl | later
    · simp at within
    · exact ih later (List.nodup_cons.mp named).2
  | dir other inner rest _ ih =>
    unfold dir?
    rcases List.mem_append.mp inside with here | later
    · obtain rfl := under here
      rw [if_pos rfl]
      exact ⟨inner,rfl,here⟩
    · obtain ⟨absent,distinct⟩ := List.nodup_cons.mp named
      obtain ⟨found,held,member⟩ := ih later distinct
      have apart : other ≠ name := by
        rintro rfl
        exact absent (mem_names_of_dir? held)
      rw [if_neg apart]
      exact ⟨found,held,member⟩

theorem mem_methodDirs {place : String × Listing} : {entries : Listing} → entries.WellNamed →
    place ∈ entries.methodDirs → place.1 ∈ entries.names ∧ place.1 ∉ reservedSubdirs ∧ IsFileName place.1 ∧
      place.2.WellNamed
  | .nil, _, member => by cases member
  | .file _ _ _, named, member => by
    obtain ⟨listed,rest⟩ := mem_methodDirs named.2.2 member
    exact ⟨List.mem_cons_of_mem _ listed,rest⟩
  | .dir name inner rest, ⟨isName,_,within,distinct⟩, member => by
    rcases List.mem_append.mp member with here | later
    · split at here
      · cases here
      · rename_i free
        rw [List.mem_singleton] at here
        subst here
        exact ⟨List.mem_cons_self,free,isName,within⟩
    · obtain ⟨listed,others⟩ := mem_methodDirs distinct later
      exact ⟨List.mem_cons_of_mem _ listed,others⟩

/-- A project has one directory for a method. -/
theorem methodDirs_unique {place other : String × Listing} : {entries : Listing} → entries.WellNamed →
    place ∈ entries.methodDirs → other ∈ entries.methodDirs → place.1 = other.1 → place = other
  | .nil, _, member, _, _ => by cases member
  | .file _ _ _, named, first, second, same => methodDirs_unique named.2.2 first second same
  | .dir name inner rest, ⟨_,absent,_,distinct⟩, first, second, same => by
    have only {place : String × Listing} (member : place ∈ if name ∈ reservedSubdirs then [] else [(name,inner)]) :
        place = (name,inner) := by
      split at member
      · cases member
      · exact List.mem_singleton.mp member
    rcases List.mem_append.mp first with here | later
    · rcases List.mem_append.mp second with there | after
      · rw [only here,only there]
      · have listed := (mem_methodDirs distinct after).1
        rw [← same,only here] at listed
        exact absurd listed absent
    · rcases List.mem_append.mp second with there | after
      · have listed := (mem_methodDirs distinct later).1
        rw [same,only there] at listed
        exact absurd listed absent
      · exact methodDirs_unique distinct later after same

end Files

end Listing

namespace DslLoader

open Eff Assoc

variable {loader : DslLoader}

section Accepted

theorem fileItem_mem {file : DslFile} {entries : Listing} (inside : file ∈ entries.filesBelow dirs)
    (processed : loader.isProcessableFile file.name = true) (method path : String) :
    ∃ place, loader.fileItem method place file.dirs file.name file.content ∈
      loader.scanItems method path dirs entries := by
  induction entries generalizing dirs path with
  | nil => cases inside
  | file name content rest ih =>
    unfold scanItems
    rcases List.mem_cons.mp inside with rfl | later
    · rw [if_pos processed]
      exact ⟨path,List.mem_append_left _ (List.mem_singleton_self _)⟩
    · obtain ⟨place,member⟩ := ih later path
      exact ⟨place,List.mem_append_right _ member⟩
  | dir name inner rest ihInner ihRest =>
    unfold scanItems
    rcases List.mem_append.mp inside with here | later
    · obtain ⟨place,member⟩ := ihInner here (path ++ "/" ++ name)
      exact ⟨place,List.mem_append_left _ member⟩
    · obtain ⟨place,member⟩ := ihRest later path
      exact ⟨place,List.mem_append_right _ member⟩

/-- The scan of a method directory reads every file that it reaches. -/
theorem methodItems_mem {file : DslFile} {place : String × Listing} (named : place.2.WellNamed)
    (inside : file ∈ place.2.filesBelow []) (processed : loader.isProcessableFile file.name = true)
    (scanned : ScannedAt place file dirs) (path project : String) :
    ∃ site, (loader.fileItem place.1 site dirs file.name file.content).map
      (fun item => (item.1.slot project place.1,item.2)) ∈ loader.methodItems path project place.1 place.2 := by
  have reached {here : String} {inner : Listing} (laid : methodEntries path place.1 place.2 = .ok (some (here,inner)))
      (member : (⟨dirs,file.name,file.content⟩ : DslFile) ∈ inner.filesBelow []) :
      ∃ site, (loader.fileItem place.1 site dirs file.name file.content).map
        (fun item => (item.1.slot project place.1,item.2)) ∈ loader.methodItems path project place.1 place.2 := by
    obtain ⟨site,listed⟩ := fileItem_mem member processed place.1 here
    refine ⟨site,?_⟩
    unfold methodItems
    rw [laid]
    exact List.mem_map_of_mem listed
  have whole {base : List String} (same : some base = some []) (within : file.dirs = base ++ dirs) :
      (⟨dirs,file.name,file.content⟩ : DslFile) ∈ place.2.filesBelow [] := by
    cases same
    rw [List.nil_append] at within
    rw [← within]
    exact inside
  obtain ⟨base,laid,within⟩ := scanned
  unfold scanBase at laid
  by_cases socket : place.1 = "WS"
  · rw [if_pos socket] at laid
    by_cases inbound : "inbound" ∈ place.2.names
    · rw [if_pos inbound] at laid
      cases laid
      obtain ⟨inner,held,member⟩ := mem_filesBelow_dir inside named.nodup within
      refine @reached (path ++ "/inbound") inner ?_ ?_
      · unfold methodEntries
        rw [if_pos socket,if_pos inbound,held]
      · rw [← List.append_nil ([] ++ ["inbound"]),filesBelow_append] at member
        obtain ⟨original,listed,rfl⟩ := List.mem_map.mp member
        rw [← List.append_cancel_left within]
        exact listed
    · rw [if_neg inbound] at laid
      by_cases outbound : "outbound" ∈ place.2.names
      · rw [if_pos outbound] at laid
        cases laid
      · rw [if_neg outbound] at laid
        refine @reached path _ ?_ (whole laid.symm within)
        unfold methodEntries
        rw [if_pos socket,if_neg inbound,if_neg outbound]
  · rw [if_neg socket] at laid
    refine @reached path _ ?_ (whole laid.symm within)
    unfold methodEntries
    rw [if_neg socket]

theorem subdirsItems_mem {place : String × Listing} : {entries : Listing} → entries.WellNamed →
    place ∈ entries.methodDirs → (path project : String) →
    ∀ item ∈ loader.methodItems (path ++ "/" ++ place.1) project place.1 place.2,
      item ∈ loader.subdirsItems path project entries
  | .nil, _, member, _, _ => by cases member
  | .file _ _ _, named, member, path, project => subdirsItems_mem named.2.2 member path project
  | .dir name inner rest, ⟨_,_,_,distinct⟩, member, path, project => by
    intro item held
    unfold subdirsItems
    rcases List.mem_append.mp member with here | later
    · split at here
      · cases here
      · rename_i free
        rw [List.mem_singleton] at here
        subst here
        refine List.mem_append_left _ ?_
        have other : name ≠ "triggers" := fun same => free (by simp [same,reservedSubdirs])
        unfold subdirItems
        rw [if_neg other,if_neg free]
        exact held
    · exact List.mem_append_right _ (subdirsItems_mem distinct later path project item held)

theorem items_mem {root entries : Listing} (held : root.dir? project = some entries) :
    ∀ item ∈ loader.subdirsItems (loader.configPath ++ "/" ++ project) project entries, item ∈ loader.items root := by
  induction root with
  | nil => cases held
  | file name content rest ih => exact ih held
  | dir other inner rest _ ih =>
    intro item member
    unfold items
    unfold dir? at held
    split at held
    · rename_i same
      subst same
      cases held
      exact List.mem_append_left _ (List.mem_append_right _ member)
    · exact List.mem_append_right _ (ih held item member)

/-- In an accepted tree every file that the scan reaches is read. -/
theorem fileItem_read {root entries : Listing} {file : DslFile} {place : String × Listing}
    (named : root.WellNamed) (accepted : loader.loadEverything root = .ok out)
    (held : root.dir? project = some entries) (inside : place ∈ entries.methodDirs)
    (below : file ∈ place.2.filesBelow []) (processed : loader.isProcessableFile file.name = true)
    (scanned : ScannedAt place file dirs) :
    ∃ site found dsl loaded, loader.fileItem place.1 site dirs file.name file.content = .ok (found,dsl) ∧
      AllOk (loader.items root) loaded ∧ (∀ slot, out.find slot = latest loaded slot) ∧
      (found.slot project place.1,dsl) ∈ loaded := by
  obtain ⟨loaded,given⟩ := (loadEverything_ok_iff named).mp ⟨out,accepted⟩
  obtain ⟨result,ok,_,finds,_⟩ := loadEverything_find named given
  cases accepted.symm.trans ok
  have namedProject := named.dir? held
  obtain ⟨_,_,_,namedPlace⟩ := mem_methodDirs namedProject inside
  obtain ⟨site,listed⟩ := methodItems_mem namedPlace below processed scanned
    (loader.configPath ++ "/" ++ project ++ "/" ++ place.1) project
  have member := items_mem held _ (subdirsItems_mem namedProject inside _ project _ listed)
  rw [given] at member
  obtain ⟨item,inLoaded,same⟩ := List.mem_map.mp member
  cases read : loader.fileItem place.1 site dirs file.name file.content with
  | error e =>
    rw [read] at same
    cases same
  | ok found =>
    obtain ⟨found,dsl⟩ := found
    rw [read] at same
    cases same
    exact ⟨site,found,dsl,loaded,read,given,finds,inLoaded⟩

/-- In an accepted tree whose files have different slots every file that the scan reaches is loaded. -/
theorem fileItem_loaded {root entries : Listing} {file : DslFile} {place : String × Listing}
    (named : root.WellNamed) (accepted : loader.loadEverything root = .ok out)
    (distinct : (loader.slots root).Nodup) (held : root.dir? project = some entries)
    (inside : place ∈ entries.methodDirs) (below : file ∈ place.2.filesBelow [])
    (processed : loader.isProcessableFile file.name = true) (scanned : ScannedAt place file dirs) :
    ∃ site found dsl, loader.fileItem place.1 site dirs file.name file.content = .ok (found,dsl) ∧
      out.find (found.slot project place.1) = some dsl := by
  obtain ⟨site,found,dsl,loaded,read,given,finds,inLoaded⟩ :=
    fileItem_read named accepted held inside below processed scanned
  refine ⟨site,found,dsl,read,?_⟩
  rw [finds]
  rw [slots_of_allOk given] at distinct
  exact (latest_of_nodup distinct).mpr inLoaded

end Accepted

section Coverage

theorem pieces_append (first second : List String) : pieces (first ++ second) = pieces first ++ pieces second :=
  List.flatMap_append

theorem pieces_prefix (below : first <+: second) : pieces first <+: pieces second := by
  obtain ⟨rest,rfl⟩ := below
  rw [pieces_append]
  exact List.prefix_append _ _

theorem pieces_singleton (clean : '\\' ∉ name.toList) : pieces [name] = [name] := by
  simp [pieces,Text.split_of_not_mem clean]

theorem pieces_clean (member : piece ∈ pieces parts) : '\\' ∉ piece.toList := by
  obtain ⟨part,_,inside⟩ := List.mem_flatMap.mp member
  exact Text.not_mem_of_mem_split inside

/-- What is added to the directories of a guard file. -/
def IsLast (name : String) (last : List String) : Prop :=
  isInFolderGuard name = true ∧ last = [] ∨ ∃ stem, IsSibling name stem ∧ last = [stem]

theorem namedAfter_iff {file : DslFile} : NamedAfter file target ↔
    ∃ last, IsLast file.name last ∧ target = file.dirs ++ last := by
  constructor
  · intro named
    cases named with
    | inFolder own => exact ⟨[],.inl ⟨own,rfl⟩,(List.append_nil _).symm⟩
    | @sibling stem own => exact ⟨[stem],.inr ⟨stem,own,rfl⟩,rfl⟩
  · rintro ⟨_,⟨own,rfl⟩ | ⟨stem,own,rfl⟩,rfl⟩
    · rw [List.append_nil]
      exact .inFolder own
    · exact .sibling own

theorem isLast_unique (first : IsLast name one) (second : IsLast name two) : one = two := by
  rcases first with ⟨own,rfl⟩ | ⟨stem,own,rfl⟩
  · rcases second with ⟨_,rfl⟩ | ⟨other,sibling,rfl⟩
    · rfl
    · cases own.symm.trans (isInFolderGuard_of_sibling sibling)
  · rcases second with ⟨folder,rfl⟩ | ⟨other,sibling,rfl⟩
    · cases folder.symm.trans (isInFolderGuard_of_sibling own)
    · cases (guardStem_of_sibling own).symm.trans (guardStem_of_sibling sibling)
      rfl

/-- The key of a guard, piece by piece, is what the guard is named after. -/
theorem split_key (cleanMethod : '/' ∉ method.toList) (clean : ∀ dir ∈ dirs, '/' ∉ dir.toList)
    (filled : ∀ dir ∈ dirs, dir ≠ "") (cleanName : '/' ∉ name.toList) (own : IsLast name last)
    (built : buildGuardKey dirs name method = .ok key) :
    Text.split key '/' = method :: (pieces dirs ++ last) := by
  rcases own with ⟨folder,rfl⟩ | ⟨stem,sibling,rfl⟩
  · rw [List.append_nil]
    exact split_buildGuardKey_inFolder cleanMethod clean filled folder built
  · exact split_buildGuardKey_sibling cleanMethod clean filled cleanName sibling built

theorem eq_projectGuardKey_iff : key = projectGuardKey ↔ Text.split key '/' = [projectGuardKey] := by
  constructor
  · rintro rfl
    exact Text.split_of_not_mem (by decide)
  · intro same
    rw [← Text.intercalate_split key '/',same]
    exact String.intercalate_singleton

theorem pieces_eq_nil (none : pieces parts = []) : parts = [] := by
  cases parts with
  | nil => rfl
  | cons part rest =>
    unfold pieces at none
    rw [List.flatMap_cons,List.append_eq_nil_iff] at none
    exact absurd none.1 (Text.split_ne_nil part '\\')

/-- The parts of a scanned file's place are names. -/
theorem scanned_names {entries : Listing} {file : DslFile} {place : String × Listing} (named : entries.WellNamed)
    (inside : place ∈ entries.methodDirs) (below : file ∈ place.2.filesBelow []) (scanned : ScannedAt place file dirs) :
    IsFileName place.1 ∧ (∀ dir ∈ dirs, IsFileName dir) ∧ IsFileName file.name := by
  obtain ⟨_,_,isName,namedPlace⟩ := mem_methodDirs named inside
  obtain ⟨parts,last⟩ := isFileName_of_mem namedPlace below (fun _ none => absurd none List.not_mem_nil)
  obtain ⟨base,_,within⟩ := scanned
  refine ⟨isName,?_,last⟩
  intro dir member
  exact parts dir (within ▸ List.mem_append_right _ member)

theorem split_guardKey {entries : Listing} {file : DslFile} {place : String × Listing} (named : entries.WellNamed)
    (guard : loader.GuardFile entries place file) (scanned : ScannedAt place file dirs) (own : IsLast file.name last)
    (built : buildGuardKey dirs file.name place.1 = .ok key) :
    Text.split key '/' = place.1 :: (pieces dirs ++ last) := by
  obtain ⟨method,parts,isName⟩ := scanned_names named guard.inside guard.below scanned
  exact split_key method.2.2.2 (fun dir member => (parts dir member).2.2.2) (fun dir member => (parts dir member).1)
    isName.2.2.2 own built

theorem split_routeKey {entries : Listing} {route : DslFile} {place : String × Listing} (named : entries.WellNamed)
    (given : loader.RouteFile entries place route) (scanned : ScannedAt place route dirs) :
    Text.split (buildDslKey dirs route.name place.1) '/' = place.1 :: pieces (dirs ++ [fileStem route.name]) := by
  obtain ⟨method,parts,isName⟩ := scanned_names named given.inside given.below scanned
  exact split_buildDslKey method.2.2.2 (fun dir member => (parts dir member).2.2.2) isName.2.2.2

/-- A guard lies at the project guard's key when it is the folder guard of a method of that name. -/
theorem isProjectKey_iff {entries : Listing} {file : DslFile} {place : String × Listing} (named : entries.WellNamed)
    (guard : loader.GuardFile entries place file) (scanned : ScannedAt place file dirs) (own : IsLast file.name last)
    (built : buildGuardKey dirs file.name place.1 = .ok key) :
    key = projectGuardKey ↔ place.1 = projectGuardKey ∧ last = [] ∧ file.dirs = [] := by
  rw [eq_projectGuardKey_iff,split_guardKey named guard scanned own built]
  simp only [List.cons.injEq,List.append_eq_nil_iff]
  obtain ⟨base,laid,within⟩ := scanned
  constructor
  · rintro ⟨star,none,bare⟩
    refine ⟨star,bare,?_⟩
    unfold scanBase at laid
    rw [if_neg (by rw [star]; decide)] at laid
    cases laid
    rw [within,pieces_eq_nil none]
    rfl
  · rintro ⟨star,bare,none⟩
    rw [none] at within
    rw [(List.append_eq_nil_iff.mp within.symm).2]
    exact ⟨star,rfl,bare⟩

/-- A key matches the routes of its method whose pieces begin as its own do. -/
theorem key_matches_iff {entries : Listing} {file route : DslFile} {place other : String × Listing}
    {out : LoadedProjects}
    (named : entries.WellNamed) (guard : loader.GuardFile entries place file)
    (scanned : ScannedAt place file dirs) (own : IsLast file.name last)
    (built : buildGuardKey dirs file.name place.1 = .ok key) (found : out.find (.guard project key) = some dsl)
    (given : loader.RouteFile entries other route) (reached : ScannedAt other route below) :
    key ∈ stackMatches out.guards project (buildDslKey below route.name other.1) ↔
      key = projectGuardKey ∨ place.1 = other.1 ∧ pieces file.dirs ++ last <+: pieces (routePath route) := by
  obtain ⟨projectGuards,held,inside⟩ := Option.bind_eq_some_iff.mp found
  have present : key ∈ projectGuards := by
    rw [← AList.lookup_isSome,inside]
    rfl
  rw [mem_stackMatches held present,split_guardKey named guard scanned own built,split_routeKey named given reached,
    List.cons_prefix_cons]
  refine or_congr Iff.rfl (and_congr_right ?_)
  intro same
  obtain rfl := methodDirs_unique named guard.inside given.inside same
  obtain ⟨base,laid,within⟩ := scanned
  obtain ⟨start,laidRoute,withinRoute⟩ := reached
  cases laid.symm.trans laidRoute
  unfold routePath
  rw [within,withinRoute,List.append_assoc,pieces_append base,pieces_append base,List.append_assoc,
    List.prefix_append_right_inj]

theorem liesAt_route_iff {entries : Listing} {file route : DslFile} {place other : String × Listing}
    (given : loader.RouteFile entries other route) :
    LiesAt (place.1 :: (file.dirs ++ last)) (other.1 :: route.dirs) route.name ↔
      place.1 = other.1 ∧ file.dirs ++ last <+: routePath route := by
  obtain ⟨ext,stemmed,clean⟩ := stemmed_of_route given.processed given.classified
  rw [liesAt_iff stemmed clean,List.cons_append,List.cons_prefix_cons]
  rfl

theorem wellPlaced_of_cover {entries : Listing} (named : entries.WellNamed)
    (cover : loader.GuardsCover out project entries) : loader.WellPlaced entries := by
  refine ⟨?_,?_,?_,?_,?_⟩
  · intro place file guard
    obtain ⟨_,_,_,after,_⟩ := cover place file guard
    cases after with
    | inFolder own => exact .inl own
    | @sibling stem own => exact .inr ⟨stem,own⟩
  · intro place file guard
    obtain ⟨_,_,⟨dirs,_,_,scanned,_⟩,_⟩ := cover place file guard
    exact ⟨dirs,scanned⟩
  · rintro place file target route guard after clean given ⟨below,reached⟩ leads
    obtain ⟨key,_,⟨dirs,_,_,scanned,built,_,_,found⟩,afterKey,covers⟩ := cover place file guard
    obtain ⟨last,own,rfl⟩ := namedAfter_iff.mp after
    obtain ⟨_,ownKey,rfl⟩ := namedAfter_iff.mp afterKey
    cases isLast_unique own ownKey
    have plain : pieces last = last := by
      rcases own with ⟨_,rfl⟩ | ⟨stem,sibling,rfl⟩
      · rfl
      · exact pieces_singleton (clean stem sibling)
    rw [pieces_append,plain] at leads
    have matched := (key_matches_iff named guard scanned own built found given reached).mpr (.inr ⟨rfl,leads⟩)
    exact ((liesAt_route_iff given).mp ((covers place route below given reached).mp matched)).2
  · rintro place file stem route guard sibling backslash given ⟨below,reached⟩ leads
    obtain ⟨key,_,⟨dirs,_,_,scanned,built,_,_,found⟩,afterKey,covers⟩ := cover place file guard
    obtain ⟨_,ownKey,rfl⟩ := namedAfter_iff.mp afterKey
    have own : IsLast file.name [stem] := .inr ⟨stem,sibling,rfl⟩
    cases isLast_unique own ownKey
    have matched := (covers place route below given reached).mpr ((liesAt_route_iff given).mpr ⟨rfl,leads⟩)
    rcases (key_matches_iff named guard scanned own built found given reached).mp matched with star | ⟨_,inside⟩
    · cases ((isProjectKey_iff named guard scanned own built).mp star).2.1
    · have member : stem ∈ pieces (routePath route) :=
        inside.subset (List.mem_append_right _ (List.mem_singleton_self _))
      exact pieces_clean member backslash
  · rintro place file guard star folder root other route given ⟨below,reached⟩
    obtain ⟨key,_,⟨dirs,_,_,scanned,built,_,_,found⟩,afterKey,covers⟩ := cover place file guard
    obtain ⟨_,ownKey,rfl⟩ := namedAfter_iff.mp afterKey
    have own : IsLast file.name [] := .inl ⟨folder,rfl⟩
    cases isLast_unique own ownKey
    have projectKey := (isProjectKey_iff named guard scanned own built).mpr ⟨star,rfl,root⟩
    have matched := (key_matches_iff named guard scanned own built found given reached).mpr (.inl projectKey)
    have lies := (liesAt_route_iff given).mp ((covers other route below given reached).mp matched)
    exact lies.1.symm.trans star

/-- The key of a well placed guard matches the routes that it is named after. -/
theorem matches_iff_lies {entries : Listing} {file route : DslFile} {place other : String × Listing}
    {out : LoadedProjects} (named : entries.WellNamed) (well : loader.WellPlaced entries)
    (guard : loader.GuardFile entries place file) (scanned : ScannedAt place file dirs)
    (own : IsLast file.name last) (built : buildGuardKey dirs file.name place.1 = .ok key)
    (found : out.find (.guard project key) = some dsl) (given : loader.RouteFile entries other route)
    (reached : ScannedAt other route below) :
    key ∈ stackMatches out.guards project (buildDslKey below route.name other.1) ↔
      LiesAt (place.1 :: (file.dirs ++ last)) (other.1 :: route.dirs) route.name := by
  have after : NamedAfter file (file.dirs ++ last) := namedAfter_iff.mpr ⟨last,own,rfl⟩
  rw [key_matches_iff named guard scanned own built found given reached,liesAt_route_iff given]
  constructor
  · rintro (projectKey | ⟨same,leads⟩)
    · obtain ⟨star,rfl,root⟩ := (isProjectKey_iff named guard scanned own built).mp projectKey
      have folder : isInFolderGuard file.name = true := by
        rcases own with ⟨folder,_⟩ | ⟨_,_,impossible⟩
        · exact folder
        · cases impossible
      have otherStar := well.star place file guard star folder root other route given ⟨below,reached⟩
      rw [root]
      exact ⟨star.trans otherStar.symm,List.nil_prefix⟩
    · refine ⟨same,?_⟩
      obtain rfl := methodDirs_unique named guard.inside given.inside same
      refine well.separators place file _ route guard after ?_ given ⟨below,reached⟩ ?_
      · intro stem sibling
        cases isLast_unique own (.inr ⟨stem,sibling,rfl⟩)
        exact pieces_clean (leads.subset (List.mem_append_right _ (List.mem_singleton_self _)))
      · rw [pieces_append]
        have plain : pieces last = last := by
          rcases own with ⟨_,rfl⟩ | ⟨stem,_,rfl⟩
          · rfl
          · exact pieces_singleton (pieces_clean (leads.subset (List.mem_append_right _ (List.mem_singleton_self _))))
        rw [plain]
        exact leads
  · rintro ⟨same,leads⟩
    obtain rfl := methodDirs_unique named guard.inside given.inside same
    refine .inr ⟨rfl,?_⟩
    have plain : pieces last = last := by
      rcases own with ⟨_,rfl⟩ | ⟨stem,sibling,rfl⟩
      · rfl
      · apply pieces_singleton
        intro backslash
        exact well.stems place file stem route guard sibling backslash given ⟨below,reached⟩ leads
    have separated := pieces_prefix leads
    rw [pieces_append,plain] at separated
    exact separated

theorem cover_of_wellPlaced {root entries : Listing} (named : root.WellNamed)
    (accepted : loader.loadEverything root = .ok out) (distinct : (loader.slots root).Nodup)
    (held : root.dir? project = some entries) (well : loader.WellPlaced entries) :
    loader.GuardsCover out project entries := by
  have namedProject := named.dir? held
  intro place file guard
  obtain ⟨last,own⟩ : ∃ last, IsLast file.name last := by
    rcases well.named place file guard with folder | ⟨stem,sibling⟩
    · exact ⟨[],.inl ⟨folder,rfl⟩⟩
    · exact ⟨[stem],.inr ⟨stem,sibling,rfl⟩⟩
  obtain ⟨dirs,scanned⟩ := well.scanned place file guard
  obtain ⟨site,loaded,dsl,read,found⟩ := fileItem_loaded named accepted distinct held guard.inside guard.below
    guard.processed scanned
  unfold fileItem at read
  rw [if_pos guard.classified] at read
  obtain ⟨key,built,rest⟩ := except_bind_inv read
  obtain ⟨parsed,ok,same⟩ := except_bind_inv rest
  cases same
  unfold parseFile at ok
  split at ok
  · cases ok
  · rename_i text content
    split at ok
    · cases ok
    · rename_i parsed
      cases ok
      refine ⟨key,_,⟨dirs,text,dsl,scanned,built,content,parsed,found⟩,namedAfter_iff.mpr ⟨last,own,rfl⟩,?_⟩
      intro other route below given reached
      exact matches_iff_lies namedProject well guard scanned own built found given reached

/-- The guards of a project cover what they are named after exactly when they are well placed. -/
theorem guardsCover_iff (loader : DslLoader) (tree : FileTree)
    (accepted : loader.loadEverything tree.listing = .ok out) (distinct : (loader.slots tree.listing).Nodup)
    (held : tree.listing.dir? project = some entries) :
    loader.GuardsCover out project entries ↔ loader.WellPlaced entries :=
  ⟨wellPlaced_of_cover (tree.named.dir? held),cover_of_wellPlaced tree.named accepted distinct held⟩

end Coverage

section Trees

/-- A sibling guard beside the directory that it protects. -/
def guardedGet : Listing :=
  .file "a.guard.yml" (.ok firstContent) (.dir "a" (.file "b.yml" (.ok secondContent) .nil) .nil)

theorem guarded_wellNamed : (Listing.dir "app" (.dir "GET" guardedGet .nil) .nil).WellNamed := by
  have dirs : IsFileName "app" ∧ IsFileName "GET" ∧ IsFileName "a" := by unfold IsFileName; decide +kernel
  have files : IsFileName "a.guard.yml" ∧ IsFileName "b.yml" := by unfold IsFileName; decide +kernel
  exact ⟨dirs.1,by simp [names],⟨dirs.2.1,by simp [names],
    ⟨files.1,by decide +kernel,dirs.2.2,by simp [names],⟨files.2,by simp [names],trivial⟩,trivial⟩,trivial⟩,trivial⟩

def guardedTree : FileTree := ⟨_,guarded_wellNamed⟩

theorem guardedTree_items : AllOk (spellingLoader.items guardedTree.listing)
    [(.guard "app" "GET/a",returningDsl "first"),(.route "app" "GET" "GET/a/b",returningDsl "second")] := by
  have guard (path : String) : spellingLoader.fileItem "GET" path [] "a.guard.yml" (.ok firstContent) =
      .ok (.guard "GET/a",returningDsl "first") := by
    unfold fileItem
    have key : buildGuardKey [] "a.guard.yml" "GET" = .ok "GET/a" := by rfl
    rw [if_pos (by decide +kernel),parseFile_first,key]
    rfl
  have route (path : String) : spellingLoader.fileItem "GET" path ["a"] "b.yml" (.ok secondContent) =
      .ok (.route "GET/a/b",returningDsl "second") := by
    unfold fileItem
    rw [if_neg (by decide +kernel),parseFile_second,show buildDslKey ["a"] "b.yml" "GET" = "GET/a/b" by decide +kernel]
    rfl
  have scanned (path : String) : spellingLoader.scanItems "GET" path [] guardedGet =
      [.ok (.guard "GET/a",returningDsl "first"),.ok (.route "GET/a/b",returningDsl "second")] := by
    have processed : spellingLoader.isProcessableFile "a.guard.yml" = true ∧
        spellingLoader.isProcessableFile "b.yml" = true := by decide +kernel
    simp only [guardedGet,scanItems,processed.1,processed.2,if_true,List.nil_append,guard,route,List.append_nil]
    rfl
  have method : spellingLoader.subdirItems "DSL/app" "app" "GET" guardedGet =
      (spellingLoader.scanItems "GET" "DSL/app/GET" [] guardedGet).map
        (·.map fun item => (item.1.slot "app" "GET",item.2)) := by
    rfl
  unfold AllOk guardedTree
  simp only [items,projectItems,subdirsItems,List.append_nil]
  rw [show spellingLoader.configPath ++ "/" ++ "app" = "DSL/app" from rfl,method,scanned]
  rfl

theorem guardedGet_wellPlaced : spellingLoader.WellPlaced (.dir "GET" guardedGet .nil) := by
  have places : methodDirs (.dir "GET" guardedGet .nil) = [("GET",guardedGet)] := by rfl
  have files : guardedGet.filesBelow [] = [⟨[],"a.guard.yml",.ok firstContent⟩,⟨["a"],"b.yml",.ok secondContent⟩] := by
    rfl
  have guards : isGuardFile "a.guard.yml" = true ∧ isGuardFile "b.yml" = false := by decide +kernel
  have sibling : IsSibling "a.guard.yml" "a" := ⟨by decide,"yml",by decide,rfl⟩
  have onlyGuard (place : String × Listing) (file : DslFile)
      (guard : spellingLoader.GuardFile (.dir "GET" guardedGet .nil) place file) :
      place = ("GET",guardedGet) ∧ file = ⟨[],"a.guard.yml",.ok firstContent⟩ := by
    obtain rfl := List.mem_singleton.mp (places ▸ guard.inside)
    have listed := guard.below
    rw [files] at listed
    rcases List.mem_cons.mp listed with rfl | listed
    · exact ⟨rfl,rfl⟩
    · obtain rfl := List.mem_singleton.mp listed
      cases guards.2.symm.trans guard.classified
  have onlyRoute (place : String × Listing) (file : DslFile)
      (route : spellingLoader.RouteFile (.dir "GET" guardedGet .nil) place file) :
      file = ⟨["a"],"b.yml",.ok secondContent⟩ := by
    obtain rfl := List.mem_singleton.mp (places ▸ route.inside)
    have listed := route.below
    rw [files] at listed
    rcases List.mem_cons.mp listed with rfl | listed
    · cases guards.1.symm.trans route.classified
    · exact List.mem_singleton.mp listed
  refine ⟨?_,?_,?_,?_,?_⟩
  · intro place file guard
    obtain ⟨_,rfl⟩ := onlyGuard place file guard
    exact .inr ⟨"a",sibling⟩
  · intro place file guard
    obtain ⟨rfl,rfl⟩ := onlyGuard place file guard
    exact ⟨[],[],rfl,rfl⟩
  · intro place file target route guard after _ given _ _
    obtain ⟨_,rfl⟩ := onlyGuard place file guard
    obtain rfl := onlyRoute place route given
    obtain ⟨last,own,rfl⟩ := namedAfter_iff.mp after
    cases isLast_unique own (.inr ⟨"a",sibling,rfl⟩)
    exact ⟨["b"],by decide +kernel⟩
  · intro place file stem route guard own backslash
    obtain ⟨_,rfl⟩ := onlyGuard place file guard
    cases (guardStem_of_sibling own).symm.trans (guardStem_of_sibling sibling)
    exact absurd backslash (by decide)
  · intro place file guard star
    obtain ⟨rfl,_⟩ := onlyGuard place file guard
    exact absurd star (by decide)

theorem guardedTree_covers : ∃ out, spellingLoader.loadEverything guardedTree.listing = .ok out ∧
    spellingLoader.GuardsCover out "app" (.dir "GET" guardedGet .nil) := by
  obtain ⟨out,accepted,_⟩ := loadEverything_find guardedTree.named guardedTree_items
  have distinct : (spellingLoader.slots guardedTree.listing).Nodup := by
    rw [slots_of_allOk guardedTree_items]
    simp
  exact ⟨out,accepted,(guardsCover_iff spellingLoader guardedTree accepted distinct rfl).mpr guardedGet_wellPlaced⟩

/-- A guard beside `inbound/`. -/
def socketEntries : Listing :=
  .file ".guard.yml" (.ok firstContent) (.dir "inbound" (.file "x.yml" (.ok secondContent) .nil) .nil)

theorem socket_wellNamed : (Listing.dir "app" (.dir "WS" socketEntries .nil) .nil).WellNamed := by
  have dirs : IsFileName "app" ∧ IsFileName "WS" ∧ IsFileName "inbound" := by unfold IsFileName; decide +kernel
  have files : IsFileName ".guard.yml" ∧ IsFileName "x.yml" := by unfold IsFileName; decide +kernel
  exact ⟨dirs.1,by simp [names],⟨dirs.2.1,by simp [names],
    ⟨files.1,by decide +kernel,dirs.2.2,by simp [names],⟨files.2,by simp [names],trivial⟩,trivial⟩,trivial⟩,trivial⟩

def socketTree : FileTree := ⟨_,socket_wellNamed⟩

theorem socketTree_items : AllOk (spellingLoader.items socketTree.listing)
    [(.route "app" "WS" "WS/x",returningDsl "second")] := by
  have route (path : String) : spellingLoader.fileItem "WS" path [] "x.yml" (.ok secondContent) =
      .ok (.route "WS/x",returningDsl "second") := by
    unfold fileItem
    rw [if_neg (by decide +kernel),parseFile_second,show buildDslKey [] "x.yml" "WS" = "WS/x" by decide +kernel]
    rfl
  have method : spellingLoader.subdirItems "DSL/app" "app" "WS" socketEntries =
      (spellingLoader.scanItems "WS" "DSL/app/WS/inbound" [] (.file "x.yml" (.ok secondContent) .nil)).map
        (·.map fun item => (item.1.slot "app" "WS",item.2)) := by
    rfl
  have processed : spellingLoader.isProcessableFile "x.yml" = true := by decide +kernel
  unfold AllOk socketTree
  simp only [items,projectItems,subdirsItems,List.append_nil]
  rw [show spellingLoader.configPath ++ "/" ++ "app" = "DSL/app" from rfl,method]
  simp only [scanItems,processed,if_true,route,List.append_nil]
  rfl

/-- The guard of a socket directory is not loaded: its route has no guard at all. -/
theorem socket_guard_lost : ∃ out, spellingLoader.loadEverything socketTree.listing = .ok out ∧
    (spellingLoader.slots socketTree.listing).Nodup ∧
    guardKeysForDsl "app" "WS/x" out.guards .stack = [] ∧
    ¬ spellingLoader.GuardsCover out "app" (.dir "WS" socketEntries .nil) := by
  obtain ⟨out,accepted,filled,finds,_⟩ := loadEverything_find socketTree.named socketTree_items
  refine ⟨out,accepted,?_,?_,?_⟩
  · rw [slots_of_allOk socketTree_items]
    simp
  · have none : out.guards.lookup "app" = .none := by
      cases held : out.guards.lookup "app" with
      | none => rfl
      | some bucket =>
        obtain ⟨key,dsl,inside⟩ := exists_lookup (filled.guards "app" bucket held)
        have found := finds (.guard "app" key)
        rw [latest_eq_none (by simp)] at found
        simp [LoadedProjects.find,held,inside] at found
    unfold guardKeysForDsl
    rw [none]
  · intro cover
    have guard : spellingLoader.GuardFile (.dir "WS" socketEntries .nil) ("WS",socketEntries)
        ⟨[],".guard.yml",.ok firstContent⟩ :=
      ⟨List.mem_singleton_self _,List.mem_cons_self,by decide +kernel,by decide +kernel⟩
    obtain ⟨_,_,⟨_,_,_,⟨base,laid,within⟩,_⟩,_⟩ := cover _ _ guard
    cases laid
    cases within

end Trees

end DslLoader
end Ruuter
