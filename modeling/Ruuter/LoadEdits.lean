import Ruuter.LoadOrder

/-! Changes of a directory tree at one path, and what a load makes of them. Only some paths hold
files that are read into the HTTP and guard trees; a change at another one goes unseen as long as
no directory comes or goes with it. -/
namespace Ruuter

/-- What a path of a directory tree can hold. -/
inductive Node
  | file (content : Except String String)
  | folder (entries : Listing)

namespace Node

def WellNamed : Node → Prop
  | .file _ => True
  | .folder entries => entries.WellNamed

/-- No directory. -/
def Plain : Option Node → Prop
  | some (.folder _) => False
  | _ => True

end Node

namespace Listing

/-- A directory with one more entry, if a name holds one. -/
def put (name : String) : Option Node → Listing → Listing
  | none, rest => rest
  | some (.file content), rest => .file name content rest
  | some (.folder entries), rest => .dir name entries rest

/-- Two directories that differ in what is at one path. -/
inductive Edit (old new : Option Node) : List String → Listing → Listing → Prop
  | here (name : String) (rest : Listing) : Edit old new [name] (put name old rest) (put name new rest)
  | inside (name : String) (rest : Listing) (edit : Edit old new path before after) :
    Edit old new (name :: path) (.dir name before rest) (.dir name after rest)
  | file (name : String) (content : Except String String) (edit : Edit old new path before after) :
    Edit old new path (.file name content before) (.file name content after)
  | dir (name : String) (entries : Listing) (edit : Edit old new path before after) :
    Edit old new path (.dir name entries before) (.dir name entries after)

end Listing

/-- The same for what the root of a tree holds. -/
inductive DiskEdit (old new : Option Node) : List String → Option Node → Option Node → Prop
  | root : DiskEdit old new [] old new
  | below (edit : Listing.Edit old new path before after) :
    DiskEdit old new path (some (.folder before)) (some (.folder after))

namespace Listing

section Edits

variable {old new : Option Node}

theorem dir?_put_plain (plain : Node.Plain node) (name : String) (rest : Listing) (wanted : String) :
    (put name node rest).dir? wanted = rest.dir? wanted := by
  rcases node with _ | content | entries
  · rfl
  · rfl
  · cases plain

/-- A change of no directory is seen in a subdirectory exactly when its path leads there. -/
theorem Edit.dir? (edit : Edit old new path before after) (plainOld : Node.Plain old)
    (plainNew : Node.Plain new) (wanted : String) :
    before.dir? wanted = after.dir? wanted ∨ ∃ rest inner changed, path = wanted :: rest ∧
      before.dir? wanted = some inner ∧ after.dir? wanted = some changed ∧ Edit old new rest inner changed := by
  induction edit with
  | here name rest => exact .inl (by rw [dir?_put_plain plainOld,dir?_put_plain plainNew])
  | @inside path inner changed name rest edit _ =>
    by_cases same : name = wanted
    · subst same
      exact .inr ⟨path,inner,changed,rfl,if_pos rfl,if_pos rfl,edit⟩
    · exact .inl (by simp only [Listing.dir?,same,if_false])
  | file name content _ ih => exact ih
  | dir name entries _ ih =>
    by_cases same : name = wanted
    · exact .inl (by simp only [Listing.dir?,same,if_true])
    · simpa only [Listing.dir?,same,if_false] using ih

/-- Both sides of a change are files. -/
def Rewrite (old new : Option Node) : Prop :=
  ∃ first second, old = some (.file first) ∧ new = some (.file second)

theorem Edit.mem_names (edit : Edit old new path before after) (wanted : String)
    (kept : path = [wanted] → Rewrite old new) : wanted ∈ before.names ↔ wanted ∈ after.names := by
  have named : ∀ (name : String) (node : Option Node) (rest : Listing), name ≠ wanted →
      (wanted ∈ (put name node rest).names ↔ wanted ∈ rest.names) := by
    intro name node rest apart
    rcases node with _ | content | entries <;> simp [put,names,Ne.symm apart]
  induction edit with
  | here name rest =>
    by_cases same : name = wanted
    · subst same
      obtain ⟨first,second,rfl,rfl⟩ := kept rfl
      rfl
    · rw [named name old rest same,named name new rest same]
  | inside name rest _ _ => rfl
  | file name content _ ih => simp only [names,List.mem_cons,ih kept]
  | dir name entries _ ih => simp only [names,List.mem_cons,ih kept]

theorem file?_put (plain : Node.Plain node) (apart : name ≠ wanted) (rest : Listing) :
    (put name node rest).file? wanted = rest.file? wanted := by
  rcases node with _ | content | entries
  · rfl
  · simp only [put,file?,apart,if_false]
  · cases plain

theorem Edit.file? (edit : Edit old new path before after) (plainOld : Node.Plain old)
    (plainNew : Node.Plain new) (wanted : String) : before.file? wanted = after.file? wanted ∨ path = [wanted] := by
  induction edit with
  | here name rest =>
    by_cases same : name = wanted
    · exact .inr (by rw [same])
    · exact .inl (by rw [file?_put plainOld same,file?_put plainNew same])
  | inside name rest _ _ => exact .inl rfl
  | file name content _ ih =>
    rcases ih with same | here
    · exact .inl (by simp only [Listing.file?,same])
    · exact .inr here
  | dir name entries _ ih => exact ih

/-- A rewritten file is read where its path says, unless another of its name comes first. -/
theorem Edit.file?_rewrite (edit : Edit old new path before after) (one : old = some (.file first))
    (two : new = some (.file second)) (wanted : String) :
    before.file? wanted = after.file? wanted ∨
      before.file? wanted = some first ∧ after.file? wanted = some second := by
  induction edit with
  | here name rest =>
    subst one two
    by_cases same : name = wanted
    · exact .inr ⟨if_pos same,if_pos same⟩
    · exact .inl (by simp only [put,Listing.file?,same,if_false])
  | inside name rest _ _ => exact .inl rfl
  | file name content _ ih =>
    by_cases same : name = wanted
    · exact .inl (by simp only [Listing.file?,same,if_true])
    · simpa only [Listing.file?,same,if_false] using ih
  | dir name entries _ ih => exact ih

end Edits

end Listing

/-- The paths from which the trigger, source and cron trees are read. `WS/outbound` itself is not
one of them: where it exists nothing else in `WS` is a route. -/
inductive NotReloaded : List String → Prop
  | reserved (project : String) (rest : List String) (own : dir ∈ reservedSubdirs) :
    NotReloaded (project :: dir :: rest)
  | outbound (project name : String) (rest : List String) :
    NotReloaded (project :: "WS" :: "outbound" :: name :: rest)

theorem notReloaded_iff : NotReloaded path ↔
    (∃ project dir rest, path = project :: dir :: rest ∧ dir ∈ reservedSubdirs) ∨
      ∃ project name rest, path = project :: "WS" :: "outbound" :: name :: rest := by
  constructor
  · intro apart
    cases apart with
    | reserved project rest own => exact .inl ⟨project,_,rest,rfl,own⟩
    | outbound project name rest => exact .inr ⟨project,name,rest,rfl⟩
  · rintro (⟨project,dir,rest,rfl,own⟩ | ⟨project,name,rest,rfl⟩)
    · exact .reserved project rest own
    · exact .outbound project name rest

theorem NotReloaded.of_append (apart : NotReloaded (path ++ [last])) (other : last ∉ reservedSubdirs) :
    NotReloaded path ∨ ∃ project, path = [project,"WS","outbound"] := by
  rcases notReloaded_iff.mp apart with ⟨project,dir,rest,same,own⟩ | ⟨project,name,rest,same⟩
  · match path with
    | [] => cases same
    | [_] =>
      cases same
      exact absurd own other
    | first :: second :: path =>
      cases same
      exact .inl (.reserved project path own)
  · match path with
    | [] | [_] | [_,_] => simp at same
    | [first,second,third] =>
      simp only [List.cons_append,List.cons.injEq] at same
      obtain ⟨rfl,rfl,rfl,_⟩ := same
      exact .inr ⟨first,rfl⟩
    | first :: second :: third :: fourth :: path =>
      simp only [List.cons_append,List.cons.injEq] at same
      obtain ⟨rfl,rfl,rfl,_⟩ := same
      exact .inl (.outbound first fourth path)

/-- The entries of `WS` whose presence decides how it is laid out. -/
inductive LayoutPath : List String → Prop
  | inbound (project : String) : LayoutPath [project,"WS","inbound"]
  | outbound (project : String) : LayoutPath [project,"WS","outbound"]

namespace DslLoader

open Listing Eff

variable (loader : DslLoader)

/-- The paths of the files that are read into the HTTP and guard trees. -/
inductive ReadsAt : List String → Prop
  | projectGuard (project : String) (own : name ∈ projectGuardNames) : ReadsAt [project,name]
  | method (project : String) (dirs : List String) (kept : method ∉ reservedSubdirs)
      (processed : loader.isProcessableFile name = true) : ReadsAt (project :: method :: (dirs ++ [name]))

/-- A file that no load gets past. -/
def Refused (content : Except String String) : Prop := ∀ path, ∃ e, loader.parseFile path content = .error e

def RefusedBoth (old new : Option Node) : Prop :=
  ∃ first second, old = some (.file first) ∧ new = some (.file second) ∧
    loader.Refused first ∧ loader.Refused second

/-- A change that a load does not show. -/
structure Unseen (path : List String) (old new : Option Node) : Prop where
  plainOld : Node.Plain old
  plainNew : Node.Plain new
  reloaded : ¬ NotReloaded path
  unread : loader.ReadsAt path → loader.RefusedBoth old new
  layout : LayoutPath path → Rewrite old new

/-- What a load of the root of a tree returns, unless it fails. -/
def loaded : Option Node → Option LoadedProjects
  | some (.folder entries) => (loader.loadEverything entries).toOption
  | _ => none

variable {loader : DslLoader}

section Scan

theorem scanFile_refused (refused : loader.Refused content)
    (processed : loader.isProcessableFile name = true) (method path : String) (dirs : List String)
    (load : MethodLoad) : (loader.scanFile method path dirs name content load).toOption = none := by
  obtain ⟨e,failed⟩ := refused (path ++ "/" ++ name)
  unfold scanFile
  rw [if_pos processed,failed]
  split
  · cases buildGuardKey dirs name method <;> rfl
  · rfl

/-- A change of a file that is not read. -/
theorem scanDirectory_put (plain : Node.Plain node) (other : loader.isProcessableFile name = false)
    (method path : String) (dirs : List String) (rest : Listing) (load : MethodLoad) :
    loader.scanDirectory method path dirs (put name node rest) load =
      loader.scanDirectory method path dirs rest load := by
  rcases node with _ | content | entries
  · rfl
  · simp only [put,scanDirectory,scanFile,other,Bool.false_eq_true,if_false]
    rfl
  · cases plain

theorem scanDirectory_refused (refused : loader.Refused content) (processed : loader.isProcessableFile name = true)
    (method path : String) (dirs : List String) (rest : Listing) (load : MethodLoad) :
    (loader.scanDirectory method path dirs (put name (some (.file content)) rest) load).toOption = none := by
  simp only [put,scanDirectory,except_bind_toOption,scanFile_refused refused processed,Option.bind_none]

theorem scanDirectory_edit {old new : Option Node} (edit : Edit old new below before after)
    (plainOld : Node.Plain old) (plainNew : Node.Plain new)
    (unread : ∀ front name, below = front ++ [name] → loader.isProcessableFile name = true →
      loader.RefusedBoth old new) (method path : String) (dirs : List String) (load : MethodLoad) :
    (loader.scanDirectory method path dirs before load).toOption =
      (loader.scanDirectory method path dirs after load).toOption := by
  induction edit generalizing path dirs load with
  | here name rest =>
    cases processed : loader.isProcessableFile name with
    | false => rw [scanDirectory_put plainOld processed,scanDirectory_put plainNew processed]
    | true =>
      obtain ⟨first,second,rfl,rfl,one,two⟩ := unread [] name rfl processed
      rw [scanDirectory_refused one processed,scanDirectory_refused two processed]
  | inside name rest _ ih =>
    have within := ih fun front last same => unread (name :: front) last (by rw [same]; rfl)
    simp only [scanDirectory,except_bind_toOption,within]
  | file name content _ ih =>
    simp only [scanDirectory,except_bind_toOption,ih unread]
  | dir name entries _ ih =>
    simp only [scanDirectory,except_bind_toOption,ih unread]

end Scan

section Unseen

variable {old new : Option Node}

theorem toOption_ok (a : α) : (Except.ok a : Except ε α).toOption = some a := rfl

theorem ne_triggers (kept : method ∉ reservedSubdirs) : method ≠ "triggers" := by
  rintro rfl
  exact kept (by decide)

/-- The layout of a method directory stays, and a change reaches what is scanned or nothing. -/
theorem methodEntries_edit (edit : Edit old new below before after) (plainOld : Node.Plain old)
    (plainNew : Node.Plain new)
    (layout : method = "WS" → below = ["inbound"] ∨ below = ["outbound"] → Rewrite old new) (path : String) :
    methodEntries path method before = methodEntries path method after ∨
      ∃ here front inner changed rest, below = front ++ rest ∧
        methodEntries path method before = .ok (some (here,inner)) ∧
        methodEntries path method after = .ok (some (here,changed)) ∧ Edit old new rest inner changed := by
  unfold methodEntries
  by_cases socket : method = "WS"
  · have inbound := edit.mem_names "inbound" fun here => layout socket (.inl here)
    have outbound := edit.mem_names "outbound" fun here => layout socket (.inr here)
    simp only [if_pos socket,inbound,outbound]
    split
    · rcases edit.dir? plainOld plainNew "inbound" with same | ⟨rest,inner,changed,rfl,one,two,within⟩
      · exact .inl (by rw [same])
      · rw [one,two]
        exact .inr ⟨path ++ "/inbound",["inbound"],inner,changed,rest,rfl,rfl,rfl,within⟩
    · split
      · exact .inl rfl
      · exact .inr ⟨path,[],before,after,below,rfl,rfl,rfl,edit⟩
  · simp only [if_neg socket]
    exact .inr ⟨path,[],before,after,below,rfl,rfl,rfl,edit⟩

theorem loadSubdir_edit (edit : Edit old new below before after)
    (unseen : loader.Unseen (project :: method :: below) old new) (path owner : String) (load : ProjectLoad) :
    (loader.loadSubdir path owner method before load).toOption =
      (loader.loadSubdir path owner method after load).toOption := by
  have kept : method ∉ reservedSubdirs := fun own => unseen.reloaded (.reserved project below own)
  have other := ne_triggers kept
  have layout : method = "WS" → below = ["inbound"] ∨ below = ["outbound"] → Rewrite old new := by
    rintro rfl (rfl | rfl)
    · exact unseen.layout (.inbound project)
    · exact unseen.layout (.outbound project)
  simp only [loadSubdir,if_neg other,if_neg kept,except_bind_toOption]
  rcases methodEntries_edit edit unseen.plainOld unseen.plainNew layout (path ++ "/" ++ method) with
    same | ⟨here,front,inner,changed,rest,rfl,one,two,within⟩
  · rw [same]
  · have scanned : (loader.loadMethodDsls here inner method).toOption =
        (loader.loadMethodDsls here changed method).toOption := by
      apply scanDirectory_edit within unseen.plainOld unseen.plainNew
      rintro dirs name rfl processed
      have reads : loader.ReadsAt (project :: method :: (front ++ dirs ++ [name])) :=
        .method project (front ++ dirs) kept processed
      rw [List.append_assoc] at reads
      exact unseen.unread reads
    rw [one,two,toOption_ok,toOption_ok]
    simp only [Option.bind_some,except_bind_toOption,scanned]

/-- The candidates of a guard are the same, or one of them makes both loads fail. -/
theorem loadProjectGuard_refused (own : name ∈ projectGuardNames) (held : entries.file? name = some content)
    (refused : loader.Refused content) (path project : String) :
    (loader.loadProjectGuard path project entries).toOption = none := by
  have candidate : (name,content) ∈ projectGuardNames.filterMap fun name => (entries.file? name).map (name,·) :=
    List.mem_filterMap.mpr ⟨name,own,by rw [held]; rfl⟩
  unfold loadProjectGuard
  split
  · rename_i none
    rw [none] at candidate
    cases candidate
  · rename_i other found only
    rw [only] at candidate
    cases List.mem_singleton.mp candidate
    obtain ⟨e,failed⟩ := refused (path ++ "/" ++ name)
    rw [failed]
    rfl
  · rfl

theorem loadProjectGuard_edit (edit : Edit old new below before after)
    (unseen : loader.Unseen (project :: below) old new) (path owner : String) :
    (loader.loadProjectGuard path owner before).toOption = (loader.loadProjectGuard path owner after).toOption := by
  by_cases same : ∀ name ∈ projectGuardNames, before.file? name = after.file? name
  · have candidates := List.filterMap_congr fun name own =>
      congrArg (Option.map fun content => (name,content)) (same name own)
    unfold loadProjectGuard
    rw [candidates]
  · simp only [not_forall] at same
    obtain ⟨name,own,changed⟩ := same
    obtain rfl := (edit.file? unseen.plainOld unseen.plainNew name).resolve_left changed
    obtain ⟨first,second,one,two,refused,refusedToo⟩ := unseen.unread (.projectGuard project own)
    obtain ⟨heldBefore,heldAfter⟩ := (edit.file?_rewrite one two name).resolve_left changed
    rw [loadProjectGuard_refused own heldBefore refused,loadProjectGuard_refused own heldAfter refusedToo]

theorem loadSubdirs_put (plain : Node.Plain node) (path project name : String) (rest : Listing)
    (load : ProjectLoad) : loader.loadSubdirs path project (put name node rest) load =
      loader.loadSubdirs path project rest load := by
  rcases node with _ | content | entries
  · rfl
  · rfl
  · cases plain

theorem loadSubdirs_edit (edit : Edit old new below before after)
    (unseen : loader.Unseen (project :: below) old new) (path owner : String) (load : ProjectLoad) :
    (loader.loadSubdirs path owner before load).toOption = (loader.loadSubdirs path owner after load).toOption := by
  induction edit generalizing load with
  | here name rest => rw [loadSubdirs_put unseen.plainOld,loadSubdirs_put unseen.plainNew]
  | inside name rest edit _ =>
    simp only [loadSubdirs,except_bind_toOption,loadSubdir_edit edit unseen path owner load]
  | file name content _ ih => exact ih unseen load
  | dir name entries _ ih =>
    simp only [loadSubdirs,except_bind_toOption,ih unseen]

theorem loadProject_edit (edit : Edit old new below before after)
    (unseen : loader.Unseen (project :: below) old new) (path owner : String) :
    (loader.loadProject path owner before).toOption = (loader.loadProject path owner after).toOption := by
  simp only [loadProject,except_bind_toOption,loadProjectGuard_edit edit unseen,loadSubdirs_edit edit unseen]

theorem loadProjects_put (plain : Node.Plain node) (name : String) (rest : Listing) (out : LoadedProjects) :
    loader.loadProjects (put name node rest) out = loader.loadProjects rest out := by
  rcases node with _ | content | entries
  · rfl
  · rfl
  · cases plain

theorem loadProjects_edit (edit : Edit old new below before after) (unseen : loader.Unseen below old new)
    (out : LoadedProjects) : (loader.loadProjects before out).toOption = (loader.loadProjects after out).toOption := by
  induction edit generalizing out with
  | here name rest => rw [loadProjects_put unseen.plainOld,loadProjects_put unseen.plainNew]
  | inside name rest edit _ =>
    simp only [loadProjects,except_bind_toOption,loadProject_edit edit unseen]
  | file name content _ ih => exact ih unseen out
  | dir name entries _ ih =>
    simp only [loadProjects,except_bind_toOption,ih unseen]

/-- A load does not show an unseen change. -/
theorem loaded_edit (edit : DiskEdit old new path before after) (unseen : loader.Unseen path old new) :
    loader.loaded before = loader.loaded after := by
  cases edit with
  | below edit => exact loadProjects_edit edit unseen {}
  | root =>
    have failing : ∀ {node}, Node.Plain node → loader.loaded node = none := by
      intro node plain
      rcases node with _ | content | entries
      · rfl
      · rfl
      · cases plain
    rw [failing unseen.plainOld,failing unseen.plainNew]

end Unseen

end DslLoader

namespace Listing

theorem Edit.symm {old new : Option Node} (edit : Edit old new path before after) : Edit new old path after before := by
  induction edit with
  | here name rest => exact .here name rest
  | inside name rest _ ih => exact .inside name rest ih
  | file name content _ ih => exact .file name content ih
  | dir name entries _ ih => exact .dir name entries ih

/-- The directories on the way to a name, with nothing else in them. -/
def chain : List String → String → Option Node → Listing
  | [], name, node => put name node .nil
  | parent :: dirs, name, node => .dir parent (chain dirs name node) .nil

theorem edit_chain (old new : Option Node) (name : String) : (dirs : List String) →
    Edit old new (dirs ++ [name]) (chain dirs name old) (chain dirs name new)
  | [] => .here name .nil
  | parent :: dirs => .inside parent .nil (edit_chain old new name dirs)

theorem chain_concat (dirs : List String) (parent name : String) (node : Option Node) :
    chain (dirs ++ [parent]) name node = chain dirs parent (some (.folder (chain [] name node))) := by
  induction dirs with
  | nil => rfl
  | cons first dirs ih => exact congrArg (Listing.dir first · .nil) ih

theorem isFileName_guard : IsFileName ".guard" := by
  unfold IsFileName
  decide +kernel

/-- What is held, if anything, has file names. -/
def Named (node : Option Node) : Prop := ∀ held, node = some held → held.WellNamed

theorem named_file (content : Except String String) : Named (some (.file content)) := by
  rintro _ ⟨⟩
  trivial

theorem named_none : Named none := fun _ impossible => by cases impossible

theorem named_some (named : entries.WellNamed) : Named (some (.folder entries)) := by
  rintro _ ⟨⟩
  exact named

theorem wellNamed_put (isName : IsFileName name) (named : Named node) : (put name node .nil).WellNamed := by
  rcases node with _ | content | entries
  · trivial
  · exact ⟨isName,List.not_mem_nil,trivial⟩
  · exact ⟨isName,List.not_mem_nil,named _ rfl,trivial⟩

theorem wellNamed_chain (isName : ∀ part ∈ dirs ++ [name], IsFileName part) (named : Named node) :
    (chain dirs name node).WellNamed := by
  induction dirs with
  | nil => exact wellNamed_put (isName name List.mem_cons_self) named
  | cons parent dirs ih =>
    have within := ih fun part member => isName part (List.mem_cons_of_mem _ member)
    exact ⟨isName parent List.mem_cons_self,List.not_mem_nil,within,trivial⟩

end Listing

namespace DslLoader

open Listing Eff

section Shown

theorem buildGuardKey_guard (own : isGuardFile name = true) (dirs : List String) (method : String) :
    ∃ key, buildGuardKey dirs name method = .ok key := by
  cases folder : isInFolderGuard name with
  | true => exact ⟨_,if_pos folder⟩
  | false =>
    unfold isGuardFile at own
    rw [folder,Bool.false_or,Text.contains_iff] at own
    obtain ⟨front,back,same⟩ := own
    have cut : Text.split name '.' = Text.split (String.ofList front) '.' ++ (["guard"] ++
        Text.split (String.ofList back) '.') := by
      have joined : name = String.ofList front ++ "." ++ ("guard" ++ "." ++ String.ofList back) := by
        apply String.toList_injective
        rw [← same]
        simp
      rw [joined]
      refine (Text.split_append _ _ '.').trans (congrArg _ ?_)
      refine (Text.split_append _ _ '.').trans (congrArg (· ++ _) ?_)
      exact Text.split_of_not_mem (by decide)
    have long : 3 ≤ (Text.split name '.').reverse.length := by
      have first := List.length_pos_iff.mpr (Text.split_ne_nil (String.ofList front) '.')
      have last := List.length_pos_iff.mpr (Text.split_ne_nil (String.ofList back) '.')
      rw [List.length_reverse,cut]
      simp only [List.length_append,List.length_singleton]
      omega
    unfold buildGuardKey guardStem
    rw [folder]
    split
    · rename_i impossible
      cases impossible
    · split
      · rename_i none
        split at none
        · cases none
        · rename_i short
          match parts : (Text.split name '.').reverse with
          | [] | [_] | [_,_] => simp [parts] at long
          | last :: ext :: first :: rest => exact absurd parts (short last ext first rest)
      · exact ⟨_,rfl⟩

variable {loader : DslLoader}

theorem scanItems_chain_none (name method : String) (below : List String) (path : String) (dirs : List String) :
    loader.scanItems method path dirs (chain below name none) = [] := by
  induction below generalizing path dirs with
  | nil => rfl
  | cons dir below ih =>
    simp only [chain,scanItems,ih,List.append_nil]

theorem scanItems_chain (processed : loader.isProcessableFile name = true) (method : String)
    (below : List String) (path : String) (dirs : List String) : ∃ here front, ∀ content,
      loader.scanItems method path dirs (chain below name (some (.file content))) =
        [loader.fileItem method here front name content] := by
  induction below generalizing path dirs with
  | nil =>
    refine ⟨path,dirs,fun content => ?_⟩
    simp only [chain,put,scanItems,processed,if_true,List.append_nil]
  | cons dir below ih =>
    obtain ⟨here,front,read⟩ := ih (path ++ "/" ++ dir) (dirs ++ [dir])
    refine ⟨here,front,fun content => ?_⟩
    simp only [chain,scanItems,List.append_nil]
    exact read content

theorem fileItem_map (loader : DslLoader) (method path : String) (dirs : List String) (name : String) :
    ∃ found, ∀ content, loader.fileItem method path dirs name content =
      (loader.parseFile (path ++ "/" ++ name) content).map fun dsl => (found,dsl) := by
  unfold fileItem
  cases own : isGuardFile name with
  | true =>
    obtain ⟨key,built⟩ := buildGuardKey_guard own dirs method
    refine ⟨.guard key,fun content => ?_⟩
    rw [built]
    cases loader.parseFile (path ++ "/" ++ name) content <;> rfl
  | false =>
    refine ⟨.route (buildDslKey dirs name method),fun content => ?_⟩
    cases loader.parseFile (path ++ "/" ++ name) content <;> rfl

/-- A file that is reloaded is not below `WS/outbound`. -/
theorem not_outbound (reloaded : ¬ NotReloaded (project :: method :: (dirs ++ [name]))) :
    method = "WS" → ∀ rest, dirs ≠ "outbound" :: rest := by
  rintro rfl rest rfl
  cases rest with
  | nil => exact reloaded (.outbound project name [])
  | cons next rest => exact reloaded (.outbound project next (rest ++ [name]))

/-- The directories on the way to what is scanned. Only an entry of the layout stops the scan. -/
theorem methodEntries_chain (dirs : List String) (name path : String)
    (inbound : method = "WS" → ∀ rest, dirs ≠ "outbound" :: rest) : ∃ here below, ∀ node,
      (method = "WS" → dirs = [] → name = "inbound" ∨ name = "outbound" → node = none) →
        methodEntries path method (chain dirs name node) = .ok (some (here,chain below name node)) := by
  unfold methodEntries
  by_cases socket : method = "WS"
  · simp only [if_pos socket]
    cases dirs with
    | nil =>
      refine ⟨path,[],fun node layout => ?_⟩
      have others : "inbound" ∉ (chain [] name node).names ∧ "outbound" ∉ (chain [] name node).names := by
        rcases node with _ | content | entries
        · simp [chain,put,names]
        all_goals
          have apart := mt (layout socket rfl) (by simp)
          rw [not_or] at apart
          simp [chain,put,names,Ne.symm apart.1,Ne.symm apart.2]
      rw [if_neg others.1,if_neg others.2]
    | cons parent dirs =>
      by_cases new : parent = "inbound"
      · subst new
        refine ⟨path ++ "/inbound",dirs,fun node _ => ?_⟩
        simp [chain,names,dir?]
      · refine ⟨path,parent :: dirs,fun node _ => ?_⟩
        have old : parent ≠ "outbound" := fun same => inbound socket dirs (by rw [same])
        simp [chain,names,Ne.symm new,Ne.symm old]
  · simp only [if_neg socket]
    exact ⟨path,dirs,fun _ _ => rfl⟩

theorem items_method (kept : method ∉ reservedSubdirs) (project : String) (entries : Listing) :
    loader.items (.dir project (.dir method entries .nil) .nil) =
      loader.methodItems (loader.configPath ++ "/" ++ project ++ "/" ++ method) project method entries := by
  have other := ne_triggers kept
  have unguarded (path : String) : loader.projectGuardItems path project (.dir method entries .nil) = [] := rfl
  simp only [items,projectItems,unguarded,subdirsItems,subdirItems,if_neg other,if_neg kept,List.append_nil,
    List.nil_append]

/-- A path on which there are only directories has no file to read. -/
theorem items_chain_none (reloaded : ¬ NotReloaded (dirs ++ [name])) : loader.items (chain dirs name none) = [] := by
  match dirs with
  | [] | [_] => rfl
  | project :: method :: dirs =>
    have kept : method ∉ reservedSubdirs := fun own => reloaded (.reserved project _ own)
    obtain ⟨here,below,found⟩ := methodEntries_chain dirs name
      (loader.configPath ++ "/" ++ project ++ "/" ++ method) (not_outbound reloaded)
    simp only [chain,items_method kept,methodItems,found none fun _ _ _ => rfl,scanItems_chain_none,List.map_nil]

theorem not_processable_layout (layout : name = "inbound" ∨ name = "outbound") :
    loader.isProcessableFile name = false := by
  have plain : isInFolderGuard name = false ∧ extension name = none := by
    rcases layout with rfl | rfl <;> decide +kernel
  unfold isProcessableFile
  rw [plain.1,plain.2]
  rfl

theorem items_projectGuard (own : name ∈ projectGuardNames) (project : String) (content : Except String String) :
    loader.items (.dir project (.file name content .nil) .nil) =
      [(loader.parseFile (loader.configPath ++ "/" ++ project ++ "/" ++ name) content).map
        fun dsl => (.guard project projectGuardKey,dsl)] := by
  have candidates : (projectGuardNames.filterMap fun other =>
      ((Listing.file name content .nil).file? other).map (other,·)) = [(name,content)] := by
    simp only [projectGuardNames,List.mem_cons,List.not_mem_nil,or_false] at own
    rcases own with rfl | rfl | rfl <;> simp [projectGuardNames,file?]
  simp only [items,projectItems,subdirsItems,projectGuardItems,loadProjectGuard,candidates,List.append_nil]
  cases loader.parseFile (loader.configPath ++ "/" ++ project ++ "/" ++ name) content <;> rfl

/-- A file that is read is the only one on its path. -/
theorem items_chain (reads : loader.ReadsAt path) (reloaded : ¬ NotReloaded path) :
    ∃ dirs name, path = dirs ++ [name] ∧ ∃ here slot, ∀ content,
      loader.items (chain dirs name (some (.file content))) =
        [(loader.parseFile here content).map fun dsl => (slot,dsl)] := by
  cases reads with
  | @projectGuard name project own => exact ⟨[project],name,rfl,_,_,items_projectGuard own project⟩
  | @method method name project dirs kept processed =>
    have layout : ¬ (name = "inbound" ∨ name = "outbound") := by
      intro layout
      cases processed.symm.trans (not_processable_layout layout)
    obtain ⟨base,below,found⟩ := methodEntries_chain dirs name
      (loader.configPath ++ "/" ++ project ++ "/" ++ method) (not_outbound reloaded)
    obtain ⟨here,front,scanned⟩ := scanItems_chain processed method below base []
    obtain ⟨key,read⟩ := fileItem_map loader method here front name
    refine ⟨project :: method :: dirs,name,rfl,here ++ "/" ++ name,key.slot project method,fun content => ?_⟩
    simp only [chain,items_method kept,methodItems,found _ fun _ _ clash => absurd clash layout,scanned,read,
      List.map_cons,List.map_nil,List.cons.injEq,and_true]
    cases loader.parseFile (here ++ "/" ++ name) content <;> rfl

/-- A change that some tree shows: a load fails before it or after it. -/
def Shown (loader : DslLoader) (path : List String) (old new : Option Node) : Prop :=
  ∃ before after, DiskEdit old new path before after ∧ Named before ∧ Named after ∧
    (loader.loaded before).isSome ≠ (loader.loaded after).isSome

theorem Shown.symm {old new : Option Node} : loader.Shown path old new → loader.Shown path new old := by
  rintro ⟨before,after,edit,named,namedAfter,differ⟩
  refine ⟨after,before,?_,namedAfter,named,Ne.symm differ⟩
  cases edit with
  | root => exact .root
  | below edit => exact .below edit.symm

theorem loaded_isSome (named : root.WellNamed) :
    (loader.loaded (some (.folder root))).isSome = true ↔ ∀ e, .error e ∉ loader.items root := by
  have failing : (∃ e, loader.loadEverything root = .error e) ↔ _ := loadEverything_error_iff named
  rw [← not_exists,← failing]
  cases outcome : loader.loadEverything root <;> simp [loaded,outcome,Except.toOption]

/-- A change of what is read first: one side fails, and nothing else does. -/
theorem shown_of_items {old new : Option Node} (edit : Edit old new path before after) (named : before.WellNamed)
    (namedAfter : after.WellNamed) (fine : ∀ e, .error e ∉ loader.items before)
    (failing : ∃ e, .error e ∈ loader.items after) : loader.Shown path old new := by
  obtain ⟨e,member⟩ := failing
  have one := (loaded_isSome named).mpr fine
  have two := mt (loaded_isSome namedAfter).mp fun none => none e member
  exact ⟨_,_,.below edit,named_some named,named_some namedAfter,fun same => two (same.symm.trans one)⟩

def unreadable : Except String String := .error "stream did not contain valid UTF-8"

theorem file_shown (reads : loader.ReadsAt path) (reloaded : ¬ NotReloaded path)
    (isName : ∀ part ∈ path, IsFileName part) : loader.Shown path none (some (.file unreadable)) := by
  obtain ⟨dirs,name,rfl,here,slot,read⟩ := items_chain reads reloaded
  apply shown_of_items (edit_chain _ _ _ _) (wellNamed_chain isName named_none)
    (wellNamed_chain isName (named_file unreadable))
  · intro e member
    rw [items_chain_none reloaded] at member
    cases member
  · rw [read]
    exact ⟨_,List.mem_singleton.mpr rfl⟩

theorem rewrite_shown (reads : loader.ReadsAt path) (reloaded : ¬ NotReloaded path)
    (isName : ∀ part ∈ path, IsFileName part) (accepted : loader.parser.parseContent text = .ok dsl) :
    loader.Shown path (some (.file (.ok text))) (some (.file unreadable)) := by
  obtain ⟨dirs,name,rfl,here,slot,read⟩ := items_chain reads reloaded
  apply shown_of_items (edit_chain _ _ _ _) (wellNamed_chain isName (named_file (.ok text)))
    (wellNamed_chain isName (named_file unreadable))
  · intro e member
    have parsed : loader.parseFile here (.ok text) = .ok dsl := by
      simp only [parseFile,accepted]
    rw [read,parsed] at member
    cases List.mem_singleton.mp member
  · rw [read]
    exact ⟨_,List.mem_singleton.mpr rfl⟩

/-- A file in the place of `WS/inbound` cannot be listed. -/
theorem inbound_shown (isName : ∀ part ∈ [project,"WS","inbound"], IsFileName part) :
    loader.Shown [project,"WS","inbound"] none (some (.file unreadable)) := by
  apply shown_of_items (edit_chain _ _ "inbound" [project,"WS"]) (wellNamed_chain isName named_none)
    (wellNamed_chain isName (named_file unreadable))
  · intro e member
    cases member
  · exact ⟨_,List.mem_singleton.mpr rfl⟩

theorem items_chain_concat (reads : loader.ReadsAt (dirs ++ [name])) (reloaded : ¬ NotReloaded (dirs ++ [name])) :
    ∃ here slot, ∀ content, loader.items (chain dirs name (some (.file content))) =
      [(loader.parseFile here content).map fun dsl => (slot,dsl)] := by
  obtain ⟨front,last,same,read⟩ := items_chain reads reloaded
  obtain ⟨rfl,only⟩ := List.append_inj' same rfl
  cases only
  exact read

theorem processable_guard : loader.isProcessableFile ".guard" = true := rfl

/-- Where `WS/outbound` comes up the routes beside it are dropped. -/
theorem outbound_shown (isName : ∀ part ∈ [project,"WS","outbound"], IsFileName part) (named : Named (some node)) :
    loader.Shown [project,"WS","outbound"] none (some node) := by
  let rest := Listing.file ".guard" unreadable .nil
  have isNames : IsFileName project ∧ IsFileName "WS" ∧ IsFileName "outbound" := by simpa using isName
  have kept : "WS" ∉ reservedSubdirs := by decide
  have beside : Edit (some node) none [project,"WS","outbound"]
      (.dir project (.dir "WS" (put "outbound" (some node) rest) .nil) .nil)
      (.dir project (.dir "WS" (put "outbound" none rest) .nil) .nil) :=
    .inside project .nil (.inside "WS" .nil (.here "outbound" rest))
  have namedRest : (put "outbound" (some node) rest).WellNamed := by
    have apart : "outbound" ∉ rest.names := by simp [rest,names]
    rcases node with content | entries
    · exact ⟨isNames.2.2,apart,isFileName_guard,List.not_mem_nil,trivial⟩
    · exact ⟨isNames.2.2,apart,named _ rfl,isFileName_guard,List.not_mem_nil,trivial⟩
  apply Shown.symm
  apply shown_of_items beside
  · exact ⟨isNames.1,List.not_mem_nil,⟨isNames.2.1,List.not_mem_nil,namedRest,trivial⟩,trivial⟩
  · have namedGuard : rest.WellNamed := ⟨isFileName_guard,List.not_mem_nil,trivial⟩
    exact ⟨isNames.1,List.not_mem_nil,⟨isNames.2.1,List.not_mem_nil,namedGuard,trivial⟩,trivial⟩
  · have skipped : methodEntries (loader.configPath ++ "/" ++ project ++ "/" ++ "WS") "WS"
        (put "outbound" (some node) rest) = .ok none := by
      rcases node with content | entries <;> simp [methodEntries,put,rest,names]
    intro e member
    rw [items_method kept,methodItems,skipped] at member
    cases member
  · have reads : loader.ReadsAt ([project,"WS"] ++ [".guard"]) := .method project [] kept processable_guard
    have reloaded : ¬ NotReloaded ([project,"WS"] ++ [".guard"]) :=
      mt notReloaded_iff.mp (by simp [reservedSubdirs])
    obtain ⟨here,slot,read⟩ := items_chain_concat reads reloaded
    have failing : loader.items (.dir project (.dir "WS" (put "outbound" none rest) .nil) .nil) = _ := read unreadable
    rw [failing]
    exact ⟨_,List.mem_singleton.mpr rfl⟩

/-- A directory that is scanned is seen as soon as it holds a guard. -/
theorem folder_shown (reloaded : ¬ NotReloaded path) (isName : ∀ part ∈ path, IsFileName part) :
    loader.Shown path none (some (.folder (.file ".guard" unreadable .nil))) := by
  have named : Named (some (.folder (.file ".guard" unreadable .nil))) :=
    named_some ⟨isFileName_guard,List.not_mem_nil,trivial⟩
  rcases List.eq_nil_or_concat path with rfl | ⟨dirs,name,rfl⟩
  · exact ⟨_,_,.root,named_none,named,by simp [loaded,loadEverything,loadProjects,Except.toOption]⟩
  rw [List.concat_eq_append] at reloaded isName ⊢
  by_cases layout : ∃ project, dirs ++ [name] = [project,"WS","outbound"]
  · obtain ⟨project,same⟩ := layout
    rw [same] at isName ⊢
    exact outbound_shown isName named
  · have reads : loader.ReadsAt (dirs ++ [name] ++ [".guard"]) := by
      match dirs with
      | [] => exact .projectGuard name (by decide)
      | project :: dirs =>
        obtain ⟨method,rest,same⟩ := List.exists_cons_of_ne_nil
          (List.append_ne_nil_of_right_ne_nil dirs (List.cons_ne_nil name []))
        rw [List.cons_append,same] at reloaded ⊢
        have kept : method ∉ reservedSubdirs := fun own => reloaded (.reserved project rest own)
        exact .method project rest kept processable_guard
    have reloadedToo : ¬ NotReloaded (dirs ++ [name] ++ [".guard"]) := by
      intro apart
      exact (apart.of_append (by decide)).elim reloaded layout
    obtain ⟨here,slot,read⟩ := items_chain_concat reads reloadedToo
    have failing : loader.items (chain dirs name (some (.folder (.file ".guard" unreadable .nil)))) = _ :=
      (congrArg loader.items (chain_concat dirs name ".guard" (some (.file unreadable)))).symm.trans (read unreadable)
    apply shown_of_items (edit_chain _ _ _ _) (wellNamed_chain isName named_none) (wellNamed_chain isName named)
    · intro e member
      rw [items_chain_none reloaded] at member
      cases member
    · rw [failing]
      exact ⟨_,List.mem_singleton.mpr rfl⟩

end Shown

end DslLoader
end Ruuter
