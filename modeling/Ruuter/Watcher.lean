import Ruuter.GuardCoverage
import Ruuter.LoadEdits

/-! The hot-reload watcher (`src/dsl/hot_reload.rs`): which batches of file system events make the DSL
trees be loaded again. The events are chosen by their kinds and the last names of their paths, and
not by what a load reads, so some changes of the HTTP and guard trees are overlooked. -/
namespace Ruuter

/-- The components of a path, without what makes it absolute or relative. -/
structure FsPath where
  parts : List String
  named : ∀ part ∈ parts, Listing.IsFileName part

/-- What was created or removed, as far as the event says. -/
inductive EntryKind
  | any | file | folder | other
deriving DecidableEq

inductive ModifyKind
  | any | data | metadata | name | other
deriving DecidableEq

inductive EventKind
  | any
  | access
  | create (entry : EntryKind)
  | modify (change : ModifyKind)
  | remove (entry : EntryKind)
  | other
deriving DecidableEq

structure DebouncedEvent where
  kind : EventKind
  paths : List FsPath

namespace Watcher

def reservedSubdirs : List String := ["triggers","sources","cronmanager-jobs"]

def eventKindMatters : EventKind → Bool
  | .create _ | .remove _ | .modify .data | .modify .name => true
  | _ => false

def isUnderReservedSubdir (path dslRoot : FsPath) : Bool :=
  match dslRoot.parts.isPrefixOf? path.parts with
  | none => false
  | some comps =>
    if comps.length < 2 then false
    else match comps[1]? with
      | none => false
      | some name => reservedSubdirs.contains name || name = "WS" && comps[2]? = some "outbound"

def pathIsRelevant (path dslRoot : FsPath) : Bool :=
  if isUnderReservedSubdir path dslRoot then false
  else match path.parts.getLast? with
    | none => false
    | some name =>
      if name = ".guard" || Text.contains name ".guard." then true
      else extension name = some "yml" || extension name = some "yaml"

/-- Events without paths are taken to be relevant. -/
def eventPathsRelevant (paths : List FsPath) (dslRoot : FsPath) : Bool :=
  if paths.isEmpty then true else paths.any (pathIsRelevant · dslRoot)

def batchWarrantsReload (events : List DebouncedEvent) (dslRoot : FsPath) : Bool :=
  events.any fun ev => eventKindMatters ev.kind && eventPathsRelevant ev.paths dslRoot

end Watcher

/-- An entry that an event can be about. -/
def EntryKind.Matches : EntryKind → Node → Prop
  | .file, .folder _ => False
  | .folder, .file _ => False
  | _, _ => True

/-- A change of what is at a path that an event of a kind can be about. The paths of a rename are
those that something is moved from or to. -/
def EventKind.Fits : EventKind → Option Node → Option Node → Prop
  | .create entry, none, some node => entry.Matches node
  | .remove entry, some node, none => entry.Matches node
  | .modify .data, some (.file _), some (.file _) => True
  | .modify .name, _, _ => True
  | _, _, _ => False

/-- The same HTTP and guard trees. -/
structure LoadedProjects.SameRoutes (first second : LoadedProjects) : Prop where
  http : Assoc.Alike (Assoc.Alike (Assoc.Alike Eq)) first.http second.http
  guards : Assoc.Alike (Assoc.Alike Eq) first.guards second.guards

/-- Routes are found in both or in neither. -/
theorem LoadedProjects.SameRoutes.find_route (same : LoadedProjects.SameRoutes first second)
    (project method key : String) :
    first.find (.route project method key) = second.find (.route project method key) := by
  have routes := Assoc.rel_lookup (Assoc.rel_lookup (same.http project) method) key
  have found : ∀ {one other : Option Dsl}, Option.Rel Eq one other → one = other := by
    rintro _ _ (rfl | _) <;> rfl
  rw [Option.bind_assoc,Option.bind_assoc] at routes
  exact found routes

namespace Watcher

open Listing DslLoader

/-- Whenever one of the events changes the HTTP or guard tree that a load returns, the batch makes
the trees be loaded again. -/
def SeesChanges (loader : DslLoader) (dslRoot : FsPath) (events : List DebouncedEvent) : Prop :=
  ∀ event ∈ events, ∀ path ∈ event.paths, ∀ below,
    path.parts = dslRoot.parts ++ below → ¬ NotReloaded below →
    ∀ old new before after, event.kind.Fits old new → DiskEdit old new below before after →
      Named before → Named after →
      ¬ Option.Rel LoadedProjects.SameRoutes (loader.loaded before) (loader.loaded after) →
      batchWarrantsReload events dslRoot = true

/-- The names that the watcher takes for DSLs and guards, whatever files are processed. -/
def WatchedName (name : String) : Prop :=
  name = ".guard" ∨ Text.contains name ".guard." = true ∨ extension name = some "yml" ∨ extension name = some "yaml"

/-- An event that comes without paths, or with one that is watched. -/
def Noticed (dslRoot : FsPath) (event : DebouncedEvent) : Prop :=
  eventKindMatters event.kind = true ∧
    (event.paths = [] ∨ ∃ path ∈ event.paths, isUnderReservedSubdir path dslRoot = false ∧
      ∃ name, path.parts.getLast? = some name ∧ WatchedName name)

/-- A kind of change that shows in a load of some tree. Directories always matter, files where they
are read and where they lay out `WS`. -/
def CanChange (loader : DslLoader) : EventKind → List String → Prop
  | .create .file, below | .remove .file, below => loader.ReadsAt below ∨ LayoutPath below
  | .create _, _ | .remove _, _ | .modify .name, _ => True
  | .modify .data, below => loader.ReadsAt below ∧ ∃ text dsl, loader.parser.parseContent text = .ok dsl
  | _, _ => False

/-- An event that can change the HTTP or guard tree. -/
def MayChange (loader : DslLoader) (dslRoot : FsPath) (event : DebouncedEvent) : Prop :=
  ∃ path ∈ event.paths, ∃ below, path.parts = dslRoot.parts ++ below ∧ ¬ NotReloaded below ∧
    CanChange loader event.kind below


variable {loader : DslLoader} {dslRoot : FsPath} {events : List DebouncedEvent}

theorem pathIsRelevant_iff : pathIsRelevant path dslRoot = true ↔
    isUnderReservedSubdir path dslRoot = false ∧ ∃ name, path.parts.getLast? = some name ∧ WatchedName name := by
  unfold pathIsRelevant WatchedName
  cases isUnderReservedSubdir path dslRoot with
  | true => simp
  | false =>
    cases path.parts.getLast? with
    | none => simp
    | some name => simp [or_assoc]

theorem batchWarrantsReload_iff :
    batchWarrantsReload events dslRoot = true ↔ ∃ event ∈ events, Noticed dslRoot event := by
  have relevant (paths : List FsPath) : eventPathsRelevant paths dslRoot = true ↔
      paths = [] ∨ ∃ path ∈ paths, pathIsRelevant path dslRoot = true := by
    cases paths <;> simp [eventPathsRelevant]
  simp only [batchWarrantsReload,List.any_eq_true,Bool.and_eq_true,relevant,pathIsRelevant_iff,Noticed]

theorem isPrefixOf?_append (root below : List String) : root.isPrefixOf? (root ++ below) = some below := by
  induction root with
  | nil => rfl
  | cons first root ih => simp [List.isPrefixOf?,ih]

/-- The watcher leaves out the trees that are not reloaded, and `WS/outbound` with them. -/
theorem isUnderReservedSubdir_iff (same : path.parts = dslRoot.parts ++ below) :
    isUnderReservedSubdir path dslRoot = true ↔
      NotReloaded below ∨ ∃ project, below = [project,"WS","outbound"] := by
  unfold isUnderReservedSubdir
  rw [same,isPrefixOf?_append,notReloaded_iff]
  match below with
  | [] | [_] => simp
  | [project,name] => simp [reservedSubdirs,Ruuter.reservedSubdirs]
  | [project,name,third] => simp [reservedSubdirs,Ruuter.reservedSubdirs]
  | project :: name :: third :: fourth :: rest => simp [reservedSubdirs,Ruuter.reservedSubdirs]

/-- A file comes or goes where none is read. -/
theorem unseen_file {old new : Option Node} (plainOld : Node.Plain old) (plainNew : Node.Plain new)
    (reloaded : ¬ NotReloaded below) (harmless : ¬ (loader.ReadsAt below ∨ LayoutPath below)) :
    loader.Unseen below old new where
  plainOld := plainOld
  plainNew := plainNew
  reloaded := reloaded
  unread reads := absurd (.inl reads) harmless
  layout path := absurd (.inr path) harmless

theorem unseen_data (reloaded : ¬ NotReloaded below) (first second : Except String String)
    (harmless : ¬ (loader.ReadsAt below ∧ ∃ text dsl, loader.parser.parseContent text = .ok dsl)) :
    loader.Unseen below (some (.file first)) (some (.file second)) where
  plainOld := trivial
  plainNew := trivial
  reloaded := reloaded
  unread reads := by
    have refused : ∀ content, loader.Refused content := by
      intro content path
      unfold parseFile
      cases content with
      | error message => exact ⟨_,rfl⟩
      | ok text =>
        cases parsed : loader.parser.parseContent text with
        | error e =>
          simp only [parsed]
          exact ⟨_,rfl⟩
        | ok dsl => exact absurd ⟨reads,text,dsl,parsed⟩ harmless
    exact ⟨first,second,rfl,rfl,refused first,refused second⟩
  layout _ := ⟨first,second,rfl,rfl⟩

/-- What cannot change a tree goes unseen. -/
theorem unseen_of_fits {old new : Option Node} (fits : kind.Fits old new) (reloaded : ¬ NotReloaded below)
    (harmless : ¬ CanChange loader kind below) : loader.Unseen below old new := by
  match kind, old, new with
  | .create .file, none, some (.file content) => exact unseen_file trivial trivial reloaded harmless
  | .remove .file, some (.file content), none => exact unseen_file trivial trivial reloaded harmless
  | .modify .data, some (.file first), some (.file second) => exact unseen_data reloaded first second harmless
  | .create .any, _, _ | .create .folder, _, _ | .create .other, _, _ => exact absurd trivial harmless
  | .remove .any, _, _ | .remove .folder, _, _ | .remove .other, _, _ => exact absurd trivial harmless
  | .modify .name, _, _ => exact absurd trivial harmless

/-- The layout of `WS` changes with a file that comes or goes. -/
theorem layout_shown (layout : LayoutPath below) (isName : ∀ part ∈ below, IsFileName part) :
    loader.Shown below none (some (.file unreadable)) := by
  cases layout with
  | inbound project => exact inbound_shown isName
  | outbound project => exact outbound_shown isName (named_file unreadable)

/-- What can change a tree shows in one. -/
theorem shown_of_canChange (changes : CanChange loader kind below) (reloaded : ¬ NotReloaded below)
    (isName : ∀ part ∈ below, IsFileName part) : ∃ old new, kind.Fits old new ∧ loader.Shown below old new := by
  let guarded : Node := .folder (.file ".guard" unreadable .nil)
  have folder : loader.Shown below none (some guarded) := folder_shown reloaded isName
  have file : loader.ReadsAt below ∨ LayoutPath below → loader.Shown below none (some (.file unreadable)) := by
    rintro (reads | layout)
    · exact file_shown reads reloaded isName
    · exact layout_shown layout isName
  match kind with
  | .create .file => exact ⟨none,some (.file unreadable),trivial,file changes⟩
  | .remove .file => exact ⟨some (.file unreadable),none,trivial,(file changes).symm⟩
  | .create .any | .create .folder | .create .other => exact ⟨none,some guarded,trivial,folder⟩
  | .remove .any | .remove .folder | .remove .other => exact ⟨some guarded,none,trivial,folder.symm⟩
  | .modify .name => exact ⟨none,some guarded,trivial,folder⟩
  | .modify .data =>
    obtain ⟨reads,text,dsl,accepted⟩ := changes
    exact ⟨some (.file (.ok text)),some (.file unreadable),trivial,rewrite_shown reads reloaded isName accepted⟩

theorem sameRoutes_refl (trees : Option LoadedProjects) : Option.Rel LoadedProjects.SameRoutes trees trees := by
  cases trees with
  | none => exact .none
  | some out =>
    have routes := Assoc.alike_refl (Assoc.alike_refl (Assoc.alike_refl fun _ => rfl)) out.http
    exact .some ⟨routes,Assoc.alike_refl (Assoc.alike_refl fun _ => rfl) out.guards⟩

/-- A batch is enough for a reload when nothing in it can change a tree. -/
theorem seesChanges_of (noticed : (∃ event ∈ events, MayChange loader dslRoot event) →
    ∃ event ∈ events, Noticed dslRoot event) : SeesChanges loader dslRoot events := by
  intro event member path given below same reloaded old new before after fits edit _ _ differ
  rw [batchWarrantsReload_iff]
  apply noticed
  refine ⟨event,member,path,given,below,same,reloaded,?_⟩
  by_contra harmless
  rw [loaded_edit edit (unseen_of_fits fits reloaded harmless)] at differ
  exact differ (sameRoutes_refl _)

theorem noticed_of_seesChanges (sees : SeesChanges loader dslRoot events)
    (changes : ∃ event ∈ events, MayChange loader dslRoot event) : ∃ event ∈ events, Noticed dslRoot event := by
  obtain ⟨event,member,path,given,below,same,reloaded,can⟩ := changes
  have isName : ∀ part ∈ below, IsFileName part := fun part inside =>
    path.named part (by rw [same]; exact List.mem_append_right _ inside)
  obtain ⟨old,new,fits,before,after,edit,named,namedAfter,differ⟩ := shown_of_canChange can reloaded isName
  rw [← batchWarrantsReload_iff]
  apply sees event member path given below same reloaded old new before after fits edit named namedAfter
  intro routes
  generalize loader.loaded before = first at routes differ
  generalize loader.loaded after = second at routes differ
  cases routes <;> exact differ rfl

/-- The watcher sees the changes of a batch exactly when it notices one of the events, or none of
them can change the HTTP or guard tree. -/
theorem seesChanges_iff (loader : DslLoader) (dslRoot : FsPath) (events : List DebouncedEvent) :
    SeesChanges loader dslRoot events ↔ ((∃ event ∈ events, MayChange loader dslRoot event) →
      ∃ event ∈ events, Noticed dslRoot event) :=
  ⟨noticed_of_seesChanges,seesChanges_of⟩


/-- The file types that the watcher knows. -/
def watchedFiletypes : List String := ["yml","yaml",".yml",".yaml"]

theorem watchedName_inFolder (own : isInFolderGuard name = true) : WatchedName name := by
  unfold isInFolderGuard at own
  simp only [Bool.or_eq_true,decide_eq_true_eq] at own
  rcases own with (rfl | rfl) | rfl
  · exact .inl rfl
  · exact .inr (.inl (by decide +kernel))
  · exact .inr (.inl (by decide +kernel))

theorem watchedName_processable (types : ∀ allowed ∈ loader.processedFiletypes, allowed ∈ watchedFiletypes)
    (processed : loader.isProcessableFile name = true) : WatchedName name := by
  unfold isProcessableFile at processed
  rcases (Bool.or_eq_true _ _).mp processed with own | processed
  · exact watchedName_inFolder own
  obtain ⟨ext,found,allowing⟩ := (Option.any_eq_true _ _).mp processed
  obtain ⟨allowed,member,same⟩ := List.any_eq_true.mp allowing
  obtain ⟨⟨front,back⟩,cut,rfl⟩ := Option.map_eq_some_iff.mp found
  obtain ⟨_,clean,_⟩ := splitAtDot_iff.mp cut
  have known := types allowed member
  have watched : back = "yml" ∨ back = "yaml" := by
    simp only [Bool.or_eq_true,decide_eq_true_eq] at same
    simp only [watchedFiletypes,List.mem_cons,List.not_mem_nil,or_false] at known
    rcases same with rfl | rfl
    · rcases known with rfl | rfl | rfl | rfl
      · exact .inl rfl
      · exact .inr rfl
      · exact absurd (by decide) clean
      · exact absurd (by decide) clean
    · have dotted : '.' ∈ ("." ++ back).toList := by simp
      rcases known with same | same | same | same
      · rw [same] at dotted
        exact absurd dotted (by decide)
      · rw [same] at dotted
        exact absurd dotted (by decide)
      · exact .inl ((String.append_right_inj ".").mp same)
      · exact .inr ((String.append_right_inj ".").mp same)
  rcases watched with rfl | rfl
  · exact .inr (.inr (.inl found))
  · exact .inr (.inr (.inr found))

/-- Where only those are processed, no change of a file of a method is overlooked. -/
theorem seesChanges_files (types : ∀ allowed ∈ loader.processedFiletypes, allowed ∈ watchedFiletypes)
    (files : ∀ event ∈ events, event.kind = .create .file ∨ event.kind = .remove .file ∨ event.kind = .modify .data)
    (layout : ∀ event ∈ events, ∀ path ∈ event.paths, ∀ below, path.parts = dslRoot.parts ++ below →
      ¬ LayoutPath below) : SeesChanges loader dslRoot events := by
  apply seesChanges_of
  rintro ⟨event,member,path,given,below,same,reloaded,changes⟩
  have reads : loader.ReadsAt below := by
    have elsewhere := layout event member path given below same
    rcases files event member with kind | kind | kind
    all_goals rw [kind] at changes
    · exact changes.resolve_right elsewhere
    · exact changes.resolve_right elsewhere
    · exact changes.1
  have matters : eventKindMatters event.kind = true := by
    rcases files event member with kind | kind | kind <;> rw [kind] <;> rfl
  have unreserved : isUnderReservedSubdir path dslRoot = false := by
    apply Bool.eq_false_iff.mpr
    intro reserved
    rcases (isUnderReservedSubdir_iff same).mp reserved with apart | ⟨project,rfl⟩
    · exact reloaded apart
    · exact layout event member path given _ same (.outbound project)
  refine ⟨event,member,matters,.inr ⟨path,given,unreserved,?_⟩⟩
  rw [same]
  cases reads with
  | @projectGuard name project own =>
    have inFolder : isInFolderGuard name = true := by
      simpa [projectGuardNames,isInFolderGuard,or_assoc] using own
    exact ⟨name,by simp,watchedName_inFolder inFolder⟩
  | @method method name project dirs kept processed =>
    refine ⟨name,?_,watchedName_processable types processed⟩
    simp only [← List.cons_append,← List.append_assoc,List.getLast?_concat]

section Orders

def dslFolder : FsPath where
  parts := ["DSL"]
  named := by
    unfold IsFileName
    decide +kernel

def ordersFolder : FsPath where
  parts := ["DSL","app","GET","orders"]
  named := by
    unfold IsFileName
    decide +kernel

def ordersJson : FsPath where
  parts := ["DSL","app","GET","orders.json"]
  named := by
    unfold IsFileName
    decide +kernel

/-- A method with one directory of routes, or with nothing. -/
def ordersTree (orders : Option Node) : Listing := chain ["app","GET"] "orders" orders

def ordersNode : Node := .folder (.file "a.yml" (.ok firstContent) .nil)

theorem ordersTree_items : spellingLoader.items (ordersTree (some ordersNode)) =
    [.ok (.route "app" "GET" "GET/orders/a",returningDsl "first")] := by
  have read : spellingLoader.fileItem "GET" "DSL/app/GET/orders" ["orders"] "a.yml" (.ok firstContent) =
      .ok (.route "GET/orders/a",returningDsl "first") := by
    unfold fileItem
    rw [if_neg (by decide +kernel),parseFile_first,
      show buildDslKey ["orders"] "a.yml" "GET" = "GET/orders/a" by decide +kernel]
    rfl
  have processed : spellingLoader.isProcessableFile "a.yml" = true := by decide +kernel
  have scanned : spellingLoader.scanItems "GET" "DSL/app/GET" []
      (.dir "orders" (.file "a.yml" (.ok firstContent) .nil) .nil) =
        [.ok (.route "GET/orders/a",returningDsl "first")] := by
    simp only [scanItems,processed,if_true,List.append_nil]
    exact congrArg ([·]) read
  have layout : ∀ entries, methodEntries "DSL/app/GET" "GET" entries = .ok (some ("DSL/app/GET",entries)) :=
    fun _ => rfl
  have folder : spellingLoader.configPath ++ "/" ++ "app" ++ "/" ++ "GET" = "DSL/app/GET" := by decide +kernel
  unfold ordersTree ordersNode
  simp only [chain,put]
  rw [items_method (by decide) "app",folder,methodItems,layout]
  simp only [scanned]
  rfl

theorem ordersTree_named (named : Named orders) : (ordersTree orders).WellNamed := by
  apply wellNamed_chain _ named
  unfold IsFileName
  decide +kernel

theorem ordersNode_named : Named (some ordersNode) := by
  rintro _ ⟨⟩
  refine ⟨?_,List.not_mem_nil,trivial⟩
  unfold IsFileName
  decide +kernel

/-- A directory of routes that is removed as a whole stays in the published tree. -/
theorem removed_folder_overlooked :
    (∃ before after, spellingLoader.loadEverything (ordersTree (some ordersNode)) = .ok before ∧
      spellingLoader.loadEverything (ordersTree none) = .ok after ∧
      before.find (.route "app" "GET" "GET/orders/a") = some (returningDsl "first") ∧
      after.find (.route "app" "GET" "GET/orders/a") = none) ∧
    ¬ SeesChanges spellingLoader dslFolder [⟨.remove .folder,[ordersFolder]⟩] := by
  obtain ⟨before,loadedBefore,_,findsBefore,_⟩ := loadEverything_find (ordersTree_named ordersNode_named)
    (show Eff.AllOk _ [(.route "app" "GET" "GET/orders/a",returningDsl "first")] from ordersTree_items)
  obtain ⟨after,loadedAfter,_,findsAfter,_⟩ := loadEverything_find (ordersTree_named named_none)
    (show Eff.AllOk (spellingLoader.items (ordersTree none)) [] from rfl)
  have held : before.find (.route "app" "GET" "GET/orders/a") = some (returningDsl "first") := by
    rw [findsBefore]
    rfl
  have gone : after.find (.route "app" "GET" "GET/orders/a") = none := by
    rw [findsAfter]
    rfl
  refine ⟨⟨before,after,loadedBefore,loadedAfter,held,gone⟩,?_⟩
  intro sees
  have edit : DiskEdit (some ordersNode) none ["app","GET","orders"] (some (.folder (ordersTree (some ordersNode))))
      (some (.folder (ordersTree none))) := .below (edit_chain _ _ "orders" ["app","GET"])
  have reloaded : ¬ NotReloaded ["app","GET","orders"] :=
    mt notReloaded_iff.mp (by simp [Ruuter.reservedSubdirs])
  have warranted : batchWarrantsReload [⟨.remove .folder,[ordersFolder]⟩] dslFolder = true := by
    have fits : EventKind.Fits (.remove .folder) (some ordersNode) none := trivial
    apply sees _ List.mem_cons_self ordersFolder List.mem_cons_self _ rfl reloaded _ _ _ _ fits edit
    · exact named_some (ordersTree_named ordersNode_named)
    · exact named_some (ordersTree_named named_none)
    · have one : spellingLoader.loaded (some (.folder (ordersTree (some ordersNode)))) = some before :=
        congrArg Except.toOption loadedBefore
      have two : spellingLoader.loaded (some (.folder (ordersTree none))) = some after :=
        congrArg Except.toOption loadedAfter
      rw [one,two]
      intro routes
      cases routes with
      | some same =>
        have found := same.find_route "app" "GET" "GET/orders/a"
        rw [held,gone] at found
        cases found
  have overlooked : batchWarrantsReload [⟨.remove .folder,[ordersFolder]⟩] dslFolder = false := by decide +kernel
  cases warranted.symm.trans overlooked

/-- So is a route in a file of a type that is processed but not watched. -/
theorem other_filetype_overlooked :
    ¬ SeesChanges { spellingLoader with processedFiletypes := [".json"] } dslFolder [⟨.modify .data,[ordersJson]⟩] := by
  intro sees
  have reloaded : ¬ NotReloaded ["app","GET","orders.json"] :=
    mt notReloaded_iff.mp (by simp [Ruuter.reservedSubdirs])
  have reads : ReadsAt { spellingLoader with processedFiletypes := [".json"] } ["app","GET","orders.json"] :=
    .method "app" [] (by decide) (by decide +kernel)
  have changes : MayChange { spellingLoader with processedFiletypes := [".json"] } dslFolder
      ⟨.modify .data,[ordersJson]⟩ :=
    ⟨ordersJson,List.mem_cons_self,["app","GET","orders.json"],rfl,reloaded,reads,firstContent,_,parsed_first⟩
  have warranted := batchWarrantsReload_iff.mpr (noticed_of_seesChanges sees ⟨_,List.mem_cons_self,changes⟩)
  have overlooked : batchWarrantsReload [⟨.modify .data,[ordersJson]⟩] dslFolder = false := by decide +kernel
  cases warranted.symm.trans overlooked

end Orders

end Watcher
end Ruuter
