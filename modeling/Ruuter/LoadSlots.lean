import Ruuter.Loader

/-! The loaded trees as the files they come from. `items` lists the files that a load reads, each
with the slot that its key names; a load succeeds when all of them can be read, and a slot then
holds the last file that was listed for it (`loadEverything_find`). -/
namespace Ruuter

/-- A place in the loaded trees. -/
inductive Slot
  | route (project method key : String)
  | guard (project key : String)
  | trigger (project channel key : String)
deriving DecidableEq

/-- What the scan of a method directory finds. -/
inductive Found
  | route (key : String)
  | guard (key : String)
deriving DecidableEq

def Found.slot (project method : String) : Found → Slot
  | .route key => .route project method key
  | .guard key => .guard project key

namespace Listing

theorem WellNamed.nodup : {entries : Listing} → entries.WellNamed → entries.names.Nodup
  | .nil, _ => List.nodup_nil
  | .file _ _ _, ⟨_,absent,rest⟩ => List.nodup_cons.mpr ⟨absent,rest.nodup⟩
  | .dir _ _ _, ⟨_,absent,_,rest⟩ => List.nodup_cons.mpr ⟨absent,rest.nodup⟩

end Listing

namespace DslLoader

variable (loader : DslLoader)

section Items

/-- A file of a method directory with its key. -/
def fileItem (method path : String) (dirs : List String) (name : String) (content : Except String String) :
    Except RuuterError (Found × Dsl) :=
  if isGuardFile name then do
    let key ← buildGuardKey dirs name method
    let dsl ← loader.parseFile (path ++ "/" ++ name) content
    pure (.guard key,dsl)
  else do
    let dsl ← loader.parseFile (path ++ "/" ++ name) content
    pure (.route (buildDslKey dirs name method),dsl)

def scanItems (method : String) : String → List String → Listing → List (Except RuuterError (Found × Dsl))
  | _, _, .nil => []
  | path, dirs, .dir name entries rest =>
    scanItems method (path ++ "/" ++ name) (dirs ++ [name]) entries ++ scanItems method path dirs rest
  | path, dirs, .file name content rest =>
    (if loader.isProcessableFile name then [loader.fileItem method path dirs name content] else []) ++
      scanItems method path dirs rest

def channelItem (path name : String) (content : Except String String) :
    List (Except RuuterError (String × Dsl)) :=
  if !loader.isProcessableFile name || isGuardFile name then []
  else [(loader.parseFile (path ++ "/" ++ name) content).map fun dsl => (fileStem name,dsl)]

def channelItems (path : String) : Listing → List (Except RuuterError (String × Dsl))
  | .nil => []
  | .file name content rest => loader.channelItem path name content ++ channelItems path rest
  | .dir name _ rest => loader.channelItem path name (.error isDirectory) ++ channelItems path rest

def triggerItems (path project : String) : Listing → List (Except RuuterError (Slot × Dsl))
  | .nil => []
  | .file _ _ rest => triggerItems path project rest
  | .dir channel entries rest =>
    (loader.channelItems (path ++ "/" ++ channel) entries).map
        (·.map fun item => (.trigger project channel item.1,item.2)) ++
      triggerItems path project rest

def methodItems (path project name : String) (entries : Listing) : List (Except RuuterError (Slot × Dsl)) :=
  match methodEntries path name entries with
  | .error e => [.error e]
  | .ok none => []
  | .ok (some (methodPath,entries)) =>
    (loader.scanItems name methodPath [] entries).map (·.map fun item => (item.1.slot project name,item.2))

def subdirItems (path project name : String) (entries : Listing) : List (Except RuuterError (Slot × Dsl)) :=
  if name = "triggers" then loader.triggerItems (path ++ "/" ++ name) project entries
  else if name ∈ reservedSubdirs then []
  else loader.methodItems (path ++ "/" ++ name) project name entries

def subdirsItems (path project : String) : Listing → List (Except RuuterError (Slot × Dsl))
  | .nil => []
  | .file _ _ rest => subdirsItems path project rest
  | .dir name entries rest => loader.subdirItems path project name entries ++ subdirsItems path project rest

def projectGuardItems (path project : String) (entries : Listing) : List (Except RuuterError (Slot × Dsl)) :=
  match loader.loadProjectGuard path project entries with
  | .error e => [.error e]
  | .ok guards => guards.entries.map fun entry => .ok (.guard project entry.1,entry.2)

def projectItems (path project : String) (entries : Listing) : List (Except RuuterError (Slot × Dsl)) :=
  loader.projectGuardItems path project entries ++ loader.subdirsItems path project entries

/-- The files that a load reads, in the order in which it does. -/
def items : Listing → List (Except RuuterError (Slot × Dsl))
  | .nil => []
  | .file _ _ rest => items rest
  | .dir project entries rest =>
    loader.projectItems (loader.configPath ++ "/" ++ project) project entries ++ items rest

end Items

end DslLoader

namespace DslLoader

open Eff Assoc

variable {loader : DslLoader}

section Scan

def addFound (load : MethodLoad) (item : Found × Dsl) : MethodLoad :=
  match item.1 with
  | .route key => { load with dsls := load.dsls.insert key item.2 }
  | .guard key => { load with guards := load.guards.insert key item.2 }

theorem scanFile_eq : loader.scanFile method path dirs name content load =
    if loader.isProcessableFile name then
      (loader.fileItem method path dirs name content).map (addFound load)
    else .ok load := by
  unfold scanFile fileItem
  split
  · split
    · cases buildGuardKey dirs name method with
      | error e => rfl
      | ok key => cases loader.parseFile (path ++ "/" ++ name) content <;> rfl
    · cases loader.parseFile (path ++ "/" ++ name) content <;> rfl
  · rfl

theorem scanFile_ok : loader.scanFile method path dirs name content load = .ok out ↔
    ∃ loaded, AllOk (if loader.isProcessableFile name then [loader.fileItem method path dirs name content]
      else []) loaded ∧ out = loaded.foldl addFound load := by
  rw [scanFile_eq]
  split
  · simp only [allOk_singleton]
    cases loader.fileItem method path dirs name content with
    | error e => simp [Except.map]
    | ok item => simp [Except.map,eq_comm]
  · simp [allOk_nil,eq_comm]

/-- A scan succeeds when its files can be read, and adds them one after the other. -/
theorem scanDirectory_ok : loader.scanDirectory method path dirs entries load = .ok out ↔
    ∃ loaded, AllOk (loader.scanItems method path dirs entries) loaded ∧
      out = loaded.foldl addFound load := by
  induction entries generalizing path dirs load out with
  | nil => simp [scanDirectory,scanItems,allOk_nil,eq_comm]
  | file name content rest ih =>
    unfold scanDirectory scanItems
    simp only [except_bind_ok,scanFile_ok,ih]
    exact allOk_foldl_append
  | dir name inner rest ihInner ihRest =>
    unfold scanDirectory scanItems
    simp only [except_bind_ok,ihInner,ihRest]
    exact allOk_foldl_append

/-- One of the maps that a scan fills. The other finds leave it alone. -/
theorem lookup_addFound {map : MethodLoad → StringMap Dsl} {found : String → Found}
    (own : ∀ load key dsl, map (addFound load (found key,dsl)) = (map load).insert key dsl)
    (others : ∀ load item, (∀ key, item.1 ≠ found key) → map (addFound load item) = map load)
    (injective : Function.Injective found) (loaded : List (Found × Dsl)) (load : MethodLoad) (key : String) :
    (map (loaded.foldl addFound load)).lookup key =
      (latest loaded (found key)).or ((map load).lookup key) := by
  induction loaded generalizing load with
  | nil => rfl
  | cons item rest ih =>
    rw [List.foldl_cons,ih,← List.singleton_append,latest_append]
    cases latest rest (found key) with
    | some later => rfl
    | none =>
      obtain ⟨entry,dsl⟩ := item
      by_cases mine : ∃ other, entry = found other
      · obtain ⟨other,rfl⟩ := mine
        rw [own]
        by_cases same : key = other
        · subst same
          simp [latest]
        · simp [latest,AList.lookup_insert_ne same,injective.eq_iff,Ne.symm same]
      · have apart : ∀ key, entry ≠ found key := fun key same => mine ⟨key,same⟩
        rw [others load (entry,dsl) apart,latest_eq_none (by simpa using apart key)]
        rfl

theorem lookup_dsls (loaded : List (Found × Dsl)) (load : MethodLoad) (key : String) :
    (loaded.foldl addFound load).dsls.lookup key =
      (latest loaded (.route key)).or (load.dsls.lookup key) := by
  refine lookup_addFound (fun _ _ _ => rfl) ?_ (fun _ _ same => Found.route.inj same) loaded load key
  rintro load ⟨_ | _,dsl⟩ apart
  · exact absurd rfl (apart _)
  · rfl

theorem lookup_guards (loaded : List (Found × Dsl)) (load : MethodLoad) (key : String) :
    (loaded.foldl addFound load).guards.lookup key =
      (latest loaded (.guard key)).or (load.guards.lookup key) := by
  refine lookup_addFound (fun _ _ _ => rfl) ?_ (fun _ _ same => Found.guard.inj same) loaded load key
  rintro load ⟨_ | _,dsl⟩ apart
  · rfl
  · exact absurd rfl (apart _)

end Scan

section Triggers

theorem channelItem_ok : AllOk (loader.channelItem path name content) loaded ↔
    ((!loader.isProcessableFile name || isGuardFile name) = true ∧ loaded = []) ∨
      ((!loader.isProcessableFile name || isGuardFile name) = false ∧
        ∃ dsl, loader.parseFile (path ++ "/" ++ name) content = .ok dsl ∧ loaded = [(fileStem name,dsl)]) := by
  unfold channelItem
  cases !loader.isProcessableFile name || isGuardFile name with
  | true => simp [allOk_nil]
  | false =>
    simp only [Bool.false_eq_true,if_false,allOk_singleton,false_and,true_and,false_or]
    cases loader.parseFile (path ++ "/" ++ name) content with
    | error e => simp [Except.map]
    | ok dsl => simp [Except.map]

/-- One entry of a channel in front of the others. -/
theorem channelItem_bind {next : StringMap Dsl → Except RuuterError (StringMap Dsl)} :
    (if !loader.isProcessableFile name || isGuardFile name then next perKey
      else do
        let dsl ← loader.parseFile (path ++ "/" ++ name) content
        next (perKey.insert (fileStem name) dsl)) = .ok out ↔
      ∃ middle, (∃ loaded, AllOk (loader.channelItem path name content) loaded ∧
        middle = loaded.foldl (fun map item => map.insert item.1 item.2) perKey) ∧ next middle = .ok out := by
  simp only [channelItem_ok]
  cases !loader.isProcessableFile name || isGuardFile name with
  | true =>
    simp only [if_true]
    constructor
    · intro ok
      exact ⟨perKey,⟨[],.inl ⟨trivial,rfl⟩,rfl⟩,ok⟩
    · rintro ⟨_,⟨_,⟨_,rfl⟩ | ⟨impossible,_⟩,rfl⟩,ok⟩
      · exact ok
      · cases impossible
  | false =>
    simp only [Bool.false_eq_true,if_false,except_bind_ok]
    constructor
    · rintro ⟨dsl,parsed,ok⟩
      exact ⟨_,⟨[(fileStem name,dsl)],.inr ⟨trivial,dsl,parsed,rfl⟩,rfl⟩,ok⟩
    · rintro ⟨_,⟨_,⟨impossible,_⟩ | ⟨_,dsl,parsed,rfl⟩,rfl⟩,ok⟩
      · cases impossible
      · exact ⟨dsl,parsed,ok⟩

theorem loadChannel_ok : loader.loadChannel path entries perKey = .ok out ↔
    ∃ loaded, AllOk (loader.channelItems path entries) loaded ∧
      out = loaded.foldl (fun map item => map.insert item.1 item.2) perKey := by
  induction entries generalizing perKey with
  | nil => simp [loadChannel,channelItems,allOk_nil,eq_comm]
  | file name content rest ih =>
    refine channelItem_bind.trans ?_
    simp only [ih]
    exact allOk_foldl_append
  | dir name inner rest _ ih =>
    refine channelItem_bind.trans ?_
    simp only [ih]
    exact allOk_foldl_append

def triggerAt (triggers : TriggerDsls) (project channel key : String) : Option Dsl :=
  (triggers.lookup (project,channel)).bind (·.lookup key)

/-- One channel with its files. -/
def addChannel (triggers : TriggerDsls) (project channel : String) (perKey : StringMap Dsl) : TriggerDsls :=
  if perKey.entries.isEmpty then triggers else triggers.insert (project,channel) perKey

theorem lookup_of_isEmpty {map : StringMap α} (empty : map.entries.isEmpty = true) (key : String) :
    map.lookup key = none := by
  apply AList.lookup_eq_none.mpr
  intro member
  obtain ⟨entry,inside,_⟩ := List.mem_map.mp (AList.mem_keys.mp member)
  rw [List.isEmpty_iff.mp empty] at inside
  cases inside

theorem triggerAt_addChannel (fresh : triggers.lookup (project,channel) = none) :
    triggerAt (addChannel triggers project channel perKey) p c key =
      (if (p,c) = (project,channel) then perKey.lookup key else none).or (triggerAt triggers p c key) := by
  unfold triggerAt addChannel
  by_cases same : (p,c) = (project,channel)
  · rw [if_pos same,same,fresh]
    split
    · rename_i empty
      rw [fresh,lookup_of_isEmpty empty]
      rfl
    · rw [AList.lookup_insert]
      exact (Option.or_none).symm
  · rw [if_neg same,Option.none_or]
    split
    · rfl
    · rw [AList.lookup_insert_ne same]

/-- The load of the triggers of a project: every file that can be read is found in its channel. -/
theorem loadTriggers_ok (named : entries.names.Nodup)
    (fresh : ∀ channel ∈ entries.names, triggers.lookup (project,channel) = none)
    (given : AllOk (loader.triggerItems path project entries) loaded) :
    ∃ out, loader.loadTriggers path project entries triggers = .ok out ∧
      ∀ p c key, triggerAt out p c key = (latest loaded (.trigger p c key)).or (triggerAt triggers p c key) := by
  induction entries generalizing triggers loaded with
  | nil =>
    rw [triggerItems,allOk_nil] at given
    subst given
    exact ⟨triggers,rfl,fun _ _ _ => rfl⟩
  | file name content rest ih =>
    exact ih (List.nodup_cons.mp named).2 (fun channel member => fresh channel (List.mem_cons_of_mem _ member))
      given
  | dir channel inner rest _ ih =>
    obtain ⟨absent,distinct⟩ := List.nodup_cons.mp named
    rw [triggerItems,allOk_append] at given
    obtain ⟨_,later,here,there,rfl⟩ := given
    obtain ⟨files,read,rfl⟩ := allOk_map.mp here
    have loadedHere : loader.loadChannel (path ++ "/" ++ channel) inner ∅ =
        .ok (files.foldl (fun map item => map.insert item.1 item.2) ∅) :=
      loadChannel_ok.mpr ⟨files,read,rfl⟩
    have freshHere := fresh channel List.mem_cons_self
    have freshThere : ∀ other ∈ rest.names, (addChannel triggers project channel
        (files.foldl (fun map item => map.insert item.1 item.2) ∅)).lookup (project,other) = none := by
      intro other member
      have apart : (project,other) ≠ (project,channel) := by
        rintro same
        cases same
        exact absent member
      unfold addChannel
      split
      · exact fresh other (List.mem_cons_of_mem _ member)
      · rw [AList.lookup_insert_ne apart]
        exact fresh other (List.mem_cons_of_mem _ member)
    obtain ⟨out,ok,found⟩ := ih distinct freshThere there
    refine ⟨out,?_,?_⟩
    · exact except_bind_ok.mpr ⟨_,loadedHere,ok⟩
    · intro p c key
      rw [found,triggerAt_addChannel freshHere,latest_append,Option.or_assoc]
      congr 2
      by_cases same : (p,c) = (project,channel)
      · cases same
        have injective : Function.Injective (Slot.trigger project channel) := fun _ _ same => by cases same; rfl
        rw [if_pos rfl,lookup_foldl_latest,latest_map injective]
        cases latest files key <;> rfl
      · rw [if_neg same,latest_eq_none]
        rintro item member clash
        obtain ⟨file,_,rfl⟩ := List.mem_map.mp member
        cases clash
        exact same rfl

/-- A load that succeeds has read every file. -/
theorem loadTriggers_items (given : loader.loadTriggers path project entries triggers = .ok out) :
    ∃ loaded, AllOk (loader.triggerItems path project entries) loaded := by
  induction entries generalizing triggers with
  | nil => exact ⟨[],rfl⟩
  | file name content rest ih => exact ih given
  | dir channel inner rest _ ih =>
    obtain ⟨perKey,here,there⟩ := except_bind_inv given
    obtain ⟨files,read,_⟩ := loadChannel_ok.mp here
    obtain ⟨later,rest⟩ := ih there
    exact ⟨_,allOk_append.mpr ⟨_,later,allOk_map.mpr ⟨files,read,rfl⟩,rest,rfl⟩⟩

theorem triggerItems_slot (given : AllOk (loader.triggerItems path project entries) loaded) :
    ∀ item ∈ loaded, ∃ channel key, item.1 = .trigger project channel key := by
  induction entries generalizing loaded with
  | nil =>
    rw [triggerItems,allOk_nil] at given
    subst given
    simp
  | file name content rest ih => exact ih given
  | dir channel inner rest _ ih =>
    rw [triggerItems,allOk_append] at given
    obtain ⟨_,later,here,there,rfl⟩ := given
    obtain ⟨files,_,rfl⟩ := allOk_map.mp here
    intro item member
    rcases List.mem_append.mp member with inside | after
    · obtain ⟨file,_,rfl⟩ := List.mem_map.mp inside
      exact ⟨channel,file.1,rfl⟩
    · exact ih there item after

end Triggers

section Projects

/-- What a project load has in a slot. -/
def projectFind (load : ProjectLoad) (project : String) : Slot → Option Dsl
  | .route p method key => if p = project then (load.methods.lookup method).bind (·.lookup key) else none
  | .guard p key => if p = project then load.guards.lookup key else none
  | .trigger p channel key => triggerAt load.triggers p channel key

/-- A directory of a project that has routes. -/
def isMethodDir (name : String) (entries : Listing) : Bool :=
  name ∉ reservedSubdirs &&
    match methodEntries "" name entries with
    | .ok (some _) => true
    | _ => false

theorem methodEntries_path (path other name : String) (entries : Listing) :
    (∃ e, methodEntries path name entries = .error e ∧ methodEntries other name entries = .error e) ∨
    (methodEntries path name entries = .ok none ∧ methodEntries other name entries = .ok none) ∨
    ∃ inner here there, methodEntries path name entries = .ok (some (here,inner)) ∧
      methodEntries other name entries = .ok (some (there,inner)) := by
  unfold methodEntries
  split
  · split
    · cases entries.dir? "inbound" with
      | none => exact .inl ⟨_,rfl,rfl⟩
      | some inbound => exact .inr (.inr ⟨inbound,_,_,rfl,rfl⟩)
    · split
      · exact .inr (.inl ⟨rfl,rfl⟩)
      · exact .inr (.inr ⟨entries,_,_,rfl,rfl⟩)
  · exact .inr (.inr ⟨entries,_,_,rfl,rfl⟩)

/-- A directory that has not been loaded yet. -/
structure Fresh (load : ProjectLoad) (name : String) : Prop where
  method : load.methods.lookup name = none
  triggers : name = "triggers" → load.triggers = ∅

/-- A load puts its files into their slots and leaves the other slots alone. -/
def Adds (project : String) (load out : ProjectLoad) (loaded : List (Slot × Dsl)) : Prop :=
  ∀ slot, projectFind out project slot = (latest loaded slot).or (projectFind load project slot)

theorem slot_injective (project method : String) : Function.Injective (Found.slot project method) := by
  intro first second same
  cases first <;> cases second <;> cases same <;> rfl

/-- The files of a method directory in their slots. -/
theorem adds_method (fresh : load.methods.lookup name = none) (found : List (Found × Dsl)) :
    Adds project load
      { load with
        methods := load.methods.insert name (found.foldl addFound {}).dsls
        guards := extend load.guards (found.foldl addFound {}).guards }
      (found.map fun item => (item.1.slot project name,item.2)) := by
  have elsewhere : ∀ slot, (∀ item : Found, item.slot project name ≠ slot) →
      latest (found.map fun item => (item.1.slot project name,item.2)) slot = none := by
    intro slot apart
    apply latest_eq_none
    intro item member
    obtain ⟨file,_,rfl⟩ := List.mem_map.mp member
    exact apart file.1
  intro slot
  cases slot with
  | route p method key =>
    by_cases here : p = project ∧ method = name
    · obtain ⟨rfl,rfl⟩ := here
      have held := latest_map (slot_injective p method) found (.route key)
      rw [show Found.slot p method (.route key) = .route p method key from rfl] at held
      simp only [projectFind,if_true,AList.lookup_insert,Option.bind_some,fresh,Option.bind_none,
        Option.or_none,held]
      rw [lookup_dsls]
      exact Option.or_none
    · rw [elsewhere _ (by rintro (_ | _) same <;> cases same; exact here ⟨rfl,rfl⟩),Option.none_or]
      simp only [projectFind]
      split
      · rename_i same
        rw [AList.lookup_insert_ne fun clash => here ⟨same,clash⟩]
      · rfl
  | guard p key =>
    by_cases here : p = project
    · subst here
      have held := latest_map (slot_injective p name) found (.guard key)
      rw [show Found.slot p name (.guard key) = .guard p key from rfl] at held
      simp only [projectFind,if_true,held,extend]
      have merged := lookup_foldl_entries id (found.foldl addFound {}).guards load.guards key
      rw [Option.map_id] at merged
      rw [show (fun (map : StringMap Dsl) (entry : Sigma fun _ : String => Dsl) => map.insert entry.1 entry.2) =
        fun map entry => map.insert entry.1 (id entry.2) from rfl,merged,lookup_guards]
      simp
    · rw [elsewhere _ (by rintro (_ | _) same <;> cases same; exact here rfl),Option.none_or]
      simp [projectFind,here]
  | trigger p channel key =>
    rw [elsewhere _ (by rintro (_ | _) same <;> cases same),Option.none_or]
    rfl

theorem adds_nil (project : String) (load : ProjectLoad) : Adds project load load [] := fun _ => rfl

theorem Adds.append (first : Adds project load middle one) (second : Adds project middle out two) :
    Adds project load out (one ++ two) := by
  intro slot
  rw [second slot,first slot,latest_append,Option.or_assoc]

/-- What a load of one directory leaves for the others. -/
structure Spares (name : String) (load out : ProjectLoad) : Prop where
  methods : ∀ other, other ≠ name → out.methods.lookup other = load.methods.lookup other
  triggers : name ≠ "triggers" → out.triggers = load.triggers

/-- The files of the triggers directory in their slots. -/
theorem adds_triggers (named : entries.names.Nodup) (fresh : load.triggers = ∅)
    (given : AllOk (loader.triggerItems path project entries) loaded) :
    ∃ out, loader.loadTriggers path project entries load.triggers = .ok out ∧
      Adds project load { load with triggers := out } loaded := by
  have unheard : ∀ channel ∈ entries.names, load.triggers.lookup (project,channel) = none := by
    intro channel _
    rw [fresh]
    rfl
  obtain ⟨out,ok,found⟩ := loadTriggers_ok named unheard given
  have elsewhere : ∀ slot, (∀ channel key, Slot.trigger project channel key ≠ slot) → latest loaded slot = none := by
    intro slot apart
    apply latest_eq_none
    intro item member
    obtain ⟨channel,key,form⟩ := triggerItems_slot given item member
    rw [form]
    exact apart channel key
  refine ⟨out,ok,?_⟩
  intro slot
  cases slot with
  | trigger p channel key => exact found p channel key
  | route p method key =>
    rw [elsewhere _ (by rintro _ _ same; cases same)]
    rfl
  | guard p key =>
    rw [elsewhere _ (by rintro _ _ same; cases same)]
    rfl

theorem loadSubdir_ok (named : entries.WellNamed) (fresh : Fresh load name)
    (given : AllOk (loader.subdirItems path project name entries) loaded) :
    ∃ out, loader.loadSubdir path project name entries load = .ok out ∧ Adds project load out loaded ∧
      Spares name load out ∧ (name ∈ out.methods ↔ isMethodDir name entries = true) := by
  have unloaded : name ∉ load.methods := AList.lookup_eq_none.mp fresh.method
  unfold subdirItems at given
  unfold loadSubdir
  by_cases trigger : name = "triggers"
  · rw [if_pos trigger] at given ⊢
    obtain ⟨out,ok,added⟩ := adds_triggers named.nodup (fresh.triggers trigger) given
    refine ⟨{ load with triggers := out },except_bind_ok.mpr ⟨out,ok,rfl⟩,added,⟨fun _ _ => rfl,?_⟩,?_⟩
    · intro other
      exact absurd trigger other
    · refine iff_of_false unloaded ?_
      subst trigger
      simp [isMethodDir,reservedSubdirs]
  · rw [if_neg trigger] at given ⊢
    by_cases reserved : name ∈ reservedSubdirs
    · rw [if_pos reserved] at given ⊢
      rw [allOk_nil] at given
      subst given
      refine ⟨load,rfl,adds_nil project load,⟨fun _ _ => rfl,fun _ => rfl⟩,iff_of_false unloaded ?_⟩
      simp [isMethodDir,reserved]
    · rw [if_neg reserved] at given ⊢
      unfold methodItems at given
      rcases methodEntries_path (path ++ "/" ++ name) "" name entries with
        ⟨e,failed,_⟩ | ⟨none,plain⟩ | ⟨inner,here,there,some,plain⟩
      · rw [failed,allOk_singleton] at given
        obtain ⟨_,impossible,_⟩ := given
        cases impossible
      · rw [none,allOk_nil] at given
        subst given
        rw [none]
        refine ⟨load,rfl,adds_nil project load,⟨fun _ _ => rfl,fun _ => rfl⟩,iff_of_false unloaded ?_⟩
        simp [isMethodDir,plain]
      · rw [some] at given ⊢
        obtain ⟨found,read,rfl⟩ := allOk_map.mp given
        have scanned : loader.loadMethodDsls here inner name = .ok (found.foldl addFound {}) :=
          scanDirectory_ok.mpr ⟨found,read,rfl⟩
        refine ⟨_,except_bind_ok.mpr ⟨_,rfl,except_bind_ok.mpr ⟨_,scanned,rfl⟩⟩,adds_method fresh.method found,
          ⟨?_,fun _ => rfl⟩,?_⟩
        · intro other apart
          exact AList.lookup_insert_ne apart
        · refine iff_of_true ((AList.mem_insert _).mpr (.inl rfl)) ?_
          simp [isMethodDir,reserved,plain]

theorem loadSubdir_items (given : loader.loadSubdir path project name entries load = .ok out) :
    ∃ loaded, AllOk (loader.subdirItems path project name entries) loaded := by
  unfold loadSubdir at given
  unfold subdirItems
  split at given
  · rename_i trigger
    rw [if_pos trigger]
    obtain ⟨_,ok,_⟩ := except_bind_inv given
    exact loadTriggers_items ok
  · rename_i trigger
    rw [if_neg trigger]
    split at given
    · rename_i reserved
      rw [if_pos reserved]
      exact ⟨[],rfl⟩
    · rename_i reserved
      rw [if_neg reserved]
      obtain ⟨base,ok,rest⟩ := except_bind_inv given
      unfold methodItems
      rw [ok]
      cases base with
      | none => exact ⟨[],rfl⟩
      | some base =>
        obtain ⟨load,scanned,_⟩ := except_bind_inv rest
        obtain ⟨found,read,_⟩ := scanDirectory_ok.mp scanned
        exact ⟨_,allOk_map.mpr ⟨found,read,rfl⟩⟩

/-- The method directories of a project. -/
def methodNames : Listing → List String
  | .nil => []
  | .file _ _ rest => methodNames rest
  | .dir name entries rest => (if isMethodDir name entries then [name] else []) ++ methodNames rest

theorem loadSubdirs_ok (named : entries.WellNamed) (fresh : ∀ name ∈ entries.names, Fresh load name)
    (given : AllOk (loader.subdirsItems path project entries) loaded) :
    ∃ out, loader.loadSubdirs path project entries load = .ok out ∧ Adds project load out loaded ∧
      ∀ method, method ∈ out.methods ↔ method ∈ load.methods ∨ method ∈ methodNames entries := by
  induction entries generalizing load loaded with
  | nil =>
    rw [subdirsItems,allOk_nil] at given
    subst given
    exact ⟨load,rfl,adds_nil project load,fun _ => (or_iff_left List.not_mem_nil).symm⟩
  | file name content rest ih =>
    exact ih named.2.2 (fun other member => fresh other (List.mem_cons_of_mem _ member)) given
  | dir name inner rest _ ih =>
    obtain ⟨_,absent,inside,distinct⟩ := named
    rw [subdirsItems,allOk_append] at given
    obtain ⟨one,two,here,there,rfl⟩ := given
    have freshHere := fresh name List.mem_cons_self
    obtain ⟨middle,ok,added,spares,bucket⟩ := loadSubdir_ok inside freshHere here
    have freshThere : ∀ other ∈ rest.names, Fresh middle other := by
      intro other member
      have apart : other ≠ name := fun same => absent (same ▸ member)
      have before := fresh other (List.mem_cons_of_mem _ member)
      refine ⟨(spares.methods other apart).trans before.method,?_⟩
      intro trigger
      rw [spares.triggers (fun same => apart (trigger.trans same.symm))]
      exact before.triggers trigger
    obtain ⟨out,later,addedLater,buckets⟩ := ih distinct freshThere there
    refine ⟨out,except_bind_ok.mpr ⟨middle,ok,later⟩,added.append addedLater,?_⟩
    intro method
    rw [buckets method,methodNames,List.mem_append]
    by_cases same : method = name
    · subst same
      have unloaded : method ∉ load.methods := AList.lookup_eq_none.mp freshHere.method
      rw [bucket]
      split <;> simp_all
    · have kept : method ∈ middle.methods ↔ method ∈ load.methods := by
        rw [← AList.lookup_isSome,← AList.lookup_isSome,spares.methods method same]
      rw [kept]
      split <;> simp [same]

theorem loadSubdirs_items (given : loader.loadSubdirs path project entries load = .ok out) :
    ∃ loaded, AllOk (loader.subdirsItems path project entries) loaded := by
  induction entries generalizing load with
  | nil => exact ⟨[],rfl⟩
  | file name content rest ih => exact ih given
  | dir name inner rest _ ih =>
    obtain ⟨middle,here,there⟩ := except_bind_inv given
    obtain ⟨one,first⟩ := loadSubdir_items here
    obtain ⟨two,second⟩ := ih there
    exact ⟨one ++ two,allOk_append.mpr ⟨one,two,first,second,rfl⟩⟩

/-- A project load finds exactly the files of the project. -/
theorem loadProject_ok (named : entries.WellNamed)
    (given : AllOk (loader.projectItems path project entries) loaded) :
    ∃ load, loader.loadProject path project entries = .ok load ∧
      (∀ slot, projectFind load project slot = latest loaded slot) ∧
      ∀ method, method ∈ load.methods ↔ method ∈ methodNames entries := by
  rw [projectItems,allOk_append] at given
  obtain ⟨one,two,first,second,rfl⟩ := given
  unfold projectGuardItems at first
  cases guarded : loader.loadProjectGuard path project entries with
  | error e =>
    rw [guarded,allOk_singleton] at first
    obtain ⟨_,impossible,_⟩ := first
    cases impossible
  | ok guards =>
    rw [guarded] at first
    have held : one = guards.entries.map fun entry => (.guard project entry.1,entry.2) := by
      have injective : Function.Injective (Except.ok : Slot × Dsl → Except RuuterError (Slot × Dsl)) :=
        fun _ _ same => Except.ok.inj same
      apply List.map_injective_iff.mpr injective
      rw [List.map_map]
      exact first.symm
    have fresh : ∀ name ∈ entries.names, Fresh { guards } name := fun _ _ => ⟨rfl,fun _ => rfl⟩
    obtain ⟨load,ok,added,buckets⟩ := loadSubdirs_ok named fresh second
    refine ⟨load,except_bind_ok.mpr ⟨guards,guarded,ok⟩,?_,?_⟩
    · intro slot
      rw [added slot,latest_append,held]
      congr 1
      cases slot with
      | route p method key =>
        rw [latest_eq_none (by rintro _ member same; obtain ⟨_,_,rfl⟩ := List.mem_map.mp member; cases same)]
        simp only [projectFind]
        split <;> rfl
      | trigger p channel key =>
        rw [latest_eq_none (by rintro _ member same; obtain ⟨_,_,rfl⟩ := List.mem_map.mp member; cases same)]
        rfl
      | guard p key =>
        simp only [projectFind]
        split
        · rename_i same
          subst same
          have injective : Function.Injective (Slot.guard p) := fun _ _ same => by cases same; rfl
          rw [← latest_entries guards key,← latest_map injective,List.map_map]
          rfl
        · rename_i other
          rw [latest_eq_none]
          rintro _ member same
          obtain ⟨_,_,rfl⟩ := List.mem_map.mp member
          cases same
          exact other rfl
    · intro method
      rw [buckets method]
      exact or_iff_right (AList.notMem_empty method)

theorem loadProject_items (given : loader.loadProject path project entries = .ok load) :
    ∃ loaded, AllOk (loader.projectItems path project entries) loaded := by
  obtain ⟨guards,guarded,rest⟩ := except_bind_inv given
  obtain ⟨two,second⟩ := loadSubdirs_items rest
  refine ⟨(guards.entries.map fun entry => (.guard project entry.1,entry.2)) ++ two,allOk_append.mpr
    ⟨_,two,?_,second,rfl⟩⟩
  unfold projectGuardItems AllOk
  rw [guarded,List.map_map]
  rfl

/-- The channels are those of the project, and none is empty. -/
def Tidy (project : String) (triggers : TriggerDsls) : Prop :=
  ∀ name bucket, triggers.lookup name = some bucket → name.1 = project ∧ bucket.entries ≠ []

theorem loadTriggers_tidy (given : loader.loadTriggers path project entries triggers = .ok out)
    (tidy : Tidy project triggers) : Tidy project out := by
  induction entries generalizing triggers with
  | nil =>
    cases given
    exact tidy
  | file name content rest ih => exact ih given tidy
  | dir channel inner rest _ ih =>
    obtain ⟨perKey,_,there⟩ := except_bind_inv given
    refine ih there ?_
    split
    · exact tidy
    · rename_i filled
      intro name bucket found
      by_cases same : name = (project,channel)
      · subst same
        rw [AList.lookup_insert] at found
        cases found
        exact ⟨rfl,fun empty => filled (List.isEmpty_iff.mpr empty)⟩
      · rw [AList.lookup_insert_ne same] at found
        exact tidy name bucket found

theorem loadSubdir_tidy (given : loader.loadSubdir path project name entries load = .ok out)
    (tidy : Tidy project load.triggers) : Tidy project out.triggers := by
  unfold loadSubdir at given
  split at given
  · obtain ⟨triggers,ok,same⟩ := except_bind_inv given
    cases same
    exact loadTriggers_tidy ok tidy
  · split at given
    · cases given
      exact tidy
    · obtain ⟨base,_,rest⟩ := except_bind_inv given
      cases base with
      | none =>
        cases rest
        exact tidy
      | some base =>
        obtain ⟨_,_,same⟩ := except_bind_inv rest
        cases same
        exact tidy

theorem loadSubdirs_tidy (given : loader.loadSubdirs path project entries load = .ok out)
    (tidy : Tidy project load.triggers) : Tidy project out.triggers := by
  induction entries generalizing load with
  | nil =>
    cases given
    exact tidy
  | file name content rest ih => exact ih given tidy
  | dir name inner rest _ ih =>
    obtain ⟨middle,here,there⟩ := except_bind_inv given
    exact ih there (loadSubdir_tidy here tidy)

theorem loadProject_tidy (given : loader.loadProject path project entries = .ok load) :
    Tidy project load.triggers := by
  obtain ⟨guards,_,rest⟩ := except_bind_inv given
  refine loadSubdirs_tidy rest ?_
  intro name bucket found
  cases found

end Projects

end DslLoader

namespace LoadedProjects

/-- What the loaded trees have in a slot. -/
def find (out : LoadedProjects) : Slot → Option Dsl
  | .route project method key =>
    (out.http.lookup project).bind fun methods => (methods.lookup method).bind (·.lookup key)
  | .guard project key => (out.guards.lookup project).bind (·.lookup key)
  | .trigger project channel key => DslLoader.triggerAt out.triggers project channel key

/-- A project of the HTTP tree, or a method of one. -/
def HasBucket (out : LoadedProjects) : String × Option String → Prop
  | (project,none) => project ∈ out.http
  | (project,some method) => ∃ methods, out.http.lookup project = some methods ∧ method ∈ methods

/-- No project has an empty map of guards, no channel is empty. -/
structure Filled (out : LoadedProjects) : Prop where
  guards : ∀ project bucket, out.guards.lookup project = some bucket → bucket.entries ≠ []
  triggers : ∀ name bucket, out.triggers.lookup name = some bucket → bucket.entries ≠ []

/-- A project that has not been loaded. -/
structure Lacks (out : LoadedProjects) (project : String) : Prop where
  http : out.http.lookup project = none
  guards : out.guards.lookup project = none
  triggers : ∀ channel, out.triggers.lookup (project,channel) = none

end LoadedProjects

namespace DslLoader

open Eff Assoc

variable {loader : DslLoader}

section Root

theorem lookup_addProject_triggers (tidy : Tidy project load.triggers) (name : String × String) :
    (addProject out project load).triggers.lookup name =
      (load.triggers.lookup name).or (out.triggers.lookup name) := by
  have same : (addProject out project load).triggers =
      load.triggers.entries.foldl (fun map entry => map.insert entry.1 (id entry.2)) out.triggers := by
    apply List.foldl_ext
    rintro map ⟨⟨p,channel⟩,bucket⟩ member
    obtain ⟨rfl,_⟩ := tidy (p,channel) bucket (AList.mem_lookup_iff.mpr member)
    rfl
  rw [same,lookup_foldl_entries,Option.map_id]
  rfl

theorem lookup_addProject_guards (lacks : out.guards.lookup project = none) (other key : String) :
    ((addProject out project load).guards.lookup other).bind (·.lookup key) =
      (if other = project then load.guards.lookup key else none).or
        ((out.guards.lookup other).bind (·.lookup key)) := by
  unfold addProject
  by_cases same : other = project
  · subst same
    rw [if_pos rfl,lacks,Option.bind_none,Option.or_none]
    dsimp only
    split
    · rename_i empty
      rw [lacks,lookup_of_isEmpty empty]
      rfl
    · rw [AList.lookup_insert]
      rfl
  · rw [if_neg same,Option.none_or]
    dsimp only
    split
    · rfl
    · rw [AList.lookup_insert_ne same]

/-- A project adds its slots. -/
theorem find_addProject (lacks : out.Lacks project) (tidy : Tidy project load.triggers) (slot : Slot) :
    (addProject out project load).find slot = (projectFind load project slot).or (out.find slot) := by
  cases slot with
  | route p method key =>
    simp only [LoadedProjects.find,projectFind,addProject]
    by_cases same : p = project
    · subst same
      rw [AList.lookup_insert,lacks.http,if_pos rfl]
      exact Option.or_none.symm
    · rw [AList.lookup_insert_ne same,if_neg same]
      rfl
  | guard p key => exact lookup_addProject_guards lacks.guards p key
  | trigger p channel key =>
    simp only [LoadedProjects.find,projectFind,triggerAt,lookup_addProject_triggers tidy]
    cases held : load.triggers.lookup (p,channel) with
    | none => rfl
    | some bucket =>
      obtain ⟨same,_⟩ := tidy _ _ held
      subst same
      rw [lacks.triggers]
      exact Option.or_none.symm

theorem filled_addProject (filled : out.Filled) (tidy : Tidy project load.triggers) :
    (addProject out project load).Filled := by
  constructor
  · intro other bucket found
    unfold addProject at found
    dsimp only at found
    split at found
    · exact filled.guards other bucket found
    · rename_i full
      by_cases same : other = project
      · subst same
        rw [AList.lookup_insert] at found
        cases found
        exact fun empty => full (List.isEmpty_iff.mpr empty)
      · rw [AList.lookup_insert_ne same] at found
        exact filled.guards other bucket found
  · intro name bucket found
    rw [lookup_addProject_triggers tidy] at found
    rcases Option.or_eq_some_iff.mp found with held | ⟨_,held⟩
    · exact (tidy name bucket held).2
    · exact filled.triggers name bucket held

theorem lacks_addProject (lacks : out.Lacks other) (tidy : Tidy project load.triggers)
    (apart : other ≠ project) : (addProject out project load).Lacks other := by
  refine ⟨?_,?_,?_⟩
  · exact (AList.lookup_insert_ne apart).trans lacks.http
  · unfold addProject
    dsimp only
    split
    · exact lacks.guards
    · exact (AList.lookup_insert_ne apart).trans lacks.guards
  · intro channel
    rw [lookup_addProject_triggers tidy,lacks.triggers,Option.or_none]
    cases held : load.triggers.lookup (other,channel) with
    | none => rfl
    | some bucket => exact absurd (tidy _ _ held).1 apart

/-- The projects of a tree and their methods. -/
def buckets : Listing → List (String × Option String)
  | .nil => []
  | .file _ _ rest => buckets rest
  | .dir project entries rest =>
    ((project,none) :: (methodNames entries).map fun method => (project,some method)) ++ buckets rest

theorem hasBucket_addProject (lacks : out.Lacks project)
    (methods : ∀ method, method ∈ load.methods ↔ method ∈ methodNames entries)
    (bucket : String × Option String) :
    (addProject out project load).HasBucket bucket ↔ out.HasBucket bucket ∨
      bucket ∈ (project,none) :: (methodNames entries).map fun method => (project,some method) := by
  obtain ⟨p,_ | method⟩ := bucket
  · simp [LoadedProjects.HasBucket,addProject,or_comm]
  · simp only [LoadedProjects.HasBucket,addProject]
    by_cases same : p = project
    · subst same
      simp [AList.lookup_insert,lacks.http,methods]
    · simp [AList.lookup_insert_ne same,Ne.symm same]

/-- The load of a tree finds exactly the files of the tree. -/
theorem loadProjects_ok (named : root.WellNamed) (lacks : ∀ name ∈ root.names, out.Lacks name)
    (filled : out.Filled) (given : AllOk (loader.items root) loaded) :
    ∃ result, loader.loadProjects root out = .ok result ∧ result.Filled ∧
      (∀ slot, result.find slot = (latest loaded slot).or (out.find slot)) ∧
      ∀ bucket, result.HasBucket bucket ↔ out.HasBucket bucket ∨ bucket ∈ buckets root := by
  induction root generalizing out loaded with
  | nil =>
    rw [items,allOk_nil] at given
    subst given
    exact ⟨out,rfl,filled,fun _ => rfl,fun _ => (or_iff_left List.not_mem_nil).symm⟩
  | file name content rest ih =>
    exact ih named.2.2 (fun other member => lacks other (List.mem_cons_of_mem _ member)) filled given
  | dir project entries rest _ ih =>
    obtain ⟨_,absent,inside,distinct⟩ := named
    rw [items,allOk_append] at given
    obtain ⟨one,two,here,there,rfl⟩ := given
    obtain ⟨load,ok,found,methods⟩ := loadProject_ok inside here
    have tidy := loadProject_tidy ok
    have lacksHere := lacks project List.mem_cons_self
    have lacksThere : ∀ other ∈ rest.names, (addProject out project load).Lacks other := by
      intro other member
      have apart : other ≠ project := fun same => absent (same ▸ member)
      exact lacks_addProject (lacks other (List.mem_cons_of_mem _ member)) tidy apart
    obtain ⟨result,later,full,finds,has⟩ := ih distinct lacksThere (filled_addProject filled tidy) there
    refine ⟨result,except_bind_ok.mpr ⟨load,ok,later⟩,full,?_,?_⟩
    · intro slot
      rw [finds slot,find_addProject lacksHere tidy,found,latest_append,Option.or_assoc]
    · intro bucket
      rw [has bucket,hasBucket_addProject lacksHere methods,buckets,List.mem_append,or_assoc]

theorem loadProjects_items (given : loader.loadProjects root out = .ok result) :
    ∃ loaded, AllOk (loader.items root) loaded := by
  induction root generalizing out with
  | nil => exact ⟨[],rfl⟩
  | file name content rest ih => exact ih given
  | dir project entries rest _ ih =>
    obtain ⟨load,here,there⟩ := except_bind_inv given
    obtain ⟨one,first⟩ := loadProject_items here
    obtain ⟨two,second⟩ := ih there
    exact ⟨one ++ two,allOk_append.mpr ⟨one,two,first,second,rfl⟩⟩

/-- A load succeeds when every file can be read. A slot then holds the last file listed for it. -/
theorem loadEverything_find (named : root.WellNamed) (given : AllOk (loader.items root) loaded) :
    ∃ out, loader.loadEverything root = .ok out ∧ out.Filled ∧ (∀ slot, out.find slot = latest loaded slot) ∧
      ∀ bucket, out.HasBucket bucket ↔ bucket ∈ buckets root := by
  have nothing : ∀ name ∈ root.names, ({} : LoadedProjects).Lacks name := fun _ _ => ⟨rfl,rfl,fun _ => rfl⟩
  have filled : ({} : LoadedProjects).Filled := ⟨fun _ _ found => (by cases found),fun _ _ found => (by cases found)⟩
  obtain ⟨out,ok,full,finds,has⟩ := loadProjects_ok named nothing filled given
  refine ⟨out,ok,full,?_,?_⟩
  · intro slot
    rw [finds slot]
    cases slot <;> exact Option.or_none
  · intro bucket
    rw [has bucket]
    refine or_iff_right ?_
    obtain ⟨p,_ | method⟩ := bucket
    · exact AList.notMem_empty p
    · rintro ⟨_,found,_⟩
      cases found

theorem loadEverything_ok_iff (named : root.WellNamed) :
    (∃ out, loader.loadEverything root = .ok out) ↔ ∃ loaded, AllOk (loader.items root) loaded := by
  constructor
  · rintro ⟨out,ok⟩
    exact loadProjects_items ok
  · rintro ⟨loaded,given⟩
    obtain ⟨out,ok,_⟩ := loadEverything_find named given
    exact ⟨out,ok⟩

end Root

end DslLoader
end Ruuter
