import Ruuter.GuardAudit
import Ruuter.Lib.Assoc
import Ruuter.Lib.Effect
import Ruuter.Parser

/-! The DSL loader (`src/dsl/loader.rs`): which files of a directory tree are loaded, and under
which keys. A directory is what `read_dir` lists, in the order in which it lists it. -/
namespace Ruuter

/-- A directory as it is listed. A file comes with what reading it gives. -/
inductive Listing
  | nil
  | file (name : String) (content : Except String String) (rest : Listing)
  | dir (name : String) (entries rest : Listing)

namespace Listing

def names : Listing → List String
  | .nil => []
  | .file name _ rest => name :: rest.names
  | .dir name _ rest => name :: rest.names

def file? (name : String) : Listing → Option (Except String String)
  | .nil => none
  | .file other content rest => if other = name then some content else rest.file? name
  | .dir _ _ rest => rest.file? name

def dir? (name : String) : Listing → Option Listing
  | .nil => none
  | .file _ _ rest => rest.dir? name
  | .dir other entries rest => if other = name then some entries else rest.dir? name

/-- A name that an entry of a directory can have. -/
def IsFileName (name : String) : Prop := name ≠ "" ∧ name ≠ "." ∧ name ≠ ".." ∧ '/' ∉ name.toList

/-- Names are file names, and those of one directory differ. -/
def WellNamed : Listing → Prop
  | .nil => True
  | .file name _ rest => IsFileName name ∧ name ∉ rest.names ∧ rest.WellNamed
  | .dir name entries rest => IsFileName name ∧ name ∉ rest.names ∧ entries.WellNamed ∧ rest.WellNamed

end Listing

/-- The triggers of a project and a channel. -/
abbrev TriggerDsls := AList fun _ : String × String => StringMap Dsl

structure LoadedProjects where
  http : HttpDsls := ∅
  triggers : TriggerDsls := ∅
  guards : GuardDsls := ∅

structure ProjectLoad where
  methods : StringMap (StringMap Dsl) := ∅
  triggers : TriggerDsls := ∅
  guards : StringMap Dsl := ∅

/-- What the scan of a method directory fills. -/
structure MethodLoad where
  dsls : StringMap Dsl := ∅
  guards : StringMap Dsl := ∅

def reservedSubdirs : List String := ["triggers","sources","cronmanager-jobs"]

section Names

/-- A name cut at its last dot. The dot of a hidden file does not count. -/
def splitAtDot (name : String) : Option (String × String) :=
  match (Text.split name '.').reverse with
  | after :: before@(_ :: _) =>
    let front := ".".intercalate before.reverse
    if front = "" then none else some (front,after)
  | _ => none

def fileStem (name : String) : String := ((splitAtDot name).map (·.1)).getD name

def extension (name : String) : Option String := (splitAtDot name).map (·.2)

def isInFolderGuard (name : String) : Bool := name = ".guard" || name = ".guard.yml" || name = ".guard.yaml"

def isGuardFile (name : String) : Bool := isInFolderGuard name || Text.contains name ".guard."

/-- `replace('\\', "/")`. -/
def replaceBackslash (text : String) : String :=
  String.ofList (text.toList.map fun c => if c = '\\' then '/' else c)

/-- What is left of a name without its last two dotted parts: `rsplitn(3, '.').nth(2)`. -/
def guardStem (name : String) : Option String :=
  match (Text.split name '.').reverse with
  | _ :: _ :: front@(_ :: _) => some (".".intercalate front.reverse)
  | _ => none

def joinPath (parts : List String) : String := "/".intercalate parts

/-- The key of a route file in the directories `dirs` below its method. -/
def buildDslKey (dirs : List String) (name method : String) : String :=
  method ++ "/" ++ replaceBackslash (joinPath (dirs ++ [fileStem name]))

def buildGuardKey (dirs : List String) (name method : String) : Except RuuterError String :=
  let dirPart := replaceBackslash (joinPath dirs)
  if isInFolderGuard name then .ok (if dirPart = "" then method else method ++ "/" ++ dirPart)
  else
    match guardStem name with
    | none => .error (.fileNotFound "Malformed guard filename")
    | some stem => .ok (method ++ "/" ++ if dirPart = "" then stem else dirPart ++ "/" ++ stem)

end Names

structure DslLoader where
  parser : DslParser
  configPath : String
  processedFiletypes : List String := [".yml",".yaml"]

namespace DslLoader

variable (loader : DslLoader)

def isProcessableFile (name : String) : Bool :=
  isInFolderGuard name ||
    (extension name).any fun ext => loader.processedFiletypes.any fun allowed =>
      allowed = ext || allowed = "." ++ ext

/-- `DslParser::parse_file`. The path is part of the message. -/
def parseFile (path : String) (content : Except String String) : Except RuuterError Dsl :=
  match content with
  | .error message => .error (.dslParse (path ++ ": " ++ message))
  | .ok text =>
    match loader.parser.parseContent text with
    | .error e => .error (.dslParse (path ++ ": " ++ e.text))
    | .ok dsl => .ok dsl

/-- One file of a method directory. -/
def scanFile (method path : String) (dirs : List String) (name : String) (content : Except String String)
    (load : MethodLoad) : Except RuuterError MethodLoad :=
  if loader.isProcessableFile name then
    if isGuardFile name then do
      let key ← buildGuardKey dirs name method
      let dsl ← loader.parseFile (path ++ "/" ++ name) content
      pure { load with guards := load.guards.insert key dsl }
    else do
      let dsl ← loader.parseFile (path ++ "/" ++ name) content
      pure { load with dsls := load.dsls.insert (buildDslKey dirs name method) dsl }
  else .ok load

def scanDirectory (method : String) : String → List String → Listing → MethodLoad →
    Except RuuterError MethodLoad
  | _, _, .nil, load => .ok load
  | path, dirs, .dir name entries rest, load => do
    let load ← scanDirectory method (path ++ "/" ++ name) (dirs ++ [name]) entries load
    scanDirectory method path dirs rest load
  | path, dirs, .file name content rest, load => do
    let load ← loader.scanFile method path dirs name content load
    scanDirectory method path dirs rest load

def loadMethodDsls (path : String) (entries : Listing) (method : String) : Except RuuterError MethodLoad :=
  loader.scanDirectory method path [] entries {}

/-- The text of the error when a directory is read as a file, and when a file is listed. -/
def isDirectory : String := "Is a directory (os error 21)"

def notDirectory : String := "Not a directory (os error 20)"

/-- The files of one channel. Only the name of an entry is looked at before it is read. -/
def loadChannel (path : String) : Listing → StringMap Dsl → Except RuuterError (StringMap Dsl)
  | .nil, perKey => .ok perKey
  | .file name content rest, perKey =>
    if !loader.isProcessableFile name || isGuardFile name then loadChannel path rest perKey
    else do
      let dsl ← loader.parseFile (path ++ "/" ++ name) content
      loadChannel path rest (perKey.insert (fileStem name) dsl)
  | .dir name _ rest, perKey =>
    if !loader.isProcessableFile name || isGuardFile name then loadChannel path rest perKey
    else do
      let dsl ← loader.parseFile (path ++ "/" ++ name) (.error isDirectory)
      loadChannel path rest (perKey.insert (fileStem name) dsl)

def loadTriggers (path project : String) : Listing → TriggerDsls → Except RuuterError TriggerDsls
  | .nil, out => .ok out
  | .file _ _ rest, out => loadTriggers path project rest out
  | .dir channel entries rest, out => do
    let perKey ← loader.loadChannel (path ++ "/" ++ channel) entries ∅
    loadTriggers path project rest
      (if perKey.entries.isEmpty then out else out.insert (project,channel) perKey)

/-- `HashMap::extend`. -/
def extend (map other : StringMap α) : StringMap α :=
  other.entries.foldl (fun map entry => map.insert entry.1 entry.2) map

/-- The directory of a method and its path: `WS/` has its files below `inbound/`, unless it is laid
out as other methods are. -/
def methodEntries (path name : String) (entries : Listing) : Except RuuterError (Option (String × Listing)) :=
  if name = "WS" then
    if "inbound" ∈ entries.names then
      match entries.dir? "inbound" with
      | some inbound => .ok (some (path ++ "/inbound",inbound))
      | none => .error (.io notDirectory)
    else if "outbound" ∈ entries.names then .ok none
    else .ok (some (path,entries))
  else .ok (some (path,entries))

/-- One directory of a project. -/
def loadSubdir (path project name : String) (entries : Listing) (load : ProjectLoad) :
    Except RuuterError ProjectLoad :=
  if name = "triggers" then do
    let triggers ← loader.loadTriggers (path ++ "/" ++ name) project entries load.triggers
    pure { load with triggers }
  else if name ∈ reservedSubdirs then .ok load
  else do
    match ← methodEntries (path ++ "/" ++ name) name entries with
    | none => pure load
    | some (methodPath,entries) => do
      let found ← loader.loadMethodDsls methodPath entries name
      pure
        { load with
          methods := load.methods.insert name found.dsls
          guards := extend load.guards found.guards }

def loadSubdirs (path project : String) : Listing → ProjectLoad → Except RuuterError ProjectLoad
  | .nil, load => .ok load
  | .file _ _ rest, load => loadSubdirs path project rest load
  | .dir name entries rest, load => do
    let load ← loader.loadSubdir path project name entries load
    loadSubdirs path project rest load

def projectGuardNames : List String := [".guard",".guard.yml",".guard.yaml"]

/-- The guard of a project, for which there are three names. -/
def loadProjectGuard (path project : String) (entries : Listing) : Except RuuterError (StringMap Dsl) :=
  match projectGuardNames.filterMap fun name => (entries.file? name).map (name,·) with
  | [] => .ok ∅
  | [(name,content)] => do
    let dsl ← loader.parseFile (path ++ "/" ++ name) content
    pure (AList.singleton projectGuardKey dsl)
  | candidates => .error (.fileNotFound ("project '" ++ project ++ "' has " ++ toString candidates.length ++
      " project-level guard files (" ++ ", ".intercalate (candidates.map (·.1)) ++ "); keep only one"))

def loadProject (path project : String) (entries : Listing) : Except RuuterError ProjectLoad := do
  let guards ← loader.loadProjectGuard path project entries
  loader.loadSubdirs path project entries { guards }

/-- The trees with one more project. -/
def addProject (out : LoadedProjects) (project : String) (load : ProjectLoad) : LoadedProjects where
  http := out.http.insert project load.methods
  triggers := load.triggers.entries.foldl (fun map entry => map.insert (project,entry.1.2) entry.2) out.triggers
  guards := if load.guards.entries.isEmpty then out.guards else out.guards.insert project load.guards

def loadProjects : Listing → LoadedProjects → Except RuuterError LoadedProjects
  | .nil, out => .ok out
  | .file _ _ rest, out => loadProjects rest out
  | .dir project entries rest, out => do
    let load ← loader.loadProject (loader.configPath ++ "/" ++ project) project entries
    loadProjects rest (addProject out project load)

def loadEverything (root : Listing) : Except RuuterError LoadedProjects := loader.loadProjects root {}

end DslLoader
end Ruuter
