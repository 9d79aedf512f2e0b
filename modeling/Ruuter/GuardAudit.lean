import Mathlib.Data.List.Sort
import Ruuter.Lib.Text
import Ruuter.Step

/-! Guard resolution (`src/dsl/guard_audit.rs` and `DslRouter::applicable_guards`): which
guards gate a route, in which order. -/
namespace Ruuter

/-- Project, then method, then key. -/
abbrev HttpDsls := StringMap (StringMap (StringMap Dsl))

/-- Project, then guard key. -/
abbrev GuardDsls := StringMap (StringMap Dsl)

inductive GuardMode
  | stack | closestOnly
deriving DecidableEq

def projectGuardKey : String := "*"

structure RouteAudit where
  project : String
  method : String
  path : String
  dslKey : String
  guards : List String
deriving DecidableEq

def isOverrideGuard (dsl : Option Dsl) : Bool :=
  ((dsl.bind (·.declaration)).bind (·.overrideAncestors)).getD false

/-- A guard key covers the key itself and everything below it. -/
def guardMatches (dslKey guardKey : String) : Bool :=
  dslKey == guardKey || Text.startsWith dslKey (guardKey ++ "/")

/-- `Iterator::max_by_key`: the last of the largest elements. -/
def maxByKey (key : α → Nat) (items : List α) : Option α :=
  items.foldl (fun best item =>
    match best with
    | none => some item
    | some kept => if key kept ≤ key item then some item else best) none

/-- The method-matched guard keys that cover a route, sorted by byte length. -/
def methodScopedMatches (projectGuards : StringMap Dsl) (dslKey : String) : List String :=
  (projectGuards.keys.filter fun guardKey =>
    guardKey != projectGuardKey && guardMatches dslKey guardKey).insertionSort
      fun left right => left.utf8ByteSize ≤ right.utf8ByteSize

/-- The resolution within one project: the override rule first, else the project guard
followed by what the mode keeps of the matches. -/
def resolveGuardKeys (projectGuards : StringMap Dsl) (dslKey : String) (mode : GuardMode) :
    List String :=
  let matched := methodScopedMatches projectGuards dslKey
  let projectGuard := projectGuards.keys.find? (· == projectGuardKey)
  let overrides := matched.filter fun guardKey => isOverrideGuard (projectGuards.lookup guardKey)
  if !overrides.isEmpty then
    (maxByKey String.utf8ByteSize overrides).toList
  else
    projectGuard.toList ++
      match mode with
      | .stack => matched
      | .closestOnly => matched.getLast?.toList

def guardKeysForDsl (project dslKey : String) (guards : GuardDsls) (mode : GuardMode) :
    List String :=
  match guards.lookup project with
  | none => []
  | some projectGuards => resolveGuardKeys projectGuards dslKey mode

/-- The guards a request to `dslKey` has to pass, outermost first. -/
def applicableGuards (guards : GuardDsls) (mode : GuardMode) (project dslKey : String) :
    List (String × Dsl) :=
  match guards.lookup project with
  | none => []
  | some projectGuards =>
    (guardKeysForDsl project dslKey guards mode).filterMap fun guardKey =>
      (projectGuards.lookup guardKey).map (guardKey,·)

/-- `char::to_uppercase`, for the characters whose uppercase form is ASCII. Every other
character is kept: its uppercase form is not ASCII and no ASCII name contains it. -/
def toUppercase (c : Char) : List Char :=
  if c = 'ı' then ['I']
  else if c = 'ſ' then ['S']
  else if c = 'ß' then ['S','S']
  else if c = 'ﬀ' then ['F','F']
  else if c = 'ﬁ' then ['F','I']
  else if c = 'ﬂ' then ['F','L']
  else if c = 'ﬃ' then ['F','F','I']
  else if c = 'ﬄ' then ['F','F','L']
  else if c = 'ﬅ' ∨ c = 'ﬆ' then ['S','T']
  else [c.toUpper]

def isAuditableMethod (name : String) : Bool :=
  ["GET","POST","PUT","PATCH","DELETE","OPTIONS","HEAD","WS"].contains
    (String.ofList (name.toList.flatMap toUppercase))

def RouteAudit.le (left right : RouteAudit) : Bool :=
  ((compare left.project right.project).then
    ((compare left.method right.method).then (compare left.path right.path))).isLE

def auditAllRoutes (http : HttpDsls) (guards : GuardDsls) (mode : GuardMode) : List RouteAudit :=
  (http.entries.flatMap fun ⟨project,methods⟩ =>
    (methods.entries.filter fun ⟨method,_⟩ => isAuditableMethod method).flatMap fun ⟨method,dsls⟩ =>
      dsls.keys.map fun dslKey =>
        { project, method, dslKey
          path := (Text.stripPrefix dslKey (method ++ "/")).getD dslKey
          guards := guardKeysForDsl project dslKey guards mode }).insertionSort
    fun left right => left.le right = true

/-- The method-matched guards of a project that cover a route. -/
def Scoped (projectGuards : StringMap Dsl) (dslKey guardKey : String) : Prop :=
  guardKey ∈ projectGuards ∧ guardKey ≠ projectGuardKey ∧ guardMatches dslKey guardKey = true

/-- A covering guard that replaces its ancestors. -/
def Overriding (projectGuards : StringMap Dsl) (dslKey guardKey : String) : Prop :=
  Scoped projectGuards dslKey guardKey ∧ isOverrideGuard (projectGuards.lookup guardKey) = true

/-- The longest key with a property: every other one is strictly shorter. -/
def Longest (P : String → Prop) (key : String) : Prop :=
  P key ∧ ∀ other, P other → other ≠ key → other.utf8ByteSize < key.utf8ByteSize

/-- The guard chain of a route, as the three rules give it. -/
structure Chain (projectGuards : StringMap Dsl) (dslKey : String) (mode : GuardMode)
    (keys : List String) : Prop where
  override : (∃ key, Overriding projectGuards dslKey key) →
    ∃ key, Longest (Overriding projectGuards dslKey) key ∧ keys = [key]
  stack : (∀ key, ¬Overriding projectGuards dslKey key) → mode = .stack →
    ∃ matched, keys = (if projectGuardKey ∈ projectGuards then [projectGuardKey] else []) ++ matched ∧
      (∀ key, key ∈ matched ↔ Scoped projectGuards dslKey key) ∧
      matched.Pairwise fun outer inner =>
        outer.utf8ByteSize < inner.utf8ByteSize ∧ Text.startsWith inner (outer ++ "/") = true
  closestOnly : (∀ key, ¬Overriding projectGuards dslKey key) → mode = .closestOnly →
    ∃ matched, keys = (if projectGuardKey ∈ projectGuards then [projectGuardKey] else []) ++ matched ∧
      ((∀ key, ¬Scoped projectGuards dslKey key) ∧ matched = [] ∨
        ∃ key, Longest (Scoped projectGuards dslKey) key ∧ matched = [key])

theorem size_slash (key : String) : (key ++ "/").utf8ByteSize = key.utf8ByteSize + 1 := by
  rw [String.utf8ByteSize_append]
  rfl

/-- With a slash after both, a covering guard is a prefix of the route. -/
theorem startsWith_of_guardMatches (covers : guardMatches dslKey guardKey = true) :
    Text.startsWith (dslKey ++ "/") (guardKey ++ "/") = true := by
  simp only [guardMatches,Bool.or_eq_true,beq_iff_eq] at covers
  rcases covers with rfl | below
  · exact Text.startsWith_iff.mpr ⟨"",by simp⟩
  · exact Text.startsWith_trans below (Text.startsWith_append ..)

/-- Two covering guards of one size are the same guard. -/
theorem eq_of_size (left : guardMatches dslKey g = true) (right : guardMatches dslKey h = true)
    (size : g.utf8ByteSize = h.utf8ByteSize) : g = h := by
  have nested := Text.startsWith_of_size_le (startsWith_of_guardMatches left)
    (startsWith_of_guardMatches right) (by rw [size_slash,size_slash,size])
  have whole : h ++ "/" = g ++ "/" :=
    Text.eq_of_startsWith nested (by rw [size_slash,size_slash,size])
  exact (String.append_left_inj _).mp whole.symm

/-- The shorter of two covering guards is a path prefix of the longer. -/
theorem path_prefix_of_size_lt (left : guardMatches dslKey g = true)
    (right : guardMatches dslKey h = true) (size : g.utf8ByteSize < h.utf8ByteSize) :
    Text.startsWith h (g ++ "/") = true := by
  have nested := Text.startsWith_of_size_le (startsWith_of_guardMatches left)
    (startsWith_of_guardMatches right) (by rw [size_slash,size_slash]; omega)
  exact Text.startsWith_of_size_le nested (Text.startsWith_append h "/") (by rw [size_slash]; omega)

theorem mem_methodScopedMatches :
    key ∈ methodScopedMatches projectGuards dslKey ↔ Scoped projectGuards dslKey key := by
  simp [methodScopedMatches,Scoped,AList.mem_keys]

/-- The sorted matches are strictly nested paths: no two of them tie. -/
theorem methodScopedMatches_nested (projectGuards : StringMap Dsl) (dslKey : String) :
    (methodScopedMatches projectGuards dslKey).Pairwise fun outer inner =>
      outer.utf8ByteSize < inner.utf8ByteSize ∧ Text.startsWith inner (outer ++ "/") = true := by
  have sorted : (methodScopedMatches projectGuards dslKey).Pairwise
      fun left right => left.utf8ByteSize ≤ right.utf8ByteSize :=
    have : Std.Total fun left right : String => left.utf8ByteSize ≤ right.utf8ByteSize :=
      ⟨fun left right => Nat.le_total ..⟩
    have : IsTrans String fun left right => left.utf8ByteSize ≤ right.utf8ByteSize :=
      ⟨fun _ _ _ => Nat.le_trans⟩
    List.pairwise_insertionSort _ _
  have distinct : (methodScopedMatches projectGuards dslKey).Nodup :=
    (List.perm_insertionSort _ _).nodup_iff.mpr (projectGuards.keys_nodup.filter _)
  refine (sorted.and distinct).imp_of_mem ?_
  rintro outer inner outerIn innerIn ⟨le,ne⟩
  have covers := (mem_methodScopedMatches.mp outerIn).2.2
  have covers' := (mem_methodScopedMatches.mp innerIn).2.2
  have lt : outer.utf8ByteSize < inner.utf8ByteSize :=
    Nat.lt_of_le_of_ne le fun size => ne (eq_of_size covers covers' size)
  exact ⟨lt,path_prefix_of_size_lt covers covers' lt⟩

/-- The sort sees the match set only, not the order in which the map listed it. -/
theorem methodScopedMatches_perm (perm : G.entries.Perm H.entries) (dslKey : String) :
    methodScopedMatches G dslKey = methodScopedMatches H dslKey := by
  have keys : G.keys.Perm H.keys := perm.map Sigma.fst
  refine List.Perm.eq_of_pairwise ?_ (methodScopedMatches_nested G dslKey)
    (methodScopedMatches_nested H dslKey) ?_
  · rintro left right - - ⟨lt,-⟩ ⟨gt,-⟩
    omega
  · exact ((List.perm_insertionSort _ _).trans (keys.filter _)).trans
      (List.perm_insertionSort _ _).symm

theorem maxByKey_spec (key : α → Nat) (items : List α) (nonempty : items ≠ []) :
    ∃ best ∈ items, maxByKey key items = some best ∧ ∀ item ∈ items, key item ≤ key best := by
  have general : ∀ (rest : List α) (kept : α), ∃ best ∈ kept :: rest,
      rest.foldl (fun best item =>
        match best with
        | none => some item
        | some kept => if key kept ≤ key item then some item else best) (some kept) =
          some best ∧ ∀ item ∈ kept :: rest, key item ≤ key best := by
    intro rest
    induction rest with
    | nil =>
      intro kept
      exact ⟨kept,by simp,rfl,by simp⟩
    | cons head tail ih =>
      intro kept
      simp only [List.foldl_cons]
      split
      · obtain ⟨best,member,eq,largest⟩ := ih head
        refine ⟨best,List.mem_cons_of_mem _ member,eq,?_⟩
        intro item itemIn
        rcases List.mem_cons.mp itemIn with rfl | later
        · exact Nat.le_trans (by assumption) (largest head (by simp))
        · exact largest item later
      · obtain ⟨best,member,eq,largest⟩ := ih kept
        refine ⟨best,?_,eq,?_⟩
        · rcases List.mem_cons.mp member with rfl | later
          · simp
          · simp [later]
        · intro item itemIn
          have keptLe := largest kept (by simp)
          simp only [List.mem_cons] at itemIn
          rcases itemIn with rfl | rfl | later
          · exact keptLe
          · omega
          · exact largest item (by simp [later])
  cases items with
  | nil => contradiction
  | cons head tail => exact general tail head

/-- A largest covering guard is the longest: it has no competitor of its size. -/
theorem longest_of_le {P : String → Prop} (dslKey : String)
    (covers : ∀ key, P key → guardMatches dslKey key = true)
    (holds : P key) (largest : ∀ other, P other → other.utf8ByteSize ≤ key.utf8ByteSize) :
    Longest P key :=
  ⟨holds,fun other otherHolds ne => Nat.lt_of_le_of_ne (largest other otherHolds)
    fun size => ne (eq_of_size (covers other otherHolds) (covers key holds) size)⟩

theorem projectGuard_toList (projectGuards : StringMap Dsl) :
    (projectGuards.keys.find? (· == projectGuardKey)).toList =
      if projectGuardKey ∈ projectGuards then [projectGuardKey] else [] := by
  split
  · rename_i present
    have found : (projectGuards.keys.find? (· == projectGuardKey)).isSome :=
      List.find?_isSome.mpr ⟨projectGuardKey,AList.mem_keys.mp present,by simp⟩
    obtain ⟨key,eq⟩ := Option.isSome_iff_exists.mp found
    have same := List.find?_some eq
    simp only [beq_iff_eq] at same
    rw [eq,same]
    rfl
  · rename_i absent
    have missing : projectGuards.keys.find? (· == projectGuardKey) = none := by
      rw [List.find?_eq_none]
      intro key member same
      simp only [beq_iff_eq] at same
      exact absent (AList.mem_keys.mpr (same ▸ member))
    rw [missing]
    rfl

theorem mem_overrides :
    key ∈ ((methodScopedMatches projectGuards dslKey).filter fun guardKey =>
      isOverrideGuard (projectGuards.lookup guardKey)) ↔ Overriding projectGuards dslKey key := by
  simp [Overriding,mem_methodScopedMatches]

theorem overrides_eq_nil (none : ∀ key, ¬Overriding projectGuards dslKey key) :
    ((methodScopedMatches projectGuards dslKey).filter fun guardKey =>
      isOverrideGuard (projectGuards.lookup guardKey)) = [] :=
  List.eq_nil_iff_forall_not_mem.mpr fun key member => none key (mem_overrides.mp member)

/-- The last of the sorted matches is the longest. -/
theorem getLast?_longest (last : (methodScopedMatches projectGuards dslKey).getLast? = some key) :
    Longest (Scoped projectGuards dslKey) key := by
  have nested := methodScopedMatches_nested projectGuards dslKey
  obtain ⟨before,eq⟩ := List.getLast?_eq_some_iff.mp last
  refine ⟨mem_methodScopedMatches.mp (by simp [eq]),?_⟩
  intro other holds ne
  have member := mem_methodScopedMatches.mpr holds
  rw [eq] at member nested
  have earlier : other ∈ before := by simpa [ne] using member
  exact ((List.pairwise_append.mp nested).2.2 other earlier key (by simp)).1

theorem chain_resolveGuardKeys (projectGuards : StringMap Dsl) (dslKey : String) (mode : GuardMode) :
    Chain projectGuards dslKey mode (resolveGuardKeys projectGuards dslKey mode) := by
  constructor
  · rintro ⟨key,overriding⟩
    have nonempty : ((methodScopedMatches projectGuards dslKey).filter fun guardKey =>
        isOverrideGuard (projectGuards.lookup guardKey)) ≠ [] :=
      List.ne_nil_of_mem (mem_overrides.mpr overriding)
    obtain ⟨best,member,eq,largest⟩ := maxByKey_spec String.utf8ByteSize _ nonempty
    refine ⟨best,longest_of_le dslKey (fun _ holds => holds.1.2.2)
      (mem_overrides.mp member) (fun other holds => largest other (mem_overrides.mpr holds)),?_⟩
    simp only [resolveGuardKeys]
    rw [if_pos (by simpa using nonempty),eq]
    rfl
  · rintro none rfl
    refine ⟨methodScopedMatches projectGuards dslKey,?_,fun key => mem_methodScopedMatches,
      methodScopedMatches_nested projectGuards dslKey⟩
    simp only [resolveGuardKeys,overrides_eq_nil none,projectGuard_toList]
    rfl
  · rintro none rfl
    refine ⟨(methodScopedMatches projectGuards dslKey).getLast?.toList,?_,?_⟩
    · simp only [resolveGuardKeys,overrides_eq_nil none,projectGuard_toList]
      rfl
    · cases last : (methodScopedMatches projectGuards dslKey).getLast? with
      | none =>
        refine .inl ⟨fun key holds => ?_,rfl⟩
        rw [List.getLast?_eq_none_iff] at last
        exact List.not_mem_nil (last ▸ mem_methodScopedMatches.mpr holds)
      | some key => exact .inr ⟨key,getLast?_longest last,rfl⟩

theorem resolveGuardKeys_perm (perm : G.entries.Perm H.entries) (dslKey : String)
    (mode : GuardMode) : resolveGuardKeys G dslKey mode = resolveGuardKeys H dslKey mode := by
  have present : projectGuardKey ∈ G ↔ projectGuardKey ∈ H := AList.mem_of_perm perm
  simp only [resolveGuardKeys,projectGuard_toList,present,methodScopedMatches_perm perm dslKey,
    fun key => AList.perm_lookup (a := key) perm]

/-- Every key of a chain is a key of the project's guard map. -/
theorem mem_of_mem_resolveGuardKeys (member : key ∈ resolveGuardKeys projectGuards dslKey mode) :
    key ∈ projectGuards := by
  have chain := chain_resolveGuardKeys projectGuards dslKey mode
  have project : key ∈ (if projectGuardKey ∈ projectGuards then [projectGuardKey] else []) →
      key ∈ projectGuards := by
    intro inProject
    split at inProject
    · rename_i present
      rw [List.mem_singleton.mp inProject]
      exact present
    · cases inProject
  by_cases overriding : ∃ key, Overriding projectGuards dslKey key
  · obtain ⟨best,longest,eq⟩ := chain.override overriding
    rw [eq,List.mem_singleton] at member
    rw [member]
    exact longest.1.1.1
  · have none : ∀ key, ¬Overriding projectGuards dslKey key := fun key holds => overriding ⟨key,holds⟩
    cases mode with
    | stack =>
      obtain ⟨matched,eq,exactly,-⟩ := chain.stack none rfl
      rw [eq,List.mem_append] at member
      rcases member with outer | inner
      · exact project outer
      · exact ((exactly key).mp inner).1
    | closestOnly =>
      obtain ⟨matched,eq,⟨-,rfl⟩ | ⟨best,longest,rfl⟩⟩ := chain.closestOnly none rfl
      · rw [eq,List.append_nil] at member
        exact project member
      · rw [eq,List.mem_append] at member
        rcases member with outer | inner
        · exact project outer
        · rw [List.mem_singleton.mp inner]
          exact longest.1.1

/-- A project without guard files has the empty guard map. -/
def projectGuardsOf (guards : GuardDsls) (project : String) : StringMap Dsl :=
  (guards.lookup project).getD ∅

theorem guardKeysForDsl_eq (project dslKey : String) (guards : GuardDsls) (mode : GuardMode) :
    guardKeysForDsl project dslKey guards mode =
      resolveGuardKeys (projectGuardsOf guards project) dslKey mode := by
  cases found : guards.lookup project with
  | some projectGuards => simp [guardKeysForDsl,projectGuardsOf,found]
  | none =>
    have nothing : resolveGuardKeys ∅ dslKey mode = [] := by
      refine List.eq_nil_iff_forall_not_mem.mpr fun key member => ?_
      exact AList.notMem_empty key (mem_of_mem_resolveGuardKeys member)
    simp [guardKeysForDsl,projectGuardsOf,found,nothing]

/-- The enforced chain has exactly the resolved keys, each with its own body. -/
theorem applicableGuards_keys (guards : GuardDsls) (mode : GuardMode) (project dslKey : String) :
    (applicableGuards guards mode project dslKey).map Prod.fst =
      guardKeysForDsl project dslKey guards mode := by
  cases found : guards.lookup project with
  | none => simp [applicableGuards,guardKeysForDsl,found]
  | some projectGuards =>
    simp only [applicableGuards,found,List.map_filterMap,guardKeysForDsl]
    have kept : ∀ key ∈ resolveGuardKeys projectGuards dslKey mode,
        ((projectGuards.lookup key).map (key,·)).map Prod.fst = some key := by
      intro key member
      obtain ⟨dsl,eq⟩ := Option.isSome_iff_exists.mp
        (AList.lookup_isSome.mpr (mem_of_mem_resolveGuardKeys member))
      simp [eq]
    rw [List.filterMap_congr kept,List.filterMap_some]

theorem mem_auditAllRoutes : route ∈ auditAllRoutes http guards mode ↔
    ∃ methods dsls, http.lookup route.project = some methods ∧
      methods.lookup route.method = some dsls ∧ isAuditableMethod route.method = true ∧
      route.dslKey ∈ dsls ∧
      route.path = (Text.stripPrefix route.dslKey (route.method ++ "/")).getD route.dslKey ∧
      route.guards = guardKeysForDsl route.project route.dslKey guards mode := by
  simp only [auditAllRoutes,List.mem_insertionSort,List.mem_flatMap,List.mem_filter,List.mem_map]
  constructor
  · rintro ⟨⟨project,methods⟩,inHttp,⟨method,dsls⟩,⟨inMethods,auditable⟩,dslKey,inDsls,rfl⟩
    exact ⟨methods,dsls,AList.mem_lookup_iff.mpr inHttp,AList.mem_lookup_iff.mpr inMethods,auditable,
      AList.mem_keys.mpr inDsls,rfl,rfl⟩
  · rintro ⟨methods,dsls,inHttp,inMethods,auditable,inDsls,path,keys⟩
    obtain ⟨project,method,_,dslKey,_⟩ := route
    simp only at path keys
    subst path keys
    exact ⟨⟨project,methods⟩,AList.mem_lookup_iff.mp inHttp,⟨method,dsls⟩,
      ⟨AList.mem_lookup_iff.mp inMethods,auditable⟩,dslKey,AList.mem_keys.mp inDsls,rfl⟩

/-- Guard resolution: the chain depends on the match set only, follows the override, stack
and closest-only rules, and is the chain that is enforced and the one that is reported. -/
theorem guard_resolution (guards : GuardDsls) (project dslKey : String) (mode : GuardMode) :
    (∀ guards' : GuardDsls, (projectGuardsOf guards' project).entries.Perm
        (projectGuardsOf guards project).entries →
      guardKeysForDsl project dslKey guards' mode = guardKeysForDsl project dslKey guards mode) ∧
    Chain (projectGuardsOf guards project) dslKey mode
      (guardKeysForDsl project dslKey guards mode) ∧
    (∀ (http : HttpDsls) (route : RouteAudit), route ∈ auditAllRoutes http guards mode →
      route.project = project → route.dslKey = dslKey →
      (applicableGuards guards mode project dslKey).map Prod.fst = route.guards) ∧
    ∀ (http : HttpDsls) (methods : StringMap (StringMap Dsl)) (method : String) (dsls : StringMap Dsl),
      http.lookup project = some methods → methods.lookup method = some dsls →
      isAuditableMethod method = true → dslKey ∈ dsls →
      ∃ route ∈ auditAllRoutes http guards mode,
        route.project = project ∧ route.method = method ∧ route.dslKey = dslKey ∧
        (applicableGuards guards mode project dslKey).map Prod.fst = route.guards := by
  refine ⟨?_,?_,?_,?_⟩
  · intro guards' perm
    rw [guardKeysForDsl_eq,guardKeysForDsl_eq,resolveGuardKeys_perm perm]
  · rw [guardKeysForDsl_eq]
    exact chain_resolveGuardKeys ..
  · rintro http route member rfl rfl
    obtain ⟨-,-,-,-,-,-,-,reported⟩ := mem_auditAllRoutes.mp member
    rw [applicableGuards_keys,reported]
  · intro http methods method dsls inHttp inMethods auditable inDsls
    refine ⟨{ project, method, dslKey
              path := (Text.stripPrefix dslKey (method ++ "/")).getD dslKey
              guards := guardKeysForDsl project dslKey guards mode },?_,rfl,rfl,rfl,?_⟩
    · exact mem_auditAllRoutes.mpr ⟨methods,dsls,inHttp,inMethods,auditable,inDsls,rfl,rfl⟩
    · exact applicableGuards_keys ..

end Ruuter
