import Ruuter.Proxy

/-! The headers of a proxied exchange: when they pass end to end as they came, and when the
encoding allowlist covers what is forwarded. -/
namespace Ruuter.Proxy
open Multimap

/-- The items of a list-valued header line, whatever its bytes are. -/
def HeaderValue.items (v : HeaderValue) : List String :=
  (((v.text.toList.splitOn ',').map trimOws).filter (· ≠ [])).map String.ofList

/-- A line of the `Connection` header lists the name. -/
def HeaderValue.Lists (v : HeaderValue) (name : HeaderName) : Prop :=
  ∃ item ∈ v.items, Text.toAsciiLowercase item = name.text

/-- The name belongs to one hop: it is on the static list or a `Connection` line lists it. -/
def HopByHop (static : List String) (inbound : HeaderMap) (name : HeaderName) : Prop :=
  name.text ∈ static ∨ ∃ line ∈ values inbound connection, line.Lists name

/-- The values of a name pass as they came, unless it belongs to one hop. -/
def PassesEndToEnd (static : List String) (inbound out : HeaderMap) (name : HeaderName) : Prop :=
  (HopByHop static inbound name → values out name = []) ∧
    (¬ HopByHop static inbound name → values out name = values inbound name)

/-- The headers of both legs are those that came in, but for the hop-by-hop ones and the trace. -/
structure Faithful (inbound : HeaderMap) (traceparent : String) (upstream : HeaderMap) : Prop where
  traced : ∃ given, HeaderValue.tryFrom traceparent = some given ∧
    values (buildForwardRequestHeaders inbound true traceparent) traceparentName = [given]
  request : ∀ name, name ≠ traceparentName →
    PassesEndToEnd hopByHopRequest inbound (buildForwardRequestHeaders inbound true traceparent) name
  response : ∀ name, PassesEndToEnd hopByHopResponse upstream (responseHeaders upstream) name

/-- The first `Connection` line is text and lists the name. -/
def FirstLists (headers : HeaderMap) (name : HeaderName) : Prop :=
  ∃ line, get headers connection = some line ∧ line.toStr.isSome = true ∧ line.Lists name

/-- A name of several hops that is present has one line, and one that a `Connection` line lists is
listed by the first. -/
def SingleLine (static : List String) (headers : HeaderMap) (name : HeaderName) : Prop :=
  name.text ∉ static → values headers name ≠ [] →
    ((∃ line ∈ values headers connection, line.Lists name) → FirstLists headers name) ∧
    ((∀ line ∈ values headers connection, ¬ line.Lists name) → (values headers name).length = 1)

section Tokens

theorem dropWhile_congr {p q : α → Bool} {l : List α} (same : ∀ a ∈ l, p a = q a) :
    l.dropWhile p = l.dropWhile q := by
  induction l with
  | nil => rfl
  | cons a rest ih =>
    have head := same a (List.mem_cons_self ..)
    have tail := ih fun b member => same b (List.mem_cons_of_mem _ member)
    rw [List.dropWhile_cons,List.dropWhile_cons,head,tail]

theorem trim_eq {text : List Char} (same : ∀ c ∈ text, Text.isWhiteSpace c = isOws c) :
    Text.trim (String.ofList text) = String.ofList (trimOws text) := by
  unfold Text.trim trimOws
  rw [String.toList_ofList,dropWhile_congr same]
  have rest : ∀ c ∈ (text.dropWhile isOws).reverse, Text.isWhiteSpace c = isOws c := by
    intro c member
    exact same c ((List.dropWhile_sublist _).subset (List.mem_reverse.mp member))
  rw [dropWhile_congr rest]

/-- In visible ASCII the only white space is optional white space. -/
theorem isWhiteSpace_visible :
    ∀ n < 256, ((32 ≤ n ∧ n < 127) ∨ n = 9) → Text.isWhiteSpace (Char.ofNat n) = isOws (Char.ofNat n) := by
  decide +kernel

theorem toStr_eq {v : HeaderValue} (read : v.toStr = some text) :
    text = v.text ∧ ∀ c ∈ v.text.toList, Text.isWhiteSpace c = isOws c := by
  unfold HeaderValue.toStr at read
  split at read
  · rename_i visible
    refine ⟨(Option.some.inj read).symm,?_⟩
    intro c member
    simp only [HeaderValue.text,String.toList_ofList,List.mem_map] at member
    obtain ⟨b,inside,rfl⟩ := member
    have range := List.all_eq_true.mp visible b inside
    simp only [Bool.or_eq_true,Bool.and_eq_true,decide_eq_true_eq,UInt8.le_iff_toNat_le,
      UInt8.lt_iff_toNat_lt] at range
    refine isWhiteSpace_visible b.toNat b.toNat_lt ?_
    rcases range with range | rfl
    · exact .inl range
    · exact .inr rfl
  · cases read

/-- On a line that is text the code reads the items of the line. -/
theorem listItems_eq {v : HeaderValue} (read : v.toStr = some text) : listItems text = v.items := by
  obtain ⟨rfl,spaces⟩ := toStr_eq read
  have pieces : (Text.split v.text ',').map Text.trim =
      ((v.text.toList.splitOn ',').map trimOws).map String.ofList := by
    rw [Text.split,List.map_map,List.map_map]
    apply List.map_congr_left
    intro piece member
    apply trim_eq
    intro c inside
    have found : String.ofList piece ∈ Text.split v.text ',' := List.mem_map.mpr ⟨piece,member,rfl⟩
    exact spaces c (Text.mem_of_mem_split found (by rwa [String.toList_ofList]))
  unfold listItems HeaderValue.items
  rw [pieces,List.filter_map]
  congr 1
  apply List.filter_congr
  intro piece _
  have empty : String.ofList piece = "" ↔ piece = [] := by
    rw [← String.toList_inj]
    simp
  simp [empty]

theorem mem_dynamicHop_iff (headers : HeaderMap) (name : HeaderName) :
    name.text ∈ dynamicHop headers ↔ FirstLists headers name := by
  unfold dynamicHop FirstLists
  cases first : get headers connection with
  | none => simp
  | some line =>
    simp only [Option.bind_some,Option.some.injEq,exists_eq_left']
    cases read : line.toStr with
    | none => simp
    | some text =>
      simp only [listItems_eq read,List.mem_map,Option.isSome_some,true_and]
      rfl

end Tokens

section Legs
variable {static : List String} {inbound : HeaderMap} {name : HeaderName}

theorem values_endToEnd (static : List String) (inbound : HeaderMap) (name : HeaderName) :
    values (endToEnd static inbound) name =
      if name.text ∉ static ∧ name.text ∉ dynamicHop inbound then values inbound name else [] := by
  have lower : ∀ name : HeaderName, Text.toAsciiLowercase name.text = name.text :=
    fun name => headerName_lowered name.token
  have kept := values_filter inbound name fun name =>
    !static.contains (Text.toAsciiLowercase name.text) &&
      !(dynamicHop inbound).contains (Text.toAsciiLowercase name.text)
  refine kept.trans ?_
  simp [lower]

/-- What a copy loop leaves of a name: nothing when it is skipped, else its last value. -/
theorem values_copied (static : List String) (inbound : HeaderMap) (name : HeaderName) :
    values (insertAll [] (endToEnd static inbound)) name =
      if name.text ∉ static ∧ name.text ∉ dynamicHop inbound then
        ((values inbound name).getLast?.map fun last => [last]).getD [] else [] := by
  rw [values_insertAll,values_endToEnd]
  split <;> rfl

theorem values_responseHeaders (upstream : HeaderMap) (name : HeaderName) :
    values (responseHeaders upstream) name =
      values (insertAll [] (endToEnd hopByHopResponse upstream)) name := by
  have single := values_copied hopByHopResponse upstream name
  unfold responseHeaders stripResponseHopByHop
  rw [values_insertAll,single]
  split
  · cases (values upstream name).getLast? <;> rfl
  · rfl

/-- The last of a list stands for the list exactly when there is one at most. -/
theorem getLast?_eq_self (l : List α) : (l.getLast?.map fun last => [last]).getD [] = l ↔ l.length ≤ 1 := by
  cases l with
  | nil => simp
  | cons first rest =>
    cases rest with
    | nil => simp
    | cons second more =>
      have last := List.getLast?_eq_some_getLast (List.cons_ne_nil first (second :: more))
      simp [last]

theorem passesEndToEnd_iff {out : HeaderMap}
    (copied : values out name = if name.text ∉ static ∧ name.text ∉ dynamicHop inbound then
      ((values inbound name).getLast?.map fun last => [last]).getD [] else []) :
    PassesEndToEnd static inbound out name ↔ SingleLine static inbound name := by
  have named : FirstLists inbound name → ∃ line ∈ values inbound connection, line.Lists name := by
    rintro ⟨line,first,_,lists⟩
    exact ⟨line,List.mem_of_mem_head? first,lists⟩
  have skipped : ¬ (name.text ∉ static ∧ name.text ∉ dynamicHop inbound) → HopByHop static inbound name →
      SingleLine static inbound name → (PassesEndToEnd static inbound out name ↔ SingleLine static inbound name) := by
    intro skips hop single
    rw [if_neg skips] at copied
    exact iff_of_true ⟨fun _ => copied,fun none => absurd hop none⟩ single
  by_cases fixed : name.text ∈ static
  · exact skipped (fun kept => kept.1 fixed) (.inl fixed) fun kept => absurd fixed kept
  by_cases first : FirstLists inbound name
  · refine skipped (fun kept => kept.2 ((mem_dynamicHop_iff ..).mpr first)) (.inr (named first)) ?_
    intro _ _
    obtain ⟨line,member,lists⟩ := named first
    exact ⟨fun _ => first,fun none => absurd lists (none line member)⟩
  rw [if_pos ⟨fixed,mt (mem_dynamicHop_iff ..).mp first⟩] at copied
  by_cases listed : ∃ line ∈ values inbound connection, line.Lists name
  · -- A later line lists the name: it is forwarded, and should not be.
    constructor
    · intro passes _ present
      have none := copied.symm.trans (passes.1 (.inr listed))
      simp [List.getLast?_eq_some_getLast present] at none
    · intro single
      have absent : values inbound name = [] := by
        by_contra present
        exact first ((single fixed present).1 listed)
      rw [absent] at copied
      exact ⟨fun _ => copied,fun _ => copied.trans absent.symm⟩
  · have several : ¬ HopByHop static inbound name := by
      rintro (static | lists)
      · exact fixed static
      · exact listed lists
    have passes : PassesEndToEnd static inbound out name ↔ (values inbound name).length ≤ 1 := by
      rw [← getLast?_eq_self,← copied]
      exact ⟨fun passes => passes.2 several,fun same => ⟨fun hop => absurd hop several,fun _ => same⟩⟩
    rw [passes]
    constructor
    · intro short _ present
      refine ⟨fun lists => absurd lists listed,fun _ => ?_⟩
      have positive := List.length_pos_of_ne_nil present
      omega
    · intro single
      by_cases present : values inbound name = []
      · simp [present]
      · rw [(single fixed present).2 fun line member lists => listed ⟨line,member,lists⟩]

/-- On the request leg the trace is inserted over what was copied. -/
theorem values_forwarded (inbound : HeaderMap) (traceparent : String) (other : name ≠ traceparentName) :
    values (buildForwardRequestHeaders inbound true traceparent) name =
      values (insertAll [] (endToEnd hopByHopRequest inbound)) name := by
  unfold buildForwardRequestHeaders
  simp only [if_true]
  cases HeaderValue.tryFrom traceparent with
  | none => rfl
  | some value => exact values_insert_ne other

end Legs

/-- The headers of both legs are faithful exactly when the trace is a valid header value, and on
each leg every header is on one line and listed, if at all, by the first `Connection` line. -/
theorem faithful_iff (inbound : HeaderMap) (traceparent : String) (upstream : HeaderMap) :
    Faithful inbound traceparent upstream ↔
      (HeaderValue.tryFrom traceparent).isSome = true ∧
      (∀ name, name ≠ traceparentName → SingleLine hopByHopRequest inbound name) ∧
      ∀ name, SingleLine hopByHopResponse upstream name := by
  have request : ∀ name, name ≠ traceparentName →
      (PassesEndToEnd hopByHopRequest inbound (buildForwardRequestHeaders inbound true traceparent) name ↔
        SingleLine hopByHopRequest inbound name) := by
    intro name other
    exact passesEndToEnd_iff ((values_forwarded inbound traceparent other).trans (values_copied ..))
  have response : ∀ name, PassesEndToEnd hopByHopResponse upstream (responseHeaders upstream) name ↔
      SingleLine hopByHopResponse upstream name := by
    intro name
    exact passesEndToEnd_iff ((values_responseHeaders ..).trans (values_copied ..))
  constructor
  · intro faithful
    obtain ⟨given,valid,_⟩ := faithful.traced
    refine ⟨by rw [valid]; rfl,?_,?_⟩
    · intro name other
      exact (request name other).mp (faithful.request name other)
    · intro name
      exact (response name).mp (faithful.response name)
  · rintro ⟨valid,single,upstreamSingle⟩
    obtain ⟨given,tried⟩ := Option.isSome_iff_exists.mp valid
    refine ⟨⟨given,tried,?_⟩,?_,?_⟩
    · simp [buildForwardRequestHeaders,tried]
    · intro name other
      exact (request name other).mpr (single name other)
    · intro name
      exact (response name).mpr (upstreamSingle name)

def acceptName : HeaderName := ⟨"accept",rfl⟩

/-- Two lines of one header. -/
def repeatedAccept : HeaderMap := [(acceptName,⟨[97],rfl⟩),(acceptName,⟨[98],rfl⟩)]

/-- Of two lines of one header the upstream gets the second only. -/
theorem repeated_header_lost :
    values (buildForwardRequestHeaders repeatedAccept true "") acceptName = [⟨[98],rfl⟩] ∧
      ¬ Faithful repeatedAccept "" [] := by
  have sent : values (buildForwardRequestHeaders repeatedAccept true "") acceptName = [⟨[98],rfl⟩] := by
    rw [values_forwarded _ _ (by decide),values_copied]
    rfl
  refine ⟨sent,?_⟩
  intro faithful
  have several : ¬ HopByHop hopByHopRequest repeatedAccept acceptName := by
    rintro (fixed | ⟨line,member,_⟩)
    · exact absurd fixed (by decide)
    · cases member
  have passed := (faithful.request acceptName (by decide)).2 several
  exact absurd (sent.symm.trans passed) (by decide)

section Encodings
variable (decl : ProxyDeclaration) (parts : Parts)

/-- The coding is on the allowlist, in any case. -/
def Allowed (coding : String) : Prop := ∃ entry ∈ decl.allowedEncodings, eqIgnoreAsciiCase entry coding = true

instance (coding : String) : Decidable (Allowed decl coding) := inferInstanceAs (Decidable (∃ _ ∈ _, _))

/-- The request gets past the `Content-Encoding` check. -/
def Past : Prop := preflight decl parts = .ok () ∧ checkEncoding decl parts = .ok ()

/-- What is forwarded past the check is labelled with allowed codings only, and a label that is no
text is refused. -/
structure EncodingsChecked : Prop where
  sound : Past decl parts → ∀ traceparent,
    ∀ line ∈ values (buildForwardRequestHeaders parts.headers true traceparent) contentEncoding,
    ∀ coding ∈ line.items, Allowed decl coding
  text : (∃ line ∈ values parts.headers contentEncoding, line.toStr = none) → ¬ Past decl parts

/-- The codings the check reads: those of the first line, when it is text, else `identity`. -/
def firstCodings : List String :=
  match get parts.headers contentEncoding with
  | some line => if line.toStr.isSome then line.items else ["identity"]
  | none => ["identity"]

/-- The length the request declares. -/
def declaredLength : Option Nat :=
  ((get parts.headers contentLength).bind HeaderValue.toStr).bind Text.parseU64

/-- The declared length is within the cap, and the first line lists allowed codings only. -/
structure Admitted : Prop where
  length : ∀ declared, declaredLength parts = some declared → declared ≤ decl.maxBodyBytes.toNat
  codings : ∀ coding ∈ firstCodings parts, Allowed decl coding

variable {decl parts}

theorem forward_past {client : OutboundClient} {net : Network}
    (sent : forward client net decl key traceparent parts semaphores = (.ok forwarded,after)) :
    Past decl parts ∧
      forwarded.headers = buildForwardRequestHeaders parts.headers decl.preserveHeaders traceparent := by
  unfold forward at sent
  split at sent
  · cases sent
  · rename_i resolution gated
    unfold gate at gated
    obtain ⟨_,first,gated⟩ := Eff.except_bind_inv gated
    obtain ⟨_,second,_⟩ := Eff.except_bind_inv gated
    refine ⟨⟨first,second⟩,?_⟩
    split at sent
    · cases sent
    · split at sent
      · cases sent
      · cases sent
        rfl

theorem preflight_iff : preflight decl parts = .ok () ↔
    ∀ declared, declaredLength parts = some declared → declared ≤ decl.maxBodyBytes.toNat := by
  unfold preflight declaredLength
  cases ((get parts.headers contentLength).bind HeaderValue.toStr).bind Text.parseU64 with
  | none => simp
  | some declared =>
    simp only [Option.some.injEq,forall_eq']
    split
    · rename_i more
      simpa using more
    · rename_i within
      simpa using within

theorem checkEncoding_iff : checkEncoding decl parts = .ok () ↔
    ∀ coding ∈ firstCodings parts, Allowed decl coding := by
  have items : listItems (((get parts.headers contentEncoding).bind HeaderValue.toStr).getD "identity") =
      firstCodings parts := by
    unfold firstCodings
    cases get parts.headers contentEncoding with
    | none => rfl
    | some line =>
      cases read : line.toStr with
      | none =>
        simp only [Option.bind_some,read]
        rfl
      | some text => simpa [read] using listItems_eq read
  have allowed : ∀ coding, encodingAllowed decl.allowedEncodings coding = true ↔ Allowed decl coding := by
    intro coding
    unfold encodingAllowed Allowed
    rw [List.any_eq_true]
    have folded : ∀ entry, eqIgnoreAsciiCase entry (Text.toAsciiLowercase coding) =
        eqIgnoreAsciiCase entry coding := by
      intro entry
      have lowered : (Text.toAsciiLowercase coding).toList.map Char.toLower = coding.toList.map Char.toLower := by
        simp only [Text.toAsciiLowercase,String.toList_ofList,List.map_map,Function.comp_def,Text.toLower_idem]
      rw [eqIgnoreAsciiCase,lowered]
      rfl
    simp only [folded]
  unfold checkEncoding
  simp only [items]
  split
  · rename_i entry found
    simp only [reduceCtorEq,false_iff,not_forall]
    have missing := List.find?_some found
    refine ⟨entry,List.mem_of_find?_eq_some found,?_⟩
    rw [← allowed]
    simpa using missing
  · rename_i none
    simp only [true_iff]
    intro coding member
    rw [← allowed]
    simpa using List.find?_eq_none.mp none coding member

theorem past_iff : Past decl parts ↔ Admitted decl parts := by
  unfold Past
  rw [preflight_iff,checkEncoding_iff]
  exact ⟨fun ⟨length,codings⟩ => ⟨length,codings⟩,fun admitted => ⟨admitted.length,admitted.codings⟩⟩

/-- What is forwarded of `Content-Encoding`: the last line, unless the first `Connection` line lists
the name. -/
theorem mem_forwarded_encodings (headers : HeaderMap) (traceparent : String) (line : HeaderValue) :
    line ∈ values (buildForwardRequestHeaders headers true traceparent) contentEncoding ↔
      ¬ FirstLists headers contentEncoding ∧ (values headers contentEncoding).getLast? = some line := by
  rw [values_forwarded _ _ (by decide),values_copied,← mem_dynamicHop_iff]
  have several : contentEncoding.text ∉ hopByHopRequest := by decide
  by_cases skipped : contentEncoding.text ∈ dynamicHop headers
  · simp [skipped]
  · rw [if_pos ⟨several,skipped⟩]
    cases (values headers contentEncoding).getLast? with
    | none => simp
    | some last => simp [skipped,eq_comm]

end Encodings

/-- The allowlist covers what is forwarded exactly when the check refuses the request, or every
line is text and the last one, which is the one that is forwarded, lists allowed codings only. -/
theorem encodingsChecked_iff (decl : ProxyDeclaration) (parts : Parts) :
    EncodingsChecked decl parts ↔
      (Admitted decl parts → (∀ line ∈ values parts.headers contentEncoding, line.toStr.isSome = true) ∧
        (FirstLists parts.headers contentEncoding ∨
          ∀ last, (values parts.headers contentEncoding).getLast? = some last →
            ∀ coding ∈ last.items, Allowed decl coding)) := by
  rw [← past_iff]
  constructor
  · intro checked past
    refine ⟨?_,?_⟩
    · intro line member
      by_contra unread
      exact checked.text ⟨line,member,by simpa using unread⟩ past
    · by_cases listed : FirstLists parts.headers contentEncoding
      · exact .inl listed
      · refine .inr ?_
        intro last given
        exact checked.sound past "" last ((mem_forwarded_encodings ..).mpr ⟨listed,given⟩)
  · intro covered
    refine ⟨?_,?_⟩
    · intro past traceparent line member
      obtain ⟨kept,last⟩ := (mem_forwarded_encodings ..).mp member
      exact ((covered past).2.resolve_left kept) line last
    · rintro ⟨line,member,unread⟩ past
      have read := (covered past).1 line member
      rw [unread] at read
      cases read

def gzipLine : HeaderValue := ⟨[103,122,105,112],rfl⟩
def identityLine : HeaderValue := ⟨[105,100,101,110,116,105,116,121],rfl⟩

/-- A request whose first line is allowed and whose second is not. -/
def relabelled : Parts where
  method := "POST"
  headers := [(contentEncoding,identityLine),(contentEncoding,gzipLine)]

/-- The second line of `Content-Encoding` goes to the upstream unchecked. -/
theorem second_encoding_unchecked :
    ¬ EncodingsChecked { upstream := "http://up/", maxBodyBytes := 1 } relabelled := by
  intro checked
  have past : Past { upstream := "http://up/", maxBodyBytes := 1 } relabelled := by
    refine ⟨rfl,?_⟩
    rw [checkEncoding_iff]
    decide
  have kept : ¬ FirstLists relabelled.headers contentEncoding := by
    rintro ⟨line,first,_⟩
    cases first
  have sent := checked.sound past "" gzipLine ((mem_forwarded_encodings ..).mpr ⟨kept,rfl⟩)
  exact absurd (sent "gzip" (by decide)) (by decide)

end Ruuter.Proxy
