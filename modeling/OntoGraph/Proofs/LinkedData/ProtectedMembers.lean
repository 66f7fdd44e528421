import OntoGraph.Proofs.LinkedData.LabelPlaces

/-!
# Names and members with protected labels

A document with protected labels has the same keys as before and leads to the same active contexts,
and the texts that name nodes in it are read as names of the same nodes.
-/

namespace OntoGraph.LinkedData

open Document (TermContext labelIriStart protectLabel protectLabels protectItems protectMembers
  namesNodes isOpaqueKey)

variable {c : TermContext} {s : Setting} {K : ActiveContext → Prop} {active : ActiveContext}

/-! ## Names -/

@[simp] theorem protectLabel_append (label : String) :
    protectLabel ("_:" ++ label) = labelIriStart ++ label := by
  rw [protectLabel, Document.TermContext.dropStart?_eq_some_iff.2 rfl]

theorem protectLabel_of_ne {text : String} (h : ∀ label, text ≠ "_:" ++ label) :
    protectLabel text = text := by
  unfold protectLabel
  cases hlabel : Document.TermContext.dropStart? "_:" text with
  | some label => exact absurd (Document.TermContext.dropStart?_eq_some_iff.1 hlabel) (h label)
  | none => rfl

theorem IsPlain.identifier? {text : String} (h : IsPlain K text) (hactive : K active)
    (relative vocab : Bool) : Option.Rel Identifier.Protected
      (active.expand relative vocab text).identifier?
      (active.expand relative vocab text).identifier? := by
  refine Lockstep.same fun i hi ↦ ?_
  cases hmeaning : active.expand relative vocab text with
  | nothing =>
    rw [hmeaning] at hi
    cases hi
  | identifier j =>
    rw [hmeaning] at hi
    cases hi
    exact h active hactive relative vocab i hmeaning
  | keyword k =>
    rw [hmeaning] at hi
    obtain ⟨spelling, -, rfl⟩ := Option.map_eq_some_iff.1 hi
    exact .invalid _

/-- A text where labels are protected is read as the name of the same node. -/
theorem TextFits.identifier? {key text : String} (h : TextFits c K key text)
    (hnames : namesNodes c key = true) (hactive : K active) :
    Option.Rel Identifier.Protected (active.expand true false text).identifier?
      (active.expand true false (protectLabel text)).identifier? := by
  rw [TextFits, if_pos hnames] at h
  rcases h with ⟨label, rfl, hlabel⟩ | ⟨hne, hplain⟩
  · obtain ⟨hdirect, hprotected⟩ := hlabel active hactive
    rw [protectLabel_append, hdirect, hprotected]
    exact .some (.blank label)
  · rw [protectLabel_of_ne hne]
    exact hplain.identifier? hactive true false

theorem protected_reference {id id' : Option Identifier}
    (h : Option.Rel Identifier.Protected id id') : (reference id).Protected (reference id') :=
  .node none h .nil .nil .nil .none .nil

/-! ## Scalars -/

theorem protected_expandScalar_self {property : String} {value : Scalar} (hactive : K active)
    (h : ∀ text, value = .text text → IsPlain K text ∨
      (active.term? property).bind (·.coercion) ≠ some .id ∧
        (active.term? property).bind (·.coercion) ≠ some .vocab) :
    (expandScalar active property value).Protected (expandScalar active property value) := by
  fun_cases expandScalar active property value with
  | case1 coercion text hcoercion =>
    rcases h text rfl with hplain | ⟨hid, -⟩
    · exact protected_reference (hplain.identifier? hactive true false)
    · exact absurd hcoercion hid
  | case2 coercion text hcoercion =>
    rcases h text rfl with hplain | ⟨-, hvocab⟩
    · exact protected_reference (hplain.identifier? hactive true true)
    · exact absurd hcoercion hvocab
  | _ => exact .literal _ _

/-- The values of a term that names nodes are names, and those of a term that names literals are
none. -/
theorem Agrees.coercion_of_namesNodes {key : String} (h : Agrees c active)
    (hid : c.isIdKey key = false) (hnames : namesNodes c key = true) :
    (active.term? key).bind (·.coercion) = some .id := by
  rw [namesNodes, hid, Bool.false_or, Option.any_eq_true] at hnames
  obtain ⟨d, hd, hcoercion⟩ := hnames
  rw [(h key).coercion, hd, Option.bind_some, beq_iff_eq.1 hcoercion]
  rfl

theorem Agrees.coercion_of_namesLiterals {key : String} (h : Agrees c active)
    (hnames : namesLiterals c key = true) : (active.term? key).bind (·.coercion) ≠ some .id ∧
      (active.term? key).bind (·.coercion) ≠ some .vocab := by
  rw [namesLiterals, Option.any_eq_true] at hnames
  obtain ⟨d, hd, hcoercion⟩ := hnames
  rw [(h key).coercion, hd, Option.bind_some]
  cases hc : d.coercion with
  | none => simp
  | some coercion => cases coercion <;> simp_all [Coercion.ofTerm]

theorem protected_expandScalar {key property text : String} (hactive : K active)
    (hagrees : Agrees c active) (hunder : IsUnder c key (some property))
    (h : TextFits c K key text) :
    (expandScalar active property (.text text)).Protected (expandScalar active property
      (.text (if namesNodes c key then protectLabel text else text))) := by
  cases hnames : namesNodes c key with
  | true =>
    obtain rfl := Option.some.inj (hunder.property (.inl hnames))
    have hcoercion := hagrees.coercion_of_namesNodes hunder.isIdKey hnames
    have hreference : ∀ text, expandScalar active property (.text text) =
        reference (active.expand true false text).identifier? := by
      intro text
      unfold expandScalar
      simp only [hcoercion]
    rw [if_pos rfl, hreference, hreference]
    exact protected_reference (h.identifier? hnames hactive)
  | false =>
    rw [if_neg Bool.false_ne_true]
    refine protected_expandScalar_self hactive fun other heq ↦ ?_
    cases heq
    rw [TextFits, if_neg (by simp [hnames])] at h
    rcases h with hliterals | hplain
    · obtain rfl := Option.some.inj (hunder.property (.inr hliterals))
      exact .inr (hagrees.coercion_of_namesLiterals hliterals)
    · exact .inl hplain

/-! ## Members -/

def protectMember (c : TermContext) (m : Member) : Member :=
  { m with value := protectValue c m.name m.value }

@[simp] theorem membersIn_protectMembers (active : ActiveContext) (members : List (String × Json)) :
    membersIn active (protectMembers c members) =
      (membersIn active members).map (protectMember c) := by
  rw [protectMembers_eq_map, membersIn, membersIn, List.map_map, List.map_map]
  rfl

theorem meaning_of_mem {members : List (String × Json)} {m : Member}
    (h : m ∈ membersIn active members) : m.meaning = active.expand false true m.name ∧
      (m.name, m.value) ∈ members := by
  obtain ⟨member, hmember, rfl⟩ := List.mem_map.1 h
  exact ⟨rfl, hmember⟩

@[simp] theorem protectValue_context (value : Json) : protectValue c "@context" value = value := by
  rw [protectValue, isOpaqueKey]
  rfl

@[simp] theorem protectValue_value (value : Json) : protectValue c "@value" value = value := by
  rw [protectValue, isOpaqueKey]
  rfl

theorem protectValue_eq {key : String} (h : isOpaqueKey c key = false) (value : Json) :
    protectValue c key value = protectLabels c (namesNodes c key) value := by
  rw [protectValue, h]
  rfl

theorem Agrees.protectValue_cases {key : String} {k : Keyword} (h : Agrees c active)
    (hkey : active.expand false true key = .keyword k) (hk : k ≠ .id) (value : Json) :
    protectValue c key value = value ∨ protectValue c key value = protectLabels c false value := by
  rw [protectValue, h.namesNodes_eq_false hkey hk]
  split
  · exact .inl rfl
  · exact .inr rfl

theorem Agrees.string?_protectValue {key : String} {k : Keyword} (h : Agrees c active)
    (hkey : active.expand false true key = .keyword k) (hk : k ≠ .id) (value : Json) :
    (protectValue c key value).string? = value.string? := by
  rcases h.protectValue_cases hkey hk value with heq | heq
  · rw [heq]
  · rw [heq, string?_protectLabels]

/-- The texts of an array stay where no labels are protected. -/
theorem Agrees.texts_protectValue {key : String} {k : Keyword} (h : Agrees c active)
    (hkey : active.expand false true key = .keyword k) (hk : k ≠ .id) (value : Json) :
    (asArray (protectValue c key value)).map Json.string? = (asArray value).map Json.string? := by
  rcases h.protectValue_cases hkey hk value with heq | heq
  · rw [heq]
  · rw [heq, asArray_protectLabels, List.map_map]
    exact List.map_congr_left fun item _ ↦ string?_protectLabels item

/-- A member fits unless its name is that of a context or of a literal value. -/
theorem MembersFit.of_meaning {members : List (String × Json)} (h : MembersFit c s K members)
    {m : Member} (hm : m ∈ membersIn active members) (hcontext : m.meaning ≠ .keyword .context)
    (hvalue : m.meaning ≠ .keyword .value) : LabelsFit c s K m.name m.value := by
  obtain ⟨hmeaning, hmem⟩ := meaning_of_mem hm
  refine membersFit_iff.1 h _ hmem ?_ ?_
  · rintro heq
    dsimp only at heq
    rw [heq] at hmeaning
    exact hcontext hmeaning
  · rintro heq
    dsimp only at heq
    rw [heq] at hmeaning
    exact hvalue hmeaning

theorem Agrees.value_protectMember (h : Agrees c active) {k : Keyword} {m : Member}
    (hname : active.expand false true m.name = .keyword k) (hcontext : k ≠ .context)
    (hvalue : k ≠ .value) (htype : k ≠ .type) :
    (protectMember c m).value = protectLabels c (namesNodes c m.name) m.value := by
  refine protectValue_eq (h.isOpaqueKey_eq_false ?_ ?_ ?_) m.value
  · intro heq
    rw [heq] at hname
    exact hcontext (Meaning.keyword.inj hname).symm
  · intro heq
    rw [heq] at hname
    exact hvalue (Meaning.keyword.inj hname).symm
  · rw [hname]
    exact fun heq ↦ htype (Meaning.keyword.inj heq)

/-- The texts of types are the same where labels are protected, and plain. -/
theorem Agrees.forall₂_texts (h : Agrees c active) {k : Keyword} {key : String} {value : Json}
    (hname : active.expand false true key = .keyword k) (hid : k ≠ .id)
    (hfits : LabelsFit c s K key value) :
    List.Forall₂ (fun item item' ↦ item.string? = item'.string? ∧
      ∀ text, item.string? = some text → IsPlain K text)
      (asArray value) (asArray (protectValue c key value)) := by
  have hplain : ∀ item ∈ asArray value, ∀ text, item.string? = some text → IsPlain K text := by
    intro item hitem text htext
    have htextFits := hfits.asArray item hitem
    cases item with
    | string =>
      cases htext
      rw [LabelsFit, TextFits, h.namesNodes_eq_false hname hid, h.namesLiterals_eq_false hname]
        at htextFits
      simpa using htextFits
    | _ => cases htext
  rcases h.protectValue_cases hname hid value with heq | heq
  · rw [heq, List.forall₂_same]
    exact fun item hitem ↦ ⟨rfl, hplain item hitem⟩
  · rw [heq, asArray_protectLabels]
    exact Lockstep.forall₂_map fun item hitem ↦ ⟨(string?_protectLabels item).symm, hplain item hitem⟩

/-! ## Contexts -/

@[simp] theorem objectContext?_protectMembers (active : ActiveContext) (property : Option String)
    (fromMap : Bool) (members : List (String × Json)) :
    objectContext? s active property fromMap (protectMembers c members) =
      objectContext? s active property fromMap members := by
  have hnames : (protectMembers c members).map (fun member ↦ active.expand false true member.1) =
      members.map fun member ↦ active.expand false true member.1 := by
    rw [protectMembers_eq_map, List.map_map]
    rfl
  have hcontexts : (protectMembers c members).filter (·.1 = "@context") =
      members.filter (·.1 = "@context") := by
    rw [protectMembers_eq_map, List.filter_map]
    refine (List.map_congr_left (g := id) fun member hmember ↦ ?_).trans (List.map_id _)
    obtain ⟨key, value⟩ := member
    obtain rfl : key = "@context" := by simpa using (List.mem_filter.1 hmember).2
    rw [protectValue_context]
    rfl
  rw [objectContext?, objectContext?, hnames, hcontexts]

/-- The context of an object after its own context, if it has one. -/
theorem ownContext_keeps {members : List (String × Json)} {current next : ActiveContext}
    (hcontexts : ∀ context, ("@context", context) ∈ members → ∀ active next, K active →
      s.process true active context = some next → K next) (hcurrent : K current)
    (hnext : (match members.filter (·.1 = "@context") with
      | [] => some current
      | [(_, context)] => s.process true current context
      | _ => none) = some next) : K next := by
  rcases hfilter : members.filter (·.1 = "@context") with _ | ⟨⟨key, context⟩, _ | ⟨second, rest⟩⟩
  · rw [hfilter] at hnext
    cases hnext
    exact hcurrent
  · rw [hfilter] at hnext
    obtain ⟨hmem, hkey⟩ := List.mem_filter.1 (hfilter ▸ List.mem_singleton_self (key, context))
    obtain rfl : key = "@context" := by simpa using hkey
    exact hcontexts context hmem current next hcurrent hnext
  · rw [hfilter] at hnext
    cases hnext

theorem Closed.objectContext? (h : Closed c s K) (hactive : K active) {property : Option String}
    {fromMap : Bool} {members : List (String × Json)} {next : ActiveContext}
    (hcontexts : ∀ context, ("@context", context) ∈ members → ∀ active next, K active →
      s.process true active context = some next → K next)
    (hnext : objectContext? s active property fromMap members = some next) : K next := by
  have hprevious : ∀ b : Bool, K (if b then active else active.previous.getD active) := by
    intro b
    cases b with
    | true => exact hactive
    | false =>
      cases hp : active.previous with
      | none => exact hactive
      | some previous => exact h.previous active previous hactive hp
  unfold LinkedData.objectContext? at hnext
  cases hd : property.bind active.term? with
  | none =>
    rw [hd] at hnext
    exact ownContext_keeps hcontexts (hprevious _) hnext
  | some d =>
    rw [hd] at hnext
    obtain ⟨current, hcurrent, hnext⟩ := Option.bind_eq_some_iff.1 hnext
    obtain ⟨term, rfl, hterm⟩ := Option.bind_eq_some_iff.1 hd
    exact ownContext_keeps hcontexts
      (h.ofTerm active _ current term d true true hactive (hprevious _) hterm hcurrent) hnext

/-- The contexts of types are closed under what is reached from them, one type after the other. -/
theorem Closed.foldlM_types (h : Closed c s K) (hactive : K active) {types : List String}
    {inner next : ActiveContext} (hinner : K inner)
    (hnext : types.foldlM (fun inner type ↦ match active.term? type with
      | some d => s.processOfTerm false false inner d
      | none => some inner) inner = some next) : K next := by
  induction types generalizing inner with
  | nil =>
    cases hnext
    exact hinner
  | cons type types ih =>
    rw [List.foldlM_cons] at hnext
    obtain ⟨middle, hmiddle, hnext⟩ := Option.bind_eq_some_iff.1 hnext
    refine ih ?_ hnext
    cases hd : active.term? type with
    | some d =>
      rw [hd] at hmiddle
      exact h.ofTerm active inner middle type d false false hactive hinner hd hmiddle
    | none =>
      rw [hd] at hmiddle
      cases hmiddle
      exact hinner

theorem Closed.processTypes? (h : Closed c s K) (hactive : K active) {typeMembers : List Member}
    {next : ActiveContext} (hnext : processTypes? s active typeMembers = some next) : K next := by
  unfold LinkedData.processTypes? at hnext
  exact h.foldlM_types hactive hactive hnext

/-- The context of the term that leads to a value. -/
theorem Closed.contextOfTerm (h : Closed c s K) (hactive : K active) {property : String}
    {next : ActiveContext} (hnext : (match active.term? property with
      | some d => s.processOfTerm true true active d
      | none => some active) = some next) : K next := by
  cases hd : active.term? property with
  | some d =>
    rw [hd] at hnext
    exact h.ofTerm active active next property d true true hactive hactive hd hnext
  | none =>
    rw [hd] at hnext
    cases hnext
    exact hactive

/-! ## Objects -/

@[simp] theorem filter_protectMember (p : Meaning → Bool) (members : List Member) :
    (members.map (protectMember c)).filter (p ·.meaning) =
      (members.filter (p ·.meaning)).map (protectMember c) := by
  rw [List.filter_map]
  rfl

/-- Types lead to the same context where labels are protected. -/
theorem processTypes?_protectMember (hagrees : Agrees c active) {typeMembers : List Member}
    (htypes : ∀ m ∈ typeMembers, active.expand false true m.name = .keyword .type) :
    processTypes? s active (typeMembers.map (protectMember c)) =
      processTypes? s active typeMembers := by
  have htexts : (typeMembers.map (protectMember c)).flatMap
      (fun m ↦ inOrder ((asArray m.value).filterMap Json.string?)) =
      typeMembers.flatMap fun m ↦ inOrder ((asArray m.value).filterMap Json.string?) := by
    rw [List.flatMap_map]
    refine List.flatMap_congr fun m hm ↦ ?_
    have hsame := hagrees.texts_protectValue (htypes m hm) nofun m.value
    have hfilter : ∀ items : List Json,
        items.filterMap Json.string? = (items.map Json.string?).filterMap id := by
      intro items
      rw [List.filterMap_map]
      rfl
    rw [protectMember, hfilter, hfilter (asArray m.value), hsame]
  unfold processTypes?
  rw [htexts]

theorem lastType_eq (active : ActiveContext) (value : Json) : lastType active value =
    match ((asArray value).map Json.string?).getLast? with
    | some (some type) => active.expand false true type
    | _ => .nothing := by
  rw [lastType, List.getLast?_map]
  cases (asArray value).getLast? with
  | none => rfl
  | some item => cases item <;> rfl

/-- The fields of a literal value are read alike where labels are protected. -/
theorem read?_protectMember (hagrees : Agrees c active) (typeContext : ActiveContext)
    (fields : LiteralFields) {m : Member} (hname : m.meaning = active.expand false true m.name) :
    LiteralFields.read? typeContext fields (protectMember c m) =
      LiteralFields.read? typeContext fields m := by
  obtain ⟨key, meaning, value⟩ := m
  dsimp only at hname
  cases meaning with
  | nothing => rfl
  | identifier => rfl
  | keyword k =>
    by_cases hid : k = .id
    · subst hid
      rfl
    · have htext := hagrees.string?_protectValue hname.symm hid value
      unfold LiteralFields.read?
      dsimp only [protectMember]
      cases k with
      | direction =>
        rcases hagrees.protectValue_cases hname.symm hid value with heq | heq
        · rw [heq]
        · rw [heq]
          cases value <;> rfl
      | language => rw [htext]
      | index => rw [htext]
      | type => rw [htext]
      | _ => rfl

/-- A literal value has no labels. -/
theorem protected_of_expandLiteral? {typeContext : ActiveContext} {isJson : Bool}
    {members : List Member} {value : Json} {e : Expanded}
    (h : expandLiteral? typeContext isJson members value = some e) : e.Protected e := by
  unfold expandLiteral? at h
  obtain ⟨fields, -, h⟩ := Option.bind_eq_some_iff.1 h
  dsimp only at h
  split at h
  · split at h
    · cases h
    · cases h
      exact .single (.literal _ _)
  · split at h
    · cases h
      exact .nothing
    · obtain ⟨scalar, -, h⟩ := Option.bind_eq_some_iff.1 h
      split at h
      · split at h
        · cases h
          exact .single (.literal _ _)
        · cases h
      · cases h
        exact .single (.literal _ _)

theorem expandLiteral?_protectMember (hagrees : Agrees c active) (typeContext : ActiveContext)
    (isJson : Bool) {members : List Member} {m : Member} (hm : m ∈ members)
    (hmembers : ∀ m ∈ members, m.meaning = active.expand false true m.name)
    (hvalue : m.meaning = .keyword .value) :
    expandLiteral? typeContext isJson (members.map (protectMember c)) (protectMember c m).value =
      expandLiteral? typeContext isJson members m.value := by
  have hname : m.name = "@value" := (hagrees m.name).valueKey (hmembers m hm ▸ hvalue)
  have hsame : (protectMember c m).value = m.value := by
    simp only [protectMember, hname, protectValue_value]
  unfold expandLiteral?
  rw [hsame, Lockstep.foldlM_map fun fields m hm ↦
    read?_protectMember hagrees typeContext fields (hmembers m hm)]

@[simp] theorem typeMembersOf_protectMember (members : List Member) :
    typeMembersOf (members.map (protectMember c)) =
      (typeMembersOf members).map (protectMember c) := by
  unfold typeMembersOf
  rw [filter_protectMember (· = .keyword .type)]
  exact (List.map_mergeSort (f := protectMember c) fun _ _ _ _ ↦ rfl).symm

theorem meaning_of_mem_typeMembersOf {members : List (String × Json)} {m : Member}
    (hm : m ∈ typeMembersOf (membersIn active members)) :
    active.expand false true m.name = .keyword .type := by
  obtain ⟨hm, hmeaning⟩ := List.mem_filter.1 ((List.mergeSort_perm _ _).mem_iff.1 hm)
  rw [← (meaning_of_mem hm).1]
  exact of_decide_eq_true hmeaning

theorem isJson_protectMember (hagrees : Agrees c active) (inner : ActiveContext)
    {typeMembers : List Member}
    (htypes : ∀ m ∈ typeMembers, active.expand false true m.name = .keyword .type) :
    ((typeMembers.map (protectMember c)).head?.any fun m ↦
      lastType inner m.value == .keyword .json) =
      typeMembers.head?.any fun m ↦ lastType inner m.value == .keyword .json := by
  cases typeMembers with
  | nil => rfl
  | cons m typeMembers =>
    have htexts := hagrees.texts_protectValue (htypes m List.mem_cons_self) nofun m.value
    rw [List.map_cons, List.head?_cons, List.head?_cons, Option.any_some, Option.any_some,
      lastType_eq, protectMember, htexts, ← lastType_eq]

/-- The last of the members whose names are a keyword. -/
theorem getLast?_protectMember (k : Keyword) (members : List Member) :
    ((members.map (protectMember c)).filter (·.meaning = .keyword k)).getLast? =
      ((members.filter (·.meaning = .keyword k)).getLast?).map (protectMember c) := by
  rw [filter_protectMember (· = .keyword k), List.getLast?_map]

theorem meaning_of_getLast? {k : Keyword} {members : List Member} {m : Member}
    (h : (members.filter (·.meaning = .keyword k)).getLast? = some m) :
    m ∈ members ∧ m.meaning = .keyword k := by
  obtain ⟨hm, hmeaning⟩ := List.mem_filter.1 (List.mem_of_getLast? h)
  exact ⟨hm, of_decide_eq_true hmeaning⟩

end OntoGraph.LinkedData
