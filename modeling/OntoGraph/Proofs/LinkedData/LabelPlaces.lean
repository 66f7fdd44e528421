import OntoGraph.Document.Labels
import OntoGraph.LinkedData.Expansion
import OntoGraph.Proofs.Document.ShortNames
import OntoGraph.Proofs.LinkedData.ProtectedItems
import OntoGraph.Proofs.SortedMap

/-!
# The places of labels

Labels are protected by the keys that they stand under, without a look at what a reader of linked
data makes of these keys. Here is what both have to agree on, and where the labels of a document
may stand, for the two to come to the same.
-/

namespace OntoGraph.LinkedData

open Document (TermContext labelIriStart protectLabel protectLabels protectItems protectMembers
  namesNodes isOpaqueKey)

/-! ## Contexts -/

def Coercion.ofTerm : Document.Coercion → Coercion
  | .id => .id
  | .vocab => .vocab
  | .datatype iri => .datatype iri

def Meaning.isKeyword : Meaning → Bool
  | .keyword _ => true
  | _ => false

/-- An active context takes a key as a term context does: as a name for identifiers, types and
literal values or as none, with its values read in the same way and not arranged as a map. -/
structure AgreesOn (c : TermContext) (active : ActiveContext) (key : String) : Prop where
  idKey : active.expand false true key = .keyword .id ↔ c.isIdKey key = true
  typeKey : c.isTypeKey key = true → active.expand false true key = .keyword .type
  valueKey : active.expand false true key = .keyword .value → key = "@value"
  term : (c.term? key).isSome = true → (active.expand false true key).isKeyword = false
  coercion : (active.term? key).bind (·.coercion) =
    ((c.term? key).bind (·.coercion)).map Coercion.ofTerm
  containers : ∀ d ∈ active.term? key, ∀ container ∈ d.containers,
    container ∈ [Container.list, .set, .graph]

/-- An active context takes all keys as a term context does. -/
def Agrees (c : TermContext) (active : ActiveContext) : Prop := ∀ key, AgreesOn c active key

section

variable {c : TermContext} {active : ActiveContext}

instance (key : String) : Decidable (AgreesOn c active key) :=
  decidable_of_iff ((active.expand false true key = .keyword .id ↔ c.isIdKey key = true) ∧
      (c.isTypeKey key = true → active.expand false true key = .keyword .type) ∧
      (active.expand false true key = .keyword .value → key = "@value") ∧
      ((c.term? key).isSome = true → (active.expand false true key).isKeyword = false) ∧
      (active.term? key).bind (·.coercion) =
        ((c.term? key).bind (·.coercion)).map Coercion.ofTerm ∧
      ∀ d ∈ active.term? key, ∀ container ∈ d.containers,
        container ∈ [Container.list, .set, .graph])
    ⟨fun ⟨hid, htype, hvalue, hterm, hcoercion, hcontainers⟩ ↦
      ⟨hid, htype, hvalue, hterm, hcoercion, hcontainers⟩,
    fun ⟨hid, htype, hvalue, hterm, hcoercion, hcontainers⟩ ↦
      ⟨hid, htype, hvalue, hterm, hcoercion, hcontainers⟩⟩

/-- The keys that one of two contexts says something about. -/
def keysOf (c : TermContext) (active : ActiveContext) : List String :=
  Keyword.spellings.map (·.1) ++ active.terms.keys ++ c.terms.keys ++ c.idAlias.toList ++
    c.typeAlias.toList

theorem mem_keys_of_get? {α : Type} {m : SortedMap α} {key : String} {value : α}
    (h : m.get? key = some value) : key ∈ m.keys :=
  List.mem_map.2 ⟨(key, value), SortedMap.get?_eq_some_iff.1 h, rfl⟩

theorem ActiveContext.isKeyword_expand {key : String}
    (h : (active.expand false true key).isKeyword = true) :
    key ∈ Keyword.spellings.map (·.1) ∨ key ∈ active.terms.keys := by
  revert h
  fun_cases ActiveContext.expand active false true key with
  | case1 k hk =>
    intro
    obtain ⟨_, _, hspellings, -⟩ := List.lookup_eq_some_iff.1 hk
    exact .inl (List.mem_map.2 ⟨(key, k), by rw [hspellings]; simp, rfl⟩)
  | case2 => rintro ⟨⟩
  | case3 _ _ m hm =>
    intro
    obtain ⟨d, hd, -⟩ := Option.bind_eq_some_iff.1 hm
    exact .inr (mem_keys_of_get? hd)
  | case4 => rintro ⟨⟩

/-- Contexts agree if they do on the keys that they say something about. -/
theorem agrees_iff : Agrees c active ↔ ∀ key ∈ keysOf c active, AgreesOn c active key := by
  refine ⟨fun h key _ ↦ h key, fun h key ↦ ?_⟩
  by_cases hkey : key ∈ keysOf c active
  · exact h key hkey
  · simp only [keysOf, List.mem_append, not_or] at hkey
    obtain ⟨⟨⟨⟨hspelling, hactive⟩, hterms⟩, hidAlias⟩, htypeAlias⟩ := hkey
    have hmeaning : (active.expand false true key).isKeyword = false :=
      Bool.eq_false_iff.2 fun hkeyword ↦
        (ActiveContext.isKeyword_expand hkeyword).elim hspelling hactive
    have hkeyword : ∀ k, active.expand false true key ≠ .keyword k := by
      intro k heq
      rw [heq] at hmeaning
      cases hmeaning
    have hterm : active.term? key = none :=
      Option.eq_none_iff_forall_ne_some.2 fun d hd ↦ hactive (mem_keys_of_get? hd)
    have hterm' : c.term? key = none :=
      Option.eq_none_iff_forall_ne_some.2 fun d hd ↦ hterms (mem_keys_of_get? hd)
    have hother : ∀ (other : Option String) (spelling : String), key ∉ other.toList →
        spelling ∈ Keyword.spellings.map (·.1) → ¬(key == spelling || other == some key) = true := by
      intro other spelling hother hmem heq
      rcases Bool.or_eq_true_iff.1 heq with heq | heq
      · exact hspelling (beq_iff_eq.1 heq ▸ hmem)
      · exact hother (by rw [beq_iff_eq.1 heq]; simp)
    have hid : ¬c.isIdKey key = true := hother c.idAlias "@id" hidAlias (by decide)
    have htype : ¬c.isTypeKey key = true := hother c.typeAlias "@type" htypeAlias (by decide)
    refine ⟨iff_of_false (hkeyword .id) hid, fun hkey ↦ absurd hkey htype,
      fun hvalue ↦ absurd hvalue (hkeyword .value), fun _ ↦ hmeaning, ?_, ?_⟩
    · rw [hterm, hterm']
      rfl
    · rw [hterm]
      exact fun _ hd ↦ nomatch hd

instance : Decidable (Agrees c active) := decidable_of_iff' _ agrees_iff

end

/-- Active contexts that agree with a term context, among which all are that a document leads to
by the local contexts of its terms and by its ends of nodes. -/
structure Closed (c : TermContext) (s : Setting) (K : ActiveContext → Prop) : Prop where
  agrees : ∀ active, K active → Agrees c active
  previous : ∀ active previous, K active → active.previous = some previous → K previous
  ofTerm : ∀ active current next term d overrides propagate, K active → K current →
    active.term? term = some d → s.processOfTerm overrides propagate current d = some next → K next

/-! ## Texts -/

variable (c : TermContext) (s : Setting) (K : ActiveContext → Prop)

/-- The text names a blank node, and the IRI for its label is read as that IRI. -/
def IsLabel (text : String) : Prop :=
  ∃ label, text = "_:" ++ label ∧ ∀ active, K active →
    active.expand true false text = .identifier (.blank text) ∧
      active.expand true false (labelIriStart ++ label) =
        .identifier (.iri (labelIriStart ++ label))

/-- The text neither names a blank node nor stands for the IRI of a label. -/
def IsPlain (text : String) : Prop :=
  ∀ active, K active → ∀ relative vocab i, active.expand relative vocab text = .identifier i →
    i.Protected i

/-- Is the identifier neither a blank node nor the IRI of a label? -/
def Identifier.isPlain : Identifier → Bool
  | .iri name => (TermContext.dropStart? labelIriStart name).isNone
  | .blank _ => false
  | .invalid _ => true

theorem Identifier.protected_self_iff {i : Identifier} : i.Protected i ↔ i.isPlain = true := by
  cases i with
  | iri name =>
    rw [isPlain, Option.isNone_iff_eq_none, Option.eq_none_iff_forall_ne_some]
    constructor
    · intro h label heq
      cases h with
      | iri h => exact h label (TermContext.dropStart?_eq_some_iff.1 heq)
    · exact fun h ↦ .iri fun label heq ↦ h label (TermContext.dropStart?_eq_some_iff.2 heq)
  | blank label => exact iff_of_false nofun nofun
  | invalid text => exact iff_of_true (.invalid text) rfl

/-- Whether a text is plain can be told by reading it in each way. -/
theorem isPlain_iff {active : ActiveContext} {text : String} : IsPlain (· = active) text ↔
    ∀ relative vocab, (match active.expand relative vocab text with
      | .identifier i => i.isPlain
      | _ => true) = true := by
  constructor
  · intro h relative vocab
    cases hi : active.expand relative vocab text with
    | identifier i => exact Identifier.protected_self_iff.1 (h active rfl relative vocab i hi)
    | _ => rfl
  · rintro h _ rfl relative vocab i hi
    have hplain := h relative vocab
    rw [hi] at hplain
    exact Identifier.protected_self_iff.2 hplain

def namesLiterals (key : String) : Bool :=
  (c.term? key).any fun d ↦ d.coercion != some .id && d.coercion != some .vocab

/-- The text may stand under the key: a label where labels are protected, anything among literal
values, and what is no label everywhere. -/
def TextFits (key text : String) : Prop :=
  if namesNodes c key then IsLabel K text ∨ ((∀ label, text ≠ "_:" ++ label) ∧ IsPlain K text)
  else namesLiterals c key = true ∨ IsPlain K text

mutual

/-- The texts of a value under a key may stand where they do, and its objects lead to no other
active contexts. -/
def LabelsFit (key : String) : Json → Prop
  | .string text => TextFits c K key text
  | .array items => ItemsFit key items
  | .object members =>
    (∀ context, ("@context", context) ∈ members → ∀ active next, K active →
      s.process true active context = some next → K next) ∧ MembersFit members
  | _ => True

def ItemsFit (key : String) : List Json → Prop
  | [] => True
  | item :: items => LabelsFit key item ∧ ItemsFit key items

/-- The texts of members may stand where they do. -/
def MembersFit : List (String × Json) → Prop
  | [] => True
  | (key, value) :: members =>
    (key ≠ "@context" → key ≠ "@value" → LabelsFit key value) ∧ MembersFit members

end

variable {c s K}

theorem itemsFit_iff {key : String} {items : List Json} :
    ItemsFit c s K key items ↔ ∀ item ∈ items, LabelsFit c s K key item := by
  induction items with
  | nil => simp [ItemsFit]
  | cons item items ih => rw [ItemsFit, ih, List.forall_mem_cons]

theorem membersFit_iff {members : List (String × Json)} :
    MembersFit c s K members ↔ ∀ member ∈ members, member.1 ≠ "@context" → member.1 ≠ "@value" →
      LabelsFit c s K member.1 member.2 := by
  induction members with
  | nil => simp [MembersFit]
  | cons member members ih => rw [MembersFit, ih, List.forall_mem_cons]

/-- A value that fits under a key is an array of values that do, or one of them. -/
theorem LabelsFit.asArray {key : String} {json : Json} (h : LabelsFit c s K key json) :
    ∀ item ∈ asArray json, LabelsFit c s K key item := by
  unfold LinkedData.asArray
  split
  · rw [LabelsFit] at h
    exact itemsFit_iff.1 h
  · exact fun item hitem ↦ List.mem_singleton.1 hitem ▸ h

/-! ## Protected values -/

def protectValue (c : TermContext) (key : String) (value : Json) : Json :=
  if isOpaqueKey c key then value else protectLabels c (namesNodes c key) value

theorem protectItems_eq_map (names : Bool) (items : List Json) :
    protectItems c names items = items.map (protectLabels c names) := by
  induction items with
  | nil => rfl
  | cons item items ih => rw [protectItems, ih, List.map_cons]

theorem protectMembers_eq_map (members : List (String × Json)) :
    protectMembers c members = members.map fun member ↦ (member.1, protectValue c member.1 member.2) := by
  induction members with
  | nil => rfl
  | cons member members ih =>
    rw [protectMembers, ih, List.map_cons]
    rfl

@[simp] theorem asArray_protectLabels (names : Bool) (json : Json) :
    asArray (protectLabels c names json) = (asArray json).map (protectLabels c names) := by
  cases json with
  | array items => exact protectItems_eq_map names items
  | _ => rfl

@[simp] theorem string?_protectLabels (json : Json) :
    (protectLabels c false json).string? = json.string? := by
  cases json <;> rfl

/-! ## Keys -/

namespace Agrees

variable {active : ActiveContext} {key : String} {k : Keyword}

theorem term?_eq_none (h : Agrees c active) (hkey : active.expand false true key = .keyword k) :
    c.term? key = none := by
  rw [← Option.not_isSome_iff_eq_none]
  intro hsome
  have hkeyword := (h key).term hsome
  rw [hkey] at hkeyword
  cases hkeyword

theorem namesNodes_eq_false (h : Agrees c active)
    (hkey : active.expand false true key = .keyword k) (hk : k ≠ .id) : namesNodes c key = false := by
  have hid : c.isIdKey key = false := by
    rw [Bool.eq_false_iff, ne_eq, ← (h key).idKey, hkey]
    exact fun heq ↦ hk (Meaning.keyword.inj heq)
  rw [namesNodes, hid, h.term?_eq_none hkey]
  rfl

theorem namesLiterals_eq_false (h : Agrees c active)
    (hkey : active.expand false true key = .keyword k) : namesLiterals c key = false := by
  rw [namesLiterals, h.term?_eq_none hkey]
  rfl

theorem isOpaqueKey_eq_false (h : Agrees c active) (hcontext : key ≠ "@context")
    (hvalue : key ≠ "@value") (htype : active.expand false true key ≠ .keyword .type) :
    isOpaqueKey c key = false := by
  have hkey : c.isTypeKey key = false := Bool.eq_false_iff.2 fun hkey ↦ htype ((h key).typeKey hkey)
  rw [isOpaqueKey, hkey, beq_eq_false_iff_ne.2 hcontext, beq_eq_false_iff_ne.2 hvalue]
  rfl

theorem isOpaqueKey_of_identifier {i : Identifier} (h : Agrees c active)
    (hkey : active.expand false true key = .identifier i) : isOpaqueKey c key = false := by
  apply h.isOpaqueKey_eq_false
  · rintro rfl
    cases hkey
  · rintro rfl
    cases hkey
  · rw [hkey]
    exact Meaning.noConfusion

end Agrees

/-- A value under a key is read as the value of a property: where its texts are names or literal
values by their key, the property is that of the key. -/
structure IsUnder (c : TermContext) (key : String) (property : Option String) : Prop where
  isIdKey : c.isIdKey key = false
  property : namesNodes c key = true ∨ namesLiterals c key = true → property = some key

theorem Agrees.isUnder_of_keyword {active : ActiveContext} {key : String} {k : Keyword}
    (h : Agrees c active) (hkey : active.expand false true key = .keyword k) (hk : k ≠ .id)
    (property : Option String) : IsUnder c key property where
  isIdKey := (Bool.or_eq_false_iff.1 (h.namesNodes_eq_false hkey hk)).1
  property hnames := by
    rw [h.namesNodes_eq_false hkey hk, h.namesLiterals_eq_false hkey] at hnames
    simp at hnames

theorem Agrees.isUnder_of_identifier {active : ActiveContext} {key : String} {i : Identifier}
    (h : Agrees c active) (hkey : active.expand false true key = .identifier i) :
    IsUnder c key (some key) where
  isIdKey := by
    rw [Bool.eq_false_iff, ne_eq, ← (h key).idKey, hkey]
    exact Meaning.noConfusion
  property _ := rfl

end OntoGraph.LinkedData
