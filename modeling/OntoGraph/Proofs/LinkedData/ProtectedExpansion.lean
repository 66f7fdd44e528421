import OntoGraph.Proofs.LinkedData.ProtectedMembers

/-!
# Expanding documents with protected labels

A document whose labels stand in their places expands in lockstep with the document in which they
are protected. The proof is by induction on the depth, with one case for each function of expansion.
-/

namespace OntoGraph.LinkedData

open Document (TermContext protectLabel protectLabels protectMembers namesNodes)

variable {c : TermContext} {s : Setting} {K : ActiveContext → Prop} {active : ActiveContext}

/-! ## Lockstep -/

/-- Nodes under way that are related. -/
def Started (start start' : NodeParts × Bool) : Prop :=
  start.1.Protected start'.1 ∧ start.2 = start'.2

/-- Expansion runs in lockstep on what the labels are protected in, to a given depth. -/
structure InLockstep (c : TermContext) (s : Setting) (K : ActiveContext → Prop) (fuel : Nat) :
    Prop where
  expand : ∀ {active key property fromMap json}, K active → IsUnder c key property →
    LabelsFit c s K key json → Option.Rel Expanded.Protected
      (expand fuel s active property fromMap json)
      (expand fuel s active property fromMap (protectLabels c (namesNodes c key) json))
  expandObject : ∀ {active property fromMap members},
    (∀ next, objectContext? s active property fromMap members = some next → K next) →
    MembersFit c s K members → Option.Rel Expanded.Protected
      (expandObject fuel s active property fromMap members)
      (expandObject fuel s active property fromMap (protectMembers c members))
  expandMembers : ∀ {active typeContext start start' members}, K active → K typeContext →
    Started start start' → MembersFit c s K members → Option.Rel Started
      (expandMembers fuel s active typeContext start (membersIn active members))
      (expandMembers fuel s active typeContext start' (membersIn active (protectMembers c members)))
  expandKeyword : ∀ {active typeContext start start' k m}, K active → K typeContext →
    Started start start' → active.expand false true m.name = .keyword k → k ≠ .context →
    (k ≠ .value → LabelsFit c s K m.name m.value) → Option.Rel Started
      (expandKeyword fuel s active typeContext start k m)
      (expandKeyword fuel s active typeContext start' k (protectMember c m))
  expandProperty : ∀ {active n n' i m}, K active → n.Protected n' →
    active.expand false true m.name = .identifier i → LabelsFit c s K m.name m.value →
    Option.Rel NodeParts.Protected (expandProperty fuel s active n i m)
      (expandProperty fuel s active n' i (protectMember c m))

section

variable {fuel : Nat}

/-- Only under a property other than `@graph` is a scalar expanded, in the context of its term. -/
theorem expand_of_scalar?_isSome {json : Json} (h : (scalar? json).isSome = true)
    (active : ActiveContext) (property : Option String) (fromMap : Bool) :
    expand (fuel + 1) s active property fromMap json =
      match property, scalar? json with
      | some property, some value =>
        if property = "@graph" then some .nothing
        else match active.term? property with
          | some d => do
            let active ← s.processOfTerm true true active d
            return .single (expandScalar active property value)
          | none => some (.single (expandScalar active property value))
      | _, _ => some .nothing := by
  cases json with
  | null => cases h
  | array => cases h
  | object => cases h
  | _ => cases property <;> rfl

theorem expand_of_scalar {json : Json} {value : Scalar} (h : scalar? json = some value)
    (active : ActiveContext) (property : Option String) (fromMap : Bool) :
    expand (fuel + 1) s active property fromMap json =
      match property with
      | none => some .nothing
      | some property =>
        if property = "@graph" then some .nothing
        else
          (match active.term? property with
            | some d => s.processOfTerm true true active d
            | none => some active).map fun active ↦ .single (expandScalar active property value) := by
  rw [expand_of_scalar?_isSome (by rw [h]; rfl), h]
  cases property with
  | none => rfl
  | some property =>
    dsimp only
    split
    · rfl
    · split
      · cases s.processOfTerm _ _ _ _ <;> rfl
      · rfl

variable (hK : Closed c s K) {key : String} {property : Option String} {fromMap : Bool}

include hK in
theorem lockstep_scalar {json json' : Json} {value value' : Scalar} (hactive : K active)
    (hjson : scalar? json = some value) (hjson' : scalar? json' = some value')
    (h : ∀ name active, property = some name → K active →
      (expandScalar active name value).Protected (expandScalar active name value')) :
    Option.Rel Expanded.Protected (expand (fuel + 1) s active property fromMap json)
      (expand (fuel + 1) s active property fromMap json') := by
  rw [expand_of_scalar hjson, expand_of_scalar hjson']
  cases property with
  | none => exact .some .nothing
  | some property =>
    dsimp only
    split
    · exact .some .nothing
    · refine Lockstep.map (Lockstep.same (R := fun a b ↦ a = b ∧ K a) fun next hnext ↦
        ⟨rfl, hK.contextOfTerm hactive hnext⟩) ?_
      rintro next _ ⟨rfl, hnext⟩
      exact .single (h property next rfl hnext)

include hK in
theorem lockstep_expand (ih : InLockstep c s K fuel) {json : Json} (hactive : K active)
    (hunder : IsUnder c key property) (h : LabelsFit c s K key json) :
    Option.Rel Expanded.Protected (expand (fuel + 1) s active property fromMap json)
      (expand (fuel + 1) s active property fromMap (protectLabels c (namesNodes c key) json)) := by
  cases json with
  | null => exact .some .nothing
  | bool b =>
    exact lockstep_scalar hK hactive rfl rfl fun name active _ hactive ↦
      protected_expandScalar_self hactive fun _ heq ↦ nomatch heq
  | number spelling =>
    exact lockstep_scalar hK hactive rfl rfl fun name active _ hactive ↦
      protected_expandScalar_self hactive fun _ heq ↦ nomatch heq
  | string text =>
    rw [LabelsFit] at h
    refine lockstep_scalar hK hactive rfl rfl fun name active hname hactive ↦ ?_
    exact protected_expandScalar hactive (hK.agrees active hactive) (hname ▸ hunder) h
  | array items =>
    rw [LabelsFit] at h
    rw [protectLabels, protectItems_eq_map]
    have hitems : List.Forall₂ (fun item item' ↦ LabelsFit c s K key item ∧
        item' = protectLabels c (namesNodes c key) item) items
        (items.map (protectLabels c (namesNodes c key))) :=
      Lockstep.forall₂_map fun item hitem ↦ ⟨itemsFit_iff.1 h item hitem, rfl⟩
    unfold expand
    dsimp only
    generalize (property.bind active.term?).any _ = inList
    refine Lockstep.bind (R := List.Forall₂ (List.Forall₂ Item.Protected))
      (Lockstep.mapM hitems ?_) ?_
    · rintro item _ ⟨hfits, rfl⟩
      refine Lockstep.bind (ih.expand hactive hunder hfits) fun e e' he ↦ ?_
      cases he with
      | nothing => cases inList <;> exact .some .nil
      | single he => cases inList <;> exact .some (.cons he .nil)
      | many he =>
        cases inList with
        | false => exact .some he
        | true => exact .some (.cons (.list none he) .nil)
    · exact fun groups groups' hgroups ↦ .some (.many (List.rel_flatMap hgroups fun _ _ h ↦ h))
  | object members =>
    rw [LabelsFit] at h
    unfold expand
    exact ih.expandObject (fun next hnext ↦ hK.objectContext? hactive h.1 hnext) h.2

theorem lockstep_expandMembers (ih : InLockstep c s K fuel) {typeContext : ActiveContext}
    {start start' : NodeParts × Bool} {members : List (String × Json)} (hactive : K active)
    (htypes : K typeContext) (hstart : Started start start') (h : MembersFit c s K members) :
    Option.Rel Started
      (expandMembers (fuel + 1) s active typeContext start (membersIn active members))
      (expandMembers (fuel + 1) s active typeContext start'
        (membersIn active (protectMembers c members))) := by
  rw [membersIn_protectMembers]
  have hmembers : List.Forall₂ (fun m m' ↦ m ∈ membersIn active members ∧ m' = protectMember c m)
      (membersIn active members) ((membersIn active members).map (protectMember c)) :=
    Lockstep.forall₂_map fun m hm ↦ ⟨hm, rfl⟩
  unfold expandMembers
  refine Lockstep.foldlM hmembers ?_ hstart
  rintro ⟨n, hasLiteral⟩ ⟨n', hasLiteral'⟩ m _ hn ⟨hm, rfl⟩
  obtain ⟨hn, rfl⟩ : n.Protected n' ∧ hasLiteral = hasLiteral' := hn
  obtain ⟨hmeaning, -⟩ := meaning_of_mem hm
  have hfits := h.of_meaning hm
  obtain ⟨name, meaning, value⟩ := m
  dsimp only [protectMember] at hmeaning hfits ⊢
  cases meaning with
  | nothing => exact .some ⟨hn, rfl⟩
  | identifier i =>
    dsimp only
    split
    · refine Lockstep.bind (ih.expandProperty hactive hn hmeaning.symm (hfits ?_ ?_)) ?_
      · exact Meaning.noConfusion
      · exact Meaning.noConfusion
      · exact fun n n' hn ↦ .some ⟨hn, rfl⟩
    · exact .some ⟨hn, rfl⟩
  | keyword k =>
    have hkeyword : k ≠ .context → Option.Rel Started
        (if n.hasMember k then none
          else expandKeyword fuel s active typeContext (n, hasLiteral) k ⟨name, .keyword k, value⟩)
        (if n'.hasMember k then none
          else expandKeyword fuel s active typeContext (n', hasLiteral) k
            (protectMember c ⟨name, .keyword k, value⟩)) := by
      intro hcontext
      rw [hn.hasMember k]
      split
      · exact .none
      · refine ih.expandKeyword hactive htypes ⟨hn, rfl⟩ hmeaning.symm hcontext fun hvalue ↦ ?_
        exact hfits (fun heq ↦ hcontext (Meaning.keyword.inj heq))
          (fun heq ↦ hvalue (Meaning.keyword.inj heq))
    cases k with
    | context => exact .some ⟨hn, rfl⟩
    | _ => exact hkeyword Keyword.noConfusion

/-- Where a term context agrees, the value of a property is expanded as such, whatever it is. -/
theorem expandProperty_of_agrees (h : Agrees c active) (n : NodeParts) (i : Identifier)
    (m : Member) : expandProperty (fuel + 1) s active n i m =
      (expand fuel s active (some m.name) false m.value).bind
        (n.addValues? ((active.term? m.name).getD {}) i) := by
  have hjson : ((active.term? m.name).getD {}).coercion ≠ some .json := by
    have hcoercion := (h m.name).coercion
    intro heq
    cases hd : active.term? m.name with
    | none =>
      rw [hd] at heq
      cases heq
    | some d =>
      rw [hd, Option.getD_some] at heq
      rw [hd, Option.bind_some, heq] at hcoercion
      obtain ⟨coercion, -, hcoercion⟩ := Option.map_eq_some_iff.1 hcoercion.symm
      cases coercion <;> cases hcoercion
  have hcontainers : ∀ container ∈ ((active.term? m.name).getD {}).containers,
      container ∈ [Container.list, .set, .graph] := by
    cases hd : active.term? m.name with
    | none => exact fun _ hmem ↦ nomatch hmem
    | some d => exact (h m.name).containers d hd
  have hlanguage : ((active.term? m.name).getD {}).containers.contains .language = false := by
    rw [Bool.eq_false_iff, ne_eq, List.contains_iff_mem]
    exact fun hmem ↦ absurd (hcontainers _ hmem) (by decide)
  have hmap : (((active.term? m.name).getD {}).containers.any
      fun c ↦ c == .index || c == .type || c == .id) = false := by
    rw [List.any_eq_false]
    intro container hmem
    have hcontainer := hcontainers container hmem
    revert hcontainer
    cases container <;> decide
  obtain ⟨name, meaning, value⟩ := m
  unfold expandProperty
  dsimp only
  rw [if_neg hjson]
  cases value with
  | object members =>
    dsimp only at hlanguage hmap ⊢
    rw [hlanguage, hmap]
    rfl
  | _ => rfl

include hK in
theorem lockstep_expandProperty (ih : InLockstep c s K fuel) {n n' : NodeParts} {i : Identifier}
    {m : Member} (hactive : K active) (hn : n.Protected n')
    (hname : active.expand false true m.name = .identifier i)
    (h : LabelsFit c s K m.name m.value) :
    Option.Rel NodeParts.Protected (expandProperty (fuel + 1) s active n i m)
      (expandProperty (fuel + 1) s active n' i (protectMember c m)) := by
  have hagrees := hK.agrees active hactive
  rw [expandProperty_of_agrees hagrees, expandProperty_of_agrees hagrees]
  refine Lockstep.bind (R := Expanded.Protected) ?_ fun e e' he ↦ hn.addValues? he _ i
  rw [protectMember, protectValue_eq (hagrees.isOpaqueKey_of_identifier hname)]
  exact ih.expand hactive (hagrees.isUnder_of_identifier hname) h

/-! ### Members whose names are keywords -/

include hK in
theorem lockstep_id {typeContext : ActiveContext} {n n' : NodeParts} {hasLiteral : Bool}
    {m : Member} (hactive : K active) (hn : n.Protected n')
    (hname : active.expand false true m.name = .keyword .id)
    (hfits : LabelsFit c s K m.name m.value) : Option.Rel Started
      (expandKeyword (fuel + 1) s active typeContext (n, hasLiteral) .id m)
      (expandKeyword (fuel + 1) s active typeContext (n', hasLiteral) .id (protectMember c m)) := by
  have hagrees := hK.agrees active hactive
  have hnames : namesNodes c m.name = true := by
    rw [namesNodes, (hagrees m.name).idKey.1 hname, Bool.true_or]
  have hvalue : (protectMember c m).value = protectLabels c true m.value := by
    rw [hagrees.value_protectMember hname (by decide) (by decide) (by decide), hnames]
  unfold expandKeyword
  dsimp only
  rw [hvalue]
  cases hm : m.value with
  | string text =>
    rw [hm, LabelsFit] at hfits
    exact .some ⟨{ hn with id := hfits.identifier? hnames hactive }, rfl⟩
  | _ => exact .none

include hK in
theorem lockstep_type {typeContext : ActiveContext} {n n' : NodeParts} {hasLiteral : Bool}
    {m : Member} (hactive : K active) (htypes : K typeContext) (hn : n.Protected n')
    (hname : active.expand false true m.name = .keyword .type)
    (hfits : LabelsFit c s K m.name m.value) : Option.Rel Started
      (expandKeyword (fuel + 1) s active typeContext (n, hasLiteral) .type m)
      (expandKeyword (fuel + 1) s active typeContext (n', hasLiteral) .type (protectMember c m)) := by
  have htexts := (hK.agrees active hactive).forall₂_texts hname nofun hfits
  unfold expandKeyword
  refine Lockstep.bind (R := List.Forall₂ Identifier.Protected) (Lockstep.mapM htexts ?_) ?_
  · rintro item item' ⟨htext, hplain⟩
    rw [← htext]
    refine Lockstep.bind_same fun text hitem ↦ ?_
    cases hmeaning : typeContext.expand true true text with
    | identifier i => exact .some (hplain text hitem typeContext htypes true true i hmeaning)
    | _ => exact .none
  · exact fun types types' h ↦ .some ⟨{ hn with types := List.rel_append hn.types h }, rfl⟩

include hK in
theorem lockstep_reverse (ih : InLockstep c s K fuel) {typeContext : ActiveContext}
    {n n' : NodeParts} {hasLiteral : Bool} {m : Member} (hactive : K active) (hn : n.Protected n')
    (hname : active.expand false true m.name = .keyword .reverse)
    (hfits : LabelsFit c s K m.name m.value) : Option.Rel Started
      (expandKeyword (fuel + 1) s active typeContext (n, hasLiteral) .reverse m)
      (expandKeyword (fuel + 1) s active typeContext (n', hasLiteral) .reverse
        (protectMember c m)) := by
  have hagrees := hK.agrees active hactive
  unfold expandKeyword
  dsimp only
  rw [hagrees.value_protectMember hname (by decide) (by decide) (by decide)]
  cases hm : m.value with
  | object members =>
    rw [hm, LabelsFit] at hfits
    rw [protectLabels, protectMembers_eq_map]
    refine Lockstep.bind (R := NodeParts.Protected) ?_ fun n n' hn ↦ .some ⟨hn, rfl⟩
    refine Lockstep.foldlM (R := fun member member' ↦ member ∈ members ∧
      member' = (member.1, protectValue c member.1 member.2))
      (Lockstep.forall₂_map fun member hmember ↦ ⟨hmember, rfl⟩) ?_ hn
    rintro n n' ⟨key, value⟩ _ hn ⟨hmember, rfl⟩
    dsimp only
    cases hkey : active.expand false true key with
    | keyword => exact .none
    | nothing => exact .some hn
    | identifier i =>
      dsimp only
      split
      · have hvalue := hfits.2.of_meaning (m := ⟨key, .identifier i, value⟩)
          (List.mem_map.2 ⟨(key, value), hmember, by rw [← hkey]⟩)
            (by rintro ⟨⟩) (by rintro ⟨⟩)
        rw [protectValue_eq (hagrees.isOpaqueKey_of_identifier hkey)]
        refine Lockstep.bind (ih.expand hactive (hagrees.isUnder_of_identifier hkey) hvalue)
          fun e e' he ↦ ?_
        split
        · exact .some { hn with
            properties := List.rel_append hn.properties (protected_values i he.items) }
        · refine Lockstep.bind (protected_nodes? he.items) fun nodes nodes' hnodes ↦ ?_
          exact .some { hn with
            reverse := List.rel_append hn.reverse (protected_values i hnodes) }
      · exact .some hn
  | _ => exact .none

include hK in
theorem lockstep_nest (ih : InLockstep c s K fuel) {typeContext : ActiveContext}
    {start start' : NodeParts × Bool} {m : Member} (hactive : K active) (htypes : K typeContext)
    (hstart : Started start start')
    (hname : active.expand false true m.name = .keyword .nest)
    (hfits : LabelsFit c s K m.name m.value) : Option.Rel Started
      (expandKeyword (fuel + 1) s active typeContext start .nest m)
      (expandKeyword (fuel + 1) s active typeContext start' .nest (protectMember c m)) := by
  have hagrees := hK.agrees active hactive
  unfold expandKeyword
  dsimp only
  rw [hagrees.value_protectMember hname nofun nofun nofun, asArray_protectLabels]
  refine Lockstep.foldlM (R := fun nested nested' ↦ LabelsFit c s K m.name nested ∧
    nested' = protectLabels c (namesNodes c m.name) nested)
    (Lockstep.forall₂_map fun nested hnested ↦ ⟨hfits.asArray nested hnested, rfl⟩) ?_ hstart
  rintro start start' nested _ hstart ⟨hnested, rfl⟩
  cases nested with
  | object members =>
    rw [LabelsFit] at hnested
    have hvalues : (membersIn active (protectMembers c members)).any
        (·.meaning = .keyword .value) =
        (membersIn active members).any (·.meaning = .keyword .value) := by
      rw [membersIn_protectMembers, List.any_map]
      rfl
    rw [protectLabels]
    dsimp only [Json.members?, Option.pure_def, Option.bind_eq_bind, Option.bind_some]
    rw [hvalues]
    split
    · exact .none
    · exact ih.expandMembers hactive htypes hstart hnested.2
  | _ => exact .none

include hK in
theorem lockstep_expandKeyword (ih : InLockstep c s K fuel) {typeContext : ActiveContext}
    {start start' : NodeParts × Bool} {k : Keyword} {m : Member} (hactive : K active)
    (htypes : K typeContext) (hstart : Started start start')
    (hname : active.expand false true m.name = .keyword k) (hcontext : k ≠ .context)
    (hfits : k ≠ .value → LabelsFit c s K m.name m.value) : Option.Rel Started
      (expandKeyword (fuel + 1) s active typeContext start k m)
      (expandKeyword (fuel + 1) s active typeContext start' k (protectMember c m)) := by
  have hagrees := hK.agrees active hactive
  obtain ⟨n, hasLiteral⟩ := start
  obtain ⟨n', hasLiteral'⟩ := start'
  obtain ⟨hn, rfl⟩ : n.Protected n' ∧ hasLiteral = hasLiteral' := hstart
  cases k with
  | id => exact lockstep_id hK hactive hn hname (hfits (by decide))
  | type => exact lockstep_type hK hactive htypes hn hname (hfits (by decide))
  | reverse => exact lockstep_reverse hK ih hactive hn hname (hfits (by decide))
  | nest => exact lockstep_nest hK ih hactive htypes ⟨hn, rfl⟩ hname (hfits (by decide))
  | index =>
    unfold expandKeyword
    dsimp only
    rw [protectMember, hagrees.string?_protectValue hname (by decide)]
    exact Lockstep.bind_same fun index _ ↦ .some ⟨{ hn with index := rfl }, rfl⟩
  | graph =>
    unfold expandKeyword
    dsimp only
    rw [hagrees.value_protectMember hname (by decide) (by decide) (by decide)]
    refine Lockstep.bind (ih.expand hactive (hagrees.isUnder_of_keyword hname (by decide) _)
      (hfits (by decide))) fun e e' he ↦ ?_
    exact .some ⟨{ hn with graph := .some (Item.protected_distinct he.items) }, rfl⟩
  | included =>
    unfold expandKeyword
    dsimp only
    rw [hagrees.value_protectMember hname (by decide) (by decide) (by decide)]
    refine Lockstep.bind (ih.expand hactive (hagrees.isUnder_of_keyword hname (by decide) _)
      (hfits (by decide))) fun e e' he ↦ ?_
    refine Lockstep.bind (protected_nodes? he.items) fun nodes nodes' hnodes ↦ ?_
    exact .some ⟨{ hn with
      included := Item.protected_distinct (List.rel_append hn.included hnodes) }, rfl⟩
  | context => exact absurd rfl hcontext
  | _ => exact .some ⟨hn, rfl⟩

/-! ### Objects -/

section

variable {members : List (String × Json)} {m : Member}

include hK in
/-- A list object expands to the items of the list. -/
theorem lockstep_list (ih : InLockstep c s K fuel) (hactive : K active)
    (hfits : MembersFit c s K members) (hm : m ∈ membersIn active members)
    (hlist : m.meaning = .keyword .list) : Option.Rel Expanded.Protected
      (do
        let index ← (membersIn active members).foldlM (fun index m ↦
          match m.meaning with
          | .keyword .list => some index
          | .keyword .index => m.value.string?.map some
          | _ => none) none
        let groups ← (asArray m.value).mapM (expand fuel s active property false)
        return .single (.list (groups.flatMap Expanded.items) index))
      (do
        let index ← ((membersIn active members).map (protectMember c)).foldlM (fun index m ↦
          match m.meaning with
          | .keyword .list => some index
          | .keyword .index => m.value.string?.map some
          | _ => none) none
        let groups ← (asArray (protectMember c m).value).mapM (expand fuel s active property false)
        return .single (.list (groups.flatMap Expanded.items) index)) := by
  have hagrees := hK.agrees active hactive
  have hname : active.expand false true m.name = .keyword .list := (meaning_of_mem hm).1 ▸ hlist
  have hvalue : LabelsFit c s K m.name m.value := by
    refine hfits.of_meaning hm ?_ ?_ <;> rw [hlist] <;> nofun
  rw [Lockstep.foldlM_map]
  · refine Lockstep.bind_same fun index _ ↦ ?_
    rw [hagrees.value_protectMember hname nofun nofun nofun, asArray_protectLabels]
    refine Lockstep.bind (Lockstep.mapM (S := Expanded.Protected)
      (R := fun item item' ↦ LabelsFit c s K m.name item ∧
        item' = protectLabels c (namesNodes c m.name) item)
      (Lockstep.forall₂_map fun item hitem ↦ ⟨hvalue.asArray item hitem, rfl⟩) ?_) ?_
    · rintro item _ ⟨hitem, rfl⟩
      exact ih.expand hactive (hagrees.isUnder_of_keyword hname nofun _) hitem
    · intro groups groups' hgroups
      exact .some (.single (.list index (List.rel_flatMap hgroups fun _ _ he ↦ he.items)))
  · intro index m hm
    obtain ⟨name, meaning, value⟩ := m
    have hmeaning := (meaning_of_mem hm).1
    dsimp only at hmeaning
    cases meaning with
    | keyword k =>
      cases k with
      | index => exact congrArg (Option.map some) (hagrees.string?_protectValue hmeaning.symm nofun value)
      | _ => rfl
    | _ => rfl

include hK in
/-- A set object expands to what is in the set. -/
theorem lockstep_set (ih : InLockstep c s K fuel) (hactive : K active)
    (hfits : MembersFit c s K members) (hm : m ∈ membersIn active members)
    (hset : m.meaning = .keyword .set) : Option.Rel Expanded.Protected
      (if (membersIn active members).all fun m ↦ m.meaning == .keyword .set ||
          m.meaning == .keyword .index && m.value.string?.isSome then
        expand fuel s active property false m.value
      else none)
      (if ((membersIn active members).map (protectMember c)).all fun m ↦ m.meaning == .keyword .set ||
          m.meaning == .keyword .index && m.value.string?.isSome then
        expand fuel s active property false (protectMember c m).value
      else none) := by
  have hagrees := hK.agrees active hactive
  have hname : active.expand false true m.name = .keyword .set := (meaning_of_mem hm).1 ▸ hset
  have hvalue : LabelsFit c s K m.name m.value := by
    refine hfits.of_meaning hm ?_ ?_ <;> rw [hset] <;> nofun
  have hall : ((membersIn active members).map (protectMember c)).all (fun m ↦
      m.meaning == .keyword .set || m.meaning == .keyword .index && m.value.string?.isSome) =
      (membersIn active members).all fun m ↦
        m.meaning == .keyword .set || m.meaning == .keyword .index && m.value.string?.isSome := by
    rw [List.all_map, Bool.eq_iff_iff, List.all_eq_true, List.all_eq_true]
    refine forall₂_congr fun m hm ↦ ?_
    obtain ⟨name, meaning, value⟩ := m
    have hmeaning := (meaning_of_mem hm).1
    dsimp only [Function.comp_apply, protectMember] at hmeaning ⊢
    by_cases hindex : meaning = .keyword .index
    · rw [hagrees.string?_protectValue (hmeaning.symm.trans hindex) nofun]
    · rw [beq_eq_false_iff_ne.2 hindex, Bool.false_and, Bool.false_and]
  rw [hall]
  split
  · rw [hagrees.value_protectMember hname nofun nofun nofun]
    exact ih.expand hactive (hagrees.isUnder_of_keyword hname nofun _) hvalue
  · exact .none

end

include hK in
theorem lockstep_expandObject (ih : InLockstep c s K fuel) {members : List (String × Json)}
    (hcontext : ∀ next, objectContext? s active property fromMap members = some next → K next)
    (hfits : MembersFit c s K members) : Option.Rel Expanded.Protected
      (expandObject (fuel + 1) s active property fromMap members)
      (expandObject (fuel + 1) s active property fromMap (protectMembers c members)) := by
  unfold expandObject
  rw [objectContext?_protectMembers]
  refine Lockstep.bind_same fun typeContext htypeContext ↦ ?_
  have htypes := hcontext typeContext htypeContext
  have hagrees := hK.agrees typeContext htypes
  dsimp only
  rw [membersIn_protectMembers typeContext,
    typeMembersOf_protectMember,
    processTypes?_protectMember hagrees fun m ↦ meaning_of_mem_typeMembersOf]
  refine Lockstep.bind_same fun active hactive ↦ ?_
  rw [isJson_protectMember hagrees active fun m ↦ meaning_of_mem_typeMembersOf,
    membersIn_protectMembers active, getLast?_protectMember .set, getLast?_protectMember .value]
  have hK' := hK.processTypes? htypes hactive
  have hlists : ∀ inside : Bool,
      (if inside then ((membersIn active members).map (protectMember c)).filter
        (·.meaning = .keyword .list) else []).getLast? =
      (if inside then (membersIn active members).filter
        (·.meaning = .keyword .list) else []).getLast?.map (protectMember c) := by
    intro inside
    cases inside with
    | true => exact getLast?_protectMember .list _
    | false => rfl
  rw [hlists]
  cases hlist : (if property.any (· ≠ "@graph") then (membersIn active members).filter
      (·.meaning = .keyword .list) else []).getLast? with
  | some m =>
    have hm : m ∈ membersIn active members ∧ m.meaning = .keyword .list := by
      split at hlist
      · exact meaning_of_getLast? hlist
      · cases hlist
    exact lockstep_list hK ih hK' hfits hm.1 hm.2
  | none =>
    cases hset : ((membersIn active members).filter (·.meaning = .keyword .set)).getLast? with
    | some m =>
      have hm := meaning_of_getLast? hset
      exact lockstep_set hK ih hK' hfits hm.1 hm.2
    | none =>
      cases hvalue : ((membersIn active members).filter (·.meaning = .keyword .value)).getLast? with
      | some m =>
        have hm := meaning_of_getLast? hvalue
        dsimp only [Option.map_some, Option.map_none]
        rw [expandLiteral?_protectMember (hK.agrees active hK') typeContext _ hm.1
          (fun m hm ↦ (meaning_of_mem hm).1) hm.2]
        exact Lockstep.same fun e he ↦ protected_of_expandLiteral? he
      | none =>
        have hstart : Started ({}, false) ({}, false) := ⟨.empty, rfl⟩
        have hmembers := ih.expandMembers hK' htypes hstart hfits
        rw [membersIn_protectMembers] at hmembers
        refine Lockstep.bind hmembers ?_
        rintro ⟨n, hasLiteral⟩ ⟨n', _⟩ ⟨hn, rfl⟩
        dsimp only at hn ⊢
        rw [hn.isEmpty, Lockstep.isNone_eq hn.id]
        split
        · exact .some .nothing
        · exact .some (.single hn.toItem)

include hK in
/-- Expansion runs in lockstep to any depth. -/
theorem inLockstep (fuel : Nat) : InLockstep c s K fuel := by
  induction fuel with
  | zero =>
    constructor <;> intros <;> exact .none
  | succ fuel ih =>
    exact {
      expand := lockstep_expand hK ih
      expandObject := lockstep_expandObject hK ih
      expandMembers := lockstep_expandMembers ih
      expandKeyword := lockstep_expandKeyword hK ih
      expandProperty := lockstep_expandProperty hK ih }

end

end OntoGraph.LinkedData
