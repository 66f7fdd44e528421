import OntoGraph.Proofs.Document.EntityNames
import OntoGraph.Proofs.Document.ExportedTriples
import OntoGraph.Proofs.Json.Normal

/-!
# The object of a subject

A subject becomes one object: a member with its identifier, one with its types, and one for each
key that its other predicates have. The members are put into the object one after the other, and of
those with one name the last stays. So nothing is lost exactly if the predicates have different keys
and none of them has the key of the identifier or that of the types.
-/

namespace OntoGraph.Document

open Ontology OntoGraph.Graph Rdf InstanceGraph

/-! ## Values by key -/

theorem lookup_addValue (groups : List (String × List Json)) (key : String) (value : Json)
    (other : String) : (addValue groups key value).lookup other =
      if other = key then some ((groups.lookup key).getD [] ++ [value])
      else groups.lookup other := by
  induction groups with
  | nil =>
    rw [addValue, SortedMap.lookup_cons_eq_ite]
    rfl
  | cons group groups ih =>
    obtain ⟨k, values⟩ := group
    rw [addValue, SortedMap.lookup_cons_eq_ite (k, values) groups key,
      SortedMap.lookup_cons_eq_ite (k, values) groups other]
    by_cases hkey : k = key
    · rw [if_pos hkey, SortedMap.lookup_cons_eq_ite, hkey]
      by_cases hother : other = key <;> simp [hother]
    · rw [if_neg hkey, SortedMap.lookup_cons_eq_ite, ih]
      by_cases hother : other = k
      · have hne : other ≠ key := hother ▸ hkey
        simp [hother, hkey]
      · simp [hother, Ne.symm hkey]

theorem mem_keys_addValue {groups : List (String × List Json)} {key : String} {value : Json}
    {other : String} :
    other ∈ (addValue groups key value).map (·.1) ↔ other = key ∨ other ∈ groups.map (·.1) := by
  induction groups with
  | nil => simp [addValue]
  | cons group groups ih =>
    obtain ⟨k, values⟩ := group
    unfold addValue
    split_ifs with hkey
    · simp [hkey]
    · rw [List.map_cons, List.mem_cons, ih, List.map_cons, List.mem_cons]
      exact or_left_comm

theorem nodup_keys_addValue {groups : List (String × List Json)} (h : (groups.map (·.1)).Nodup)
    (key : String) (value : Json) : ((addValue groups key value).map (·.1)).Nodup := by
  induction groups with
  | nil => exact List.nodup_singleton key
  | cons group groups ih =>
    obtain ⟨hnew, hrest⟩ := List.nodup_cons.1 h
    unfold addValue
    split_ifs with hkey
    · exact h
    · apply List.nodup_cons.2 ⟨_, ih hrest⟩
      intro hmem
      rcases mem_keys_addValue.1 hmem with heq | hmem
      · exact hkey heq
      · exact hnew hmem

theorem length_values_addValue (groups : List (String × List Json)) (key : String) (value : Json) :
    ((addValue groups key value).flatMap (·.2)).length = (groups.flatMap (·.2)).length + 1 := by
  induction groups with
  | nil => rfl
  | cons group groups ih =>
    unfold addValue
    split
    · simp only [List.flatMap_cons, List.length_append, List.length_singleton]
      omega
    · simp only [List.flatMap_cons, List.length_append, ih]
      omega

def groupValues (pairs : List (String × Json)) : List (String × List Json) :=
  pairs.foldl (fun groups pair ↦ addValue groups pair.1 pair.2) []

def valuesAt (pairs : List (String × Json)) (key : String) : List Json :=
  (pairs.filter (·.1 = key)).map (·.2)

theorem groupValues_concat (pairs : List (String × Json)) (pair : String × Json) :
    groupValues (pairs ++ [pair]) = addValue (groupValues pairs) pair.1 pair.2 :=
  List.foldl_append

theorem nodup_keys_groupValues (pairs : List (String × Json)) :
    ((groupValues pairs).map (·.1)).Nodup := by
  induction pairs using List.reverseRecOn with
  | nil => exact List.nodup_nil
  | append_singleton pairs pair ih =>
    rw [groupValues_concat]
    exact nodup_keys_addValue ih _ _

theorem valuesAt_of_not_mem {pairs : List (String × Json)} {key : String}
    (h : key ∉ pairs.map (·.1)) : valuesAt pairs key = [] := by
  rw [valuesAt, List.map_eq_nil_iff, List.filter_eq_nil_iff]
  intro pair hpair heq
  exact h (List.mem_map.2 ⟨pair, hpair, of_decide_eq_true heq⟩)

/-- A key that comes in the list has all its values. -/
theorem lookup_groupValues (pairs : List (String × Json)) (key : String) :
    (groupValues pairs).lookup key =
      if key ∈ pairs.map (·.1) then some (valuesAt pairs key) else none := by
  induction pairs using List.reverseRecOn with
  | nil => rfl
  | append_singleton pairs pair ih =>
    have hconcat : valuesAt (pairs ++ [pair]) key =
        valuesAt pairs key ++ if pair.1 = key then [pair.2] else [] := by
      rw [valuesAt, List.filter_append, List.map_append, ← valuesAt]
      by_cases heq : pair.1 = key <;> simp [heq]
    rw [groupValues_concat, lookup_addValue, hconcat, List.map_append, List.map_singleton]
    by_cases heq : key = pair.1
    · subst heq
      have hheld : ((groupValues pairs).lookup pair.1).getD [] = valuesAt pairs pair.1 := by
        rw [ih]
        split_ifs with hheld
        · rfl
        · exact (valuesAt_of_not_mem hheld).symm
      have hmem : pair.1 ∈ pairs.map (·.1) ++ [pair.1] :=
        List.mem_append_right _ (List.mem_singleton_self _)
      rw [if_pos rfl, if_pos hmem, if_pos rfl, hheld]
    · have hmem : key ∈ pairs.map (·.1) ++ [pair.1] ↔ key ∈ pairs.map (·.1) := by
        rw [List.mem_append, List.mem_singleton]
        exact or_iff_left heq
      rw [if_neg heq, if_neg (Ne.symm heq), List.append_nil, ih]
      exact if_congr hmem.symm rfl rfl

theorem mem_groupValues {pairs : List (String × Json)} {group : String × List Json} :
    group ∈ groupValues pairs ↔
      group.1 ∈ pairs.map (·.1) ∧ group.2 = valuesAt pairs group.1 := by
  rw [← SortedMap.lookup_eq_some_iff_of_nodup (nodup_keys_groupValues pairs), lookup_groupValues]
  split_ifs with hmem
  · rw [Option.some.injEq, eq_comm]
    exact (and_iff_right hmem).symm
  · exact iff_of_false nofun fun h ↦ hmem h.1

/-- No value is lost, and none is there twice. -/
theorem length_values_groupValues (pairs : List (String × Json)) :
    ((groupValues pairs).flatMap (·.2)).length = pairs.length := by
  induction pairs using List.reverseRecOn with
  | nil => rfl
  | append_singleton pairs pair ih =>
    rw [groupValues_concat, length_values_addValue, ih, List.length_append, List.length_singleton]

/-! ## The object of a subject -/

def identifierKey (c : TermContext) (subject : Term) : String :=
  if subject.isBlank then "@id" else c.idKey

def typesOf (store : Store) (subject : Term) : List String :=
  ((store.triplesOf subject).toList.filter (·.predicate = rdfType)).filterMap (·.object.iri?)

/-- The triples of a subject that do not say its types. -/
def valueTriples (store : Store) (subject : Term) : List Triple :=
  (store.triplesOf subject).toList.filter (·.predicate ≠ rdfType)

def compactTriple (c : TermContext) (t : Triple) : String × Json :=
  ((predicateKey c t.predicate).1, compactValue c (predicateKey c t.predicate).2 t.object)

def valuesIn : Json → List Json
  | .array values => values
  | value => [value]

/-- Is everything that a store says of a subject in its object, each in a member of its own? -/
structure OverwritesNothing (c : TermContext) (store : Store) (subject : Term) (object : Json) :
    Prop where
  id : object.member? (identifierKey c subject) = some (.string subject.id)
  types : object.member? c.typeKey =
    some (unlessSingle ((typesOf store subject).map fun iri ↦ .string (c.compactIri iri)))
  /-- Different predicates have different members, and not those of the identifier and the
  types. -/
  apart : ∀ t ∈ valueTriples store subject, ∀ u ∈ valueTriples store subject,
    (predicateKey c t.predicate).1 = (predicateKey c u.predicate).1 → t.predicate = u.predicate
  free : ∀ t ∈ valueTriples store subject,
    (predicateKey c t.predicate).1 ∉ [identifierKey c subject, c.typeKey]
  /-- The member of a predicate has its values, in their order. -/
  values : ∀ t ∈ valueTriples store subject,
    object.member? (predicateKey c t.predicate).1 = some (unlessSingle
      (((valueTriples store subject).filter (·.predicate = t.predicate)).map fun u ↦
        (compactTriple c u).2))
  /-- In all members but those of the identifier and the types there are as many values as there
  are triples. -/
  count : (((object.members?.getD []).filter
      (·.1 ∉ [identifierKey c subject, c.typeKey])).flatMap (valuesIn ·.2)).length =
    (valueTriples store subject).length

/-- Do paths have different keys, none of which is taken? -/
structure NamesApart (c : TermContext) (taken paths : List String) : Prop where
  apart : ∀ a ∈ paths, ∀ b ∈ paths, (predicateKey c a).1 = (predicateKey c b).1 → a = b
  free : ∀ a ∈ paths, (predicateKey c a).1 ∉ taken

theorem NamesApart.mono {c : TermContext} {taken taken' paths paths' : List String}
    (h : NamesApart c taken paths) (htaken : taken' ⊆ taken) (hpaths : paths' ⊆ paths) :
    NamesApart c taken' paths' where
  apart a ha b hb := h.apart a (hpaths ha) b (hpaths hb)
  free a ha hmem := h.free a (hpaths ha) (htaken hmem)

@[simp] theorem valuesIn_compactValue (c : TermContext) (definition : Option TermDefinition)
    (term : Term) :
    valuesIn (compactValue c definition term) = [compactValue c definition term] := by
  unfold compactValue
  dsimp only
  split
  · split <;> rfl
  · split <;> rfl
  · rfl
  · split
    · rfl
    · split <;> rfl

theorem valuesIn_unlessSingle {values : List Json}
    (h : ∀ value ∈ values, valuesIn value = [value]) :
    valuesIn (unlessSingle values) = values := by
  unfold unlessSingle
  split
  · exact h _ (List.mem_singleton_self _)
  · rfl

section

variable {c : TermContext} {store : Store} {subject : Term}

/-- The members of the object of a subject, in the order in which they are put into it. -/
def memberList (c : TermContext) (store : Store) (subject : Term) : List (String × Json) :=
  (identifierKey c subject, .string subject.id) ::
    (c.typeKey,
      unlessSingle ((typesOf store subject).map fun iri ↦ .string (c.compactIri iri))) ::
    (groupValues ((valueTriples store subject).map (compactTriple c))).map fun group ↦
      (group.1, unlessSingle group.2)

theorem compactSubject_eq : compactSubject c store subject =
    .ofMembers (memberList c store subject) := by
  unfold compactSubject memberList groupValues
  rw [List.foldl_map]
  rfl

/-- Where the predicates have keys of their own, no group takes the key of the identifier or that of
the types. -/
theorem NamesApart.group_free (h : NamesApart c [identifierKey c subject, c.typeKey]
    ((valueTriples store subject).map (·.predicate))) {group : String × List Json}
    (hgroup : group ∈ groupValues ((valueTriples store subject).map (compactTriple c))) :
    group.1 ∉ [identifierKey c subject, c.typeKey] := by
  obtain ⟨pair, hpair, hsame⟩ := List.mem_map.1 (mem_groupValues.1 hgroup).1
  obtain ⟨t, ht, rfl⟩ := List.mem_map.1 hpair
  rw [← hsame]
  exact h.free t.predicate (List.mem_map_of_mem ht)

theorem nodup_keys_memberList (hkeys : identifierKey c subject ≠ c.typeKey)
    (h : NamesApart c [identifierKey c subject, c.typeKey]
      ((valueTriples store subject).map (·.predicate))) :
    ((memberList c store subject).map (·.1)).Nodup := by
  have hnodup := nodup_keys_groupValues ((valueTriples store subject).map (compactTriple c))
  unfold memberList
  rw [List.map_cons, List.map_cons, List.map_map]
  apply List.nodup_cons.2 ⟨_, List.nodup_cons.2 ⟨_, hnodup⟩⟩
  · intro hmem
    rcases List.mem_cons.1 hmem with heq | hmem
    · exact hkeys heq
    · obtain ⟨group, hgroup, heq⟩ := List.mem_map.1 hmem
      exact h.group_free hgroup (heq ▸ List.mem_cons_self)
  · intro hmem
    obtain ⟨group, hgroup, heq⟩ := List.mem_map.1 hmem
    exact h.group_free hgroup (heq ▸ List.mem_cons_of_mem _ List.mem_cons_self)

/-- The values of a key are those of the one predicate that has it. -/
theorem NamesApart.valuesAt_eq {taken : List String}
    (h : NamesApart c taken ((valueTriples store subject).map (·.predicate))) {t : Triple}
    (ht : t ∈ valueTriples store subject) :
    valuesAt ((valueTriples store subject).map (compactTriple c)) (predicateKey c t.predicate).1 =
      ((valueTriples store subject).filter (·.predicate = t.predicate)).map fun u ↦
        (compactTriple c u).2 := by
  rw [valuesAt, List.filter_map, List.map_map]
  apply congrArg (List.map _)
  apply List.filter_congr
  intro u hu
  apply decide_eq_decide.2
  constructor
  · exact h.apart _ (List.mem_map_of_mem hu) _ (List.mem_map_of_mem ht)
  · intro heq
    exact congrArg (fun predicate ↦ (predicateKey c predicate).1) heq

/-- In the members behind the first two there are as many values as there are triples. -/
theorem length_values_groups :
    (((groupValues ((valueTriples store subject).map (compactTriple c))).map fun group ↦
      (group.1, unlessSingle group.2)).flatMap (valuesIn ·.2)).length =
        (valueTriples store subject).length := by
  have hvalues : ∀ group ∈ groupValues ((valueTriples store subject).map (compactTriple c)),
      valuesIn (unlessSingle group.2) = group.2 := by
    intro group hgroup
    apply valuesIn_unlessSingle
    intro value hvalue
    rw [(mem_groupValues.1 hgroup).2] at hvalue
    obtain ⟨pair, hpair, rfl⟩ := List.mem_map.1 hvalue
    obtain ⟨t, -, rfl⟩ := List.mem_map.1 (List.mem_filter.1 hpair).1
    exact valuesIn_compactValue c _ _
  rw [List.flatMap_map, List.flatMap_congr hvalues, length_values_groupValues, List.length_map]

/-- Nothing is overwritten in the object of a subject exactly if its predicates have different keys,
which are not those of the identifier and the types. -/
theorem overwritesNothing_iff (hkeys : identifierKey c subject ≠ c.typeKey) :
    OverwritesNothing c store subject (compactSubject c store subject) ↔
      NamesApart c [identifierKey c subject, c.typeKey]
        ((valueTriples store subject).map (·.predicate)) := by
  constructor
  · intro h
    constructor
    case apart =>
      intro a ha b hb
      obtain ⟨t, ht, rfl⟩ := List.mem_map.1 ha
      obtain ⟨u, hu, rfl⟩ := List.mem_map.1 hb
      exact h.apart t ht u hu
    case free =>
      intro a ha
      obtain ⟨t, ht, rfl⟩ := List.mem_map.1 ha
      exact h.free t ht
  · intro h
    have hnodup := nodup_keys_memberList hkeys h
    have hmember : ∀ pair ∈ memberList c store subject,
        (compactSubject c store subject).member? pair.1 = some pair.2 := by
      intro pair hpair
      rw [compactSubject_eq, Json.member?_ofMembers, SortedMap.get?_ofList_of_nodup hnodup,
        SortedMap.lookup_eq_some_iff_of_nodup hnodup]
      exact hpair
    constructor
    case id => exact hmember _ List.mem_cons_self
    case types => exact hmember _ (List.mem_cons_of_mem _ List.mem_cons_self)
    case apart =>
      intro t ht u hu
      exact h.apart _ (List.mem_map_of_mem ht) _ (List.mem_map_of_mem hu)
    case free =>
      intro t ht
      exact h.free _ (List.mem_map_of_mem ht)
    case values =>
      intro t ht
      rw [← h.valuesAt_eq ht]
      apply hmember ((predicateKey c t.predicate).1, _)
      apply List.mem_cons_of_mem _ (List.mem_cons_of_mem _ _)
      apply List.mem_map.2 ⟨((predicateKey c t.predicate).1, _), _, rfl⟩
      apply mem_groupValues.2 ⟨_, rfl⟩
      exact List.mem_map.2 ⟨compactTriple c t, List.mem_map_of_mem ht, rfl⟩
    case count =>
      have hrest : (memberList c store subject).filter
          (·.1 ∉ [identifierKey c subject, c.typeKey]) =
            (groupValues ((valueTriples store subject).map (compactTriple c))).map fun group ↦
              (group.1, unlessSingle group.2) := by
        rw [memberList, List.filter_cons_of_neg (by simp), List.filter_cons_of_neg (by simp),
          List.filter_eq_self]
        intro pair hpair
        obtain ⟨group, hgroup, rfl⟩ := List.mem_map.1 hpair
        exact decide_eq_true (h.group_free hgroup)
      have hperm := ((SortedMap.perm_toList_ofList hnodup).filter
        (·.1 ∉ [identifierKey c subject, c.typeKey])).flatMap_right (valuesIn ·.2)
      rw [hrest] at hperm
      rw [compactSubject_eq, Json.ofMembers_eq]
      exact hperm.length_eq.trans length_values_groups

end

end OntoGraph.Document
