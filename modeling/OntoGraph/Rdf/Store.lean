import OntoGraph.Rdf.Term

/-!
# Stores of triples

A store is a set of triples in the order in which they were first inserted, indexed by subject
and by object. It also hands out blank nodes that none of its triples mentions.
-/

namespace OntoGraph.Rdf

/-- A set of triples in order of insertion, with the triples of each subject and object. -/
structure Store where
  triples : Array Triple := #[]
  bySubject : Std.TreeMap Term (Array Triple) Term.order := {}
  byObject : Std.TreeMap Term (Array Triple) Term.order := {}
  subjects : Array Term := #[]
  nextBlank : Nat := 0
  /-- No triple is held twice. -/
  distinct : triples.toList.Nodup := by simp
  /-- The index by subject holds the triples of each subject in order. -/
  indexed_subject (subject : Term) :
    (bySubject.getD subject #[]).toList = triples.toList.filter (·.subject = subject) := by simp
  /-- The index by object holds the triples of each object in order. -/
  indexed_object (object : Term) :
    (byObject.getD object #[]).toList = triples.toList.filter (·.object = object) := by simp
  /-- The subjects are those of the triples, each once, in order. -/
  listed : subjects.toList = (triples.toList.map (·.subject)).eraseDups := by simp

instance : Inhabited Store := ⟨{}⟩

namespace Store

/-- The triples with a given subject, in order. -/
def triplesOf (store : Store) (subject : Term) : Array Triple :=
  store.bySubject.getD subject #[]

def triplesTo (store : Store) (object : Term) : Array Triple :=
  store.byObject.getD object #[]

def contains (store : Store) (t : Triple) : Bool := (store.triplesOf t.subject).contains t

theorem contains_iff {store : Store} {t : Triple} :
    store.contains t = true ↔ t ∈ store.triples.toList := by
  have hindexed := store.indexed_subject t.subject
  rw [contains, triplesOf, Array.contains_iff_mem, ← Array.mem_toList_iff, hindexed]
  simp

/-- An index that gains a triple under its subject or object. -/
theorem indexed_insert {index : Std.TreeMap Term (Array Triple) Term.order}
    {triples : Array Triple} {part : Triple → Term}
    (h : ∀ term, (index.getD term #[]).toList = triples.toList.filter (part · = term))
    (t : Triple) (term : Term) :
    ((index.insert (part t) ((index.getD (part t) #[]).push t)).getD term #[]).toList =
      (triples.push t).toList.filter (part · = term) := by
  rw [Std.TreeMap.getD_insert, Array.toList_push, List.filter_append, ← h]
  by_cases heq : part t = term
  · simp [heq]
  · simp [heq]

theorem isEmpty_triplesOf {store : Store} {subject : Term} :
    (store.triplesOf subject).isEmpty = true ↔
      subject ∉ store.triples.toList.map (·.subject) := by
  have hindexed := store.indexed_subject subject
  rw [← triplesOf] at hindexed
  rw [Array.isEmpty_iff, ← Array.toList_eq_nil_iff, hindexed, List.filter_eq_nil_iff]
  simp

/-- The list of subjects gains that of a triple unless it has it. -/
theorem listed_insert (store : Store) (t : Triple) :
    (if (store.triplesOf t.subject).isEmpty then store.subjects.push t.subject
        else store.subjects).toList =
      ((store.triples.push t).toList.map (·.subject)).eraseDups := by
  rw [Array.toList_push, List.map_append, List.eraseDups_append, ← store.listed]
  by_cases hnew : (store.triplesOf t.subject).isEmpty = true
  · have hmem := isEmpty_triplesOf.1 hnew
    have hleft : [t.subject].removeAll (store.triples.toList.map (·.subject)) = [t.subject] := by
      rw [List.removeAll, List.filter_cons_of_pos (by simpa using hmem), List.filter_nil]
    rw [if_pos hnew, Array.toList_push, List.map_singleton, hleft, List.eraseDups_cons]
    rfl
  · have hmem := Decidable.not_not.1 (mt isEmpty_triplesOf.2 hnew)
    have hleft : [t.subject].removeAll (store.triples.toList.map (·.subject)) = [] := by
      rw [List.removeAll, List.filter_cons_of_neg (by simpa using hmem), List.filter_nil]
    rw [if_neg hnew, List.map_singleton, hleft, List.eraseDups_nil, List.append_nil]

/-- Puts a triple after those of the store, unless the store holds it. -/
def insert (store : Store) (t : Triple) : Store :=
  if h : store.contains t then store
  else
    let sameSubject := store.triplesOf t.subject
    { store with
      triples := store.triples.push t
      bySubject := store.bySubject.insert t.subject (sameSubject.push t)
      byObject := store.byObject.insert t.object ((store.triplesTo t.object).push t)
      subjects := if sameSubject.isEmpty then store.subjects.push t.subject else store.subjects
      distinct := by
        rw [Array.toList_push]
        exact List.nodup_append.2 ⟨store.distinct, by simp, by
          rintro held hheld other hother rfl
          obtain rfl := List.mem_singleton.1 hother
          exact h (contains_iff.2 hheld)⟩
      indexed_subject := indexed_insert store.indexed_subject t
      indexed_object := indexed_insert store.indexed_object t
      listed := listed_insert store t }

/-- Inserts a triple. The result says whether the triple was new to the store. -/
def insertNew (store : Store) (t : Triple) : Bool × Store := (!store.contains t, store.insert t)

def add (store : Store) (subject : Term) (predicate : String) (object : Term) : Store :=
  store.insert ⟨subject, predicate, object⟩

def ofList (triples : List Triple) : Store := triples.foldl insert {}

def size (store : Store) : Nat := store.triples.size

def objects (store : Store) (subject : Term) (predicate : String) : List Term :=
  ((store.triplesOf subject).toList.filter (·.predicate = predicate)).map (·.object)

def object? (store : Store) (subject : Term) (predicate : String) : Option Term :=
  (store.objects subject predicate).head?

def subjectsWith (store : Store) (predicate : String) (object : Term) : List Term :=
  (((store.triplesTo object).toList.filter (·.predicate = predicate)).map (·.subject)).eraseDups

/-- Is some subject typed with the term? -/
def isUsedAsType (store : Store) (term : Term) : Bool :=
  (store.triplesTo term).any (·.predicate = rdfType)

def mentions (store : Store) (term : Term) : Bool :=
  !(store.triplesOf term).isEmpty || !(store.triplesTo term).isEmpty

/-! ## Lists -/

/-- The items of the list that starts at `node`, when the nodes in `visited` may not come again.
`fuel` bounds the number of nodes. -/
def listFrom (store : Store) : (fuel : Nat) → (visited : List Term) → Term → Option (List Term)
  | fuel, visited, node =>
    if node = .iri rdfNil then some []
    else if visited.contains node then none
    else
      match fuel with
      | 0 => none
      | fuel + 1 => do
        let item ← store.object? node rdfFirst
        let next ← store.object? node rdfRest
        let items ← listFrom store fuel (node :: visited) next
        return item :: items

/-- The items of the list with a given head. There is none when the chain breaks off, does not end
in `rdf:nil`, or comes back to itself. Every node before the end is a subject of its own, so that
the number of subjects bounds the length. -/
def list? (store : Store) (head : Term) : Option (List Term) :=
  store.listFrom (store.subjects.size + 1) [] head

/-! ## Fresh blank nodes -/

def numberedBlank (n : Nat) : Term := .blank ("b" ++ toString n)

/-- The first number from `n` on whose blank node no triple mentions, or the one `fuel` steps
further. -/
def firstUnmentioned (store : Store) : (fuel : Nat) → (n : Nat) → Nat
  | 0, n => n
  | fuel + 1, n =>
    if store.mentions (numberedBlank n) then firstUnmentioned store fuel (n + 1) else n

/-- A blank node that no triple mentions and that was not handed out before. Each triple mentions
two terms, so that one of so many candidates is free. -/
def freshBlank (store : Store) : Term × Store :=
  let n := store.firstUnmentioned (2 * store.size + 1) store.nextBlank
  (numberedBlank n, { store with nextBlank := n + 1 })

end Store

end OntoGraph.Rdf
