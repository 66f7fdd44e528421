import OntoGraph.Json.Normal
import OntoGraph.Proofs.Json.RoundTrip
import OntoGraph.Proofs.SortedMap

/-!
# Values in normal form

A value without numbers whose members are in order is its own normal form, if it does not nest too
deep.
-/

namespace OntoGraph.Json

/-! ## Members in order -/

theorem ofMembers_eq (members : List (String × Json)) :
    ofMembers members = .object (SortedMap.ofList members).toList := by
  have hfold : ∀ m : SortedMap Json,
      members.foldl (fun sorted member ↦ SortedMap.insertPair member.1 member.2 sorted) m.toList =
        (members.foldl (fun m (member : String × Json) ↦ m.insert member.1 member.2) m).toList := by
    induction members with
    | nil => exact fun m ↦ rfl
    | cons member members ih => exact fun m ↦ ih (m.insert member.1 member.2)
  exact congrArg object (hfold ∅)

@[simp] theorem member?_ofMembers (members : List (String × Json)) (name : String) :
    (ofMembers members).member? name = (SortedMap.ofList members).get? name := by
  rw [ofMembers_eq]
  rfl

/-- Members in order stay as they are. -/
theorem ofMembers_of_sorted {members : List (String × Json)}
    (h : members.Pairwise fun a b ↦ a.1 < b.1) : ofMembers members = .object members := by
  have hmap : SortedMap.ofList members = ⟨members, h⟩ :=
    SortedMap.ext_get? fun key ↦ SortedMap.get?_ofList_of_sorted h key
  rw [ofMembers_eq, hmap]

/-! ## Normal forms -/

theorem normalizeItems?_eq_self {depth : Nat} {items : List Json}
    (h : ∀ item ∈ items, normalizeWithin? depth item = some item) :
    normalizeItems? depth items = some items := by
  induction items with
  | nil => rw [normalizeItems?]
  | cons item items ih =>
    rw [normalizeItems?, h item List.mem_cons_self,
      ih fun item hitem ↦ h item (List.mem_cons_of_mem _ hitem)]
    rfl

theorem normalizeMembers?_eq_self {depth : Nat} {members : List (String × Json)}
    (h : ∀ member ∈ members, normalizeWithin? depth member.2 = some member.2) :
    normalizeMembers? depth members = some members := by
  induction members with
  | nil => rw [normalizeMembers?]
  | cons member members ih =>
    rw [normalizeMembers?, h member List.mem_cons_self,
      ih fun member hmember ↦ h member (List.mem_cons_of_mem _ hmember)]
    rfl

/-- An object has a normal form if its members have one. -/
theorem normalizeMembers?_isSome {depth : Nat} {members : List (String × Json)}
    (h : ∀ member ∈ members, (normalizeWithin? depth member.2).isSome = true) :
    (normalizeMembers? depth members).isSome = true := by
  induction members with
  | nil =>
    rw [normalizeMembers?]
    rfl
  | cons member members ih =>
    obtain ⟨value, hvalue⟩ := Option.isSome_iff_exists.1 (h member List.mem_cons_self)
    obtain ⟨rest, hrest⟩ := Option.isSome_iff_exists.1
      (ih fun member hmember ↦ h member (List.mem_cons_of_mem _ hmember))
    rw [normalizeMembers?, hvalue, hrest]
    rfl

theorem mem_numbersOfItems {n : String} {items : List Json} (h : n ∈ numbersOfItems items) :
    ∃ item ∈ items, n ∈ item.numbers := by
  induction items with
  | nil =>
    rw [numbersOfItems] at h
    cases h
  | cons item items ih =>
    rw [numbersOfItems, List.mem_append] at h
    rcases h with h | h
    · exact ⟨item, List.mem_cons_self, h⟩
    · obtain ⟨item, hitem, hn⟩ := ih h
      exact ⟨item, List.mem_cons_of_mem _ hitem, hn⟩

theorem mem_numbersOfMembers {n : String} {members : List (String × Json)}
    (h : n ∈ numbersOfMembers members) : ∃ member ∈ members, n ∈ member.2.numbers := by
  induction members with
  | nil =>
    rw [numbersOfMembers] at h
    cases h
  | cons member members ih =>
    rw [numbersOfMembers, List.mem_append] at h
    rcases h with h | h
    · exact ⟨member, List.mem_cons_self, h⟩
    · obtain ⟨member, hmember, hn⟩ := ih h
      exact ⟨member, List.mem_cons_of_mem _ hmember, hn⟩

/-- Is the value without numbers, and its own normal form? -/
structure IsPlain (depth : Nat) (json : Json) : Prop where
  numbers : json.numbers = []
  normal : normalizeWithin? depth json = some json

theorem isPlain_bool (depth : Nat) (b : Bool) : IsPlain depth (.bool b) where
  numbers := by simp [Json.numbers]
  normal := by simp [normalizeWithin?]

theorem isPlain_string (depth : Nat) (s : String) : IsPlain depth (.string s) where
  numbers := by simp [Json.numbers]
  normal := by simp [normalizeWithin?]

theorem isPlain_array {depth : Nat} {items : List Json} (h : ∀ item ∈ items, IsPlain depth item) :
    IsPlain (depth + 1) (.array items) where
  numbers := by
    rw [Json.numbers, List.eq_nil_iff_forall_not_mem]
    intro n hn
    obtain ⟨item, hitem, hn⟩ := mem_numbersOfItems hn
    rw [(h item hitem).numbers] at hn
    cases hn
  normal := by
    rw [normalizeWithin?, normalizeItems?_eq_self fun item hitem ↦ (h item hitem).normal]
    rfl

theorem isPlain_object {depth : Nat} {members : List (String × Json)}
    (hsorted : members.Pairwise fun a b ↦ a.1 < b.1)
    (h : ∀ member ∈ members, IsPlain depth member.2) : IsPlain (depth + 1) (.object members) where
  numbers := by
    rw [Json.numbers, List.eq_nil_iff_forall_not_mem]
    intro n hn
    obtain ⟨member, hmember, hn⟩ := mem_numbersOfMembers hn
    rw [(h member hmember).numbers] at hn
    cases hn
  normal := by
    rw [normalizeWithin?,
      normalizeMembers?_eq_self fun member hmember ↦ (h member hmember).normal, Option.map_some,
      ofMembers_of_sorted hsorted]

theorem isPlain_ofMembers {depth : Nat} {members : List (String × Json)}
    (h : ∀ member ∈ members, IsPlain depth member.2) : IsPlain (depth + 1) (ofMembers members) := by
  rw [ofMembers_eq]
  exact isPlain_object (SortedMap.ofList members).sorted fun member hmember ↦
    h member (SortedMap.mem_ofList hmember)

end OntoGraph.Json
