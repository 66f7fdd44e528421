import OntoGraph.LinkedData.Item
import OntoGraph.LinkedData.LocalContext

/-!
# Expansion

A document is expanded from the outside in. Each object may bring a context of its own, and the
terms that lead to it may bring further ones.
-/

namespace OntoGraph.LinkedData

/-- What stays the same while a document is expanded. -/
structure Setting where
  documents : SortedMap String
  /-- The base that context references of the document are resolved against. -/
  base : String
  /-- A bound on the depth of context processing. -/
  contextFuel : Nat

namespace Setting

/-- The active context after a local context of the document. -/
def process (s : Setting) (propagate : Bool) (active : ActiveContext) (context : Json) :
    Option ActiveContext :=
  LinkedData.process s.contextFuel { documents := s.documents, base := s.base } propagate active
    context

def processOfTerm (s : Setting) (overrides propagate : Bool) (active : ActiveContext)
    (d : TermDefinition) : Option ActiveContext :=
  match d.localContext with
  | none => some active
  | some (context, base) =>
    LinkedData.process s.contextFuel { documents := s.documents, base, overrides } propagate
      active context

end Setting

def asArray : Json → List Json
  | .array items => items
  | json => [json]

def scalar? : Json → Option Scalar
  | .string s => some (.text s)
  | .number spelling => some (.number spelling)
  | .bool b => some (.bool b)
  | _ => none

/-- The identifier that a name stands for; a keyword identifies nothing. -/
def Meaning.identifier? : Meaning → Option Identifier
  | .nothing => none
  | .identifier i => some i
  | .keyword k => (Keyword.spellings.find? (·.2 = k)).map fun (spelling, _) ↦ .invalid spelling

/-- A node that is only referred to. -/
def reference (id : Option Identifier) : Item := NodeParts.toItem { id }

def expandScalar (active : ActiveContext) (property : String) (value : Scalar) : Item :=
  let definition := active.term? property
  match definition.bind (·.coercion), value with
  | some .id, .text s => reference (active.expand true false s).identifier?
  | some .vocab, .text s => reference (active.expand true true s).identifier?
  | some (.datatype iri), _ => .literal (.typed value (some iri)) none
  | _, .text s =>
    match (definition.bind (·.language)).getD active.language with
    | some language => .literal (.localized s (some language)) none
    | none => .literal (.typed value none) none
  | _, _ => .literal (.typed value none) none

/-- A member of an object, with what its name stands for. -/
structure Member where
  name : String
  meaning : Meaning
  value : Json

def membersIn (active : ActiveContext) (members : List (String × Json)) : List Member :=
  members.map fun (name, value) ↦ ⟨name, active.expand false true name, value⟩

/-- The members that state types, in the order of their names. -/
def typeMembersOf (members : List Member) : List Member :=
  (members.filter (·.meaning = .keyword .type)).mergeSort fun m n ↦ decide (m.name ≤ n.name)

/-- The fields of a value object. -/
structure LiteralFields where
  isJson : Bool := false
  datatype : Option String := none
  index : Option String := none
  language : Option String := none
  hasDirection : Bool := false

def LiteralFields.read? (typeContext : ActiveContext) (fields : LiteralFields) (m : Member) :
    Option LiteralFields :=
  match m.meaning with
  | .keyword .value => some fields
  | .keyword .language => m.value.string?.map fun language ↦ { fields with language }
  | .keyword .direction =>
    match m.value with
    | .string s => if s = "ltr" ∨ s = "rtl" then some { fields with hasDirection := true } else none
    | _ => none
  | .keyword .index => m.value.string?.map fun index ↦ { fields with index }
  | .keyword .type => do
    match typeContext.expand true true (← m.value.string?) with
    | .keyword .json => some { fields with isJson := true }
    | .identifier (.iri iri) => some { fields with isJson := false, datatype := some iri }
    | _ => none
  | _ => none

/-- The literal that a value object stands for: nothing if its value is `null`. Only texts can be
in a language, and then they have no datatype. -/
def expandLiteral? (typeContext : ActiveContext) (isJson : Bool) (members : List Member)
    (value : Json) : Option Expanded := do
  let fields ← members.foldlM (LiteralFields.read? typeContext) { isJson }
  let item (literal : Literal) : Expanded := .single (.literal literal fields.index)
  let isLocalized := fields.language.isSome || fields.hasDirection
  if fields.isJson then
    if isLocalized then none else return item (.json value)
  else
    match value with
    | .null => return .nothing
    | value => do
      let value ← scalar? value
      if isLocalized then
        match fields.datatype, value with
        | none, .text s => return item (.localized s fields.language)
        | _, _ => none
      else return item (.typed value fields.datatype)

def lastType (active : ActiveContext) (value : Json) : Meaning :=
  match (asArray value).getLast? with
  | some (.string type) => active.expand false true type
  | _ => .nothing

/-- The texts of a list in order of code points. -/
def inOrder (texts : List String) : List String := texts.mergeSort fun s t ↦ decide (s ≤ t)

/-- The active context inside of an object, before its types are looked at: contexts that end at
the next node end here, and the term that leads to the object and the object itself may bring a
context of their own. -/
def objectContext? (s : Setting) (active : ActiveContext) (property : Option String)
    (fromMap : Bool) (members : List (String × Json)) : Option ActiveContext := do
  let meanings := members.map fun member ↦ active.expand false true member.1
  let keepsContext := fromMap || meanings.contains (.keyword .value)
    || meanings == [.keyword .id]
  let current := if keepsContext then active else active.previous.getD active
  let current ← match property.bind active.term? with
    | some d => s.processOfTerm true true current d
    | none => some current
  match members.filter (·.1 = "@context") with
  | [] => some current
  | [(_, context)] => s.process true current context
  | _ => none

/-- The active context inside of an object with the given types: each type may bring a context of
its own, which ends at the next node. -/
def processTypes? (s : Setting) (active : ActiveContext) (typeMembers : List Member) :
    Option ActiveContext :=
  let types := typeMembers.flatMap fun m ↦ inOrder ((asArray m.value).filterMap Json.string?)
  types.foldlM (fun inner type ↦
    match active.term? type with
    | some d => s.processOfTerm false false inner d
    | none => some inner) active

/-- A node whose keyword member may not come again. -/
def NodeParts.hasMember (n : NodeParts) : Keyword → Bool
  | .id => n.id.isSome
  | .index => n.index.isSome
  | .graph => n.graph.isSome
  | .reverse => !n.reverse.isEmpty
  | _ => false

def expandLanguageMap? (active : ActiveContext) (members : List (String × Json)) :
    Option (List Item) := do
  let groups ← members.mapM fun (language, texts) ↦
    let language := match active.expand false true language with
      | .keyword .none => none
      | _ => some language
    let literals? : Option (List (Option Item)) := (asArray texts).mapM fun
      | .null => some none
      | .string s => some (some (.literal (.localized s language) none))
      | _ => none
    literals?
  return (groups.flatMap id).filterMap id

/-- An item of an index map put under its index. -/
def placeUnder? (active : ActiveContext) (containers : List Container) (indexName : String)
    (index : String) (item : Item) : Option Item :=
  let item := if containers.contains .graph && !item.isGraph then item.asGraph else item
  let meaning := active.expand false true index
  if meaning = .keyword .none then some item
  else if containers.contains .index then
    if indexName = "@index" then some (item.withIndex index)
    else
      match item.parts?, (active.expand false true indexName).identifier? with
      | some n, some property =>
        let value := expandScalar active indexName (.text index)
        some { n with properties := (property, value) :: n.properties }.toItem
      | _, _ => none
  else if containers.contains .id then
    match item.parts? with
    | some n =>
      some { n with id := n.id <|> (active.expand true false index).identifier? }.toItem
    | none => some item
  else
    match item.parts?, meaning.identifier? with
    | some n, some type => some { n with types := type :: n.types }.toItem
    | _, _ => some item

/-- The items if all of them are nodes. -/
def nodes? (items : List Item) : Option (List Item) :=
  items.mapM fun item ↦ item.parts?.map fun _ ↦ item

/-- A node with the values of one more property, arranged as the term for it says. -/
def NodeParts.addValues? (n : NodeParts) (definition : TermDefinition) (i : Identifier)
    (expanded : Expanded) : Option NodeParts :=
  match expanded with
  | .nothing => some n
  | expanded =>
    let containers := definition.containers
    let items :=
      if containers.contains .list && !expanded.isList then [Item.list expanded.items none]
      else expanded.items
    let items :=
      if containers.contains .graph && !containers.any fun c ↦ c == .id || c == .index then
        items.map Item.asGraph
      else items
    if definition.isReverse then
      (nodes? items).map fun nodes ↦ { n with reverse := n.reverse ++ nodes.map (i, ·) }
    else some { n with properties := n.properties ++ items.map (i, ·) }

mutual

/-- The expansion of a value under a property. `fromMap` says that the value stands in an index
map. `fuel` bounds the depth of the recursion. -/
def expand (fuel : Nat) (s : Setting) (active : ActiveContext) (property : Option String)
    (fromMap : Bool) (json : Json) : Option Expanded :=
  match fuel with
  | 0 => none
  | fuel + 1 =>
    let definition := property.bind active.term?
    match json with
    | .null => some .nothing
    | .array items => do
      let inList := definition.any (·.containers.contains .list)
      let groups ← items.mapM fun item ↦ do
        let expanded ← expand fuel s active property fromMap item
        match inList, expanded with
        | true, .many items => return [Item.list items none]
        | _, expanded => return expanded.items
      return .many (groups.flatMap id)
    | .object members => expandObject fuel s active property fromMap members
    | json =>
      match property, scalar? json with
      | some property, some value => do
        if property = "@graph" then return .nothing
        let active ← match definition with
          | some d => s.processOfTerm true true active d
          | none => some active
        return .single (expandScalar active property value)
      | _, _ => some .nothing

def expandObject (fuel : Nat) (s : Setting) (active : ActiveContext) (property : Option String)
    (fromMap : Bool) (members : List (String × Json)) : Option Expanded :=
  match fuel with
  | 0 => none
  | fuel + 1 => do
    let typeContext ← objectContext? s active property fromMap members
    let typeMembers := typeMembersOf (membersIn typeContext members)
    let active ← processTypes? s typeContext typeMembers
    let isJson := typeMembers.head?.any fun m ↦ lastType active m.value == .keyword .json
    let expanded := membersIn active members
    let isInside := property.any (· ≠ "@graph")
    match (if isInside then expanded.filter (·.meaning = .keyword .list) else []).getLast?,
      (expanded.filter (·.meaning = .keyword .set)).getLast?,
      (expanded.filter (·.meaning = .keyword .value)).getLast? with
    | some list, _, _ =>
      let index ← expanded.foldlM (fun index m ↦
        match m.meaning with
        | .keyword .list => some index
        | .keyword .index => m.value.string?.map some
        | _ => none) none
      let groups ← (asArray list.value).mapM (expand fuel s active property false)
      return .single (.list (groups.flatMap Expanded.items) index)
    | none, some set, _ =>
      if expanded.all fun m ↦ m.meaning == .keyword .set
        || (m.meaning == .keyword .index && m.value.string?.isSome)
      then expand fuel s active property false set.value
      else none
    | none, none, some value => expandLiteral? typeContext isJson expanded value.value
    | none, none, none =>
      let (n, hasLiteralMember) ←
        expandMembers fuel s active typeContext ({}, false) expanded
      if hasLiteralMember && n.isEmpty && n.id.isNone then return .nothing
      return .single n.toItem

/-- A node with the members of an object. The second part of the result says whether there was a
member that belongs to literals. -/
def expandMembers (fuel : Nat) (s : Setting) (active typeContext : ActiveContext)
    (start : NodeParts × Bool) (members : List Member) : Option (NodeParts × Bool) :=
  match fuel with
  | 0 => none
  | fuel + 1 =>
    members.foldlM (fun (n, hasLiteralMember) m ↦ do
      match m.meaning with
      | .nothing => return (n, hasLiteralMember)
      | .keyword .context => return (n, hasLiteralMember)
      | .keyword k =>
        if n.hasMember k then none
        else expandKeyword fuel s active typeContext (n, hasLiteralMember) k m
      | .identifier i =>
        if i.text.toList.contains ':' then
          return (← expandProperty fuel s active n i m, hasLiteralMember)
        else return (n, hasLiteralMember)) start

/-- A node with one more member whose name is a keyword. -/
def expandKeyword (fuel : Nat) (s : Setting) (active typeContext : ActiveContext)
    (start : NodeParts × Bool) (k : Keyword) (m : Member) : Option (NodeParts × Bool) :=
  match fuel with
  | 0 => none
  | fuel + 1 => do
    let (n, hasLiteralMember) := start
    match k with
    | .id =>
      let name ← m.value.string?
      return ({ n with id := (active.expand true false name).identifier? }, hasLiteralMember)
    | .type =>
      let types ← (asArray m.value).mapM fun type ↦ do
        match typeContext.expand true true (← type.string?) with
        | .identifier i => some i
        | _ => none
      return ({ n with types := n.types ++ types }, hasLiteralMember)
    | .index => return ({ n with index := some (← m.value.string?) }, hasLiteralMember)
    | .graph =>
      let expanded ← expand fuel s active (some "@graph") false m.value
      return ({ n with graph := some (Item.distinct expanded.items) }, hasLiteralMember)
    | .included =>
      let expanded ← expand fuel s active (some "@included") false m.value
      let included := Item.distinct (n.included ++ (← nodes? expanded.items))
      return ({ n with included }, hasLiteralMember)
    | .reverse =>
      let n ← (← m.value.members?).foldlM (fun n (name, value) ↦ do
        match active.expand false true name with
        | .keyword _ => none
        | .nothing => return n
        | .identifier i =>
          if i.text.toList.contains ':' then
            let expanded ← expand fuel s active (some name) false value
            if (active.term? name).any (·.isReverse) then
              return { n with properties := n.properties ++ expanded.items.map (i, ·) }
            else
              return { n with reverse := n.reverse ++ (← nodes? expanded.items).map (i, ·) }
          else return n) n
      return (n, hasLiteralMember)
    | .nest =>
      (asArray m.value).foldlM (fun start nested ↦ do
        let members := membersIn active (← nested.members?)
        if members.any (·.meaning = .keyword .value) then none
        else expandMembers fuel s active typeContext start members) start
    | .value | .language | .direction | .list | .set => return (n, true)
    | _ => return (n, hasLiteralMember)

/-- A node with one more property. -/
def expandProperty (fuel : Nat) (s : Setting) (active : ActiveContext) (n : NodeParts)
    (i : Identifier) (m : Member) : Option NodeParts :=
  match fuel with
  | 0 => none
  | fuel + 1 => do
    let definition := (active.term? m.name).getD {}
    let containers := definition.containers
    let expanded : Expanded ←
      if definition.coercion = some .json then
        some (.single (.literal (.json m.value) none))
      else
        match m.value with
        | .object members =>
          if containers.contains .language then
            (expandLanguageMap? active members).map .many
          else if containers.any fun c ↦ c == .index || c == .type || c == .id then
            let indexName := definition.index.getD "@index"
            let isNamed := containers.any fun c ↦ c == .type || c == .id
            let groups ← members.mapM fun (index, value) ↦ do
              let inner := if isNamed then active.previous.getD active else active
              let inner ← match if containers.contains .type then inner.term? index else none with
                | some d => s.processOfTerm false true inner d
                | none => some inner
              let expanded ← expand fuel s inner (some m.name) true (.array (asArray value))
              expanded.items.mapM (placeUnder? active containers indexName index)
            some (.many (groups.flatMap id))
          else expand fuel s active (some m.name) false m.value
        | value => expand fuel s active (some m.name) false value
    n.addValues? definition i expanded

end

/-- The items of a document: those of its only graph, or else all. Literals and lists that belong
to no node are left out. -/
def expandDocument? (s : Setting) (fuel : Nat) (document : Json) : Option (List Item) := do
  let expanded ← expand fuel s (.initial s.base) none false document
  let items := match expanded.items with
    | [item] => item.content?.getD [item]
    | items => items
  return Item.distinct (items.filter fun item ↦ item.parts?.isSome)

end OntoGraph.LinkedData
