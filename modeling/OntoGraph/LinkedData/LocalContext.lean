import OntoGraph.Json.Reader
import OntoGraph.LinkedData.ActiveContext

/-!
# Local contexts

A document explains its names by local contexts: objects that set the base, the vocabulary and the
language and that define terms, names of further context documents, and lists of these. Processing
a local context changes an active context, or fails as a whole.
-/

namespace OntoGraph.LinkedData

/-! ## The shape of a term definition -/

/-- What a local context says about one term. A field that is given as `null` is different from
one that is not given. -/
structure TermEntry where
  /-- Is the definition just a name? -/
  isSimple : Bool := false
  id : Option (Option String) := none
  type : Option String := none
  reverse : Option String := none
  containers : List Container := []
  index : Option String := none
  language : Option (Option String) := none
  localContext : Option Json := none
  nest : Option String := none
  isPrefix : Option Bool := none
  isProtected : Option Bool := none

def nullableText? : Json → Option (Option String)
  | .null => some none
  | .string s => some (some s)
  | _ => none

def truth? : Json → Option Bool
  | .bool b => some b
  | _ => none

/-- Is the value a direction of text, or `null` for none? -/
def isDirection : Json → Bool
  | .null => true
  | .string s => s == "ltr" || s == "rtl"
  | _ => false

def Container.ofJson? : Json → Option Container
  | .string "@graph" => some .graph
  | .string "@id" => some .id
  | .string "@index" => some .index
  | .string "@language" => some .language
  | .string "@list" => some .list
  | .string "@set" => some .set
  | .string "@type" => some .type
  | _ => none

/-- May the containers be used together? A set may go with every container but the list, and a
graph with identifiers or indices. -/
def areCompatible (containers : List Container) : Bool :=
  match containers.filter (· ≠ .set) with
  | [] => containers.length ≤ 1
  | [.list] => containers.length == 1
  | [_] => containers.length ≤ 2
  | [.graph, c] => (c == .id || c == .index) && containers.length ≤ 3
  | [c, .graph] => (c == .id || c == .index) && containers.length ≤ 3
  | _ => false

def containers? (json : Json) : Option (List Container) := do
  let containers ← match json with
    | .null => some []
    | .array items => items.mapM Container.ofJson?
    | json => (Container.ofJson? json).map ([·])
  if areCompatible containers then some containers else none

def areDistinct (names : List String) : Bool := names.eraseDups.length == names.length

/-- The entry with one more field, if the field is known and its value has the right shape. -/
def TermEntry.field? (entry : TermEntry) (name : String) (value : Json) : Option TermEntry :=
  match name with
  | "@id" => (nullableText? value).map fun id ↦ { entry with id := some id }
  | "@type" => value.string?.map fun type ↦ { entry with type := some type }
  | "@reverse" => value.string?.map fun reverse ↦ { entry with reverse := some reverse }
  | "@container" => (containers? value).map fun containers ↦ { entry with containers }
  | "@index" => value.string?.map fun index ↦ { entry with index := some index }
  | "@language" =>
    (nullableText? value).map fun language ↦ { entry with language := some language }
  | "@direction" => if isDirection value then some entry else none
  | "@context" => some { entry with localContext := some value }
  | "@nest" => value.string?.map fun nest ↦ { entry with nest := some nest }
  | "@prefix" => (truth? value).map fun b ↦ { entry with isPrefix := some b }
  | "@propagate" => (truth? value).map fun _ ↦ entry
  | "@protected" => (truth? value).map fun b ↦ { entry with isProtected := some b }
  | _ => none

def TermEntry.ofJson? : Json → Option TermEntry
  | .null => some { id := some none }
  | .string s => some { isSimple := true, id := some (some s) }
  | .object members =>
    if areDistinct (members.map (·.1)) then
      members.foldlM (fun entry (name, value) ↦ entry.field? name value) {}
    else none
  | _ => none

/-! ## The shape of a context -/

/-- What a local context says about the type keyword: that types are kept as a set, or that they
are protected. -/
def isTypeEntry : Json → Bool
  | .object members =>
    areDistinct (members.map (·.1)) && members.all fun (name, value) ↦
      match name, value with
      | "@container", .string container => container == "@set"
      | "@protected", .bool _ => true
      | _, _ => false
  | _ => false

/-- Does an entry of a local context have the right shape? Entries for terms are looked at when
the terms are defined. -/
def isContextEntry (name : String) (value : Json) : Bool :=
  match name with
  | "@base" =>
    match value with
    | .null => true
    | .string s => Iri.isReference .standard s
    | _ => false
  | "@import" => value.string?.any (Iri.isReference .standard)
  | "@language" => (nullableText? value).isSome
  | "@vocab" => (nullableText? value).isSome
  | "@direction" => isDirection value
  | "@propagate" => (truth? value).isSome
  | "@protected" => (truth? value).isSome
  | "@version" =>
    match value with
    | .number spelling => spelling == "1.1"
    | _ => false
  | "@type" => isTypeEntry value
  | _ => true

/-- The entries of a local context that define no term. -/
def settingNames : List String :=
  ["@base", "@import", "@language", "@vocab", "@direction", "@propagate", "@protected", "@version",
    "@type"]

/-- The members of a local context, if its settings have the right shape and no name is
repeated. -/
def contextMembers? (members : List (String × Json)) : Option (List (String × Json)) :=
  if areDistinct (members.map (·.1)) && members.all fun (name, value) ↦ isContextEntry name value
  then some members else none

def contextOfDocument? (text : String) : Option Json :=
  match Json.read? text with
  | some (.object members) =>
    match members.filter (·.1 = "@context") with
    | [(_, context)] => some context
    | _ => none
  | _ => none

/-- An IRI reference resolved against a base, if it is one. -/
def resolve? (base reference : String) : Option String :=
  if Iri.isReference .standard reference then some (Iri.resolve base reference) else none

/-- The context at a reference, and its IRI. Only the given documents can be reached. -/
def fetchContext? (documents : SortedMap String) (base reference : String) :
    Option (String × Json) := do
  let iri ← resolve? base reference
  let context ← (documents.get? iri).bind contextOfDocument?
  return (iri, context)

/-- The members of a context with those of the context that it imports. Its own come first in
rank. -/
def importedMembers? (documents : SortedMap String) (base : String)
    (members : List (String × Json)) : Option (List (String × Json)) :=
  match members.lookup "@import" with
  | some (.string reference) => do
    match ← fetchContext? documents base reference with
    | (_, .object imported) =>
      let imported ← contextMembers? imported
      if imported.any (·.1 = "@import") then none
      else
        let names := members.map (·.1)
        return imported.filter (fun member ↦ !names.contains member.1) ++ members
    | _ => none
  | _ => some members

/-! ## Processing -/

/-- What stays the same while one local context is processed. -/
structure Surroundings where
  documents : SortedMap String
  /-- The base that references of the context are resolved against. -/
  base : String
  /-- The context documents that are being processed. -/
  remotes : List String := []
  /-- May protected terms be defined anew? -/
  overrides : Bool := false
  /-- The definitions of the local context. -/
  entries : List (String × Json) := []
  /-- Are the terms of the context protected? -/
  protects : Bool := false

/-- A context while its terms are being defined. A term is under way until it is finished. -/
structure Progress where
  active : ActiveContext
  isFinished : SortedMap Bool := ∅

/-- A step of defining terms. -/
abbrev Defining := StateT Progress Option

def Coercion.ofMeaning? : Meaning → Option Coercion
  | .keyword .id => some .id
  | .keyword .vocab => some .vocab
  | .keyword .json => some .json
  | .keyword .none => some .none
  | .identifier (.iri iri) => some (.datatype iri)
  | _ => none

def endsInDelimiter (text : String) : Bool :=
  text.toList.getLast?.any (":/?#[]@".toList.contains ·)

/-- Does a name that is all of a definition name a namespace? -/
def Meaning.isNamespace : Meaning → Bool
  | .identifier (.iri iri) => endsInDelimiter iri
  | .identifier (.blank _) => true
  | _ => false

def hasInnerColon (text : String) : Bool := text.toList.tail.dropLast.contains ':'

/-- What a term stands for when its definition does not say so: a compact name or an IRI stands
for what it would mean by itself, another name belongs to the vocabulary. -/
def impliedMeaning? (active : ActiveContext) (term : String) : Option Identifier := do
  let i ←
    if term.toList.tail.contains ':' then
      match ActiveContext.compactParts? term with
      | some (front, back) =>
        match if back.startsWith "//" then none else active.term? front with
        | some d => some (.ofText (d.meaning.text ++ back))
        | none => some (.ofText term)
      | none => some (.ofText term)
    else if term.toList.contains '/' then
      match active.expand false true term with
      | .identifier (.iri iri) => some (.iri iri)
      | _ => none
    else active.vocab.map fun i ↦ .ofText (i.text ++ term)
  if i.isValid then some i else none

/-- The settings of a context: the base, which only the document itself may set, the vocabulary
and the language. -/
def applySettings? (isRemote : Bool) (active : ActiveContext) (members : List (String × Json)) :
    Option ActiveContext := do
  let active ← match if isRemote then none else members.lookup "@base" with
    | some .null => some { active with base := none }
    | some (.string reference) =>
      match Iri.isAbsolute .standard reference, active.base with
      | true, _ => some { active with base := some reference }
      | false, some base => some { active with base := some (Iri.resolve base reference) }
      | false, none => none
    | _ => some active
  let active ← match members.lookup "@vocab" with
    | some .null => some { active with vocab := none }
    | some (.string name) =>
      match active.expand true true name with
      | .identifier i => some { active with vocab := some i }
      | _ => none
    | _ => some active
  match members.lookup "@language" with
    | some .null => some { active with language := none }
    | some (.string language) => some { active with language := some language }
    | _ => some active

/-- The definition may replace an earlier one: this is not protected, the context overrides
protection, or nothing changes. A protected term stays protected. -/
def admit? (overrides : Bool) (earlier : Option TermDefinition) (d : TermDefinition) :
    Option TermDefinition :=
  match earlier with
  | some e =>
    if e.isProtected && !overrides then
      if { d with isProtected := e.isProtected } == e then some e else none
    else some d
  | none => some d

mutual

/-- The active context after a local context. Without `propagate` the changes end at the next
node. `fuel` bounds the depth of the recursion. -/
def process (fuel : Nat) (around : Surroundings) (propagate : Bool) (active : ActiveContext)
    (localContext : Json) : Option ActiveContext :=
  match fuel with
  | 0 => none
  | fuel + 1 =>
    let propagate := match localContext.member? "@propagate" with
      | some (.bool b) => b
      | _ => propagate
    let start := if !propagate && active.previous.isNone then { active with previous := some active }
      else active
    let parts := match localContext with
      | .array parts => parts
      | part => [part]
    parts.foldlM (fun active part ↦ processPart fuel around propagate active part) start

/-- The active context after one part of a local context: `null`, which resets it, the name of a
context document, or an object. -/
def processPart (fuel : Nat) (around : Surroundings) (propagate : Bool) (active : ActiveContext)
    (part : Json) : Option ActiveContext :=
  match fuel with
  | 0 => none
  | fuel + 1 =>
    match part with
    | .null =>
      if !around.overrides && active.terms.values.any (·.isProtected) then none
      else
        let reset := ActiveContext.initial active.documentBase
        some (if propagate then reset else { reset with previous := some active })
    | .string reference => do
      let iri ← resolve? around.base reference
      if around.remotes.contains iri then some active
      else
        let (_, context) ← fetchContext? around.documents around.base reference
        process fuel
          { documents := around.documents, base := iri, remotes := iri :: around.remotes }
          true active context
    | .object members => do
      let members ← importedMembers? around.documents around.base (← contextMembers? members)
      let active ← applySettings? (!around.remotes.isEmpty) active members
      let entries := members.filter fun member ↦ !settingNames.contains member.1
      let around := { around with
        entries
        protects := ((members.lookup "@protected").bind truth?).getD false }
      let (_, progress) ←
        (entries.forM fun (term, _) ↦ define fuel around term : Defining Unit).run { active }
      return progress.active
    | _ => none

/-- Defines a term of the local context, unless that is done. A term cannot be defined by way of
itself, and keywords cannot be defined at all. -/
def define (fuel : Nat) (around : Surroundings) (term : String) : Defining Unit :=
  match fuel with
  | 0 => failure
  | fuel + 1 => do
    match (← get).isFinished.get? term with
    | some true => return
    | some false => failure
    | none =>
      let some value := around.entries.lookup term | return
      if term = "" ∨ (Keyword.ofText? term).isSome then failure
      let some entry := TermEntry.ofJson? value | failure
      modify fun s ↦ { s with isFinished := s.isFinished.insert term false }
      if !isKeywordLike term then
        let earlier := (← get).active.term? term
        modify fun s ↦ { s with active.terms := s.active.terms.erase term }
        if let some d ← definition fuel around term entry then
          let some d := admit? around.overrides earlier d | failure
          modify fun s ↦ { s with active.terms := s.active.terms.insert term d }
      modify fun s ↦ { s with isFinished := s.isFinished.insert term true }

/-- What a name in a definition stands for; terms that it depends on are defined first. -/
def expandDefining (fuel : Nat) (around : Surroundings) (name : String) : Defining Meaning :=
  match fuel with
  | 0 => failure
  | fuel + 1 => do
    if (Keyword.ofText? name).isNone && !isKeywordLike name then
      define fuel around name
      if ((← get).active.definedMeaning? true name).isNone then
        if let some (front, back) := ActiveContext.compactParts? name then
          if front ≠ "_" && !back.startsWith "//" then define fuel around front
    return (← get).active.expand false true name

/-- What a term stands for, and whether it may be the front of compact names. -/
def termMeaning (fuel : Nat) (around : Surroundings) (term : String) (entry : TermEntry) :
    Defining (Option (Meaning × Bool)) :=
  match fuel with
  | 0 => failure
  | fuel + 1 => do
    match entry.id.filter (· ≠ some term) with
    | some none => return some (.nothing, false)
    | some (some name) =>
      if isKeywordLike name && (Keyword.ofText? name).isNone then return none
      let meaning ← expandDefining fuel around name
      match meaning with
      | .nothing => failure
      | .keyword .context => failure
      | .identifier (.invalid _) => failure
      | _ => pure ()
      if hasInnerColon term || term.toList.contains '/' then
        modify fun s ↦ { s with isFinished := s.isFinished.insert term true }
        if (← expandDefining fuel around term) ≠ meaning then failure
      let isName := !term.toList.contains ':' && !term.toList.contains '/'
      return some (meaning, isName && entry.isSimple && meaning.isNamespace)
    | none =>
      if let some (front, back) := ActiveContext.compactParts? term then
        if front ≠ "_" && !back.startsWith "//" then define fuel around front
      match impliedMeaning? (← get).active term with
      | some i => return some (.identifier i, false)
      | none => failure

/-- The definition that an entry gives a term; none if the entry is to be ignored. -/
def definition (fuel : Nat) (around : Surroundings) (term : String) (entry : TermEntry) :
    Defining (Option TermDefinition) :=
  match fuel with
  | 0 => failure
  | fuel + 1 => do
    let isProtected := entry.isProtected.getD around.protects
    let coercion ← match entry.type with
      | none => pure none
      | some type => do
        match Coercion.ofMeaning? (← expandDefining fuel around type) with
        | some coercion => pure (some coercion)
        | none => failure
    if let some reverse := entry.reverse then
      if entry.id.isSome || entry.nest.isSome then failure
      if isKeywordLike reverse then return none
      match ← expandDefining fuel around reverse with
      | .identifier i =>
        if !i.isValid then failure
        if entry.containers ≠ [] ∧ entry.containers ≠ [.set] ∧ entry.containers ≠ [.index] then
          failure
        return some {
          meaning := .identifier i
          isReverse := true
          isProtected
          containers := entry.containers
          coercion }
      | _ => failure
    let some (meaning, mayStart) ← termMeaning fuel around term entry | return none
    let coercion := if entry.containers.contains .type then coercion <|> some .id else coercion
    if entry.containers.contains .type && coercion ≠ some .id && coercion ≠ some .vocab then
      failure
    if let some index := entry.index then
      if !entry.containers.contains .index then failure
      match ← expandDefining fuel around index with
      | .identifier (.iri _) => pure ()
      | _ => failure
    if let some context := entry.localContext then
      let around := { around with overrides := true }
      if (process fuel around true (← get).active context).isNone then failure
    if let some nest := entry.nest then
      if (Keyword.ofText? nest).isSome && nest ≠ "@nest" then failure
    if let some b := entry.isPrefix then
      if term.toList.contains ':' || term.toList.contains '/' then failure
      match b, meaning with
      | true, .keyword _ => failure
      | _, _ => pure ()
    return some {
      meaning
      isPrefix := entry.isPrefix.getD mayStart
      isProtected
      containers := entry.containers
      coercion
      language := if entry.type.isSome then none else entry.language
      index := entry.index
      nest := entry.nest
      localContext := entry.localContext.map (·, around.base) }

end

end OntoGraph.LinkedData
