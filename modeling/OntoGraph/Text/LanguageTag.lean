import OntoGraph.Iri.Grammar

/-!
# Language tags

The grammar of BCP 47: a primary language with optional extended languages, script, region and
variants, then extensions and private parts, all between hyphens.
-/

namespace OntoGraph.Text

open Iri Number

/-- Tags that are valid as a whole, from before the grammar. -/
def grandfatheredTags : List String :=
  ["art-lojban", "cel-gaulish", "en-gb-oed", "i-ami", "i-bnn", "i-default", "i-enochian", "i-hak",
    "i-klingon", "i-lux", "i-mingo", "i-navajo", "i-pwn", "i-tao", "i-tay", "i-tsu", "no-bok",
    "no-nyn", "sgn-be-fr", "sgn-be-nl", "sgn-ch-de", "zh-guoyu", "zh-hakka", "zh-min",
    "zh-min-nan", "zh-xiang"]

/-- Where a tag stands after some of its parts. -/
inductive TagState where
  | start
  | afterLanguage (extended : Nat)
  | afterExtended
  | afterScript
  | afterRegion
  | inExtension (expected : Bool)
  | inPrivate (expected : Bool)
  deriving DecidableEq

def TagState.beforeScript : TagState → Bool
  | .afterLanguage _ => true
  | .afterExtended => true
  | _ => false

def TagState.beforeRegion (s : TagState) : Bool := s.beforeScript || s == .afterScript

def TagState.beforeVariant (s : TagState) : Bool := s.beforeRegion || s == .afterRegion

def TagState.next? (s : TagState) (part : List Char) : Option TagState :=
  let n := part.length
  let letters := part.all isLetter
  let alphanumeric := part.all fun c ↦ isLetter c || isAsciiDigit c
  if n = 0 ∨ n > 8 ∨ !alphanumeric then none
  else
    match s with
    | .start =>
      if n < 2 ∨ !letters then none
      else some (if n < 4 then .afterLanguage 0 else .afterExtended)
    | .inPrivate _ => some (.inPrivate false)
    | s =>
      if part = ['x'] ∨ part = ['X'] then
        if s = .inExtension true then none else some (.inPrivate true)
      else if n = 1 then
        if s = .inExtension true then none else some (.inExtension true)
      else
        match s with
        | .inExtension _ => some (.inExtension false)
        | s =>
          let extended := match s with
            | .afterLanguage k => if n = 3 ∧ letters then some k else none
            | _ => none
          match extended with
          | some k => if k < 3 then some (.afterLanguage (k + 1)) else none
          | none =>
            if s.beforeScript && n = 4 && letters then some .afterScript
            else if s.beforeRegion && ((n = 2 && letters) || (n = 3 && part.all isAsciiDigit)) then
              some .afterRegion
            else if s.beforeVariant
                && ((n ≥ 5 && part.head?.any isLetter)
                  || (n ≥ 4 && part.head?.any isAsciiDigit)) then
              some .afterRegion
            else none

def TagState.isFinal : TagState → Bool
  | .start => false
  | .inExtension expected => !expected
  | .inPrivate expected => !expected
  | _ => true

def isLanguageTag (tag : String) : Bool :=
  let parts := Iri.splitOn '-' tag.toList
  grandfatheredTags.contains (asciiLower tag)
    || (match parts with
      | ['x'] :: rest => rest != [] && rest.all fun part ↦ part != [] && part.length ≤ 8
          && part.all fun c ↦ isLetter c || isAsciiDigit c
      | ['X'] :: rest => rest != [] && rest.all fun part ↦ part != [] && part.length ≤ 8
          && part.all fun c ↦ isLetter c || isAsciiDigit c
      | _ => ((parts.foldlM TagState.next? TagState.start).map TagState.isFinal).getD false)

end OntoGraph.Text
