import OntoGraph.Proofs.Rdf.NTriplesReading
import OntoGraph.Proofs.Rdf.Store

/-!
# The document of a store says its statements

By the productions of N-Triples, the document of a store is one of the statements of the store, in
their order, and of nothing else. Lexical forms are arbitrary; the escapes keep the quotes, the
point and the end of the line that belong to a statement apart from what stands in a literal. IRIs,
labels and tags are written as they are, so that they have to follow the grammar themselves. The
text of a literal in a language leaves out the datatype, which can only be the one for such
literals.
-/

namespace OntoGraph.Rdf

open NTriples Turtle

/-! ## What is left out -/

/-- The term that the text of a term says. -/
def Term.said : Term → Term
  | .literal lexical _ (some language) => .inLanguage lexical language
  | t => t

/-- Is the term one whose datatype, if it is in a language, is the one for such literals? -/
def Term.isTyped : Term → Bool
  | .literal _ datatype (some _) => datatype = rdfLangString
  | _ => true

def Triple.said (t : Triple) : Triple := { t with object := t.object.said }

@[simp] theorem Term.text_said (t : Term) : t.said.text = t.text := by
  rcases t with _ | _ | ⟨_, _, _ | _⟩ <;> rfl

@[simp] theorem Triple.text_said (t : Triple) : t.said.text = t.text := by
  rw [text, text, said, Term.text_said]

@[simp] theorem Triple.line_said (t : Triple) : t.said.line = t.line := by
  rw [line, line, text_said]

theorem Term.said_eq_self_iff {t : Term} : t.said = t ↔ t.isTyped = true := by
  rcases t with _ | _ | ⟨lexical, datatype, _ | language⟩
  · exact iff_of_true rfl rfl
  · exact iff_of_true rfl rfl
  · exact iff_of_true rfl rfl
  · simp [said, isTyped, inLanguage, eq_comm]

theorem Triple.said_eq_self_iff {t : Triple} : t.said = t ↔ t.object.isTyped = true := by
  rw [← Term.said_eq_self_iff]
  exact ⟨congrArg Triple.object, fun h ↦ by rw [said, h]⟩

/-- Statements say themselves if and only if all of them are typed. -/
theorem map_said_eq_self_iff {ts : List Triple} :
    ts.map Triple.said = ts ↔ ∀ t ∈ ts, t.object.isTyped = true := by
  calc ts.map Triple.said = ts
      ↔ ts.map Triple.said = ts.map id := by rw [List.map_id]
    _ ↔ ∀ t ∈ ts, t.said = t := List.map_inj_left
    _ ↔ ∀ t ∈ ts, t.object.isTyped = true := forall₂_congr fun _ _ ↦ Triple.said_eq_self_iff

namespace NTriples

variable {store : Store}

/-! ## Quotes and points -/

/-- The first quote after an opening one that ends a string is the one that was put after the
lexical form. -/
theorem QuotedText.eq_of_escaped {text rest rest' : List Char} {lexical other : String}
    (h : QuotedText text other)
    (heq : text ++ rest = '"' :: ((Term.escaped lexical).toList ++ '"' :: rest')) :
    other = lexical ∧ rest = rest' := by
  have hwritten := readUntil?_flatMap (by decide)
    (fun c (_ : c ∈ lexical.toList) ↦ standsFor_escapedCharacter c) rest' (Nat.le_refl _)
  have hread := readQuoted?_eq_some_iff.2 ⟨text, h, heq.symm⟩
  rw [Term.escaped, String.toList_ofList, hwritten] at hread
  obtain ⟨hlexical, hrest⟩ := Prod.mk.inj (Option.some.inj hread)
  exact ⟨(String.toList_inj.1 hlexical).symm, hrest.symm⟩

theorem statementText_text {t : Triple} (h : t.isWritable = true) :
    StatementText (t.text.toList ++ [' ', '.']) t := by
  obtain ⟨text, htext, heq⟩ := exists_statementText_of_readStatement? (readStatement?_text h)
  rw [heq, List.append_nil]
  exact htext

/-- The first point that ends a statement whose object is a literal is the one that was put after
the literal. -/
theorem StatementText.eq_of_text {t u : Triple} {text rest rest' : List Char}
    (h : StatementText text u) (hwritable : t.isWritable = true)
    (hliteral : t.object.isLiteral = true)
    (heq : text ++ rest = t.text.toList ++ ([' ', '.'] ++ rest')) : u = t ∧ rest = rest' := by
  rw [← List.append_assoc] at heq
  obtain ⟨rfl, htext⟩ := (statementText_text hwritable).unique h heq.symm hliteral
  rw [htext] at heq
  exact ⟨rfl, List.append_cancel_left heq⟩

/-! ## The whole document -/

theorem toList_toNTriples_said (store : Store) :
    store.toNTriples.toList =
      (store.triples.toList.map Triple.said).flatMap fun t ↦ t.line.toList := by
  rw [toList_toNTriples, List.flatMap_map]
  simp only [Triple.line_said]

theorem forall_mem_map_said {ts : List Triple} (h : ∀ t ∈ ts, t.said.isWritable = true) :
    ∀ t ∈ ts.map Triple.said, t.isWritable = true := List.forall_mem_map.2 h

/-- The lines of a document are those of the statements, and an empty one after them. -/
theorem splitOnP_lines {ts : List Triple} (h : ∀ t ∈ ts, t.isWritable = true) :
    (ts.flatMap fun t ↦ t.line.toList).splitOnP isLineEnd =
      ts.map (fun t ↦ t.text.toList ++ [' ', '.']) ++ [[]] := by
  induction ts with
  | nil => rfl
  | cons t ts ih =>
    rw [List.flatMap_cons, splitOnP_line (h t List.mem_cons_self),
      ih fun u hu ↦ h u (List.mem_cons_of_mem _ hu)]
    rfl

/-- A document is derived as one of the statements that its store says, and as no other. -/
theorem documentText_iff_said (h : ∀ t ∈ store.triples.toList, t.said.isWritable = true)
    {ts : List Triple} :
    DocumentText store.toNTriples.toList ts ↔ ts = store.triples.toList.map Triple.said := by
  have hread : read? store.toNTriples = some (store.triples.toList.map Triple.said) := by
    rw [read?, toList_toNTriples_said, readLines?_lines (forall_mem_map_said h)]
  rw [← read?_eq_some_iff, hread, Option.some.injEq, eq_comm]

/-- What the document of a store says by the grammar, if IRIs, labels and tags follow it, and
lexical forms are arbitrary. It says the statements of the store in their order and nothing else,
where a literal in a language is of the datatype for such literals; so the text determines them. No
literal ends its line, its quotes or its statement before the end that was put there. -/
theorem documentText_toNTriples (h : ∀ t ∈ store.triples.toList, t.said.isWritable = true) :
    (∀ ts, DocumentText store.toNTriples.toList ts ↔ ts = store.triples.toList.map Triple.said) ∧
      (DocumentText store.toNTriples.toList store.triples.toList ↔
        ∀ t ∈ store.triples.toList, t.object.isTyped = true) ∧
      (∀ other : Store, (∀ t ∈ other.triples.toList, t.said.isWritable = true) →
        (other.toNTriples = store.toNTriples ↔
          other.triples.toList.map Triple.said = store.triples.toList.map Triple.said)) ∧
      store.toNTriples.toList.splitOnP isLineEnd =
        store.triples.toList.map (fun t ↦ t.text.toList ++ [' ', '.']) ++ [[]] ∧
      ∀ t ∈ store.triples.toList, ∀ lexical datatype language,
        t.object = .literal lexical datatype language →
          (∀ text other rest rest', QuotedText text other →
            text ++ rest = '"' :: ((Term.escaped lexical).toList ++ '"' :: rest') →
              other = lexical ∧ rest = rest') ∧
          ∀ text u rest rest', StatementText text u →
            text ++ rest = t.text.toList ++ ([' ', '.'] ++ rest') → u = t.said ∧ rest = rest' := by
  refine ⟨fun ts ↦ documentText_iff_said h, ?_, fun other hother ↦ ?_, ?_, ?_⟩
  · rw [documentText_iff_said h, eq_comm, map_said_eq_self_iff]
  · constructor
    · intro heq
      have hdocument := (documentText_iff_said hother).2 rfl
      rw [heq] at hdocument
      exact (documentText_iff_said h).1 hdocument
    · intro heq
      rw [← String.toList_inj, toList_toNTriples_said, heq, toList_toNTriples_said]
  · rw [toList_toNTriples_said, splitOnP_lines (forall_mem_map_said h), List.map_map]
    simp [Function.comp_def]
  · intro t ht lexical datatype language hobject
    refine ⟨fun text other rest rest' ↦ QuotedText.eq_of_escaped, fun text u rest rest' hu heq ↦ ?_⟩
    have hliteral : t.said.object.isLiteral = true := by
      rw [Triple.said, hobject]
      cases language <;> rfl
    rw [← Triple.text_said] at heq
    exact hu.eq_of_text (h t ht) hliteral heq

/-- A note that looks like the end of its own statement and the start of another one, in a language
and without, and one whose last character would hide the quote after it. -/
def notes : List Triple :=
  [⟨.iri "urn:note:1", "urn:says", .typed "a\" .\n<urn:note:1> <urn:says> \"b" xsdString⟩,
    ⟨.blank "b0", "urn:says", .inLanguage "a\"@en .\r# b" "en-GB"⟩,
    ⟨.blank "b0", "urn:says", .typed "c:\\" "urn:path"⟩]

theorem documentText_toNTriples_notes :
    (∀ t ∈ (Store.ofList notes).triples.toList, t.said.isWritable = true) ∧
      (Store.ofList notes).triples.toList = notes ∧
      DocumentText (Store.ofList notes).toNTriples.toList notes ∧
      ∀ ts, DocumentText (Store.ofList notes).toNTriples.toList ts → ts = notes := by
  have htriples : (Store.ofList notes).triples.toList = notes :=
    Store.triples_ofList (by decide)
  have hwritable : ∀ t ∈ (Store.ofList notes).triples.toList, t.said.isWritable = true := by
    rw [htriples]
    decide
  obtain ⟨hsaid, htyped, -⟩ := documentText_toNTriples hwritable
  rw [htriples] at hsaid htyped
  refine ⟨hwritable, htriples, htyped.2 (by decide), fun ts hts ↦ ?_⟩
  exact ((hsaid ts).1 hts).trans (map_said_eq_self_iff.2 (by decide))

end NTriples

end OntoGraph.Rdf
