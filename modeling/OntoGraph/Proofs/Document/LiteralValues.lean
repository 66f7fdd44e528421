import OntoGraph.Document.Import
import OntoGraph.Proofs.Ontology.LexicalForms

/-!
# Literals in documents

A valid value is written with the type of its datatype, and what is read back has the same written
form and is valid again. Blanks around a number are lost, since a number is read without them. What
was read back once comes back as the same value ever after.
-/

namespace OntoGraph.Document

open Ontology Rdf

theorem xsd_eq_xsdBoolean_iff {d : Datatype} : d.xsd = xsdBoolean ↔ d = .boolean := by
  cases d <;> decide

/-- A literal that a valid value is written as is read by its text. -/
theorem valueOf_typed {d : Datatype} {v : Value} (h : d.accepts v = true) :
    valueOf d (.typed v.lexical d.xsd) = d.ofLexical v.lexical := by
  have hboolean : ¬(d.xsd = xsdBoolean ∧ d ≠ .boolean) := fun hd ↦
    hd.2 (xsd_eq_xsdBoolean_iff.1 hd.1)
  have hexponent : ¬(d.isNumeric = true ∧
      (v.lexical.toList.any fun ch ↦ ch == 'E' || ch == 'e') = true) := by
    rintro ⟨hd, hany⟩
    obtain ⟨x, hx⟩ := isSome_canonicalNumber?_of_accepts hd h
    rw [not_exponent_of_canonicalNumber? hx] at hany
    cases hany
  unfold valueOf Term.typed
  dsimp only
  rw [if_neg hboolean, if_neg hexponent]

/-- A literal that a valid value is written as is read back with the same written form. -/
theorem lexical_valueOf {d : Datatype} {v : Value} (h : d.accepts v = true) :
    (valueOf d (.typed v.lexical d.xsd)).lexical = d.writtenForm v.lexical := by
  rw [valueOf_typed h]
  exact lexical_ofLexical h

/-- A valid value survives in documents: what is read from the literal that it is written as is
valid, has the same written form, and from then on comes back as the same value. -/
theorem valueOf_survives {d : Datatype} {v : Value} (h : d.accepts v = true) :
    let read := valueOf d (.typed v.lexical d.xsd)
    d.accepts read = true ∧ read.lexical = d.writtenForm v.lexical ∧
      valueOf d (.typed read.lexical d.xsd) = read := by
  intro read
  have hread : read = d.ofLexical v.lexical := valueOf_typed h
  have hvalid : d.accepts read = true := by
    rw [hread]
    exact accepts_ofLexical h
  refine ⟨hvalid, lexical_valueOf h, ?_⟩
  calc valueOf d (.typed read.lexical d.xsd)
      = d.ofLexical read.lexical := valueOf_typed hvalid
    _ = d.ofLexical (d.ofLexical v.lexical).lexical := by rw [hread]
    _ = d.ofLexical v.lexical := ofLexical_lexical_ofLexical h
    _ = read := hread.symm

/-- Zero with a sign and blanks around it, held as text, comes back as a number. -/
theorem valueOf_survives_signedZero :
    Datatype.accepts .nonNegativeInteger (.text " -0 ") = true ∧
      (let read := valueOf .nonNegativeInteger (.typed " -0 " xsdNonNegativeInteger)
      Datatype.accepts .nonNegativeInteger read = true ∧ read.lexical = "-0" ∧
        valueOf .nonNegativeInteger (.typed read.lexical xsdNonNegativeInteger) = read) := by
  have haccepts : Datatype.accepts .nonNegativeInteger (.text " -0 ") = true := by decide +kernel
  have htrim : Datatype.writtenForm .nonNegativeInteger " -0 " = "-0" := by decide +kernel
  have h := valueOf_survives haccepts
  exact ⟨haccepts, h.1, h.2.1.trans htrim, h.2.2⟩

end OntoGraph.Document
