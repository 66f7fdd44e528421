import OntoGraph.Rdf.Store

/-!
# N-Triples

A store is written one statement to a line, in store order.
-/

namespace OntoGraph.Rdf

def Triple.line (t : Triple) : String := t.text ++ " .\n"

def Store.toNTriples (store : Store) : String :=
  String.join (store.triples.toList.map Triple.line)

end OntoGraph.Rdf
