/-!
# The names of the RDF vocabularies

The IRIs that this library gives a meaning to.
-/

namespace OntoGraph.Rdf

def xsdNamespace : String := "http://www.w3.org/2001/XMLSchema#"

def rdfType : String := "http://www.w3.org/1999/02/22-rdf-syntax-ns#type"
def rdfFirst : String := "http://www.w3.org/1999/02/22-rdf-syntax-ns#first"
def rdfRest : String := "http://www.w3.org/1999/02/22-rdf-syntax-ns#rest"
def rdfNil : String := "http://www.w3.org/1999/02/22-rdf-syntax-ns#nil"
def rdfLangString : String := "http://www.w3.org/1999/02/22-rdf-syntax-ns#langString"
def rdfJson : String := "http://www.w3.org/1999/02/22-rdf-syntax-ns#JSON"

def rdfsComment : String := "http://www.w3.org/2000/01/rdf-schema#comment"
def rdfsRange : String := "http://www.w3.org/2000/01/rdf-schema#range"
def rdfsSubClassOf : String := "http://www.w3.org/2000/01/rdf-schema#subClassOf"

def owlClass : String := "http://www.w3.org/2002/07/owl#Class"
def owlDatatypeProperty : String := "http://www.w3.org/2002/07/owl#DatatypeProperty"
def owlObjectProperty : String := "http://www.w3.org/2002/07/owl#ObjectProperty"
def owlNamedIndividual : String := "http://www.w3.org/2002/07/owl#NamedIndividual"
def owlOntology : String := "http://www.w3.org/2002/07/owl#Ontology"
def owlVersionInfo : String := "http://www.w3.org/2002/07/owl#versionInfo"

def shProperty : String := "http://www.w3.org/ns/shacl#property"

def xsdAnyUri : String := "http://www.w3.org/2001/XMLSchema#anyURI"
def xsdBoolean : String := "http://www.w3.org/2001/XMLSchema#boolean"
def xsdDateTimeStamp : String := "http://www.w3.org/2001/XMLSchema#dateTimeStamp"
def xsdDecimal : String := "http://www.w3.org/2001/XMLSchema#decimal"
def xsdDouble : String := "http://www.w3.org/2001/XMLSchema#double"
def xsdInteger : String := "http://www.w3.org/2001/XMLSchema#integer"
def xsdNonNegativeInteger : String := "http://www.w3.org/2001/XMLSchema#nonNegativeInteger"
def xsdPositiveInteger : String := "http://www.w3.org/2001/XMLSchema#positiveInteger"
def xsdString : String := "http://www.w3.org/2001/XMLSchema#string"

end OntoGraph.Rdf
