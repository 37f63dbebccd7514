import Credence.Annotation.Ingestion
import Credence.Snapshot.Ontology

/-!
# Documents of the service

What the service reads from the bodies of requests, and what it writes into the bodies of responses.
-/

namespace Credence

open Json

/-! ## Requests -/

/-- Reads an entity; its confidence is one if it is not given. -/
def Entity.decoder : Decoder Entity :=
  Draft.asRecord
    [.needed "class_type" Draft.asText fun e s => { e with classType := s },
      .needed "surface_form" Draft.asText fun e s => { e with surfaceForm := s },
      .extra "confidence" Draft.asNumber fun e x => { e with confidence := x }]
    ⟨"", "", 1⟩

def Annotation.decoder : Decoder Annotation :=
  Draft.asRecord
    [.needed "domain" Entity.decoder fun a e => { a with domain := e },
      .needed "relation" Draft.asText fun a s => { a with relation := s },
      .needed "target" Entity.decoder fun a e => { a with target := e },
      .needed "classification" (Draft.asNamed Classification.ofName?)
        fun a c => { a with classification := c },
      .needed "confidence" Draft.asNumber fun a x => { a with confidence := x }]
    ⟨⟨"", "", 1⟩, "", ⟨"", "", 1⟩, .positive, 1⟩

def AnnotatedText.decoder : Decoder AnnotatedText :=
  Draft.asRecord
    [.extra "text" Draft.asText fun t s => { t with text := s },
      .extra "annotations" (Draft.asList Annotation.decoder)
        fun t as => { t with annotations := as }]
    {}

/-- A question whether a relation holds. -/
structure InferRequest where
  domain : String := ""
  relation : String := ""
  target : String := ""
  /-- Whether rules with conditions take part. -/
  conditions : Bool := true

def InferRequest.decoder : Decoder InferRequest :=
  Draft.asRecord
    [.needed "domain" Draft.asText fun r s => { r with domain := s },
      .needed "relation" Draft.asText fun r s => { r with relation := s },
      .needed "target" Draft.asText fun r s => { r with target := s },
      .extra "evaluate_conditions" Draft.asBool fun r b => { r with conditions := b }]
    {}

/-- Reads the text in which entities are looked for. -/
def extractDecoder : Decoder String :=
  Draft.asRecord [.needed "text" Draft.asText fun _ s => s] ""

/-! ## Responses -/

def Json.count (n : Nat) : Json := .integer n

def KnowledgeBase.Stats.toJson (s : KnowledgeBase.Stats) : Json :=
  .object [("concepts", count s.concepts), ("relations", count s.relations),
    ("rules", count s.rules), ("instances", count s.instances)]

def KnowledgeBase.Report.toJson (r : KnowledgeBase.Report) : Json :=
  .object [("documents", count r.documents), ("rules_added", count r.rulesAdded),
    ("skipped", count r.skipped), ("instances_created", count r.instancesCreated)]

def Entity.toJson (e : Entity) : Json :=
  .object [("class_type", .text e.classType), ("surface_form", .text e.surfaceForm),
    ("confidence", .number e.confidence)]

def Verdict.toJson (v : Finding) : Json :=
  .object [("confidence", (v.confidence?.map Json.number).getD .null), ("known", .bool v.isKnown)]

def Error.toJson (e : Error) : Json := .object [("error", .text e.message)]

/-- A concept of a list as a document. -/
def Concept.summary (w : World) (c : Concept) : Json :=
  .object [("name", .text c.name), ("category", .text c.category.name),
    ("parents", c.parents.toJson), ("aliases", c.aliases.toJson),
    ("instances", count (w.registry.ofConcept c.name).length)]

/-- A concept with all that follows for it as a document. -/
def Concept.detail (o : Ontology) (name : String) (c : Concept) : Json :=
  .object [("name", .text c.name), ("category", .text c.category.name),
    ("parents", c.parents.toJson), ("children", c.children.toJson),
    ("aliases", c.aliases.toJson), ("properties", c.seed.toJson),
    ("ancestors", (o.ancestors name).toJson), ("descendants", (o.descendants name).toJson),
    ("relations", c.memberships.toJson count)]

/-- A relation of a list as a document. -/
def Relation.summary (r : Relation) : Json :=
  .object [("name", .text r.name),
    ("groups", .list (r.groups.map fun g => .list [g.1.bases.toJson, g.2.bases.toJson])),
    ("differ", .bool r.distinct), ("rules", count r.rules.length)]

end Credence
