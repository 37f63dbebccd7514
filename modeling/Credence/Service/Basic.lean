import Credence.Annotation.Gazetteer
import Credence.Service.Dashboard
import Credence.Service.Forms
import Credence.Service.Route

/-!
# The service

The service answers requests with the state of a knowledge base.  A query only looks at the world.
Of the commands, only learning changes it; the others leave no more behind than remembered
deductions, which the next question clears.

The status of a response tells what happened:

```text
200  done
400  the body is no document, a text is no condition, or a path is not UTF-8
404  there is no such route, or something named is missing
405  the route has another method
415  the body is not announced as a document
422  the body has another form, or the request is refused for another reason
```
-/

namespace Credence.Service

open Json

structure Request where
  method : Method
  /-- The path, perhaps behind a scheme and an authority, and with a query string. -/
  target : String
  /-- Whether the body is announced as a document. -/
  announced : Bool
  body : String

inductive Body where
  | empty
  | document (j : Json)
  | page (html : String)
deriving Inhabited

structure Response where
  status : Nat
  body : Body
deriving Inhabited

namespace Response

/-- A document. -/
def done (j : Json) : Response := ⟨200, .document j⟩

/-- A response without a body. -/
def bare (status : Nat) : Response := ⟨status, .empty⟩

/-- The status of an error. -/
def errorStatus : Error → Nat
  | .missing _ => 404
  | .malformed _ _ => 400
  | .violation _ | .unbound _ | .unsupported _ => 422

/-- An error. -/
def refusal (e : Error) : Response := ⟨errorStatus e, .document e.toJson⟩

/-- A response of which only the status is sent. -/
def withoutBody (r : Response) : Response := bare r.status

end Response

/-- The answer to a query. -/
def answer (w : World) : Query → Response
  | .dashboard => ⟨200, .page (Dashboard.page w)⟩
  | .status => .done (KnowledgeBase.stats w).toJson
  | .concepts => .done (.list (w.ontology.concepts.values.map (Concept.summary w)))
  | .concept encoded =>
    match Percent.decode? encoded with
    | none => .bare 400
    | some name =>
      match w.concept? name with
      | some c => .done (c.detail w.ontology name)
      | none => .refusal (.missing (.concept name))
  | .relations => .done (.list (w.ontology.relations.values.map Relation.summary))

/-- Carries out a step and answers with what it comes to. -/
def carryOut {α : Type} (step : KnowledgeBase.Step α) (respond : α → Json) :
    StateM KnowledgeBase Response := do
  match ← step.run with
  | .ok a => return .done (respond a)
  | .error e => return .refusal e

/-- Reads the body of a request and goes on with what it says. -/
def reading {α : Type} (r : Request) (decoder : Decoder α)
    (next : α → StateM KnowledgeBase Response) : StateM KnowledgeBase Response :=
  if !r.announced then return .bare 415
  else
    match decode decoder r.body with
    | .ok a => next a
    | .error .unreadable => return .bare 400
    | .error .unfit => return .bare 422

/-- The verdict on a question whose subjects are given in writing. -/
def verdict (q : InferRequest) : KnowledgeBase.Step Finding := do
  let w := (← get).toWorld
  let domain ← KnowledgeBase.accept (w.resolve q.domain)
  let target ← KnowledgeBase.accept (w.resolve q.target)
  KnowledgeBase.infer domain q.relation target q.conditions

/-- Carries out a command. -/
def perform (r : Request) : Command → StateM KnowledgeBase Response
  | .infer => reading r InferRequest.decoder fun q => carryOut (verdict q) Verdict.toJson
  | .learn => reading r (Draft.asList AnnotatedText.decoder) fun texts =>
    carryOut (KnowledgeBase.ingest texts) KnowledgeBase.Report.toJson
  | .extract => reading r extractDecoder fun s => do
    let entities := (Gazetteer.ofWorld (← get).toWorld).extract s
    return .done (.list (entities.map Entity.toJson))
  | .reset => do
    modify KnowledgeBase.reset
    return .done (.object [("status", .text "ok")])

/-- Answers a request.  `OPTIONS` is answered on any path. -/
def handle (r : Request) : StateM KnowledgeBase Response := do
  if r.method = .options then return .bare 200
  match Route.ofTarget? r.target with
  | none => return .bare 404
  | some (.query q) =>
    match r.method with
    | .get => return answer (← get).toWorld q
    | .head => return (answer (← get).toWorld q).withoutBody
    | _ => return .bare 405
  | some (.command c) =>
    match r.method with
    | .post => perform r c
    | _ => return .bare 405

end Credence.Service
