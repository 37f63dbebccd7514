import Credence.KnowledgeBase.Basic
import Credence.Service.Markup

/-!
# The dashboard

One page that shows a world: the numbers of things, a table of the concepts and a table of the
relations.
-/

namespace Credence.Dashboard

open Markup

/-- The rules of the style sheet: what they are about, and what they set. -/
def styleRules : List (String × String) := [
  ("body", "font-family: system-ui, sans-serif; margin: 2rem; color: #1d2330;"),
  (".stats", "display: flex; gap: 1.5rem; margin-bottom: 1.5rem;"),
  (".stat-value", "font-size: 1.6rem; font-weight: 600; display: block;"),
  ("table", "border-collapse: collapse; width: 100%; margin-bottom: 2rem;"),
  ("th, td", "text-align: left; padding: .35rem .6rem; border-bottom: 1px solid #dde1ea;"),
  (".category",
    "font-size: .8rem; padding: .1rem .4rem; border-radius: .3rem; background: #eef1f7;"),
  (".muted", "color: #7a8294;")]

/-- The style sheet. -/
def style : String :=
  "\n" ++ String.join (styleRules.map fun r => r.1 ++ " \x7b " ++ r.2 ++ " \x7d\n")

def title : String := "Cognitive Core"

/-- A number with its label. -/
def stat (n : Nat) (label : String) : Markup :=
  classed "div" "stat"
    [classed "span" "stat-value" [number n], classed "span" "stat-label" [text label]]

/-- Names with commas between them. -/
def joined (names : NameSet) : Markup := text (", ".intercalate names.toList)

/-- A table with the names of its columns. -/
def table (columns : List String) (rows : List Markup) : Markup :=
  plain "table" [
    plain "thead" [plain "tr" (columns.map fun c => plain "th" [text c])],
    plain "tbody" rows]

def conceptRow (w : World) (name : String) (c : Concept) : Markup :=
  plain "tr" [
    plain "td" [text c.name],
    plain "td" [classed "span" "category" [text c.category.name]],
    plain "td" [joined c.parents],
    classed "td" "muted" [joined c.aliases],
    plain "td" [number (w.registry.ofConcept name).length]]

def relationRow (r : Relation) : Markup :=
  plain "tr" [
    plain "td" (text r.name
      :: if r.distinct then [text " ", classed "span" "muted" [text "(d ≠ t)"]] else []),
    plain "td" (r.groups.map fun g => plain "div" [joined g.1.bases, text " → ", joined g.2.bases]),
    plain "td" [number r.rules.length]]

def concepts (w : World) : Markup :=
  if w.ontology.concepts.isEmpty then classed "p" "muted" [text "Nenhum conceito ainda."]
  else
    table ["Nome", "Categoria", "Pais", "Aliases", "Instâncias"]
      (w.ontology.concepts.entries.map fun e => conceptRow w e.1 e.2)

def relations (w : World) : Markup :=
  if w.ontology.relations.isEmpty then classed "p" "muted" [text "Nenhuma relação ainda."]
  else table ["Nome", "Grupos", "Regras"] (w.ontology.relations.values.map relationRow)

def page (w : World) : String :=
  let stats := KnowledgeBase.stats w
  let head := plain "head" [
    void "meta" [("charset", "UTF-8")],
    void "meta" [("name", "viewport"), ("content", "width=device-width, initial-scale=1.0")],
    plain "title" [text title],
    plain "style" [text style]]
  let body := plain "body" [
    plain "h1" [text title],
    classed "div" "stats" [
      stat stats.concepts "Conceitos", stat stats.relations "Relações",
      stat stats.rules "Regras", stat stats.instances "Instâncias"],
    plain "h2" [text "Conceitos"],
    concepts w,
    plain "h2" [text "Relações"],
    relations w]
  "<!DOCTYPE html>" ++ toText (element "html" [("lang", "pt-BR")] [head, body])

end Credence.Dashboard
