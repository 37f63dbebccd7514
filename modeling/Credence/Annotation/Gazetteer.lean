import Credence.Annotation.Basic
import Credence.Text.Casing
import Credence.Text.Composition
import Credence.Text.Letter

/-!
# Finding entities in texts

A gazetteer knows what the things of a world are called: the names and aliases of concepts that may
have instances, and the names of the instances of dynamic concepts.  It finds these forms as whole
words, whatever their case, in texts that are brought into composed form first.

At each place of a text the longest form counts, and of forms of one length the first in order; a
found form is passed over before the search goes on.  A name in its own spelling has full
confidence, and anything else a little less.
-/

namespace Credence

/-- What something of a world is called. -/
structure Surface where
  form : String
  /-- The concept that is meant, or whose instance is meant. -/
  classType : String
  /-- Whether the form is a name, and no alias. -/
  isName : Bool
  /-- Whether an instance is meant, which is called by its own spelling in any case. -/
  isInstance : Bool
deriving Repr

/-- What the things of a world are called. -/
structure Gazetteer where
  /-- What each form in lower case may mean. -/
  surfaces : Table String (List Surface)
  /-- The forms in the order in which they are tried. -/
  forms : List (List Char)

namespace Gazetteer

/-- The confidence of a name in its own spelling. -/
def exactConfidence : Float := 1

/-- The confidence of an alias, and of a name in another case. -/
def looseConfidence : Float := 0.9

/-! ## Collecting forms -/

/-- What a concept is called. -/
def ofConcept (c : Concept) : List Surface :=
  if c.isInstantiable then
    ⟨c.name, c.name, true, false⟩ :: c.aliases.toList.map fun a => ⟨a, c.name, false, false⟩
  else []

/-- What an instance of a dynamic concept is called. -/
def ofInstance (w : World) (i : Instance) : List Surface :=
  if (w.concept? i.key.concept).any fun c => c.category = .dynamic then
    [⟨i.key.name, i.key.concept, true, true⟩]
  else []

def surfacesOf (w : World) : List Surface :=
  w.ontology.concepts.values.flatMap ofConcept ++ w.registry.toList.flatMap (ofInstance w)

/-- Files a surface under its form in composed form and lower case; a blank form is left out. -/
def file (t : Table String (List Surface)) (s : Surface) : Table String (List Surface) :=
  let form := Text.compose s.form
  if (Text.trim form).isEmpty then t
  else t.alter (Text.lowercase form) fun known => known.getD [] ++ [{ s with form }]

/-- Longer forms come first, and forms of one length in order. -/
def before (a b : List Char) : Bool :=
  b.length < a.length || (a.length = b.length && (compare a b).isLE)

def ofWorld (w : World) : Gazetteer :=
  let surfaces := (surfacesOf w).foldl file ∅
  ⟨surfaces, (surfaces.keys.map String.toList).mergeSort before⟩

def size (g : Gazetteer) : Nat := g.surfaces.size

def isEmpty (g : Gazetteer) : Bool := g.surfaces.isEmpty

/-! ## Searching a text -/

/-- Whether a word begins or ends between two neighbours, either of which may be missing. -/
def isBoundary (left right : Option Char) : Bool :=
  left.any Text.isWordChar != right.any Text.isWordChar

/-- Whether a form stands at the front of a text, whatever the case. -/
def standsAt : List Char → List Char → Bool
  | [], _ => true
  | _ :: _, [] => false
  | a :: form, c :: text => Text.sameLetter a c && standsAt form text

/-- Whether a form stands at the front of a text and a word ends where it does. -/
def endsWord (form text : List Char) : Bool :=
  standsAt form text && isBoundary (text.take form.length).getLast? (text.drop form.length).head?

/-- The found forms of a text, given the character before it.  The first argument bounds the
steps. -/
def search (forms : List (List Char)) : Nat → Option Char → List Char → List (List Char)
  | 0, _, _ => []
  | _ + 1, _, [] => []
  | steps + 1, left, c :: rest =>
    let here :=
      if isBoundary left (some c) then forms.find? fun f => endsWord f (c :: rest) else none
    match here with
    | some form =>
      let found := (c :: rest).take form.length
      -- the search goes on behind the form, so no two of them overlap
      found :: search forms steps found.getLast? ((c :: rest).drop form.length)
    | none => search forms steps (some c) rest

/-- What a found form may mean as an entity. -/
def entity (found : String) (s : Surface) : Entity where
  classType := s.classType
  surfaceForm := if s.isInstance then s.form else found
  confidence := if s.isName ∧ s.form = found then exactConfidence else looseConfidence

/-- What a found form means, sorted by concept; nothing that was found before with its concept and
in any case is found again. -/
def meanings (g : Gazetteer) (found : String) (seen : List (String × String)) :
    List Entity × List (String × String) :=
  let candidates := ((g.surfaces.get? (Text.lowercase found)).getD []).map (entity found)
  let (fresh, seen) := candidates.foldl
    (fun (fresh, seen) e =>
      let key := (e.classType, Text.lowercase e.surfaceForm)
      if key ∈ seen then (fresh, seen) else (fresh ++ [e], key :: seen))
    ([], seen)
  (fresh.mergeSort fun a b => a.classType ≤ b.classType, seen)

def entities (g : Gazetteer) : List (List Char) → List (String × String) → List Entity
  | [], _ => []
  | found :: rest, seen =>
    let (here, seen) := g.meanings (String.ofList found) seen
    here ++ g.entities rest seen

/-- The entities that a text mentions, in the order of their places. -/
def extract (g : Gazetteer) (text : String) : List Entity :=
  let chars := Text.composeChars text.toList
  g.entities (search g.forms (chars.length + 1) none chars) []

end Gazetteer

end Credence
