import Credence.Proofs.Annotation.Mentions
import Credence.Proofs.KnowledgeBase.Discipline

/-!
# Which spelling a text is taken to mention

A name may be on file in several spellings, as the name of a concept, as an alias and as the name of
instances, and all that differ in case only are filed under one key.  Of one concept a text is given
out one entity for them, whatever else is on file: the first that was collected decides
(`Gazetteer.filter_mention_extract`).  A concept is collected in the order of its `callings`: its
name, its aliases, and then its instances by name.

So a name that the text has in its very spelling is given out with full confidence exactly if the
first calling under its key is a name in that spelling.  An alias, or an instance that comes earlier
in another case, takes the place of the name that the text has.  What is on file for other concepts
makes no difference.
-/

namespace Credence

/-! ## What is on file under a key -/

deriving instance DecidableEq for Surface

namespace Surface

/-- A surface with its form in composed form, as it is filed. -/
def composed (s : Surface) : Surface := { s with form := Text.compose s.form }

/-- Whether a surface is filed under a key. -/
def isFiledUnder (s : Surface) (key : String) : Bool :=
  !(Text.trim s.composed.form).isEmpty && Text.lowercase s.composed.form = key

theorem isFiledUnder_iff {s : Surface} {key : String} :
    s.isFiledUnder key = true ↔
      (Text.trim s.composed.form).isEmpty = false ∧ Text.lowercase s.composed.form = key := by
  unfold isFiledUnder
  rw [Bool.and_eq_true, Bool.not_eq_true', decide_eq_true_iff]

end Surface

namespace Gazetteer

variable {found key : String} {s : Surface}

theorem file_eq (t : Table String (List Surface)) (s : Surface) :
    file t s = if (Text.trim s.composed.form).isEmpty then t
      else t.alter (Text.lowercase s.composed.form) fun known => known.getD [] ++ [s.composed] :=
  rfl

theorem file_of_isFiledUnder (h : s.isFiledUnder key = true) (t : Table String (List Surface)) :
    file t s = t.alter key fun known => known.getD [] ++ [s.composed] := by
  obtain ⟨hblank, hkey⟩ := Surface.isFiledUnder_iff.mp h
  rw [file_eq, hblank, if_neg Bool.false_ne_true, hkey]

/-- A surface that is filed under a key comes last there, and any other changes nothing there. -/
theorem get?_file (t : Table String (List Surface)) (s : Surface) (key : String) :
    ((file t s).get? key).getD [] =
      (t.get? key).getD [] ++ if s.isFiledUnder key then [s.composed] else [] := by
  by_cases hfiled : s.isFiledUnder key = true
  · rw [if_pos hfiled, file_of_isFiledUnder hfiled, Table.get?_alter, if_pos rfl]
    rfl
  · rw [if_neg hfiled, List.append_nil]
    cases hblank : (Text.trim s.composed.form).isEmpty with
    | true => rw [file_eq, if_pos hblank]
    | false =>
        rw [file_eq, hblank, if_neg Bool.false_ne_true, Table.get?_alter,
          if_neg fun hkey => hfiled (Surface.isFiledUnder_iff.mpr ⟨hblank, hkey.symm⟩)]

/-- Filing surfaces whose keys are known. -/
theorem foldl_file {filed : List (Surface × String)}
    (h : ∀ e ∈ filed, e.1.isFiledUnder e.2 = true) (t : Table String (List Surface)) :
    (filed.map Prod.fst).foldl file t =
      filed.foldl (fun t e => t.alter e.2 fun known => known.getD [] ++ [e.1.composed]) t := by
  induction filed generalizing t with
  | nil => rfl
  | cons e rest ih =>
      rw [List.map_cons, List.foldl_cons, List.foldl_cons,
        file_of_isFiledUnder (h e List.mem_cons_self)]
      exact ih (fun e he => h e (List.mem_cons_of_mem _ he)) _

/-- Under a key stand the surfaces filed there, in the order in which they were collected. -/
theorem get?_foldl_file (ss : List Surface) (t : Table String (List Surface)) (key : String) :
    ((ss.foldl file t).get? key).getD [] =
      (t.get? key).getD [] ++ (ss.filter (Surface.isFiledUnder · key)).map Surface.composed := by
  induction ss generalizing t with
  | nil => simp
  | cons s rest ih =>
      rw [List.foldl_cons, ih, get?_file, List.append_assoc, List.filter_cons]
      split <;> rfl

/-- A found form may mean what is filed under it in lower case. -/
theorem candidatesOf_ofWorld (w : World) (found : String) :
    (ofWorld w).candidatesOf found =
      ((surfacesOf w).filter (Surface.isFiledUnder · (Text.lowercase found))).map fun s =>
        entity found s.composed := by
  unfold candidatesOf ofWorld
  dsimp only
  rw [get?_foldl_file]
  simp

/-- Filed surfaces and the text that they are found in differ in case only. -/
theorem mention_entity (h : s.isFiledUnder (Text.lowercase found) = true) :
    (entity found s.composed).mention = (s.classType, Text.lowercase found) := by
  unfold Entity.mention entity
  split
  · exact Prod.ext rfl ((Surface.isFiledUnder_iff.mp h).2)
  · rfl

theorem find?_candidatesOf (w : World) (found concept key : String) :
    ((ofWorld w).candidatesOf found).find? (·.mention = (concept, key)) =
      if Text.lowercase found = key then
        ((surfacesOf w).find? fun s => s.classType = concept ∧ s.isFiledUnder key).map fun s =>
          entity found s.composed
      else none := by
  rw [candidatesOf_ofWorld, List.find?_map, List.find?_filter]
  split
  · rename_i hkey
    subst hkey
    refine congrArg (Option.map _) (congrArg (List.find? · _) (funext fun s => ?_))
    by_cases hs : s.isFiledUnder (Text.lowercase found) = true
    · rw [Function.comp_apply, mention_entity hs]
      simp [hs]
    · simp [hs]
  · rename_i hkey
    refine Option.map_eq_none_iff.mpr (List.find?_eq_none.mpr fun s _ hboth => ?_)
    obtain ⟨hs, hmention⟩ := of_decide_eq_true hboth
    rw [Function.comp_apply, mention_entity hs] at hmention
    exact hkey (congrArg Prod.snd (of_decide_eq_true hmention))

/-! ## What is given out -/

/-- Of the candidates with one mention the first is given out, unless the mention was seen
before. -/
theorem filter_foldl_sift (m : String × String) (candidates fresh : List Entity)
    (seen : List (String × String)) :
    ((candidates.foldl sift (fresh, seen)).1.filter (·.mention = m)) =
      fresh.filter (·.mention = m) ++
        if m ∈ seen then [] else (candidates.find? (·.mention = m)).toList := by
  induction candidates generalizing fresh seen with
  | nil => simp
  | cons e rest ih =>
      rw [List.foldl_cons, sift]
      dsimp only
      by_cases hseen : e.mention ∈ seen
      · rw [if_pos (List.contains_iff_mem.mpr hseen), ih]
        by_cases hm : m ∈ seen
        · simp [hm]
        · have hne : e.mention ≠ m := fun heq => hm (heq ▸ hseen)
          simp [hm, hne]
      · rw [if_neg (mt List.contains_iff_mem.mp hseen), ih]
        by_cases heq : e.mention = m
        · subst heq
          simp [hseen]
        · simp [heq, Ne.symm heq]

/-- At one place, too, and the mention is on record from then on. -/
theorem filter_meanings (w : World) (found concept key : String)
    (seen : List (String × String)) :
    ((ofWorld w).meanings found seen).1.filter (·.mention = (concept, key)) =
      if (concept, key) ∈ seen then []
      else (((ofWorld w).candidatesOf found).find? (·.mention = (concept, key))).toList := by
  rw [meanings_eq_sift]
  have hperm := (List.mergeSort_perm
    (((ofWorld w).candidatesOf found).foldl sift ([], seen)).1
    fun a b => decide (a.classType ≤ b.classType)).filter (·.mention = (concept, key))
  rw [filter_foldl_sift, List.filter_nil, List.nil_append] at hperm
  dsimp only
  -- a permutation of at most one entity is the same list
  by_cases hseen : (concept, key) ∈ seen
  · rw [if_pos hseen] at hperm ⊢
    exact List.perm_nil.mp hperm
  · rw [if_neg hseen] at hperm ⊢
    cases hfirst : ((ofWorld w).candidatesOf found).find? (·.mention = (concept, key)) with
    | none =>
        rw [hfirst] at hperm
        exact List.perm_nil.mp hperm
    | some e =>
        rw [hfirst] at hperm
        exact List.perm_singleton.mp hperm

/-- From all places together a text is given out one entity of a concept under a key: the one that
was collected first, at the first place. -/
theorem filter_entities (w : World) (concept key : String) (hits : List (List Char))
    (seen : List (String × String)) :
    ((ofWorld w).entities hits seen).filter (·.mention = (concept, key)) =
      if (concept, key) ∈ seen then []
      else (((surfacesOf w).find? fun s => s.classType = concept ∧ s.isFiledUnder key).bind fun s =>
        (hits.find? fun hit => Text.lowercase (String.ofList hit) = key).map fun hit =>
          entity (String.ofList hit) s.composed).toList := by
  induction hits generalizing seen with
  | nil => simp [entities]
  | cons hit rest ih =>
      have hrecord := (sifted_meanings (ofWorld w) (String.ofList hit) seen).record (concept, key)
      have hhere := filter_meanings w (String.ofList hit) concept key seen
      rw [find?_candidatesOf] at hhere
      have hgiven : (concept, key) ∈
            ((ofWorld w).meanings (String.ofList hit) seen).1.map Entity.mention ↔
          ((ofWorld w).meanings (String.ofList hit) seen).1.filter
            (·.mention = (concept, key)) ≠ [] := by
        simp [List.filter_eq_nil_iff]
      rw [hgiven, hhere] at hrecord
      unfold entities
      dsimp only
      rw [List.filter_append, hhere, ih]
      by_cases hseen : (concept, key) ∈ seen
      · simp [hseen, hrecord]
      · by_cases hkey : Text.lowercase (String.ofList hit) = key
        · cases hfirst : (surfacesOf w).find? fun s =>
              s.classType = concept ∧ s.isFiledUnder key with
          | none => simp [hseen]
          | some s =>
              have hon : (concept, key) ∈ ((ofWorld w).meanings (String.ofList hit) seen).2 := by
                rw [hrecord, hfirst]
                simp [hseen, hkey]
              simp [hseen, hkey, hon]
        · have hnot : (concept, key) ∉ ((ofWorld w).meanings (String.ofList hit) seen).2 := by
            rw [hrecord]
            simp [hseen, hkey]
          simp [hseen, hkey, hnot]

/-- The found forms of a text, in the order of their places. -/
def hits (g : Gazetteer) (text : String) : List (List Char) :=
  let chars := Text.composeChars text.toList
  search g.forms (chars.length + 1) none chars

/-- Of one concept a text is given out one entity under a key, or none if nothing is on file. -/
theorem filter_mention_extract (w : World) (concept key text : String) :
    ((ofWorld w).extract text).filter (·.mention = (concept, key)) =
      (((surfacesOf w).find? fun s => s.classType = concept ∧ s.isFiledUnder key).bind fun s =>
        (((ofWorld w).hits text).find? fun hit => Text.lowercase (String.ofList hit) = key).map
          fun hit => entity (String.ofList hit) s.composed).toList := by
  have hentities := filter_entities w concept key ((ofWorld w).hits text) []
  rwa [if_neg List.not_mem_nil] at hentities

/-! ## Full confidence -/

theorem exactConfidence_ne_looseConfidence : exactConfidence ≠ looseConfidence :=
  fun h => absurd (congrArg Float.toBits h) (by decide +kernel)

/-- Only a name in the spelling of the text has full confidence. -/
theorem entity_eq_exact_iff (found : String) (s : Surface) :
    entity found s = ⟨s.classType, found, exactConfidence⟩ ↔ s.isName = true ∧ s.form = found := by
  constructor
  · intro h
    have hconfidence := congrArg Entity.confidence h
    unfold entity at hconfidence
    dsimp only at hconfidence
    by_contra hne
    rw [if_neg hne] at hconfidence
    exact exactConfidence_ne_looseConfidence hconfidence.symm
  · rintro h
    unfold entity
    rw [if_pos h, h.2, ite_self]

end Gazetteer

/-! ## What a concept is called -/

namespace World

/-- What a concept and its instances are called, in the order in which it is collected. -/
def callings (w : World) (c : Concept) : List Surface :=
  Gazetteer.ofConcept c ++ (w.registry.ofConcept c.name).flatMap (Gazetteer.ofInstance w)

variable {w : World} {concept : String} {c : Concept}

/-- The surfaces of a concept are its callings, in their order. -/
theorem Orderly.filter_surfacesOf (hw : w.Orderly) (hc : w.concept? concept = some c) :
    (Gazetteer.surfacesOf w).filter (·.classType = concept) = w.callings c := by
  have hname := hw.names hc
  unfold Gazetteer.surfacesOf callings
  rw [List.filter_append, List.filter_flatMap, List.filter_flatMap]
  congr 1
  · -- other concepts have nothing of this class
    rw [Table.flatMap_values (k := concept) fun {name c'} hc' hne => ?_]
    · rw [show w.ontology.concepts.get? concept = some c from hc]
      refine List.filter_eq_self.mpr fun s hs => ?_
      rw [(Gazetteer.of_mem_ofConcept hs).2, hname]
      exact decide_eq_true rfl
    · refine List.filter_eq_nil_iff.mpr fun s hs hclass => hne ?_
      rw [← of_decide_eq_true hclass, (Gazetteer.of_mem_ofConcept hs).2]
      exact (hw.names hc').symm
  · have hclass : ∀ {name : String} {shelf : Table String Instance},
        w.registry.byConcept.get? name = some shelf → ∀ i ∈ shelf.values,
          ∀ s ∈ Gazetteer.ofInstance w i, s.classType = name := by
      intro name shelf hshelf i hi s hs
      obtain ⟨instanceName, hget⟩ := Table.mem_values_iff.mp hi
      have hregistered : w.registry.get? ⟨name, instanceName⟩ = some i :=
        Option.bind_eq_some_iff.mpr ⟨shelf, hshelf, hget⟩
      rw [(Gazetteer.of_mem_ofInstance hs).1, (hw.stored hregistered).1]
    unfold Registry.toList Registry.ofConcept Registry.shelf
    rw [List.flatMap_assoc, Table.flatMap_values (k := concept) fun {name shelf} hshelf hne => ?_]
    · rw [hname]
      cases hshelf : w.registry.byConcept.get? concept with
      | none => rfl
      | some shelf =>
          refine List.flatMap_congr fun i hi => List.filter_eq_self.mpr fun s hs => ?_
          exact decide_eq_true (hclass hshelf i hi s hs)
    · refine List.flatMap_eq_nil_iff.mpr fun i hi => List.filter_eq_nil_iff.mpr fun s hs heq => ?_
      exact hne ((hclass hshelf i hi s hs).symm.trans (of_decide_eq_true heq))

theorem Orderly.find?_surfacesOf (hw : w.Orderly) (hc : w.concept? concept = some c)
    (key : String) :
    ((Gazetteer.surfacesOf w).find? fun s => s.classType = concept ∧ s.isFiledUnder key) =
      (w.callings c).find? (Surface.isFiledUnder · key) := by
  rw [← hw.filter_surfacesOf hc, List.find?_filter]
  congr 1
  funext s
  simp

theorem Orderly.classType_of_mem_callings (hw : w.Orderly) (hc : w.concept? concept = some c)
    {s : Surface} (hs : s ∈ w.callings c) : s.classType = concept := by
  rw [← hw.filter_surfacesOf hc] at hs
  exact of_decide_eq_true (List.mem_filter.mp hs).2

/-- An instance of a dynamic concept is called by its name. -/
theorem Orderly.mem_callings (hw : w.Orderly) (hc : w.concept? concept = some c)
    (hdynamic : c.category = .dynamic) {name : String} {i : Instance}
    (hi : w.registry.get? ⟨concept, name⟩ = some i) :
    ⟨name, concept, true, true⟩ ∈ w.callings c := by
  obtain ⟨hkey, -⟩ := hw.stored hi
  refine List.mem_append_right _ (List.mem_flatMap.mpr ⟨i, ?_, ?_⟩)
  · rw [hw.names hc]
    rw [Registry.get?_eq_shelf] at hi
    exact Table.mem_values_iff.mpr ⟨name, hi⟩
  · unfold Gazetteer.ofInstance
    rw [hkey, hc, Option.any_some, decide_eq_true hdynamic]
    exact List.mem_singleton_self _

/-- At the first place where a form is found, whatever its case, the first calling that is filed under
it decides. -/
theorem Orderly.filter_mention_extract (hw : w.Orderly) (hc : w.concept? concept = some c)
    {text : String} {first last : List (List Char)} {found : List Char}
    (hhits : (Gazetteer.ofWorld w).hits text = first ++ found :: last)
    (hnew : ∀ hit ∈ first,
      Text.lowercase (String.ofList hit) ≠ Text.lowercase (String.ofList found)) :
    ((Gazetteer.ofWorld w).extract text).filter
        (·.mention = (concept, Text.lowercase (String.ofList found))) =
      (((w.callings c).find? (Surface.isFiledUnder ·
        (Text.lowercase (String.ofList found)))).map fun s =>
          Gazetteer.entity (String.ofList found) s.composed).toList := by
  have hhit : ((Gazetteer.ofWorld w).hits text).find? (fun hit =>
      Text.lowercase (String.ofList hit) = Text.lowercase (String.ofList found)) = some found := by
    rw [hhits, List.find?_append, List.find?_eq_none.mpr fun hit hhit heq =>
      hnew hit hhit (of_decide_eq_true heq)]
    exact List.find?_cons_of_pos (p := fun hit => Text.lowercase (String.ofList hit) =
      Text.lowercase (String.ofList found)) (decide_eq_true rfl)
  rw [Gazetteer.filter_mention_extract, hhit, hw.find?_surfacesOf hc]
  cases (w.callings c).find? (Surface.isFiledUnder · _) <;> rfl

/-- Of the callings only a name in the spelling of the text has full confidence. -/
theorem Orderly.entity_eq_exact_iff (hw : w.Orderly) (hc : w.concept? concept = some c)
    {s : Surface} (hs : s ∈ w.callings c) (name : String) :
    Gazetteer.entity name s.composed = ⟨concept, name, 1⟩ ↔
      s.isName = true ∧ Text.compose s.form = name := by
  rw [← hw.classType_of_mem_callings hc hs]
  exact Gazetteer.entity_eq_exact_iff name s.composed

/-- The name of an instance of a dynamic concept is on file for the concept, unless it is blank. -/
theorem Orderly.exists_first_calling (hw : w.Orderly) (hc : w.concept? concept = some c)
    (hdynamic : c.category = .dynamic) {called : String} {i : Instance}
    (hi : w.registry.get? ⟨concept, called⟩ = some i)
    (hblank : (Text.trim (Text.compose called)).isEmpty = false) :
    ∃ s ∈ w.callings c,
      (w.callings c).find? (Surface.isFiledUnder · (Text.lowercase (Text.compose called))) =
          some s ∧
        s.isFiledUnder (Text.lowercase (Text.compose called)) = true := by
  have hfiled : Surface.isFiledUnder ⟨called, concept, true, true⟩
      (Text.lowercase (Text.compose called)) = true := by
    rw [Surface.isFiledUnder_iff]
    show (Text.trim (Text.compose called)).isEmpty = false ∧
      Text.lowercase (Text.compose called) = _
    exact ⟨hblank, rfl⟩
  generalize Text.lowercase (Text.compose called) = key at hfiled ⊢
  cases hfirst : (w.callings c).find? (Surface.isFiledUnder · key) with
  | none =>
      exact absurd hfiled (List.find?_eq_none.mp hfirst _ (hw.mem_callings hc hdynamic hi))
  | some s =>
      exact ⟨s, List.mem_of_find?_eq_some hfirst, rfl,
        List.find?_some (p := (Surface.isFiledUnder · key)) hfirst⟩

end World

/-! ## The spelling of the text -/

namespace KnowledgeBase

/-- The first time that a form is found in a text, whatever its case, a name in the spelling of the
text is given out for a concept with full confidence exactly if of all that the concept and its
instances are called the first that is filed under the form is a name in that spelling.  If the form
is the name of an instance of a dynamic concept, one entity of the concept is given out for it, and
it is the name with full confidence if nothing else of the concept is filed there. -/
theorem exact_mem_extract_iff (supply : Supply) (ops : Agenda) (text : String)
    (first last : List (List Char)) (found : List Char) (concept : String) (c : Concept) :
    let kb := after { supply } ops
    let gazetteer := Gazetteer.ofWorld kb.toWorld
    let name := String.ofList found
    let key := Text.lowercase name
    gazetteer.hits text = first ++ found :: last →
    (∀ hit ∈ first, Text.lowercase (String.ofList hit) ≠ key) →
    kb.concept? concept = some c →
    (⟨concept, name, 1⟩ ∈ gazetteer.extract text ↔
      ∃ s, (kb.callings c).find? (Surface.isFiledUnder · key) = some s ∧
        s.isName = true ∧ Text.compose s.form = name) ∧
    ∀ called i, kb.registry.get? ⟨concept, called⟩ = some i → c.category = .dynamic →
      Text.compose called = name → (Text.trim name).isEmpty = false →
      ∃ e, (gazetteer.extract text).filter (·.mention = (concept, key)) = [e] ∧
        ((∀ s ∈ kb.callings c, s.isFiledUnder key = true →
          s.isName = true ∧ Text.compose s.form = name) → e = ⟨concept, name, 1⟩) := by
  intro kb gazetteer name key hhits hnew hc
  have horderly : kb.toWorld.Orderly := orderly_after supply ops
  have hgiven := horderly.filter_mention_extract hc hhits hnew
  constructor
  · have hmem : (⟨concept, name, 1⟩ : Entity) ∈ gazetteer.extract text ↔
        (⟨concept, name, 1⟩ : Entity) ∈
          (gazetteer.extract text).filter (·.mention = (concept, key)) := by
      rw [List.mem_filter]
      exact (and_iff_left (decide_eq_true rfl)).symm
    rw [hmem, hgiven, Option.mem_toList, Option.map_eq_some_iff]
    exact exists_congr fun s => and_congr_right fun hs =>
      horderly.entity_eq_exact_iff hc (List.mem_of_find?_eq_some hs) name
  · intro called i hi hdynamic hcalled hblank
    rw [← hcalled] at hblank
    obtain ⟨s, hs, hfirst, hfiled⟩ := horderly.exists_first_calling hc hdynamic hi hblank
    rw [hcalled] at hfirst hfiled
    rw [hfirst] at hgiven
    exact ⟨_, hgiven, fun hothers =>
      (horderly.entity_eq_exact_iff hc hs name).mpr (hothers s hs hfiled)⟩

/-- Two cats whose names differ in case only, and a dog with the name of one. -/
def toms : Agenda := [
  ⟨_, .mutation (.edit (.addConcept { name := "Cat", category := .dynamic }))⟩,
  ⟨_, .mutation (.edit (.addConcept { name := "Dog", category := .dynamic }))⟩,
  ⟨_, .mutation (.createInstance "Cat" (some "Tom") ∅)⟩,
  ⟨_, .mutation (.createInstance "Cat" (some "TOM") ∅)⟩,
  ⟨_, .mutation (.createInstance "Dog" (some "Tom") ∅)⟩]

/-- What is collected for them, with the keys that it is filed under. -/
def tomsFiled : List (Surface × String) := [
  (⟨"Cat", "Cat", true, false⟩, "cat"), (⟨"Dog", "Dog", true, false⟩, "dog"),
  (⟨"TOM", "Cat", true, true⟩, "tom"), (⟨"Tom", "Cat", true, true⟩, "tom"),
  (⟨"Tom", "Dog", true, true⟩, "tom")]

/-- The text has the name of a dog and of a cat.  The dog is given out, and of the cats the other
one. -/
theorem exact_mem_extract_iff_toms :
    let entities :=
      (Gazetteer.ofWorld (after { supply := ⟨0, 0⟩ } toms).toWorld).extract "Tom saw TOM"
    entities.filter (·.mention = ("Dog", "tom")) = [⟨"Dog", "Tom", 1⟩] ∧
      (⟨"Cat", "Tom", 1⟩ : Entity) ∉ entities := by
  intro entities
  have hsurfaces : Gazetteer.surfacesOf (after { supply := ⟨0, 0⟩ } toms).toWorld =
      tomsFiled.map Prod.fst := by decide +kernel
  have hfiled : ∀ e ∈ tomsFiled, e.1.isFiledUnder e.2 = true := by decide +kernel
  have hkeys : (Gazetteer.ofWorld (after { supply := ⟨0, 0⟩ } toms).toWorld).surfaces.keys =
      ["cat", "dog", "tom"] := by
    show ((Gazetteer.surfacesOf _).foldl Gazetteer.file ∅).keys = _
    rw [hsurfaces, Gazetteer.foldl_file hfiled]
    decide +kernel
  have hforms : (Gazetteer.ofWorld (after { supply := ⟨0, 0⟩ } toms).toWorld).forms =
      ["cat", "dog", "tom"].map String.toList := by
    show ((Gazetteer.ofWorld _).surfaces.keys.map String.toList).mergeSort Gazetteer.before = _
    rw [hkeys]
    exact List.mergeSort_of_pairwise (by decide +kernel)
  have hhits : (Gazetteer.ofWorld (after { supply := ⟨0, 0⟩ } toms).toWorld).hits "Tom saw TOM" =
      [] ++ "Tom".toList :: ["TOM".toList] := by
    unfold Gazetteer.hits
    rw [hforms]
    decide +kernel
  have hcallings : ∀ {concept : String} {c : Concept},
      (after { supply := ⟨0, 0⟩ } toms).concept? concept = some c →
        (after { supply := ⟨0, 0⟩ } toms).callings c =
          (tomsFiled.map Prod.fst).filter (·.classType = concept) := fun hc => by
    rw [← hsurfaces]
    exact ((orderly_after ⟨0, 0⟩ toms).filter_surfacesOf hc).symm
  have hcategory : ∀ name ∈ ["Cat", "Dog"],
      ((after { supply := ⟨0, 0⟩ } toms).concept? name).map Concept.category = some .dynamic := by
    decide +kernel
  have hcase := fun concept c => exact_mem_extract_iff ⟨0, 0⟩ toms "Tom saw TOM" []
    ["TOM".toList] "Tom".toList concept c hhits (List.forall_mem_nil _)
  constructor
  · obtain ⟨dog, hdog, hdynamic⟩ := Option.map_eq_some_iff.mp (hcategory "Dog" (by simp))
    have htom : (after { supply := ⟨0, 0⟩ } toms).registry.contains ⟨"Dog", "Tom"⟩ = true := by
      decide +kernel
    obtain ⟨i, hi⟩ := Option.isSome_iff_exists.mp htom
    obtain ⟨e, he, hexact⟩ := (hcase "Dog" dog hdog).2 "Tom" i hi hdynamic (by decide +kernel)
      (by decide +kernel)
    rw [hcallings hdog] at hexact
    rw [hexact (by decide +kernel)] at he
    exact he
  · obtain ⟨cat, hcat, -⟩ := Option.map_eq_some_iff.mp (hcategory "Cat" (by simp))
    intro hmem
    obtain ⟨s, hs, -, hform⟩ := (hcase "Cat" cat hcat).1.mp hmem
    rw [hcallings hcat] at hs
    have hother : ((tomsFiled.map Prod.fst).filter (·.classType = "Cat")).find?
        (Surface.isFiledUnder · (Text.lowercase (String.ofList "Tom".toList))) =
          some ⟨"TOM", "Cat", true, true⟩ := by decide +kernel
    obtain rfl := Option.some.inj (hs.symm.trans hother)
    exact absurd hform (by decide +kernel)

end KnowledgeBase

end Credence
