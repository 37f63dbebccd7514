import Credence.Annotation.Gazetteer
import Credence.Proofs.Collection.Table
import Credence.Proofs.Ontology.Graph

/-!
# What a gazetteer finds in a text

Whatever a text says, the entities that are found in it are of concepts that exist and may have
instances (`Gazetteer.instantiable_of_mem_extract`), and no two of them have one concept and, but
for case, one name (`Gazetteer.nodup_extract`).

The first is decided when forms are filed: a form goes on file with the concept it was collected
for, and is found with no other.  The second is decided by what was seen before: every mention that
is given out is new and is put on record, at one place of the text (`Sifted`) and from one place to
the next.
-/

namespace Credence

/-- What entities are told apart by: their concepts, and their names in any case. -/
def Entity.mention (e : Entity) : String × String := (e.classType, Text.lowercase e.surfaceForm)

/-- A concept exists and may have instances. -/
def World.Instantiable (w : World) (name : String) : Prop :=
  ∃ c, w.concept? name = some c ∧ c.category ≠ .abstract

namespace Gazetteer

/-! ## Forms on file -/

/-- All concepts on file have a property. -/
def Files (P : String → Prop) (t : Table String (List Surface)) : Prop :=
  ∀ form known, t.get? form = some known → ∀ s ∈ known, P s.classType

variable {P : String → Prop} {t : Table String (List Surface)}

theorem Files.file (h : Files P t) {s : Surface} (hs : P s.classType) :
    Files P (Gazetteer.file t s) := by
  unfold Gazetteer.file
  dsimp only
  split
  · exact h
  · intro form known hknown
    rw [Table.get?_alter] at hknown
    split at hknown
    · obtain rfl := Option.some.inj hknown
      intro s' hs'
      rcases List.mem_append.mp hs' with hold | hnew
      · cases hget : t.get? form with
        | none =>
            rw [hget] at hold
            exact absurd hold List.not_mem_nil
        | some before =>
            rw [hget] at hold
            exact h form before hget s' hold
      · rw [List.mem_singleton.mp hnew]
        exact hs
    · exact h form known hknown

theorem files_foldl (h : Files P t) {ss : List Surface} (hss : ∀ s ∈ ss, P s.classType) :
    Files P (ss.foldl file t) :=
  List.foldlRecOn ss file h fun _ ht s hs => ht.file (hss s hs)

/-- A concept that may have instances is collected as itself. -/
theorem of_mem_ofConcept {c : Concept} {s : Surface} (hs : s ∈ ofConcept c) :
    c.isInstantiable = true ∧ s.classType = c.name := by
  unfold ofConcept at hs
  split at hs
  · rename_i hinstantiable
    refine ⟨hinstantiable, ?_⟩
    rcases List.mem_cons.mp hs with rfl | halias
    · rfl
    · obtain ⟨_, -, rfl⟩ := List.mem_map.mp halias
      rfl
  · exact absurd hs List.not_mem_nil

/-- An instance of a dynamic concept is collected for its concept. -/
theorem of_mem_ofInstance {w : World} {i : Instance} {s : Surface} (hs : s ∈ ofInstance w i) :
    s.classType = i.key.concept ∧
      ∃ c, w.concept? i.key.concept = some c ∧ c.category = .dynamic := by
  unfold ofInstance at hs
  split at hs
  · rename_i hdynamic
    obtain ⟨c, hc, hcategory⟩ := (Option.any_eq_true _ _).mp hdynamic
    rw [List.mem_singleton.mp hs]
    exact ⟨rfl, c, hc, of_decide_eq_true hcategory⟩
  · exact absurd hs List.not_mem_nil

/-- Forms are collected for concepts that may have instances only. -/
theorem instantiable_of_mem_surfacesOf {w : World} (hw : w.ontology.Linked) {s : Surface}
    (hs : s ∈ surfacesOf w) : w.Instantiable s.classType := by
  rcases List.mem_append.mp hs with hconcept | hinstance
  · obtain ⟨c, hc, hs⟩ := List.mem_flatMap.mp hconcept
    obtain ⟨name, hget⟩ := Table.mem_values_iff.mp hc
    obtain ⟨hinstantiable, hclass⟩ := of_mem_ofConcept hs
    rw [hclass, hw.names hget]
    exact ⟨c, hget, of_decide_eq_true hinstantiable⟩
  · obtain ⟨i, -, hs⟩ := List.mem_flatMap.mp hinstance
    obtain ⟨hclass, c, hc, hdynamic⟩ := of_mem_ofInstance hs
    rw [hclass]
    refine ⟨c, hc, ?_⟩
    rw [hdynamic]
    nofun

theorem files_ofWorld {w : World} (hw : w.ontology.Linked) :
    Files w.Instantiable (ofWorld w).surfaces := by
  have hnothing : Files w.Instantiable ∅ := fun _ _ h => nomatch h
  exact files_foldl hnothing fun _ => instantiable_of_mem_surfacesOf hw

/-! ## Entities of one place -/

/-- One more candidate: it is given out and put on record, unless it was seen before. -/
def sift (run : List Entity × List (String × String)) (e : Entity) :
    List Entity × List (String × String) :=
  if run.2.contains e.mention then run else (run.1 ++ [e], e.mention :: run.2)

/-- What has been given out are candidates, each mention is new and there once, and exactly these
are on record beside those from before. -/
structure Sifted (seen : List (String × String)) (candidates : List Entity)
    (run : List Entity × List (String × String)) : Prop where
  candidate : ∀ e ∈ run.1, e ∈ candidates
  new : ∀ e ∈ run.1, e.mention ∉ seen
  once : (run.1.map Entity.mention).Nodup
  record : ∀ m, m ∈ run.2 ↔ m ∈ run.1.map Entity.mention ∨ m ∈ seen

variable {seen : List (String × String)} {candidates : List Entity}
  {run : List Entity × List (String × String)}

theorem Sifted.sift (h : Sifted seen candidates run) {e : Entity} (he : e ∈ candidates) :
    Sifted seen candidates (Gazetteer.sift run e) := by
  unfold Gazetteer.sift
  split
  · exact h
  · rename_i hnew
    rw [List.contains_iff_mem, h.record, not_or] at hnew
    constructor
    · intro e' he'
      rcases List.mem_append.mp he' with hold | hlast
      · exact h.candidate e' hold
      · rw [List.mem_singleton.mp hlast]
        exact he
    · intro e' he'
      rcases List.mem_append.mp he' with hold | hlast
      · exact h.new e' hold
      · rw [List.mem_singleton.mp hlast]
        exact hnew.2
    · rw [List.map_append, List.map_singleton, List.nodup_append]
      refine ⟨h.once, List.nodup_singleton _, fun m hm m' hm' hsame => hnew.1 ?_⟩
      rw [← List.mem_singleton.mp hm', ← hsame]
      exact hm
    · intro m
      rw [List.mem_cons, h.record, List.map_append, List.map_singleton, List.mem_append,
        List.mem_singleton, or_assoc, or_left_comm]

/-- What a form may mean, before anything is left out. -/
def candidatesOf (g : Gazetteer) (found : String) : List Entity :=
  ((g.surfaces.get? (Text.lowercase found)).getD []).map (entity found)

theorem meanings_eq_sift (g : Gazetteer) (found : String) (seen : List (String × String)) :
    g.meanings found seen =
      let run := (g.candidatesOf found).foldl sift ([], seen)
      (run.1.mergeSort fun a b => a.classType ≤ b.classType, run.2) := by
  have hsift : sift = fun run e =>
      if e.mention ∈ run.2 then run else (run.1 ++ [e], e.mention :: run.2) := by
    funext run e
    unfold sift
    simp only [List.contains_iff_mem]
  rw [hsift]
  rfl

/-- The order in which meanings are given out does not matter. -/
theorem sifted_meanings (g : Gazetteer) (found : String) (seen : List (String × String)) :
    Sifted seen (g.candidatesOf found) (g.meanings found seen) := by
  rw [meanings_eq_sift]
  have hrun : Sifted seen (g.candidatesOf found) ((g.candidatesOf found).foldl sift ([], seen)) :=
    List.foldlRecOn _ sift
      ⟨fun _ h => absurd h List.not_mem_nil, fun _ h => absurd h List.not_mem_nil, .nil,
        fun _ => by simp⟩
      fun _ h e he => h.sift he
  generalize (g.candidatesOf found).foldl sift ([], seen) = run at hrun
  have hperm := List.mergeSort_perm run.1 fun a b => decide (a.classType ≤ b.classType)
  have hmentions := hperm.map Entity.mention
  exact {
    candidate := fun e he => hrun.candidate e (hperm.mem_iff.mp he)
    new := fun e he => hrun.new e (hperm.mem_iff.mp he)
    once := hmentions.nodup_iff.mpr hrun.once
    record := fun m => (hrun.record m).trans (or_congr_left hmentions.mem_iff.symm) }

/-! ## From place to place -/

theorem mem_entities {g : Gazetteer} {found : List (List Char)} {seen : List (String × String)}
    {e : Entity} (he : e ∈ g.entities found seen) :
    ∃ form ∈ found, e ∈ g.candidatesOf (String.ofList form) := by
  induction found generalizing seen with
  | nil => exact absurd he List.not_mem_nil
  | cons form rest ih =>
      rcases List.mem_append.mp he with hhere | hrest
      · exact ⟨form, List.mem_cons_self, (sifted_meanings g _ seen).candidate e hhere⟩
      · obtain ⟨form', hform', he'⟩ := ih hrest
        exact ⟨form', List.mem_cons_of_mem form hform', he'⟩

/-- Every mention is new where it is given out. -/
theorem nodup_entities (g : Gazetteer) (found : List (List Char)) (seen : List (String × String)) :
    ((g.entities found seen).map Entity.mention).Nodup ∧
      ∀ e ∈ g.entities found seen, e.mention ∉ seen := by
  induction found generalizing seen with
  | nil => exact ⟨.nil, fun _ h => absurd h List.not_mem_nil⟩
  | cons form rest ih =>
      have hhere := sifted_meanings g (String.ofList form) seen
      obtain ⟨honce, hnew⟩ := ih (g.meanings (String.ofList form) seen).2
      have hlater : ∀ e ∈ g.entities rest (g.meanings (String.ofList form) seen).2,
          e.mention ∉ (g.meanings (String.ofList form) seen).1.map Entity.mention ∧
            e.mention ∉ seen := fun e he =>
        not_or.mp fun h => hnew e he ((hhere.record _).mpr h)
      constructor
      · show ((_ ++ _ : List Entity).map Entity.mention).Nodup
        rw [List.map_append, List.nodup_append]
        refine ⟨hhere.once, honce, fun m hm m' hm' hsame => ?_⟩
        obtain ⟨e, he, rfl⟩ := List.mem_map.mp hm'
        exact (hlater e he).1 (hsame ▸ hm)
      · intro e he
        rcases List.mem_append.mp he with hfirst | hrest
        · exact hhere.new e hfirst
        · exact (hlater e hrest).2

/-- Of a text that mentions something twice it is given out once. -/
theorem nodup_extract (g : Gazetteer) (text : String) :
    ((g.extract text).map Entity.mention).Nodup :=
  (nodup_entities g _ []).1

/-- What is found in a text is of a concept that may have instances. -/
theorem instantiable_of_mem_extract {w : World} (hw : w.ontology.Linked) {text : String}
    {e : Entity} (he : e ∈ (ofWorld w).extract text) : w.Instantiable e.classType := by
  obtain ⟨form, -, hcandidate⟩ := mem_entities he
  obtain ⟨s, hs, rfl⟩ := List.mem_map.mp hcandidate
  cases hget : (ofWorld w).surfaces.get? (Text.lowercase (String.ofList form)) with
  | none =>
      rw [hget] at hs
      exact absurd hs List.not_mem_nil
  | some known =>
      rw [hget] at hs
      exact files_ofWorld hw _ known hget s hs

end Gazetteer

end Credence
