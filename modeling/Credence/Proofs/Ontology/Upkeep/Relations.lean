import Credence.Proofs.Ontology.Upkeep.Concepts

/-!
# Changes of relations keep an ontology up to date

A relation or rule that comes in is given its views first, and the views of the others depend on the
concepts alone.  So after every change all relations have their views, and counting the memberships
anew is all that is left to do; a change of a rule that is refused counts them anew too.
-/

namespace Credence.Ontology

variable {o : Ontology} {name : String}

theorem exec_theRelation (o : Ontology) (name : String) :
    exec (theRelation name) o =
      match o.relations.get? name with
      | some r => (.ok r, o)
      | none => (.error (.missing (.relation name)), o) := by
  unfold theRelation
  rw [exec_bind_ok (exec_get o)]
  cases o.relations.get? name with
  | none => rfl
  | some _ => rfl

/-- A change of a relation keeps an ontology if it does so for the relation that is there. -/
theorem kept_theRelation {α : Type} (ho : o.Kept) {f : Relation → Change α}
    (hf : ∀ r, o.relations.get? name = some r → (exec (f r) o).2.Kept) :
    (exec (theRelation name >>= f) o).2.Kept := by
  rw [exec_bind, exec_theRelation]
  cases hr : o.relations.get? name with
  | none => exact ho
  | some r => exact hf r hr

/-- A rule that has its views, says what its conditions say and has bases that exist. -/
def Current (o : Ontology) (rule : Rule) : Prop :=
  o.refreshRule rule = rule ∧ rule.Compiled ∧ o.Grounds rule

theorem current_refreshRule {rule : Rule} (h : rule.Compiled ∧ o.Grounds rule) :
    o.Current (o.refreshRule rule) :=
  ⟨rfl, h.1, grounds_refreshRule h.2⟩

theorem map_eq_self_iff {α : Type} {f : α → α} {l : List α} : l.map f = l ↔ ∀ a ∈ l, f a = a := by
  have h := List.map_inj_left (l := l) (f := f) (g := id)
  rwa [List.map_id] at h

theorem mem_insertWhere {α : Type} {p : α → Bool} {a b : α} {l : List α}
    (h : b ∈ insertWhere p a l) : b = a ∨ b ∈ l := by
  unfold insertWhere at h
  rcases List.mem_append.mp h with h | h
  · exact Or.inr (List.mem_of_mem_take h)
  · exact (List.mem_cons.mp h).imp_right List.mem_of_mem_drop

theorem mem_changeFirst {α : Type} {p : α → Bool} {f : α → α} {b : α} {l : List α}
    (h : b ∈ Relation.changeFirst p f l) : b ∈ l ∨ ∃ a ∈ l, b = f a := by
  induction l with
  | nil => exact Or.inl h
  | cons a rest ih =>
      unfold Relation.changeFirst at h
      split at h
      · rcases List.mem_cons.mp h with h | h
        · exact Or.inr ⟨a, List.mem_cons_self, h⟩
        · exact Or.inl (List.mem_cons_of_mem a h)
      · rcases List.mem_cons.mp h with h | h
        · exact Or.inl (h ▸ List.mem_cons_self)
        · rcases ih h with h | ⟨d, hd, h⟩
          · exact Or.inl (List.mem_cons_of_mem a h)
          · exact Or.inr ⟨d, List.mem_cons_of_mem a hd, h⟩

/-- Other rules leave the views of a relation right if each of them has its own. -/
theorem Kept.recount_rules (ho : o.Kept) (name : String) (rules : Relation → List Rule)
    (hrules : ∀ r, o.relations.get? name = some r → ∀ rule ∈ rules r, o.Current rule) :
    (o.modifyRelation name fun r => { r with rules := rules r }).recount.Kept := by
  refine ho.recount_relations fun n r' hr' => ?_
  rw [Table.get?_modify] at hr'
  by_cases hn : n = name
  · rw [if_pos hn, hn] at hr'
    obtain ⟨r, hr, rfl⟩ := Option.map_eq_some_iff.mp hr'
    refine ⟨?_, fun rule hrule => (hrules r hr rule hrule).2, (ho.named name r hr).trans hn.symm⟩
    have hmap : (rules r).map o.refreshRule = rules r :=
      map_eq_self_iff.mpr fun rule hrule => (hrules r hr rule hrule).1
    obtain ⟨hdomains, htargets, -⟩ := ho.viewed.parts hr
    unfold refreshRelation
    dsimp only
    rw [hmap, hdomains, htargets]
  · rw [if_neg hn] at hr'
    exact ho.relation hr'

theorem Kept.current (ho : o.Kept) {r : Relation} (hr : o.relations.get? name = some r)
    {rule : Rule} (hrule : rule ∈ r.rules) : o.Current rule := by
  obtain ⟨-, -, hrules⟩ := ho.viewed.parts hr
  exact ⟨map_eq_self_iff.mp hrules rule hrule, ho.compiled name r hr rule hrule,
    ho.grounded name r hr rule hrule⟩

/-! ## Checks -/

/-- Checks that stop at the first refusal go through only if each of them does. -/
theorem forM_eq_ok {α : Type} {f : α → Except Error Unit} {l : List α} (h : l.forM f = .ok ()) :
    ∀ a ∈ l, f a = .ok () := by
  induction l with
  | nil => exact fun a ha => absurd ha List.not_mem_nil
  | cons a rest ih =>
      change (f a >>= fun _ => rest.forM f) = .ok () at h
      cases hfirst : f a with
      | error e =>
          rw [hfirst] at h
          nomatch h
      | ok u =>
          rw [hfirst] at h
          exact List.forall_mem_cons.mpr ⟨hfirst, ih h⟩

/-- A check looks at an ontology and leaves it alone. -/
theorem exec_ofExcept {α : Type} (check : Except Error α) (o : Ontology) :
    exec (MonadExcept.ofExcept check : Change α) o = (check, o) := by
  cases check <;> rfl

theorem exec_forM_ofExcept {α : Type} (f : α → Except Error Unit) (l : List α) (o : Ontology) :
    exec (l.forM fun a => (MonadExcept.ofExcept (f a) : Change Unit)) o = (l.forM f, o) := by
  induction l with
  | nil => rfl
  | cons a rest ih =>
      show exec ((MonadExcept.ofExcept (f a) : Change Unit) >>= fun _ =>
        rest.forM fun a => (MonadExcept.ofExcept (f a) : Change Unit)) o =
          (f a >>= fun _ => rest.forM f, o)
      rw [exec_bind, exec_ofExcept]
      cases f a with
      | error e => rfl
      | ok u => exact ih

/-- A check can come first: it refuses, or the rest runs on what it has found. -/
theorem exec_bind_of_check {α β : Type} {P : Ontology → Prop} {x : Change α} {f : α → Change β}
    {check : Except Error α} (hx : exec x o = (check, o)) (ho : P o)
    (hf : ∀ a, check = .ok a → P (exec (f a) o).2) : P (exec (x >>= f) o).2 := by
  rw [exec_bind, hx]
  cases check with
  | error e => exact ho
  | ok a => exact hf a rfl

theorem hasConcept_of_checkMember {r : Relation} {side : Side} {member : Subject}
    (h : o.checkMember r side member = .ok ()) : o.hasConcept member.conceptName = true := by
  by_contra hmissing
  unfold checkMember at h
  rw [Bool.not_eq_true] at hmissing
  rw [hmissing] at h
  nomatch h

/-- The bases of a rule that is let in exist. -/
theorem grounds_of_checkRule {r : Relation} {rule : Rule} (h : o.checkRule r rule = .ok ()) :
    o.Grounds rule := by
  unfold checkRule at h
  cases hdomains : rule.domains.bases.toList.forM (o.checkMember r .domain) with
  | error e =>
      rw [hdomains] at h
      nomatch h
  | ok u =>
      rw [hdomains] at h
      intro side member hmember
      have hmem := KeySet.mem_toList_iff.mpr hmember
      cases side with
      | domain => exact hasConcept_of_checkMember (forM_eq_ok hdomains member hmem)
      | target => exact hasConcept_of_checkMember (forM_eq_ok h member hmem)

theorem grounds_of_members_eq {rule rule' : Rule}
    (hmembers : ∀ side, rule'.members side = rule.members side) (h : o.Grounds rule) :
    o.Grounds rule' := by
  intro side member hmember
  rw [hmembers] at hmember
  exact h side member hmember

/-! ## Relations and rules -/

theorem kept_addRelation (ho : o.Kept) {r : Relation} (hr : ∀ rule ∈ r.rules, rule.Compiled) :
    (exec (addRelation r) o).2.Kept := by
  unfold addRelation
  rw [exec_bind_ok (exec_get o)]
  dsimp only
  split
  · rw [exec_violates_bind]
    exact ho
  refine exec_bind_of_check (exec_forM_ofExcept _ _ o) ho fun _ hcheck => ?_
  refine ho.recount_relations fun n r' hr' => ?_
  rw [Table.get?_insert] at hr'
  by_cases hn : n = (o.refreshRelation r).name
  · rw [if_pos hn, Option.some.injEq] at hr'
    subst hr'
    refine ⟨refreshRelation_idem o r, fun rule' hrule' => ?_, hn.symm⟩
    refine ⟨?_, grounds_of_checkRule (forM_eq_ok hcheck rule' hrule')⟩
    obtain ⟨rule, hrule, rfl⟩ := List.mem_map.mp hrule'
    exact hr rule hrule
  · rw [if_neg hn] at hr'
    exact ho.relation hr'

theorem kept_removeRelation (ho : o.Kept) (name : String) :
    (exec (removeRelation name) o).2.Kept := by
  refine kept_theRelation ho fun _ _ => ho.recount_relations fun n r' hr' => ?_
  rw [Table.get?_erase] at hr'
  by_cases hn : n = name
  · rw [if_pos hn] at hr'
    nomatch hr'
  · rw [if_neg hn] at hr'
    exact ho.relation hr'

theorem kept_addRule (ho : o.Kept) (name : String) {rule : Rule} (hrule : rule.Compiled) :
    (exec (addRule name rule) o).2.Kept := by
  refine kept_theRelation ho fun r _ => ?_
  rw [exec_bind_ok (exec_get o)]
  refine exec_bind_of_check (exec_ofExcept _ o) ho fun _ hcheck => ?_
  refine ho.recount_rules name _ fun r hr new hnew => ?_
  rcases mem_insertWhere hnew with rfl | hold
  · exact current_refreshRule ⟨hrule, grounds_of_checkRule hcheck⟩
  · exact ho.current hr hold

theorem kept_removeRule (ho : o.Kept) (name : String) (id : RuleId) :
    (exec (removeRule name id) o).2.Kept := by
  refine kept_theRelation ho fun r _ => ?_
  cases r.rule? id with
  | none => exact ho
  | some rule =>
      exact ho.recount_rules name _ fun r hr new hnew =>
        ho.current hr (List.mem_of_mem_eraseP hnew)

theorem kept_modifyRule {α : Type} (ho : o.Kept) (name : String) (id : RuleId)
    {f : Rule → Except Error (α × Rule)}
    (hf : ∀ {rule rule' : Rule} {a : α}, rule.Compiled → o.Grounds rule →
      f rule = .ok (a, rule') → rule'.Compiled ∧ o.Grounds rule') :
    (exec (modifyRule name id f) o).2.Kept := by
  refine kept_theRelation ho fun r hr => ?_
  dsimp only
  cases hrule : r.rule? id with
  | none => exact ho.recount
  | some rule =>
      dsimp only
      cases hresult : f rule with
      | error e => exact ho.recount
      | ok result =>
          obtain ⟨a, rule'⟩ := result
          obtain ⟨-, hcompiled, hgrounds⟩ := ho.current hr (List.mem_of_find?_eq_some hrule)
          refine ho.recount_rules name _ fun r hr new hnew => ?_
          rcases mem_changeFirst hnew with hold | ⟨-, -, rfl⟩
          · exact ho.current hr hold
          · exact current_refreshRule (hf hcompiled hgrounds hresult)

theorem kept_addCondition (ho : o.Kept) (name : String) (id : RuleId) {c : Condition}
    (hc : Condition.compile c.logic c.salience = .ok c) :
    (exec (addCondition name id c) o).2.Kept := by
  refine kept_modifyRule ho name id fun {rule rule' a} hcompiled hgrounds hresult => ?_
  rw [Except.ok.injEq, Prod.mk.injEq] at hresult
  rw [← hresult.2]
  refine ⟨fun d hd => ?_, grounds_of_members_eq (fun side => by cases side <;> rfl) hgrounds⟩
  rcases mem_insertWhere hd with rfl | hold
  · exact hc
  · exact hcompiled d hold

theorem kept_removeCondition (ho : o.Kept) (name : String) (id : RuleId) (index : Nat) :
    (exec (removeCondition name id index) o).2.Kept := by
  refine kept_modifyRule ho name id fun {rule rule' a} hcompiled hgrounds hresult => ?_
  split at hresult
  · rw [Except.ok.injEq, Prod.mk.injEq] at hresult
    rw [← hresult.2]
    exact ⟨fun d hd => hcompiled d (List.mem_of_mem_eraseIdx hd),
      grounds_of_members_eq (fun side => by cases side <;> rfl) hgrounds⟩
  · nomatch hresult

theorem compiled_modifyMembers {rule : Rule} (h : rule.Compiled) (side : Side)
    (f : Members → Members) : (rule.modifyMembers side f).Compiled := by
  cases side with
  | domain => exact h
  | target => exact h

/-- A rule stays grounded if what is new among its bases exists. -/
theorem grounds_modifyMembers {rule : Rule} {side : Side} {f : Members → Members}
    (h : o.Grounds rule) (hf : ∀ m member, (f m).bases.has member = true →
      m.bases.has member = true ∨ o.hasConcept member.conceptName = true) :
    o.Grounds (rule.modifyMembers side f) := by
  intro other member hmember
  cases side <;> cases other
  · exact (hf _ _ hmember).elim (h .domain member) id
  · exact h .target member hmember
  · exact h .domain member hmember
  · exact (hf _ _ hmember).elim (h .target member) id

theorem kept_addRuleMember (ho : o.Kept) (name : String) (id : RuleId) (side : Side)
    (member : Subject) : (exec (addRuleMember name id side member) o).2.Kept := by
  refine kept_theRelation ho fun r _ => ?_
  rw [exec_bind_ok (exec_get o)]
  refine exec_bind_of_check (exec_ofExcept _ o) ho fun _ hcheck => ?_
  refine kept_modifyRule ho name id fun {rule rule' a} hcompiled hgrounds hresult => ?_
  rw [Except.ok.injEq, Prod.mk.injEq] at hresult
  rw [← hresult.2]
  refine ⟨compiled_modifyMembers hcompiled side _, grounds_modifyMembers hgrounds fun m x hx => ?_⟩
  rw [KeySet.has_add, Bool.or_eq_true, decide_eq_true_eq] at hx
  rcases hx with rfl | hold
  · exact Or.inr (hasConcept_of_checkMember hcheck)
  · exact Or.inl hold

theorem kept_removeRuleMember (ho : o.Kept) (name : String) (id : RuleId) (side : Side)
    (member : Subject) : (exec (removeRuleMember name id side member) o).2.Kept := by
  unfold removeRuleMember
  rw [exec_bind_ok (exec_get o)]
  split
  · exact ho
  refine kept_modifyRule ho name id fun {rule rule' a} hcompiled hgrounds hresult => ?_
  rw [Except.ok.injEq, Prod.mk.injEq] at hresult
  rw [← hresult.2]
  refine ⟨compiled_modifyMembers hcompiled side _, grounds_modifyMembers hgrounds fun m x hx => ?_⟩
  rw [KeySet.has_remove, Bool.and_eq_true] at hx
  exact Or.inl hx.2

end Credence.Ontology
