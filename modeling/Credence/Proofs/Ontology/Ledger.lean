import Credence.Proofs.Collection.Ranking
import Credence.Proofs.Ontology.Book
import Credence.Proofs.Ontology.NewRule
import Credence.Proofs.Ontology.Refusal

/-!
# Rules and conditions in order

A *ledger* keeps, by relation, the rules that were inserted and have not been removed, in the order
in which they were inserted, and each of them with its conditions in the order in which those were
inserted.  The ledger is never sorted: `record` writes an insertion at the end, and finds what a
removal or a change means by its rank.

An ontology *lists* a ledger if each relation has the rules of the ledger, the most confident first
and equally confident ones as they came, each with its conditions, the most salient first and
equally salient ones as they came.  The views are left out; they follow from what is listed.  Every
edit that goes through keeps this up, and one that is refused leaves the ledger as it is.
-/

namespace Credence

/-- Inserts the conditions of a rule one after the other. -/
def Rule.assembled (rule : Rule) : Rule :=
  rule.conditions.foldl insertCondition { rule with conditions := [] }

/-- Inserts the rules of a relation one after the other, each with its conditions. -/
def Relation.assembled (r : Relation) : Relation :=
  (r.rules.map Rule.assembled).foldl insertRule { r with rules := [] }

/-- A rule without its views, its conditions by salience. -/
def Rule.listed (rule : Rule) : Rule :=
  { rule.declared with conditions := byWeight Condition.salience rule.conditions }

/-- Rules by confidence, without their views, each with its conditions by salience. -/
def Rule.listing (rules : List Rule) : List Rule := (byWeight Rule.confidence rules).map Rule.listed

/-- The confidence of a rule is defined, and so are the saliences of its conditions. -/
def Rule.Weighed (rule : Rule) : Prop :=
  rule.confidence.isNaN = false ∧ ∀ c ∈ rule.conditions, c.salience.isNaN = false

/-- A rule with a confidence that is defined, and with conditions that say what their texts say. -/
def Rule.Proper (rule : Rule) : Prop := rule.confidence.isNaN = false ∧ rule.Compiled

/-- Rules by relation, in the order in which they were inserted. -/
abbrev Ledger := Table String (List Rule)

namespace Ledger

/-- Where the rule of an identifier stands: the first in the ranking that has it. -/
def place (id : RuleId) (rules : List Rule) : Nat :=
  origin Rule.confidence rules
    ((byWeight Rule.confidence rules).findIdx fun rule => rule.id = id)

def modifyRule (ledger : Ledger) (relation : String) (id : RuleId) (f : Rule → Rule) : Ledger :=
  ledger.modify relation fun rules => rules.modify (place id rules) f

/-- What an edit that goes through makes of a ledger. -/
def record {α : Type} (ledger : Ledger) : Ontology.Edit α → Ledger
  | .addRelation r => ledger.insert r.name r.rules
  | .removeRelation name => ledger.erase name
  | .addRule relation rule => ledger.modify relation fun rules => rules ++ [rule]
  | .removeRule relation id => ledger.modify relation fun rules => rules.eraseIdx (place id rules)
  | .addCondition relation id c => ledger.modifyRule relation id fun rule =>
      { rule with conditions := rule.conditions ++ [c] }
  | .removeCondition relation id index => ledger.modifyRule relation id fun rule =>
      { rule with conditions :=
          rule.conditions.eraseIdx (origin Condition.salience rule.conditions index) }
  | .addRuleMember relation id side member => ledger.modifyRule relation id fun rule =>
      rule.modifyMembers side fun m => { m with bases := m.bases.add member }
  | .removeRuleMember relation id side member => ledger.modifyRule relation id fun rule =>
      rule.modifyMembers side fun m => { m with bases := m.bases.remove member }
  | _ => ledger

end Ledger

/-! ## Rules in order -/

/-- The salience of a condition that says what its text says lies between zero and one. -/
theorem Rule.Proper.weighed {rule : Rule} (h : rule.Proper) : rule.Weighed := by
  refine ⟨h.1, fun c hc => ?_⟩
  obtain ⟨-, -, hzero, -⟩ := Condition.compile_eq_ok (h.2 c hc)
  exact Decimal.not_isNaN_of_le hzero

namespace Rule

variable {rule : Rule} {rules : List Rule}

theorem foldl_insertCondition (conditions : List Condition) (rule : Rule) :
    let insert (acc : List Condition) (c : Condition) : List Condition :=
      insertWhere (fun d => c.salience ≤ d.salience) c acc
    conditions.foldl insertCondition rule =
      { rule with conditions := conditions.foldl insert rule.conditions } := by
  induction conditions generalizing rule with
  | nil => rfl
  | cons c rest ih => exact ih (rule.insertCondition c)

/-- A rule that is assembled has its conditions by salience. -/
theorem declared_assembled (h : rule.Weighed) : rule.assembled.declared = rule.listed := by
  unfold assembled
  rw [foldl_insertCondition, foldl_insertWhere_byWeight h.2]
  rfl

theorem confidence_assembled (rule : Rule) : rule.assembled.confidence = rule.confidence := by
  unfold assembled
  rw [foldl_insertCondition]

end Rule

namespace Relation

theorem foldl_insertRule (rules : List Rule) (r : Relation) :
    let insert (acc : List Rule) (rule : Rule) : List Rule :=
      insertWhere (fun s => rule.confidence ≤ s.confidence) rule acc
    rules.foldl insertRule r = { r with rules := rules.foldl insert r.rules } := by
  induction rules generalizing r with
  | nil => rfl
  | cons rule rest ih => exact ih (r.insertRule rule)

theorem name_assembled (r : Relation) : r.assembled.name = r.name := by
  unfold assembled
  rw [foldl_insertRule]

/-- A relation that is assembled has its rules by confidence. -/
theorem rules_assembled {r : Relation} (h : ∀ rule ∈ r.rules, rule.Weighed) :
    r.assembled.rules.map Rule.declared = Rule.listing r.rules := by
  have hassembled : ∀ rule ∈ r.rules.map Rule.assembled, rule.confidence.isNaN = false := by
    intro rule hrule
    obtain ⟨draft, hdraft, rfl⟩ := List.mem_map.mp hrule
    rw [Rule.confidence_assembled]
    exact (h draft hdraft).1
  have hranked : byWeight Rule.confidence (r.rules.map Rule.assembled) =
      (byWeight Rule.confidence r.rules).map Rule.assembled := by
    symm
    apply List.map_mergeSort
    intro a _ b _
    rw [Rule.confidence_assembled, Rule.confidence_assembled]
  unfold assembled
  rw [foldl_insertRule, foldl_insertWhere_byWeight hassembled, hranked, List.map_map]
  apply List.map_congr_left
  intro rule hrule
  exact Rule.declared_assembled (h rule ((List.mergeSort_perm _ _).mem_iff.mp hrule))

end Relation

namespace Ontology

variable {o o' : Ontology} {ledger ledger' : Ledger} {name : String} {α β : Type}

/-! ## Changes of rules -/

/-- Each relation has the rules of a ledger in order, each with its conditions in order. -/
structure Lists (o : Ontology) (ledger : Ledger) : Prop where
  book : ∀ name, o.book.get? name = (ledger.get? name).map Rule.listing
  weighed : ∀ name rules, ledger.get? name = some rules → ∀ rule ∈ rules, rule.Weighed

theorem Lists.empty : Lists {} ∅ where
  book := fun _ => rfl
  weighed := fun _ _ h => nomatch h

theorem Lists.congr (h : o.Lists ledger) (hbook : o'.book = o.book) : o'.Lists ledger where
  book := fun name => by rw [hbook, h.book]
  weighed := h.weighed

/-- A relation is in the ledger with the rules that it has. -/
theorem Lists.relation (h : o.Lists ledger) {r : Relation} (hr : o.relations.get? name = some r) :
    ∃ rules, ledger.get? name = some rules ∧ r.rules.map Rule.declared = Rule.listing rules ∧
      ∀ rule ∈ rules, rule.Weighed := by
  have hbook := h.book name
  rw [get?_book, hr, Option.map_some] at hbook
  obtain ⟨rules, hrules, hlisting⟩ := Option.map_eq_some_iff.mp hbook.symm
  exact ⟨rules, hrules, hlisting.symm, h.weighed name rules hrules⟩

/-- A change of one relation is followed in the ledger. -/
theorem Lists.modify (h : o.Lists ledger) {f : Relation → Relation} {g : List Rule → List Rule}
    (hfg : ∀ r rules, r.rules.map Rule.declared = Rule.listing rules →
      (∀ rule ∈ rules, rule.Weighed) → o.relations.get? name = some r →
        (f r).rules.map Rule.declared = Rule.listing (g rules) ∧ ∀ rule ∈ g rules, rule.Weighed) :
    (o.modifyRelation name f).recount.Lists (Table.modify ledger name g) where
  book := by
    intro n
    have hbook := h.book n
    rw [get?_book] at hbook
    rw [get?_book]
    show ((o.relations.modify name f).get? n).map _ = _
    rw [Table.get?_modify, Table.get?_modify]
    by_cases hn : n = name
    · subst hn
      rw [if_pos rfl, if_pos rfl]
      cases hr : o.relations.get? n with
      | none =>
          rw [hr] at hbook
          rw [Option.map_eq_none_iff.mp hbook.symm]
          rfl
      | some r =>
          obtain ⟨rules, hrules, hlisting, hweighed⟩ := h.relation hr
          rw [hrules]
          exact congrArg some (hfg r rules hlisting hweighed hr).1
    · rw [if_neg hn, if_neg hn]
      exact hbook
  weighed := by
    intro n rules' hrules'
    rw [Table.get?_modify] at hrules'
    by_cases hn : n = name
    · subst hn
      rw [if_pos rfl] at hrules'
      obtain ⟨rules, hrules, rfl⟩ := Option.map_eq_some_iff.mp hrules'
      have hbook := h.book n
      rw [hrules, get?_book] at hbook
      obtain ⟨r, hr, hlisting⟩ := Option.map_eq_some_iff.mp hbook
      exact (hfg r rules hlisting (h.weighed n rules hrules) hr).2
    · rw [if_neg hn] at hrules'
      exact h.weighed n rules' hrules'

/-- A change is followed in the ledger: if it goes through, the ontology lists the new ledger, and if
it is refused, the old one. -/
def Follows (ledger ledger' : Ledger) (run : Except Error α × Ontology) : Prop :=
  run.2.Lists (if run.1.isOk then ledger' else ledger)

theorem follows_error {e : Error} (h : o.Lists ledger) :
    Follows ledger ledger' ((.error e, o) : Except Error α × Ontology) := h

theorem follows_ok {a : α} (h : o.Lists ledger') : Follows ledger ledger' (.ok a, o) := h

theorem follows_theRelation (h : o.Lists ledger) {f : Relation → Change α}
    (hf : ∀ r, o.relations.get? name = some r → Follows ledger ledger' (exec (f r) o)) :
    Follows ledger ledger' (exec (theRelation name >>= f) o) := by
  rw [exec_bind, exec_theRelation]
  cases hr : o.relations.get? name with
  | none => exact follows_error h
  | some r => exact hf r hr

theorem follows_check (h : o.Lists ledger) {x : Change α} {f : α → Change β} {check : Except Error α}
    (hx : exec x o = (check, o))
    (hf : ∀ a, check = .ok a → Follows ledger ledger' (exec (f a) o)) :
    Follows ledger ledger' (exec (x >>= f) o) := by
  rw [exec_bind, hx]
  cases check with
  | error e => exact follows_error h
  | ok a => exact hf a rfl

theorem Lists.addRelation (h : o.Lists ledger) {r : Relation} (hr : ∀ rule ∈ r.rules, rule.Weighed) :
    Follows ledger (ledger.insert r.name r.rules) (exec (addRelation r.assembled) o) := by
  unfold Ontology.addRelation
  rw [exec_bind_ok (exec_get o)]
  dsimp only
  split
  · exact follows_error h
  refine follows_check h (exec_forM_ofExcept _ _ o) fun _ _ => follows_ok ⟨?_, ?_⟩
  · intro n
    have hname : (o.refreshRelation r.assembled).name = r.name := r.name_assembled
    have hbook := h.book n
    rw [get?_book] at hbook
    rw [get?_book]
    show ((o.relations.insert (o.refreshRelation r.assembled).name
      (o.refreshRelation r.assembled)).get? n).map _ = _
    rw [hname, Table.get?_insert, Table.get?_insert]
    by_cases hn : n = r.name
    · rw [if_pos hn, if_pos hn, Option.map_some, Option.map_some]
      refine congrArg some ?_
      calc (o.refreshRelation r.assembled).rules.map Rule.declared
          = r.assembled.rules.map Rule.declared :=
            congrArg Relation.rules (declared_refreshRelation o r.assembled)
        _ = Rule.listing r.rules := Relation.rules_assembled hr
    · rw [if_neg hn, if_neg hn]
      exact hbook
  · intro n rules hrules
    rw [Table.get?_insert] at hrules
    by_cases hn : n = r.name
    · rw [if_pos hn] at hrules
      cases hrules
      exact hr
    · rw [if_neg hn] at hrules
      exact h.weighed n rules hrules

theorem Lists.removeRelation (h : o.Lists ledger) (name : String) :
    Follows ledger (ledger.erase name) (exec (removeRelation name) o) := by
  refine follows_theRelation h fun r _ => follows_ok ⟨?_, ?_⟩
  · intro n
    have hbook := h.book n
    rw [get?_book] at hbook
    rw [get?_book]
    show ((o.relations.erase name).get? n).map _ = _
    rw [Table.get?_erase, Table.get?_erase]
    by_cases hn : n = name
    · rw [if_pos hn, if_pos hn]
      rfl
    · rw [if_neg hn, if_neg hn]
      exact hbook
  · intro n rules hrules
    rw [Table.get?_erase] at hrules
    by_cases hn : n = name
    · rw [if_pos hn] at hrules
      nomatch hrules
    · rw [if_neg hn] at hrules
      exact h.weighed n rules hrules

/-- A new rule finds its place behind those that are as confident. -/
theorem map_insertRule {r : Relation} {rules : List Rule} {rule rule' : Rule}
    (hlisting : r.rules.map Rule.declared = Rule.listing rules)
    (hweighed : ∀ rule ∈ rules, rule.Weighed) (hrule : rule.Weighed)
    (hdeclared : rule'.declared = rule.listed) :
    (r.insertRule rule').rules.map Rule.declared = Rule.listing (rules ++ [rule]) := by
  have hconfidence : rule'.declared.confidence = rule.confidence := by
    rw [hdeclared]
    rfl
  calc (r.insertRule rule').rules.map Rule.declared
      = insertWhere (fun s : Rule => rule.confidence ≤ s.confidence) rule'.declared
          (r.rules.map Rule.declared) := by
        rw [← hconfidence]
        exact map_insertWhere (q := fun s : Rule => rule'.confidence ≤ s.confidence) Rule.declared
          (fun _ => rfl) rule' r.rules
    _ = insertWhere (fun s : Rule => rule.confidence ≤ s.confidence) rule.listed
          ((byWeight Rule.confidence rules).map Rule.listed) := by
        rw [hdeclared, hlisting]
        rfl
    _ = (insertWhere (fun s : Rule => rule.confidence ≤ s.confidence) rule
          (byWeight Rule.confidence rules)).map Rule.listed :=
        (map_insertWhere Rule.listed (fun _ => rfl) rule _).symm
    _ = Rule.listing (rules ++ [rule]) := by
        rw [insertWhere_byWeight (fun s hs => (hweighed s hs).1) hrule.1]
        rfl

theorem Lists.withRule (h : o.Lists ledger) (name : String) {rule rule' : Rule}
    (hrule : rule.Weighed) (hdeclared : rule'.declared = rule.listed) :
    (o.withRule name rule').Lists (Table.modify ledger name fun rules => rules ++ [rule]) := by
  refine h.modify fun r rules hlisting hweighed _ => ⟨?_, ?_⟩
  · exact map_insertRule hlisting hweighed hrule hdeclared
  · exact List.forall_mem_append.mpr ⟨hweighed, List.forall_mem_singleton.mpr hrule⟩

theorem Lists.addRule (h : o.Lists ledger) (name : String) {rule : Rule} (hrule : rule.Weighed) :
    Follows ledger (Table.modify ledger name fun rules => rules ++ [rule])
      (exec (addRule name rule.assembled) o) := by
  refine follows_theRelation h fun r _ => ?_
  rw [exec_bind_ok (exec_get o)]
  refine follows_check h (exec_ofExcept _ o) fun _ _ => follows_ok ?_
  exact h.withRule name hrule (Rule.declared_assembled hrule)

/-- The first rule of an identifier stands at one place of a relation and of the ranking. -/
theorem findIdx_listing {r : Relation} {rules : List Rule}
    (hlisting : r.rules.map Rule.declared = Rule.listing rules) (id : RuleId) :
    r.rules.findIdx (fun rule => rule.id = id) =
      (byWeight Rule.confidence rules).findIdx fun rule => rule.id = id := by
  have hdeclared := List.findIdx_map r.rules Rule.declared fun rule => rule.id = id
  have hlisted :=
    List.findIdx_map (byWeight Rule.confidence rules) Rule.listed fun rule => rule.id = id
  rw [hlisting] at hdeclared
  exact hdeclared.symm.trans hlisted

theorem Lists.removeRule (h : o.Lists ledger) (name : String) (id : RuleId) :
    Follows ledger (Table.modify ledger name fun rules => rules.eraseIdx (Ledger.place id rules))
      (exec (removeRule name id) o) := by
  refine follows_theRelation h fun r _ => ?_
  cases r.rule? id with
  | none => exact follows_error h
  | some rule =>
      refine follows_ok (h.modify fun r rules hlisting hweighed _ => ⟨?_, ?_⟩)
      · calc (r.eraseRule id).rules.map Rule.declared
            = (r.rules.eraseIdx (r.rules.findIdx fun rule => rule.id = id)).map Rule.declared := by
              unfold Relation.eraseRule
              rw [eraseP_eq_eraseIdx_findIdx]
          _ = (Rule.listing rules).eraseIdx (r.rules.findIdx fun rule => rule.id = id) := by
              rw [← List.eraseIdx_map, hlisting]
          _ = ((byWeight Rule.confidence rules).eraseIdx
                ((byWeight Rule.confidence rules).findIdx fun rule => rule.id = id)).map
                  Rule.listed := by
              rw [findIdx_listing hlisting, Rule.listing, List.eraseIdx_map]
          _ = Rule.listing (rules.eraseIdx (Ledger.place id rules)) := by
              rw [← byWeight_eraseIdx_origin fun rule hrule => (hweighed rule hrule).1]
              rfl
      · exact fun rule hrule => hweighed rule (List.mem_of_mem_eraseIdx hrule)

theorem changeFirst_eq_modify {p : α → Bool} (f : α → α) (l : List α) :
    Relation.changeFirst p f l = l.modify (l.findIdx p) f := by
  induction l with
  | nil => rfl
  | cons a l ih =>
      rw [Relation.changeFirst, List.findIdx_cons]
      cases p a with
      | true => rfl
      | false => exact congrArg (a :: ·) ih

/-- A change of a rule is followed in the ledger if it makes of the rule what is listed there for
the changed entry. -/
theorem Lists.modifyRule (h : o.Lists ledger) (name : String) (id : RuleId)
    {f : Rule → Except Error (α × Rule)} {g : Rule → Rule}
    (hconfidence : ∀ entry, (g entry).confidence = entry.confidence)
    (hg : ∀ entry, entry.Weighed → (g entry).Weighed)
    (hfg : ∀ {rule rule' entry a}, entry.Weighed → rule.declared = entry.listed →
      f rule = .ok (a, rule') → rule'.declared = (g entry).listed) :
    Follows ledger (ledger.modifyRule name id g) (exec (modifyRule name id f) o) := by
  refine follows_theRelation h fun r hr => ?_
  dsimp only
  cases hrule : r.rule? id with
  | none => exact follows_error (h.congr (book_recount o))
  | some rule =>
      dsimp only
      cases hresult : f rule with
      | error e => exact follows_error (h.congr (book_recount o))
      | ok result =>
          obtain ⟨a, rule'⟩ := result
          refine follows_ok (h.modify fun r' rules hlisting hweighed hr' => ⟨?_, ?_⟩)
          · obtain rfl := Option.some_inj.mp (hr.symm.trans hr')
            have hmodify : Rule.listing (rules.modify (Ledger.place id rules) g) =
                ((byWeight Rule.confidence rules).modify
                  (r.rules.findIdx fun rule => rule.id = id) g).map Rule.listed := by
              rw [Rule.listing, Ledger.place, byWeight_modify_origin hconfidence
                fun rule hrule => (hweighed rule hrule).1, findIdx_listing hlisting]
            rw [hmodify]
            show (Relation.changeFirst _ _ r.rules).map _ = _
            rw [changeFirst_eq_modify]
            refine map_modify_eq hlisting fun s entry hs hentry hlisted => ?_
            -- what stands at the place is the rule that was found
            obtain rfl : rule = s := by
              have hfound : r.rules.find? (fun rule => rule.id = id) = some rule := hrule
              rw [List.find?_eq_getElem?_findIdx, hs] at hfound
              exact (Option.some_inj.mp hfound).symm
            have hmem : entry ∈ rules := (List.mergeSort_perm _ _).mem_iff.mp hentry
            have hchanged : rule'.declared = (g entry).listed :=
              hfg (hweighed entry hmem) hlisted hresult
            exact hchanged
          · intro rule hrule
            rcases mem_modify hrule with hold | ⟨entry, hentry, rfl⟩
            · exact hweighed rule hold
            · exact hg entry (hweighed entry hentry)

theorem Lists.addCondition (h : o.Lists ledger) (name : String) (id : RuleId) {c : Condition}
    (hc : c.salience.isNaN = false) :
    Follows ledger (ledger.modifyRule name id fun rule =>
      { rule with conditions := rule.conditions ++ [c] }) (exec (addCondition name id c) o) := by
  refine h.modifyRule name id (fun _ => rfl) (fun entry hentry => ?_)
    fun {rule rule' entry a} hentry hlisted hresult => ?_
  · exact ⟨hentry.1, List.forall_mem_append.mpr ⟨hentry.2, List.forall_mem_singleton.mpr hc⟩⟩
  · cases hresult
    have hconditions : rule.conditions = byWeight Condition.salience entry.conditions :=
      congrArg Rule.conditions hlisted
    have hinsert : (rule.insertCondition c).conditions =
        byWeight Condition.salience (entry.conditions ++ [c]) := by
      unfold Rule.insertCondition
      rw [hconditions]
      exact insertWhere_byWeight hentry.2 hc
    calc (rule.insertCondition c).declared
        = { rule.declared with conditions := (rule.insertCondition c).conditions } := rfl
      _ = { entry.listed with conditions := (rule.insertCondition c).conditions } := by rw [hlisted]
      _ = _ := by rw [hinsert]; rfl

theorem Lists.removeCondition (h : o.Lists ledger) (name : String) (id : RuleId) (index : Nat) :
    Follows ledger (ledger.modifyRule name id fun rule =>
      { rule with conditions :=
          rule.conditions.eraseIdx (origin Condition.salience rule.conditions index) })
      (exec (removeCondition name id index) o) := by
  refine h.modifyRule name id (fun _ => rfl) (fun entry hentry => ?_)
    fun {rule rule' entry a} hentry hlisted hresult => ?_
  · exact ⟨hentry.1, fun c hc => hentry.2 c (List.mem_of_mem_eraseIdx hc)⟩
  · have hconditions : rule.conditions = byWeight Condition.salience entry.conditions :=
      congrArg Rule.conditions hlisted
    split at hresult
    · cases hresult
      have herase : rule.conditions.eraseIdx index = byWeight Condition.salience
          (entry.conditions.eraseIdx (origin Condition.salience entry.conditions index)) := by
        rw [hconditions, byWeight_eraseIdx_origin hentry.2]
      calc ({ rule with conditions := rule.conditions.eraseIdx index } : Rule).declared
          = { rule.declared with conditions := rule.conditions.eraseIdx index } := rfl
        _ = { entry.listed with conditions := rule.conditions.eraseIdx index } := by rw [hlisted]
        _ = _ := by rw [herase]; rfl
    · nomatch hresult

/-- Other bases are listed as they are. -/
theorem declared_modifyMembers {rule entry : Rule} {f : KeySet Subject → KeySet Subject}
    (hlisted : rule.declared = entry.listed) (side : Side) :
    (rule.modifyMembers side fun m => { m with bases := f m.bases }).declared =
      (entry.modifyMembers side fun m => { m with bases := f m.bases }).listed := by
  cases side with
  | domain =>
      calc _ = { rule.declared with domains := { bases := f rule.declared.domains.bases } } := rfl
        _ = { entry.listed with domains := { bases := f entry.listed.domains.bases } } := by
          rw [hlisted]
        _ = _ := rfl
  | target =>
      calc _ = { rule.declared with targets := { bases := f rule.declared.targets.bases } } := rfl
        _ = { entry.listed with targets := { bases := f entry.listed.targets.bases } } := by
          rw [hlisted]
        _ = _ := rfl

theorem weighed_modifyMembers {rule : Rule} (h : rule.Weighed) (side : Side)
    (f : Members → Members) : (rule.modifyMembers side f).Weighed := by
  cases side with
  | domain => exact h
  | target => exact h

theorem confidence_modifyMembers (rule : Rule) (side : Side) (f : Members → Members) :
    (rule.modifyMembers side f).confidence = rule.confidence := by
  cases side <;> rfl

theorem Lists.addRuleMember (h : o.Lists ledger) (name : String) (id : RuleId) (side : Side)
    (member : Subject) :
    Follows ledger (ledger.modifyRule name id fun rule =>
      rule.modifyMembers side fun m => { m with bases := m.bases.add member })
      (exec (addRuleMember name id side member) o) := by
  refine follows_theRelation h fun r _ => ?_
  rw [exec_bind_ok (exec_get o)]
  refine follows_check h (exec_ofExcept _ o) fun _ _ => ?_
  refine h.modifyRule name id (fun _ => confidence_modifyMembers _ _ _)
    (fun entry hentry => weighed_modifyMembers hentry side _)
    fun {rule rule' entry a} _ hlisted hresult => ?_
  cases hresult
  exact declared_modifyMembers (f := fun bases => bases.add member) hlisted side

theorem Lists.removeRuleMember (h : o.Lists ledger) (name : String) (id : RuleId) (side : Side)
    (member : Subject) :
    Follows ledger (ledger.modifyRule name id fun rule =>
      rule.modifyMembers side fun m => { m with bases := m.bases.remove member })
      (exec (removeRuleMember name id side member) o) := by
  unfold Ontology.removeRuleMember
  rw [exec_bind_ok (exec_get o)]
  split
  · exact follows_error h
  refine h.modifyRule name id (fun _ => confidence_modifyMembers _ _ _)
    (fun entry hentry => weighed_modifyMembers hentry side _)
    fun {rule rule' entry a} _ hlisted hresult => ?_
  cases hresult
  exact declared_modifyMembers (f := fun bases => bases.remove member) hlisted side

/-! ## All of them -/

/-- An edit whose rules are built by insertions, from conditions and rules in the order in which they
are given. -/
def Edit.assembled : Edit α → Edit α
  | .addRelation r => .addRelation r.assembled
  | .addRule relation rule => .addRule relation rule.assembled
  | edit => edit

/-- What an edit brings in is proper: no confidence is undefined, and conditions say what their
texts say. -/
def Edit.Proper : Edit α → Prop
  | .addRelation r => ∀ rule ∈ r.rules, rule.Proper
  | .addRule _ rule => rule.Proper
  | .addCondition _ _ c => Condition.compile c.logic c.salience = .ok c
  | _ => True

theorem follows_of_book_eq (h : o.Lists ledger) {run : Except Error α × Ontology}
    (hbook : run.2.book = o.book) : Follows ledger ledger run := by
  unfold Follows
  rw [ite_self]
  exact h.congr hbook

/-- Every proper edit is followed in the ledger. -/
theorem Lists.edit (h : o.Lists ledger) (edit : Edit α) (hproper : edit.Proper) :
    Follows ledger (ledger.record edit) (exec edit.assembled.change o) := by
  cases edit with
  | addConcept c => exact follows_of_book_eq h (book_addConcept o c)
  | removeConcept name => exact follows_of_book_eq h (book_removeConcept o name)
  | addParent child parent => exact follows_of_book_eq h (book_addParent o child parent)
  | removeParent child parent => exact follows_of_book_eq h (book_removeParent o child parent)
  | addAlias concept other => exact follows_of_book_eq h (book_addAlias o concept other)
  | removeAlias concept other => exact follows_of_book_eq h (book_removeAlias o concept other)
  | setProperty concept key value => exact follows_of_book_eq h (book_setProperty o concept key value)
  | removeProperty concept key => exact follows_of_book_eq h (book_removeProperty o concept key)
  | addRelation r => exact h.addRelation fun rule hrule => (hproper rule hrule).weighed
  | removeRelation name => exact h.removeRelation name
  | addRule relation rule => exact h.addRule relation hproper.weighed
  | removeRule relation id => exact h.removeRule relation id
  | addCondition relation id c =>
      obtain ⟨-, -, hzero, -⟩ := Condition.compile_eq_ok hproper
      exact h.addCondition relation id (Decimal.not_isNaN_of_le hzero)
  | removeCondition relation id index => exact h.removeCondition relation id index
  | addRuleMember relation id side member => exact h.addRuleMember relation id side member
  | removeRuleMember relation id side member => exact h.removeRuleMember relation id side member

end Ontology

end Credence
