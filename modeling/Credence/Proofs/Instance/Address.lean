import Credence.Instance.Factory
import Credence.Proofs.Collection.Table
import Credence.Proofs.Text.Joined
import Credence.Proofs.Text.Pattern
import Mathlib.Data.List.Basic
import Mathlib.Data.List.TakeWhile

/-!
# The texts that are addresses

An address is read by trying the ways to see a text as a user, an `@` and a host, where the labels
of the host and its last one have letters in common, so that a first attempt may run past the last
point and has to come back.  `Address.Spells` describes the result without any trying: a user before
the `@`, and behind it labels with points between them.  A text spells at most one address, since no
`@` belongs to a user, and it is read as the address that it spells (`Address.read?_eq_some_iff`).
-/

namespace Credence

namespace Address

open Text Text.Pattern

variable {text user host label : List Char} {a b : Address}

/-! ## Users and hosts -/

def IsUser (user : List Char) : Prop := user ≠ [] ∧ ∀ c ∈ user, isUserChar c = true

def IsLabel (label : List Char) : Prop := label ≠ [] ∧ ∀ c ∈ label, isLabelChar c = true

/-- The last label of a host is two or more letters. -/
def IsLast (label : List Char) : Prop := 2 ≤ label.length ∧ ∀ c ∈ label, c.isAlpha = true

instance (user : List Char) : Decidable (IsUser user) :=
  decidable_of_iff (user ≠ [] ∧ user.all isUserChar = true) (by rw [IsUser, List.all_eq_true])

instance (label : List Char) : Decidable (IsLabel label) :=
  decidable_of_iff (label ≠ [] ∧ label.all isLabelChar = true) (by rw [IsLabel, List.all_eq_true])

instance (label : List Char) : Decidable (IsLast label) :=
  decidable_of_iff (2 ≤ label.length ∧ label.all Char.isAlpha = true)
    (by rw [IsLast, List.all_eq_true])

/-- A host is two or more labels with points between them. -/
def IsHost (host : List Char) : Prop :=
  ∃ labels : List (List Char), host = ['.'].intercalate labels ∧ 2 ≤ labels.length ∧
    (∀ label ∈ labels, IsLabel label) ∧ ∀ label ∈ labels.getLast?, IsLast label

/-- A text is an address: a user, an `@` and a host. -/
def Spells (a : Address) (text : List Char) : Prop :=
  text = a.user ++ '@' :: a.host ∧ IsUser a.user ∧ IsHost a.host

/-! ## The patterns -/

theorem IsLast.isLabel (h : IsLast label) : IsLabel label := by
  refine ⟨fun hempty => ?_, fun c hc => ?_⟩
  · have hlength := h.1
    rw [hempty] at hlength
    nomatch hlength
  · rw [isLabelChar, Char.isAlphanum, h.2 c hc]
    rfl

theorem fits_userPattern : userPattern.Fits user ↔ IsUser user := by
  rw [userPattern, fits_atLeast_one, IsUser, Nat.one_le_iff_ne_zero, ne_eq,
    List.length_eq_zero_iff]

theorem fits_labelPattern : labelPattern.Fits label ↔ IsLabel label := by
  rw [labelPattern, fits_atLeast_one, IsLabel, Nat.one_le_iff_ne_zero, ne_eq,
    List.length_eq_zero_iff]

theorem fits_pointed : (seq (char '.') labelPattern).Fits text ↔
    ∃ label, IsLabel label ∧ text = '.' :: label := by
  rw [fits_seq]
  constructor
  · rintro ⟨point, label, rfl, hpoint, hlabel⟩
    rw [fits_char.mp hpoint]
    exact ⟨label, fits_labelPattern.mp hlabel, rfl⟩
  · rintro ⟨label, hlabel, rfl⟩
    exact ⟨['.'], label, rfl, fits_char.mpr rfl, fits_labelPattern.mpr hlabel⟩

/-- The pattern of hosts sets the first and the last label apart from those between. -/
theorem fits_hostPattern : hostPattern.Fits host ↔
    ∃ first middle last, IsLabel first ∧ (∀ label ∈ middle, IsLabel label) ∧ IsLast last ∧
      host = ['.'].intercalate (first :: (middle ++ [last])) := by
  have hlast (label : List Char) : (atLeast 2 (.one Char.isAlpha)).Fits label ↔ IsLast label :=
    fits_atLeast_one
  simp only [hostPattern, fits_seq, fits_char, fits_labelPattern, hlast,
    fits_many_iff_flatMap fun _ => fits_pointed, intercalate_cons]
  constructor
  · rintro ⟨first, _, rfl, hfirst, _, _, rfl, ⟨middle, hmiddle, rfl⟩, _, last, rfl, rfl, hlast⟩
    exact ⟨first, middle, last, hfirst, hmiddle, hlast, by simp⟩
  · rintro ⟨first, middle, last, hfirst, hmiddle, hlast, rfl⟩
    exact ⟨first, _, by simp, hfirst, _, _, rfl, ⟨middle, hmiddle, rfl⟩, _, last, rfl, rfl, hlast⟩

theorem fits_hostPattern_iff : hostPattern.Fits host ↔ IsHost host := by
  rw [fits_hostPattern]
  constructor
  · rintro ⟨first, middle, last, hfirst, hmiddle, hlast, rfl⟩
    refine ⟨first :: (middle ++ [last]), rfl, by simp, ?_, ?_⟩
    · simp only [List.forall_mem_cons, List.forall_mem_append]
      exact ⟨hfirst, hmiddle, hlast.isLabel, fun _ h => absurd h List.not_mem_nil⟩
    · intro label hlabel
      rw [← List.cons_append, List.getLast?_concat, Option.mem_some] at hlabel
      exact hlabel ▸ hlast
  · rintro ⟨labels, rfl, hlength, hlabels, hlast⟩
    cases labels with
    | nil => nomatch hlength
    | cons first labels =>
        rcases List.eq_nil_or_concat' labels with rfl | ⟨middle, last, rfl⟩
        · nomatch Nat.le_of_succ_le_succ hlength
        · simp only [List.forall_mem_cons, List.forall_mem_append] at hlabels
          obtain ⟨hfirst, hmiddle, -, -⟩ := hlabels
          refine ⟨first, middle, last, hfirst, hmiddle, hlast last ?_, rfl⟩
          rw [← List.cons_append, List.getLast?_concat, Option.mem_some]

/-! ## Reading -/

/-- The `@` behind a user is the first one. -/
theorem takeWhile_user (h : IsUser user) (host : List Char) :
    (user ++ '@' :: host).takeWhile (· ≠ '@') = user := by
  have hbefore : ∀ c ∈ user, decide (c ≠ '@') = true := by
    intro c hc
    refine decide_eq_true fun heq => ?_
    have hchar := h.2 c hc
    rw [heq] at hchar
    revert hchar
    decide
  rw [List.takeWhile_append_of_pos hbefore, List.takeWhile_cons_of_neg (by decide),
    List.append_nil]

/-- A text spells at most one address. -/
theorem Spells.unique (ha : a.Spells text) (hb : b.Spells text) : a = b := by
  obtain ⟨rfl, hauser, -⟩ := ha
  obtain ⟨htext, hbuser, -⟩ := hb
  have huser : a.user = b.user := by
    rw [← takeWhile_user hauser a.host, htext, takeWhile_user hbuser]
  rw [huser] at htext
  have hhost : a.host = b.host := (List.cons.inj (List.append_cancel_left htext)).2
  cases a
  cases b
  cases huser
  cases hhost
  rfl

theorem spells_of_read? (h : read? text = some a) : a.Spells text := by
  obtain ⟨⟨user, behind⟩, huserWay, hafter⟩ := List.exists_of_findSome?_eq_some h
  obtain ⟨⟨mark, rest⟩, hmarkWay, hbehind⟩ := List.exists_of_findSome?_eq_some hafter
  obtain ⟨⟨host, left⟩, hhostWay, hwhole⟩ := List.exists_of_findSome?_eq_some hbehind
  dsimp only at hwhole
  split at hwhole
  · rename_i hleft
    obtain rfl := Option.some.inj hwhole
    obtain ⟨rfl, huser⟩ := mem_ways_iff.mp huserWay
    obtain ⟨rfl, hmark⟩ := mem_ways_iff.mp hmarkWay
    obtain ⟨rfl, hhost⟩ := mem_ways_iff.mp hhostWay
    rw [fits_char.mp hmark, hleft, List.append_nil]
    exact ⟨rfl, fits_userPattern.mp huser, fits_hostPattern_iff.mp hhost⟩
  · nomatch hwhole

theorem Spells.read?_ne_none (h : a.Spells text) : read? text ≠ none := by
  obtain ⟨rfl, huser, hhost⟩ := h
  intro hnone
  have huser : (a.user, '@' :: a.host) ∈ userPattern.ways (a.user ++ '@' :: a.host) :=
    mem_ways_iff.mpr ⟨rfl, fits_userPattern.mpr huser⟩
  have hmark : (['@'], a.host) ∈ (char '@').ways ('@' :: a.host) :=
    mem_ways_iff.mpr ⟨rfl, fits_char.mpr rfl⟩
  have hhost : (a.host, []) ∈ hostPattern.ways a.host :=
    mem_ways_iff.mpr ⟨(List.append_nil _).symm, fits_hostPattern_iff.mpr hhost⟩
  have hafter := List.findSome?_eq_none_iff.mp hnone _ huser
  have hbehind := List.findSome?_eq_none_iff.mp hafter _ hmark
  have hwhole := List.findSome?_eq_none_iff.mp hbehind _ hhost
  nomatch hwhole

/-- A text is read as the address that it spells. -/
theorem read?_eq_some_iff : read? text = some a ↔ a.Spells text := by
  refine ⟨spells_of_read?, fun h => ?_⟩
  obtain ⟨b, hb⟩ := Option.ne_none_iff_exists'.mp h.read?_ne_none
  rw [hb, (spells_of_read? hb).unique h]

theorem read?_eq_none_iff : read? text = none ↔ ¬ ∃ a : Address, a.Spells text := by
  simp only [← read?_eq_some_iff, Option.eq_none_iff_forall_ne_some, not_exists, ne_eq]

end Address

/-! ## Instances named by addresses -/

namespace Factory

variable {concept name : String} {properties : Properties} {a : Address}

/-- The instance of an address has its parts as properties, whatever it was given under their
names. -/
theorem create_email (h : a.Spells name.toList) :
    email.create concept name properties = .ok ⟨⟨concept, name⟩,
      (properties.insert "user" (.text (String.ofList a.user))).insert "domain"
        (.text (String.ofList (a.host.map Char.toLower)))⟩ := by
  rw [create, Address.read?_eq_some_iff.mpr h]

theorem create_email_refused (h : ¬ ∃ a : Address, a.Spells name.toList) :
    email.create concept name properties = .error (.violation (.noAddress name)) := by
  rw [create, Address.read?_eq_none_iff.mpr h]

theorem create_email_eq_ok_iff :
    (∃ i, email.create concept name properties = .ok i) ↔ ∃ a : Address, a.Spells name.toList := by
  constructor
  · rintro ⟨i, hi⟩
    by_contra hnone
    rw [create_email_refused hnone] at hi
    nomatch hi
  · rintro ⟨a, ha⟩
    exact ⟨_, create_email ha⟩

/-- An instance named by an address is created exactly if its name is a user, an `@` and a host, and
there is at most one way to see a name so.  The instance then has the user as it stands and the host
in lower case as properties, in place of what it is given or inherits under their names; all else
that it is given or inherits it keeps. -/
theorem email_created_exactly (concept name : String) (inherited given : Properties) :
    let created := email.create concept name (inherited.override given)
    ((∃ i, created = .ok i) ↔ ∃ a : Address, a.Spells name.toList) ∧
    ((¬ ∃ a : Address, a.Spells name.toList) → created = .error (.violation (.noAddress name))) ∧
    (∀ a b : Address, a.Spells name.toList → b.Spells name.toList → a = b) ∧
    ∀ a : Address, a.Spells name.toList → ∃ i, created = .ok i ∧ i.key = ⟨concept, name⟩ ∧
      ∀ key, i.property? key =
        if key = "user" then some (.text (String.ofList a.user))
        else if key = "domain" then some (.text (String.ofList (a.host.map Char.toLower)))
        else (given.get? key).or (inherited.get? key) := by
  intro created
  refine ⟨create_email_eq_ok_iff, create_email_refused, fun a b ha hb => ha.unique hb, ?_⟩
  intro a ha
  refine ⟨_, create_email ha, rfl, fun key => ?_⟩
  rw [Instance.property?, Table.get?_insert, Table.get?_insert, Table.get?_override]
  by_cases huser : key = "user"
  · rw [if_pos huser, if_pos huser, if_neg (by rw [huser]; decide)]
  · rw [if_neg huser, if_neg huser]

/-- A name with points in the user and in the host, of a concept whose instances have no domain. -/
theorem email_created_exactly_annLee :
    ∃ i, email.create "Email" "Ann.Lee+x@Mail.Example.org"
        ((Table.ofList [("domain", .null), ("kind", .text "work")]).override
          (Table.ofList [("user", .text "ann")])) = .ok i ∧
      i.property? "user" = some (.text "Ann.Lee+x") ∧
      i.property? "domain" = some (.text "mail.example.org") ∧
      i.property? "kind" = some (.text "work") := by
  have hspells : (⟨"Ann.Lee+x".toList, "Mail.Example.org".toList⟩ : Address).Spells
      "Ann.Lee+x@Mail.Example.org".toList := by
    refine ⟨rfl, by decide, ["Mail".toList, "Example".toList, "org".toList], rfl, ?_, ?_, ?_⟩
    · decide
    · decide
    · decide
  obtain ⟨-, -, -, hcreated⟩ := email_created_exactly "Email" "Ann.Lee+x@Mail.Example.org"
    (Table.ofList [("domain", .null), ("kind", .text "work")])
    (Table.ofList [("user", .text "ann")])
  obtain ⟨i, hi, -, hproperties⟩ := hcreated _ hspells
  refine ⟨i, hi, ?_, ?_, ?_⟩
  · rw [hproperties]
    rfl
  · rw [hproperties]
    rfl
  · rw [hproperties]
    rfl

end Factory

end Credence
