import Credence.Proofs.Condition.Atoms

/-!
# What is written by the rules is read

From properties and methods down to `or`.  The levels with operators that group to the left, and the
one of properties and methods, are loops over what stands to the right, while the trees grow to the
left.  So such a loop is followed along the left spine of the tree: what is written up to an inner
node is read by the first turns, and the node itself adds one turn at the end (`Approaches`).  That
the loop stops there is a matter of what follows the whole operand only.

`calls n` is a matter of length: each nested call has a token less to read than there are calls
left.
-/

namespace Credence.Expr

open Grammar Credence.Parser

variable {inner : Calls} {n k : Nat} {e : Expr} {args : List Expr} {s r z : List Char}
  {ts more : List Token} {name : String}

/-! ## Loops -/

/-- Up to a node on the left spine of a tree, something is read and then some turns. -/
def Approaches {α : Type} (first : Rule Expr) (next : Rule α) (grow : Expr → α → Expr)
    (s : List Char) (e : Expr) (more : List Token) : Prop :=
  ∃ start mid steps r row, first s = .success start mid ∧ Scans mid (row ++ more) [] ∧
    Turns next mid steps r ∧ steps.length ≤ row.length ∧ e = steps.foldl grow start ∧
    Scans r more []

namespace Approaches

variable {α : Type} {first : Rule Expr} {next : Rule α} {grow : Expr → α → Expr} {e' : Expr}

theorem start {mid : List Char} (h : first s = .success e mid) (hmid : Scans mid more []) :
    Approaches first next grow s e more :=
  ⟨e, mid, [], mid, [], h, hmid, .done, by simp, rfl, hmid⟩

/-- A node adds one turn. -/
theorem turn {row : List Token} (h : Approaches first next grow s e (row ++ more)) (hrow : row ≠ [])
    (hturn : ∀ r, Scans r (row ++ more) [] →
      ∃ a r', next r = .success a r' ∧ grow e a = e' ∧ Scans r' more []) :
    Approaches first next grow s e' more := by
  obtain ⟨start, mid, steps, r, us, hstart, hmid, hturns, hlength, rfl, hr⟩ := h
  obtain ⟨a, r', ha, rfl, hr'⟩ := hturn r hr
  refine ⟨start, mid, steps ++ [a], r', us ++ row, hstart, ?_, hturns.concat ha, ?_, ?_, hr'⟩
  · rwa [List.append_assoc]
  · have hpos := List.length_pos_of_ne_nil hrow
    simp only [List.length_append, List.length_singleton]
    omega
  · rw [List.foldl_append, List.foldl_cons, List.foldl_nil]

/-- The turns come to an end where what follows is refused. -/
theorem repeated (h : Approaches first next grow s e more)
    (hrefuses : ∀ {r}, Scans r more [] → next.Refuses r) :
    ∃ start mid steps r, first s = .success start mid ∧ repeated next mid = .success steps r ∧
      e = steps.foldl grow start ∧ Scans r more [] := by
  obtain ⟨start, mid, steps, r, row, hstart, hmid, hturns, hlength, rfl, hr⟩ := h
  have hle := hmid.length_le
  simp only [List.length_append] at hle
  exact ⟨start, mid, steps, r, hstart, hturns.repeated (hrefuses hr) (by omega), rfl, hr⟩

end Approaches

/-! ## Properties and methods -/

/-- What a property or a method makes of the subject before it. -/
theorem access_eq_success {step : Expr → Expr} :
    access inner s = .success step r ↔ ∃ c mid name mid', spacedChar '.' s = .success c mid ∧
      spaced identifier mid = .success name mid' ∧
      ((∃ xs, arguments inner mid' = .success xs r ∧
          step = fun subject => .method subject name (xs.map (·.2))) ∨
        (arguments inner).Refuses mid' ∧ mid' = r ∧ step = fun subject => .property subject name) := by
  simp only [access, bind_eq_success (p := spacedChar '.'),
    bind_eq_success (p := expecting _ _), expecting_eq_success, optional?_bind_eq_success,
    pure_eq_success]
  constructor
  · rintro ⟨c, mid, hc, name, mid', hname, ⟨xs, rest, hxs, rfl, rfl⟩ | ⟨hrefuses, rfl, rfl⟩⟩
    · exact ⟨c, mid, name, mid', hc, hname, .inl ⟨xs, hxs, rfl⟩⟩
    · exact ⟨c, mid, name, mid', hc, hname, .inr ⟨hrefuses, rfl, rfl⟩⟩
  · rintro ⟨c, mid, name, mid', hc, hname, ⟨xs, hxs, rfl⟩ | ⟨hrefuses, rfl, rfl⟩⟩
    · exact ⟨c, mid, hc, name, mid', hname, .inl ⟨xs, r, hxs, rfl, rfl⟩⟩
    · exact ⟨c, mid, hc, name, mid', hname, .inr ⟨hrefuses, rfl, rfl⟩⟩

theorem subject_eq_success :
    subject inner s = .success e r ↔ ∃ first mid steps, atom inner s = .success first mid ∧
      repeated (access inner) mid = .success steps r ∧
      e = steps.foldl (fun e step => step e) first :=
  foldl_repeated_eq_success

theorem refuses_arguments (h : Scans s more []) (hcall : ∀ rest, more ≠ .mark "(" :: rest) :
    (arguments inner).Refuses s := by
  unfold arguments
  rw [refuses_bind]
  exact .inl (takesMark_opening.refuses h hcall)

theorem stops_nine (hcall : ∀ rest, more ≠ .mark "(" :: rest) : Stops 9 more := by
  refine ⟨?_, by simp, by simp, hcall⟩
  intro t ht i hi
  cases t with
  | word w =>
      simp only [Token.strength?] at hi
      split_ifs at hi <;> simp at hi <;> omega
  | mark m =>
      simp only [Token.strength?] at hi
      split_ifs at hi <;> simp at hi <;> omega
  | number _ | text _ | parameter _ _ => exact nomatch hi

/-- A subject is an atom with turns behind it. -/
theorem Spells.approaches_subject (hinner : Reads inner.whole 0 n) {e : Expr}
    {ts more : List Token} (h : Spells false 8 e ts) (hn : ts.length ≤ n + 1)
    (hscans : Scans s (ts ++ more) []) (hcall : ∀ rest, more ≠ .mark "(" :: rest) :
    Approaches (atom inner) (access inner) (fun e step => step e) s e more := by
  by_cases hatom : Spells false 9 e ts
  · obtain ⟨r, hr, hscans⟩ := reads_atom hinner hatom hn hscans (stops_nine hcall)
    exact .start hr hscans
  have hstrength := h.strength_eq hatom
  cases h with
  | @property k subject key ts hk hkey hsubject =>
      rw [List.append_assoc] at hscans
      simp only [List.length_append] at hn
      have happroaches := Spells.approaches_subject hinner hsubject (by omega) hscans (by simp)
      refine happroaches.turn (by simp) fun r hr => ?_
      obtain ⟨c, mid, hc, hr⟩ := takesMark_point.takes hr
      obtain ⟨mid', hname, hr⟩ := hr.identifier hkey.2
      exact ⟨_, mid', access_eq_success.mpr
        ⟨c, mid, key, mid', hc, hname, .inr ⟨refuses_arguments hr hcall, rfl, rfl⟩⟩, rfl, hr⟩
  | @method k subject name args ts us hk hname hsubject hargs =>
      rw [List.append_assoc] at hscans
      simp only [List.length_append, List.length_cons] at hn
      have happroaches := Spells.approaches_subject hinner hsubject (by omega) hscans (by simp)
      refine happroaches.turn (by simp) fun r hr => ?_
      have hrow : (Token.mark "." :: .word name :: .mark "(" :: us ++ [.mark ")"]) ++ more =
          .mark "." :: .word name :: (.mark "(" :: us ++ .mark ")" :: more) := by simp
      rw [hrow] at hr
      obtain ⟨c, mid, hc, hr⟩ := takesMark_point.takes hr
      obtain ⟨mid', hidentifier, hr⟩ := hr.identifier hname.2
      obtain ⟨xs, r', hxs, rfl, hr⟩ := reads_arguments hinner hargs (by omega) hr
      exact ⟨_, r', access_eq_success.mpr
        ⟨c, mid, name, mid', hc, hidentifier, .inl ⟨xs, hxs, rfl⟩⟩, rfl, hr⟩
  | enclosed inner' => exact absurd (.enclosed inner') hatom
  | @binary _ op _ _ _ _ hk hleft hright => cases op <;> exact nomatch hstrength
  | _ => exact nomatch hstrength

theorem reads_subject (hinner : Reads inner.whole 0 n) : Reads (subject inner) 8 (n + 1) := by
  intro e ts more s h hn hscans hstops
  have hrefuses {r : List Char} (hr : Scans r more []) : (access inner).Refuses r := by
    unfold access
    rw [refuses_bind]
    exact .inl (takesMark_point.refuses hr (hstops.access le_rfl))
  obtain ⟨start, mid, steps, r, hstart, hsteps, rfl, hr⟩ :=
    (h.approaches_subject hinner hn hscans hstops.call).repeated hrefuses
  exact ⟨r, subject_eq_success.mpr ⟨start, mid, steps, hstart, hsteps, rfl⟩, hr⟩

/-! ## Relations -/

theorem between_eq_success {mark : Rule Unit} :
    between mark s = .success name r ↔ ∃ u mid mid' u', spaced mark s = .success u mid ∧
      spaced identifier mid = .success name mid' ∧ spaced mark mid' = .success u' r := by
  simp only [between, bind_eq_success, pure_eq_success]
  constructor
  · rintro ⟨u, mid, hu, name', mid', hname, u', r', hu', rfl, rfl⟩
    exact ⟨u, mid, mid', u', hu, hname, hu'⟩
  · rintro ⟨u, mid, mid', u', hu, hname, hu'⟩
    exact ⟨u, mid, hu, name, mid', hname, u', r, hu', rfl, rfl⟩

theorem gentle_between {mark : Rule Unit} (h : Gentle mark) : Gentle (between mark) :=
  h.spaced.bind fun _ => gentle_identifier.spaced.bind fun _ => h.spaced.bind fun _ => gentle_pure

theorem gentle_link : Gentle link :=
  ((gentle_between takesMark_loneEquals.gentle).bind fun _ => gentle_pure).orElse
    ((gentle_between gentle_exactly).bind fun _ => gentle_pure)

theorem takesMark_minusSign : TakesMark (exactly ['-']) "-" :=
  takesMark_exactly (by decide) rfl (by decide)

section

variable {mark : Rule Unit} {m : String} {negated : Bool}

theorem scans_of_between (hmark : TakesMark mark m) (h : between mark s = .success name r) :
    IsName name ∧ Scans s [.mark m, .word name, .mark m] r := by
  obtain ⟨u, mid, mid', u', hu, hname, hu'⟩ := between_eq_success.mp h
  obtain ⟨hscans, hisName⟩ := scans_of_identifier hname
  exact ⟨hisName, (hmark.scans hu).append (hscans.append (hmark.scans hu'))⟩

theorem Scans.between (hmark : TakesMark mark m)
    (h : Scans s (.mark m :: .word name :: .mark m :: ts) z) (hname : IsName name) :
    ∃ r, between mark s = .success name r ∧ Scans r ts z := by
  obtain ⟨u, mid, hu, h⟩ := hmark.takes h
  obtain ⟨mid', hidentifier, h⟩ := h.identifier hname.2
  obtain ⟨u', r, hu', h⟩ := hmark.takes h
  exact ⟨r, between_eq_success.mpr ⟨u, mid, mid', u', hu, hidentifier, hu'⟩, h⟩

theorem scans_of_link (h : link s = .success (name, negated) r) :
    IsName name ∧ Scans s [.mark (linkMark negated), .word name, .mark (linkMark negated)] r := by
  simp only [link, orElse_eq_success, bind_eq_success, pure_eq_success, Prod.mk.injEq] at h
  obtain ⟨name', r', h, ⟨rfl, rfl⟩, rfl⟩ | ⟨-, name', r', h, ⟨rfl, rfl⟩, rfl⟩ := h
  · exact scans_of_between takesMark_loneEquals h
  · exact scans_of_between takesMark_minusSign h

theorem Scans.link
    (h : Scans s (.mark (linkMark negated) :: .word name :: .mark (linkMark negated) :: ts) [])
    (hname : IsName name) : ∃ r, link s = .success (name, negated) r ∧ Scans r ts [] := by
  simp only [Grammar.link, orElse_eq_success, bind_eq_success, pure_eq_success]
  cases negated with
  | false =>
      obtain ⟨r, hr, h⟩ := h.between takesMark_loneEquals hname
      exact ⟨r, .inl ⟨name, r, hr, rfl, rfl⟩, h⟩
  | true =>
      have hrefuses : (spaced loneEquals).Refuses s :=
        takesMark_loneEquals.refuses h (by simp [linkMark])
      obtain ⟨r, hr, h⟩ := h.between takesMark_minusSign hname
      refine ⟨r, .inr ⟨?_, name, r, hr, rfl, rfl⟩, h⟩
      simp only [Grammar.between, refuses_bind]
      exact .inl (.inl hrefuses)

/-- Where an operand stops, no relation begins. -/
theorem Stops.refuses_link (h : Stops k more) (hk : k ≤ 7) (hs : Scans s more []) :
    Grammar.link.Refuses s := by
  rw [gentle_link.refuses_iff]
  rintro ⟨name, negated⟩ r hlink
  obtain ⟨-, hscans⟩ := scans_of_link hlink
  obtain ⟨rest, rfl, -⟩ := hs.split hscans
  cases negated with
  | false => exact (h.link hk).1 _ rfl
  | true => exact (h.link hk).2 name _ rfl

end

theorem relational_eq_success :
    relational inner s = .success e r ↔ ∃ domain mid, subject inner s = .success domain mid ∧
      ((∃ name negated mid' target, link mid = .success (name, negated) mid' ∧
          subject inner mid' = .success target r ∧ e = .relation name domain target negated) ∨
        link.Refuses mid ∧ (spaced loneEquals).accepts mid = false ∧ e = domain ∧ mid = r) := by
  unfold relational
  rw [bind_eq_success]
  refine exists_congr fun domain => exists_congr fun mid => and_congr_right fun _ => ?_
  rw [optional?_bind_eq_success]
  refine or_congr ?_ (and_congr_right fun _ => ?_)
  · simp only [bind_eq_success, committed_eq_success, pure_eq_success]
    constructor
    · rintro ⟨⟨name, negated⟩, mid', hlink, target, rest, htarget, rfl, rfl⟩
      exact ⟨name, negated, mid', target, hlink, htarget, rfl⟩
    · rintro ⟨name, negated, mid', target, hlink, htarget, rfl⟩
      exact ⟨(name, negated), mid', hlink, target, r, htarget, rfl, rfl⟩
  · simp only [ifAhead_eq_success, expecting_eq_success, not_refuse_eq_success, and_false, false_or,
      pure_eq_success, @eq_comm _ domain]

theorem stops_link (negated : Bool) (rest : List Token) :
    Stops 8 (.mark (linkMark negated) :: rest) := by
  refine ⟨?_, by simp, ?_, ?_⟩
  · intro t ht i hi
    obtain rfl := Option.some.inj ht
    cases negated with
    | false => exact nomatch hi
    | true =>
        obtain rfl := Option.some.inj hi
        decide
  · cases negated <;> simp [linkMark]
  · cases negated <;> simp [linkMark]

theorem reads_relational (hinner : Reads inner.whole 0 n) : Reads (relational inner) 7 (n + 1) := by
  intro e ts more s h hn hscans hstops
  have hsubject : Reads (subject inner) 8 (n + 1) := reads_subject hinner
  by_cases hmax : Spells false 8 e ts
  · obtain ⟨r, hr, hscans⟩ := hsubject hmax hn hscans (hstops.mono (by decide))
    refine ⟨r, relational_eq_success.mpr ⟨e, r, hr, .inr ⟨hstops.refuses_link le_rfl hscans, ?_, rfl, rfl⟩⟩,
      hscans⟩
    exact (takesMark_loneEquals.refuses hscans (hstops.link le_rfl).1).accepts
  have hstrength := h.strength_eq hmax
  cases h with
  | @relation k name domain target negated ts us hk hname hdomain htarget =>
      rw [List.append_assoc] at hscans
      simp only [List.length_append, List.length_cons] at hn
      obtain ⟨mid, hdomain', hscans⟩ := hsubject hdomain (by omega) hscans (stops_link negated _)
      obtain ⟨mid', hlink, hscans⟩ := hscans.link hname
      obtain ⟨r, htarget', hscans⟩ := hsubject htarget (by omega) hscans (hstops.mono (by decide))
      exact ⟨r, relational_eq_success.mpr ⟨domain, mid, hdomain', .inl
        ⟨name, negated, mid', target, hlink, htarget', rfl⟩⟩, hscans⟩
  | enclosed inner' => exact absurd (.enclosed inner') hmax
  | @binary _ op _ _ _ _ hk hleft hright => cases op <;> exact nomatch hstrength
  | _ => exact nomatch hstrength

/-! ## Powers and signs -/

theorem power_eq_success :
    power inner s = .success e r ↔ ∃ base mid, relational inner s = .success base mid ∧
      ((∃ u mid' exponent, spaced (exactly ['*', '*']) mid = (.success u mid' : Outcome Malformed _) ∧
          inner.signed mid' = .success exponent r ∧ e = .binary .pow base exponent) ∨
        (spaced (exactly ['*', '*']) : Rule Unit).Refuses mid ∧ e = base ∧ mid = r) := by
  unfold power
  rw [bind_eq_success]
  refine exists_congr fun base => exists_congr fun mid => and_congr_right fun _ => ?_
  rw [optional?_bind_eq_success]
  simp only [bind_eq_success, committed_eq_success, refuses_bind, not_refuses_committed, and_false,
    exists_false, or_false, pure_eq_success]
  constructor
  · rintro (⟨exponent, rest, ⟨u, mid', hu, hexponent⟩, rfl, rfl⟩ | ⟨hrefuses, rfl, rfl⟩)
    · exact .inl ⟨u, mid', exponent, hu, hexponent, rfl⟩
    · exact .inr ⟨hrefuses, rfl, rfl⟩
  · rintro (⟨u, mid', exponent, hu, hexponent, rfl⟩ | ⟨hrefuses, rfl, rfl⟩)
    · exact .inl ⟨exponent, r, ⟨u, mid', hu, hexponent⟩, rfl, rfl⟩
    · exact .inr ⟨hrefuses, rfl, rfl⟩

/-- No operator has the strength of the minus sign. -/
theorem Stops.of_six (h : Stops 6 more) : Stops 5 more := by
  refine ⟨fun t ht i hi => ?_, fun _ => h.link (by decide), fun _ => h.access (by decide), h.call⟩
  have hlt := h.operator t ht i hi
  have hne : i ≠ 5 := by
    rintro rfl
    cases t with
    | word w =>
        simp only [Token.strength?] at hi
        split_ifs at hi <;> simp at hi
    | mark m =>
        simp only [Token.strength?] at hi
        split_ifs at hi <;> simp at hi
    | number _ | text _ | parameter _ _ => exact nomatch hi
  omega

theorem reads_power (hinner : Reads inner.whole 0 n) (hsigned : Reads inner.signed 5 n) :
    Reads (power inner) 6 (n + 1) := by
  intro e ts more s h hn hscans hstops
  have hrelational : Reads (relational inner) 7 (n + 1) := reads_relational hinner
  by_cases hmax : Spells false 7 e ts
  · obtain ⟨r, hr, hscans⟩ := hrelational hmax hn hscans (hstops.mono (by decide))
    refine ⟨r, power_eq_success.mpr ⟨e, r, hr, .inr ⟨takesMark_power.refuses hscans ?_, rfl, rfl⟩⟩, hscans⟩
    rintro rest rfl
    exact absurd (hstops.operator _ rfl 6 rfl) (by decide)
  have hstrength := h.strength_eq hmax
  cases h with
  | @binary k op left right ts us hk hleft hright =>
      obtain rfl : op = .pow := by cases op <;> first | rfl | cases hstrength
      have hpos := hleft.begins.length_pos
      simp only [List.length_append, Operator.tokens, List.length_singleton] at hn
      rw [List.append_assoc, List.append_assoc] at hscans
      obtain ⟨mid, hbase, hscans⟩ := hrelational hleft (by omega) hscans
        (@stops_operator _ .pow _ (by decide) (hright.begins.append more))
      obtain ⟨u, mid', hu, hscans⟩ := takesMark_power.takes hscans
      obtain ⟨r, hexponent, hscans⟩ := hsigned hright (by omega) hscans hstops.of_six
      exact ⟨r, power_eq_success.mpr ⟨left, mid, hbase, .inl ⟨u, mid', right, hu, hexponent, rfl⟩⟩,
        hscans⟩
  | enclosed inner' => exact absurd (.enclosed inner') hmax
  | _ => cases hstrength

theorem signed_eq_success :
    signed inner s = .success e r ↔
      (∃ c mid e', spacedChar '-' s = .success c mid ∧ inner.signed mid = .success e' r ∧
        e = .negate e') ∨
      (spacedChar '-').Refuses s ∧ power inner s = .success e r := by
  simp only [signed, orElse_eq_success, bind_eq_success, committed_eq_success, pure_eq_success,
    refuses_bind, not_refuses_committed, not_refuses_pure, and_false, exists_false, or_false]
  refine or_congr ?_ Iff.rfl
  constructor
  · rintro ⟨c, mid, hc, e', r', he, rfl, rfl⟩
    exact ⟨c, mid, e', hc, he, rfl⟩
  · rintro ⟨c, mid, e', hc, he, rfl⟩
    exact ⟨c, mid, hc, e', r, he, rfl, rfl⟩

theorem reads_signed (hinner : Reads inner.whole 0 n) (hsigned : Reads inner.signed 5 n) :
    Reads (signed inner) 5 (n + 1) := by
  intro e ts more s h hn hscans hstops
  by_cases hmax : Spells false 6 e ts
  · have hrefuses : (spacedChar '-').Refuses s := by
      refine takesMark_minus.refuses hscans fun rest hrest => ?_
      have hhead : (ts ++ more).head? = ts.head? := List.head?_append_of_ne_nil ts hmax.ne_nil
      rw [hrest] at hhead
      exact hmax.head?_ne_minus le_rfl hhead.symm
    obtain ⟨r, hr, hscans⟩ := reads_power hinner hsigned hmax hn hscans (hstops.mono (by decide))
    exact ⟨r, signed_eq_success.mpr (.inr ⟨hrefuses, hr⟩), hscans⟩
  have hstrength := h.strength_eq hmax
  cases h with
  | @negate k e ts hk inner' =>
      obtain ⟨c, mid, hc, hscans⟩ := takesMark_minus.takes hscans
      obtain ⟨r, hr, hscans⟩ := hsigned inner' (by simpa using hn) hscans hstops
      exact ⟨r, signed_eq_success.mpr (.inl ⟨c, mid, e, hc, hr, rfl⟩), hscans⟩
  | enclosed inner' => exact absurd (.enclosed inner') hmax
  | @binary _ op _ _ _ _ hk hleft hright => cases op <;> exact nomatch hstrength
  | _ => exact nomatch hstrength

/-! ## Operators that group to the left -/

section

variable {operand : Rule Expr} {operator : Rule Operator}

theorem further_eq_success {x : Operator × Expr} :
    further operand operator s = .success x r ↔ ∃ mid, spaced operator s = .success x.1 mid ∧
      operand mid = .success x.2 r := by
  simp only [further, bind_eq_success, committed_eq_success, pure_eq_success]
  constructor
  · rintro ⟨o, mid, ho, e, r', he, rfl, rfl⟩
    exact ⟨mid, ho, he⟩
  · rintro ⟨mid, ho, he⟩
    exact ⟨x.1, mid, ho, x.2, r, he, rfl, rfl⟩

theorem Operator.left_eq {op : Operator} (h : op.strength ≤ 4) : op.left = op.strength := by
  cases op with
  | pow => exact absurd h (by decide)
  | _ => rfl

theorem Operator.right_eq {op : Operator} (h : op.strength ≤ 4) : op.right = op.strength + 1 := by
  cases op with
  | pow => exact absurd h (by decide)
  | _ => rfl

/-- An expression of operators of one strength is an operand with turns behind it. -/
theorem Spells.approaches_grouped (hoperand : Reads operand (k + 1) n)
    (hoperator : TakesOperators operator k) (hk : k ≤ 4) (h : Spells false k e ts)
    (hn : ts.length ≤ n) (hscans : Scans s (ts ++ more) []) (hstops : Stops (k + 1) more) :
    Approaches operand (further operand operator) (fun left x => .binary x.1 left x.2) s e more := by
  induction hlength : ts.length using Nat.strongRecOn generalizing e ts more with
  | ind length ih =>
    by_cases hmax : Spells false (k + 1) e ts
    · obtain ⟨r, hr, hscans⟩ := hoperand hmax hn hscans hstops
      exact .start hr hscans
    have hstrength := h.strength_eq hmax
    cases h with
    | @binary k op left right ts us hk' hleft hright =>
        have hop : op.strength = k := hstrength
        have hpos := List.length_pos_of_ne_nil hright.ne_nil
        rw [Operator.left_eq (hop.trans_le hk), hop] at hleft
        rw [Operator.right_eq (hop.trans_le hk), hop] at hright
        rw [List.append_assoc, List.append_assoc] at hscans
        simp only [List.length_append] at hn hlength
        have hrow : op.tokens ++ us ++ more = op.tokens ++ (us ++ more) := List.append_assoc _ _ _
        have hstops' : Stops (k + 1) (op.tokens ++ us ++ more) :=
          hrow ▸ stops_operator (by omega) (hright.begins.append more)
        have happroaches := ih ts.length (by omega) hleft (by omega) (hrow ▸ hscans) hstops' rfl
        refine happroaches.turn ?_ fun r hr => ?_
        · simp [hright.ne_nil]
        · rw [hrow] at hr
          obtain ⟨mid, hsign, hr⟩ := hoperator.takes_spaced hop hr (hright.begins.append more)
          obtain ⟨r', he, hr⟩ := hoperand hright (by omega) hr hstops
          exact ⟨(op, right), r', further_eq_success.mpr ⟨mid, hsign, he⟩, rfl, hr⟩
    | enclosed inner' => exact absurd (.enclosed inner') hmax
    | _ =>
        simp only [strength] at hstrength
        omega

theorem reads_leftGrouped (hoperand : Reads operand (k + 1) n)
    (hoperator : TakesOperators operator k) (hk : k ≤ 4) :
    Reads (leftGrouped .binary operand operator) k n := by
  intro e ts more s h hn hscans hstops
  have hrefuses {r : List Char} (hr : Scans r more []) : (further operand operator).Refuses r := by
    simp only [further, refuses_bind]
    exact .inl (hoperator.refuses hr hstops)
  obtain ⟨start, mid, steps, r, hstart, hsteps, rfl, hr⟩ :=
    (h.approaches_grouped hoperand hoperator hk hn hscans (hstops.mono (Nat.le_succ k))).repeated
      hrefuses
  exact ⟨r, leftGrouped_eq_success.mpr ⟨start, mid, steps, hstart, hsteps, rfl⟩, hr⟩

end

/-! ## The whole grammar -/

theorem reads_calls (n : Nat) : Reads (calls n).whole 0 n ∧ Reads (calls n).signed 5 n := by
  induction n with
  | zero =>
      constructor <;>
      · intro e ts more s h hn hscans hstops
        exact absurd h.begins.length_pos (by omega)
  | succ n ih =>
      obtain ⟨hwhole, hsigned⟩ := ih
      have hoperand : Reads (signed (calls n)) 5 (n + 1) := reads_signed hwhole hsigned
      have hproduct : Reads (product (calls n)) 4 (n + 1) :=
        reads_leftGrouped hoperand takesOperators_productSign (by decide)
      have hsum : Reads (sum (calls n)) 3 (n + 1) :=
        reads_leftGrouped hproduct takesOperators_sumSign (by decide)
      have hcomparison : Reads (comparison (calls n)) 2 (n + 1) :=
        reads_leftGrouped hsum takesOperators_comparisonSign (by decide)
      have hconjunction : Reads (conjunction (calls n)) 1 (n + 1) :=
        reads_leftGrouped hcomparison takesOperators_andSign (by decide)
      exact ⟨reads_leftGrouped hconjunction takesOperators_orSign (by decide), hoperand⟩

end Credence.Expr
