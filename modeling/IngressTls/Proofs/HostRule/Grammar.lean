import IngressTls.Proofs.HostRule.Arguments
import Mathlib.Data.List.Infix

set_option autoImplicit false

/-! # The grammar of a match rule

A rule is read as a sequence of clauses between other text. The text before a clause holds no
opening and does not end inside a word; the text after the last clause holds no opening. A clause
whose arguments are a list of arguments contributes their hosts, in order, and one with other
arguments contributes nothing.

Main statements: `hostsOf_parts` and `names_of_mem_hostsOf`.
-/

namespace IngressTls.HostRule

/-- A text does not end inside a word. -/
def EndsOutsideWord (text : List Char) : Prop :=
  ∀ c, text.getLast? = some c → continuesWord c = false

theorem endsOutsideWord_iff (text : List Char) :
    text.getLast?.any continuesWord = false ↔ EndsOutsideWord text :=
  Option.any_eq_false _ _

instance (text : List Char) : Decidable (EndsOutsideWord text) :=
  decidable_of_iff _ (endsOutsideWord_iff text)

/-! ## The first opening -/

/-- What opens a clause cannot begin inside itself. -/
theorem opening_head_not_mem_tail : 'H' ∉ opening.tail := by decide

/-- A text without an opening does not become one by what follows. -/
theorem not_prefix_of_no_opening {text after : List Char} (hne : text ≠ [])
    (h : ¬ opening <:+: text) : ¬ opening <+: text ++ (opening ++ after) := by
  rintro ⟨rest, hrest⟩
  rcases List.append_eq_append_iff.1 hrest with ⟨more, rfl, -⟩ | ⟨more, hmore, hafter⟩
  · exact h (List.prefix_append opening more).isInfix
  · cases more with
    | nil =>
        rw [List.append_nil] at hmore
        exact h (hmore ▸ List.infix_rfl)
    | cons d ds =>
        -- the opening that follows would begin inside the one that is found
        obtain ⟨c, cs, rfl⟩ := List.exists_cons_of_ne_nil hne
        have hd : d = 'H' := (List.cons.inj hafter).1.symm
        apply opening_head_not_mem_tail
        rw [hmore, hd]
        simp

theorem findOpening_of_no_opening {text : List Char} (h : ¬ opening <:+: text)
    (before : Option Char) : findOpening before text = none := by
  induction text generalizing before with
  | nil => rfl
  | cons c cs ih =>
      rw [findOpening, if_neg fun hprefix => h (List.isPrefixOf_iff_prefix.1 hprefix).isInfix]
      exact ih (fun hinfix => h (List.infix_cons hinfix)) _

theorem getLast?_cons_or (c : Char) (cs : List Char) (before : Option Char) :
    (c :: cs).getLast?.or before = cs.getLast?.or (some c) := by
  rw [List.getLast?_cons]
  cases cs.getLast? with
  | none => rfl
  | some d => rfl

theorem findOpening_append {text : List Char} (h : ¬ opening <:+: text) (before : Option Char)
    (after : List Char) :
    findOpening before (text ++ (opening ++ after)) = some (text.getLast?.or before, after) := by
  induction text generalizing before with
  | nil => rfl
  | cons c cs ih =>
      have hnot : ¬ opening.isPrefixOf (c :: (cs ++ (opening ++ after))) = true := fun hp =>
        not_prefix_of_no_opening (List.cons_ne_nil c cs) h (List.isPrefixOf_iff_prefix.1 hp)
      rw [List.cons_append, findOpening, if_neg hnot, ih fun hinfix => h (List.infix_cons hinfix),
        getLast?_cons_or]

/-- What is found stands behind an opening. -/
theorem exists_of_findOpening {before b : Option Char} {cs after : List Char}
    (h : findOpening before cs = some (b, after)) :
    ∃ text, cs = text ++ (opening ++ after) ∧ b = text.getLast?.or before := by
  induction cs generalizing before with
  | nil => cases h
  | cons c cs ih =>
      rw [findOpening] at h
      split at h
      · next hprefix =>
          obtain ⟨rest, hrest⟩ := List.isPrefixOf_iff_prefix.1 hprefix
          cases h
          refine ⟨[], ?_, rfl⟩
          rw [← hrest]
          simp
      · obtain ⟨text, rfl, hb⟩ := ih h
        refine ⟨c :: text, rfl, ?_⟩
        rw [hb, getLast?_cons_or]

/-! ## The first clause -/

theorem firstClause?_of_no_opening {text : List Char} (h : ¬ opening <:+: text) :
    firstClause? text = none := by
  rw [firstClause?, findOpening_of_no_opening h]

/-- An opening that is closed later begins a clause. -/
theorem firstClause?_of_findOpening {rule arguments rest : List Char} {before : Option Char}
    (h : findOpening none rule = some (before, arguments ++ ')' :: rest))
    (hclosed : ')' ∉ arguments) : firstClause? rule = some ⟨before, arguments, rest⟩ := by
  have hinside : ∀ c ∈ arguments, decide (c ≠ ')') = true := by
    intro c hc
    refine decide_eq_true fun heq => hclosed ?_
    rwa [← heq]
  rw [firstClause?, h]
  simp only [List.dropWhile_append_of_pos hinside, List.takeWhile_append_of_pos hinside]
  simp

theorem firstClause?_append {text arguments : List Char} (h : ¬ opening <:+: text)
    (hclosed : ')' ∉ arguments) (rest : List Char) :
    firstClause? (text ++ (opening ++ (arguments ++ ')' :: rest))) =
      some ⟨text.getLast?, arguments, rest⟩ := by
  refine firstClause?_of_findOpening ?_ hclosed
  rw [findOpening_append h, Option.or_none]

/-- An opening that is not closed begins no clause. -/
theorem firstClause?_of_unclosed {rule after : List Char} {before : Option Char}
    (h : findOpening none rule = some (before, after)) (hopen : ')' ∉ after) :
    firstClause? rule = none := by
  have hdrop : after.dropWhile (fun c => decide (c ≠ ')')) = [] := by
    refine List.dropWhile_eq_nil_iff.2 fun c hc => decide_eq_true fun heq => hopen ?_
    rwa [← heq]
  rw [firstClause?, h]
  simp only [hdrop]

theorem not_mem_takeWhile (c : Char) (cs : List Char) : c ∉ cs.takeWhile (· ≠ c) := by
  intro h
  have hne := List.mem_takeWhile_imp h
  simp at hne

/-- What is left out begins with the character that was looked for. -/
theorem eq_of_dropWhile {c d : Char} {cs rest : List Char}
    (h : cs.dropWhile (· ≠ c) = d :: rest) : cs = cs.takeWhile (· ≠ c) ++ c :: rest := by
  have hhead := List.head?_dropWhile_not (fun x => decide (x ≠ c)) cs
  rw [h] at hhead
  have hd : d = c := Decidable.not_not.1 (of_decide_eq_false hhead)
  rw [hd] at h
  rw [← h, List.takeWhile_append_dropWhile]

theorem exists_of_firstClause? {rule : List Char} {c : Clause} (h : firstClause? rule = some c) :
    ∃ text, rule = text ++ (opening ++ (c.arguments ++ ')' :: c.rest)) ∧
      c.before = text.getLast? ∧ ')' ∉ c.arguments := by
  rw [firstClause?] at h
  split at h
  · cases h
  · next before after hopening =>
      split at h
      · cases h
      · next paren rest hrest =>
          cases h
          obtain ⟨text, rfl, rfl⟩ := exists_of_findOpening hopening
          exact ⟨text, by rw [← eq_of_dropWhile hrest], Option.or_none, not_mem_takeWhile _ _⟩

theorem hostsOf_of_none {rule : List Char} (h : firstClause? rule = none) : hostsOf rule = [] := by
  rw [hostsOf]
  split
  · rfl
  · next c hc => cases hc.symm.trans h

theorem hostsOf_of_some {rule : List Char} {c : Clause} (h : firstClause? rule = some c) :
    hostsOf rule = c.hosts ++ hostsOf c.rest := by
  rw [hostsOf]
  split
  · next hnone => cases hnone.symm.trans h
  · next d hd =>
      cases hd.symm.trans h
      rfl

/-! ## The hosts of a rule -/

/-- Text before a clause. -/
structure Gap where
  /-- The text. -/
  text : List Char
  /-- It opens no clause. -/
  no_opening : ¬ opening <:+: text
  /-- The clause does not continue a word. -/
  outside : EndsOutsideWord text

/-- A clause of a rule, with the text before it. -/
inductive Part where
  /-- A clause with a list of arguments. -/
  | named (gap : Gap) (arguments : List Argument) (ne : arguments ≠ [])
  /-- A clause with something else between its parentheses. -/
  | malformed (gap : Gap) (arguments : List Char) (closed : ')' ∉ arguments)
      (unlisted : ∀ as : List Argument, as ≠ [] → listed as ≠ arguments)

namespace Part

/-- The text before the clause. -/
def gap : Part → Gap
  | named gap _ _ | malformed gap _ _ _ => gap

/-- What stands between the parentheses. -/
def inside : Part → List Char
  | named _ arguments _ => listed arguments
  | malformed _ arguments _ _ => arguments

/-- The text of the clause and of what is before it. -/
def text (p : Part) : List Char := p.gap.text ++ (opening ++ (p.inside ++ [')']))

/-- The hosts that the clause names. -/
def hosts : Part → List String
  | named _ arguments _ => arguments.map Argument.host
  | malformed _ _ _ _ => []

theorem paren_not_mem_inside (p : Part) : ')' ∉ p.inside := by
  cases p with
  | named gap arguments ne => exact paren_not_mem_listed arguments
  | malformed gap arguments closed unlisted => exact closed

theorem getD_hosts?_inside (p : Part) : (hosts? p.inside).getD [] = p.hosts := by
  cases p with
  | named gap arguments ne =>
      have hread := (hosts?_eq_some_iff (paren_not_mem_listed arguments)).2
        ⟨arguments, ne, rfl, rfl⟩
      rw [inside, hread]
      rfl
  | malformed gap arguments closed unlisted =>
      cases hread : hosts? arguments with
      | none => rw [inside, hread]; rfl
      | some read =>
          obtain ⟨as, hne, htext, -⟩ := (hosts?_eq_some_iff closed).1 hread
          exact absurd htext (unlisted as hne)

/-- A part at the beginning of a rule is its first clause. -/
theorem hostsOf_text_append (p : Part) (rest : List Char) :
    hostsOf (p.text ++ rest) = p.hosts ++ hostsOf rest := by
  have htext : p.text ++ rest = p.gap.text ++ (opening ++ (p.inside ++ ')' :: rest)) := by
    simp [text]
  have hbefore := (endsOutsideWord_iff p.gap.text).2 p.gap.outside
  rw [htext, hostsOf_of_some (firstClause?_append p.gap.no_opening p.paren_not_mem_inside rest),
    Clause.hosts, hbefore]
  exact congrArg (· ++ hostsOf rest) p.getD_hosts?_inside

end Part

/-- A rule names the hosts of its parts. -/
theorem hostsOf_parts (parts : List Part) {tail : List Char} (htail : ¬ opening <:+: tail) :
    hostsOf (parts.flatMap Part.text ++ tail) = parts.flatMap Part.hosts := by
  induction parts with
  | nil => exact hostsOf_of_none (firstClause?_of_no_opening htail)
  | cons p ps ih =>
      rw [List.flatMap_cons, List.append_assoc, p.hostsOf_text_append, ih, List.flatMap_cons]

/-! ## Where the hosts of a rule stand -/

/-- A clause of a rule has an argument for a host. -/
def Names (rule : List Char) (host : String) : Prop :=
  ∃ before after, ∃ as : List Argument,
    rule = before ++ (opening ++ (listed as ++ ')' :: after)) ∧ EndsOutsideWord before ∧
      ∃ a ∈ as, a.host = host

theorem EndsOutsideWord.append_paren {before : List Char} (h : EndsOutsideWord before)
    (cs : List Char) : EndsOutsideWord (cs ++ ')' :: before) := by
  intro c hc
  rw [List.getLast?_append, List.getLast?_cons, Option.some_or] at hc
  cases hlast : before.getLast? with
  | none =>
      rw [hlast] at hc
      cases hc
      decide
  | some d =>
      rw [hlast] at hc
      cases hc
      exact h d hlast

/-- What comes after a clause names the same hosts in the whole rule. -/
theorem Names.append_paren {rest : List Char} {host : String} (h : Names rest host)
    (cs : List Char) : Names (cs ++ ')' :: rest) host := by
  obtain ⟨before, after, as, rfl, hends, ha⟩ := h
  exact ⟨cs ++ ')' :: before, after, as, by simp, hends.append_paren cs, ha⟩

theorem names_of_mem_hostsOf {rule : List Char} {host : String} (h : host ∈ hostsOf rule) :
    Names rule host := by
  induction rule using hostsOf.induct with
  | case1 rule hnone =>
      rw [hostsOf_of_none hnone] at h
      cases h
  | case2 rule c hclause _ ih =>
      obtain ⟨text, hrule, hbefore, hclosed⟩ := exists_of_firstClause? hclause
      rw [hostsOf_of_some hclause] at h
      -- the scan starts anew behind a clause, where a parenthesis stands before the rest
      rcases List.mem_append.1 h with hhere | hlater
      · rw [Clause.hosts] at hhere
        split at hhere
        · cases hhere
        · next hword =>
            cases hread : hosts? c.arguments with
            | none =>
                rw [hread] at hhere
                cases hhere
            | some hosts =>
                obtain ⟨as, -, has, rfl⟩ := (hosts?_eq_some_iff hclosed).1 hread
                rw [hread] at hhere
                refine ⟨text, c.rest, as, by rw [has, hrule], ?_, List.mem_map.1 hhere⟩
                rw [← endsOutsideWord_iff, ← hbefore]
                exact Bool.eq_false_iff.2 hword
      · have hlong := (ih hlater).append_paren (text ++ (opening ++ c.arguments))
        rw [hrule]
        simpa using hlong

end IngressTls.HostRule
