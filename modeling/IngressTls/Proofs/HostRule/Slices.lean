import IngressTls.Proofs.HostRule.Grammar

set_option autoImplicit false

/-! # Scanning by slices

The scan of a rule that works on byte offsets: it searches for an opening, cuts the rule before and
after it, searches for the closing parenthesis and cuts again. A text cannot be cut inside a
character. No cut of the scan fails, whatever the rule is, and the scan reads the hosts that the
grammar of rules gives.

Main statements: `slicedHosts_eq` and `rule_grammar`.
-/

namespace IngressTls.HostRule

/-- The parts of a text before and after a byte offset. There are none if the offset lies inside a
character or behind the end. -/
def cutAt? (s : String) (offset : Nat) : Option (String × String) :=
  if h : String.Pos.Raw.IsValid s ⟨offset⟩ then
    some ((s.sliceTo ⟨⟨offset⟩, h⟩).copy, (s.sliceFrom ⟨⟨offset⟩, h⟩).copy)
  else none

/-- The byte offset at which a pattern occurs for the first time. -/
def byteIndex? (pattern : List Char) : List Char → Option Nat
  | [] => none
  | c :: cs =>
    if pattern.isPrefixOf (c :: cs) then some 0
    else (byteIndex? pattern cs).map (c.utf8Size + ·)

/-- Takes the first clause off a rule. There is no result if a cut fails; else the result is
the hosts of the clause and the rest of the rule, or nothing if there is no closed clause. -/
def sliceClause? (rule : String) : Option (Option (List String × String)) :=
  match byteIndex? opening rule.toList with
  | none => some none
  | some start => do
    let (before, _) ← cutAt? rule start
    let (_, inside) ← cutAt? rule (start + opening.length)
    match byteIndex? [')'] inside.toList with
    | none => return none
    | some stop =>
      let hosts ←
        if before.toList.getLast?.any continuesWord then pure []
        else (cutAt? inside stop).map fun cut => (hosts? cut.1.toList).getD []
      let (_, rest) ← cutAt? inside (stop + 1)
      return some (hosts, rest)

theorem cutAt?_append (s t : String) : cutAt? (s ++ t) s.utf8ByteSize = some (s, t) := by
  have h : String.Pos.Raw.IsValid (s ++ t) ⟨s.utf8ByteSize⟩ :=
    String.Pos.Raw.isValid_iff_exists_append.2 ⟨s, t, rfl, rfl⟩
  have hsplit : (⟨⟨s.utf8ByteSize⟩, h⟩ : (s ++ t).Pos).Splits s t := ⟨rfl, rfl⟩
  obtain ⟨hto, hfrom⟩ := (String.Pos.splits _).eq hsplit
  rw [cutAt?, dif_pos h, hto, hfrom]

theorem utf8ByteSize_ofList_cons (c : Char) (cs : List Char) :
    (String.ofList (c :: cs)).utf8ByteSize = c.utf8Size + (String.ofList cs).utf8ByteSize := by
  rw [String.ofList_cons, String.utf8ByteSize_append, String.utf8ByteSize_singleton]

/-- The searches on bytes and on characters find the same opening. -/
theorem byteIndex?_opening (before : Option Char) (cs : List Char) :
    byteIndex? opening cs = none ∧ findOpening before cs = none ∨
    ∃ text after, cs = text ++ (opening ++ after) ∧
      byteIndex? opening cs = some (String.ofList text).utf8ByteSize ∧
      findOpening before cs = some (text.getLast?.or before, after) := by
  induction cs generalizing before with
  | nil => exact Or.inl ⟨rfl, rfl⟩
  | cons c cs ih =>
      rw [byteIndex?, findOpening]
      split
      · next hprefix =>
          obtain ⟨after, hafter⟩ := List.isPrefixOf_iff_prefix.1 hprefix
          refine Or.inr ⟨[], after, hafter.symm, rfl, ?_⟩
          rw [← hafter]
          simp
      · rcases ih (some c) with ⟨hindex, hfind⟩ | ⟨text, after, rfl, hindex, hfind⟩
        · rw [hindex]
          exact Or.inl ⟨rfl, hfind⟩
        · refine Or.inr ⟨c :: text, after, rfl, ?_, ?_⟩
          · rw [hindex, utf8ByteSize_ofList_cons]
            rfl
          · rw [hfind, getLast?_cons_or]

theorem not_isPrefixOf_of_ne {c d : Char} (h : d ≠ c) (cs : List Char) :
    ¬ [c].isPrefixOf (d :: cs) = true := by
  simpa using h.symm

theorem byteIndex?_paren_of_not_mem {cs : List Char} (h : ')' ∉ cs) :
    byteIndex? [')'] cs = none := by
  induction cs with
  | nil => rfl
  | cons c cs ih =>
      rw [List.mem_cons, not_or] at h
      rw [byteIndex?, if_neg (not_isPrefixOf_of_ne (Ne.symm h.1) cs), ih h.2]
      rfl

theorem byteIndex?_paren {cs : List Char} (h : ')' ∉ cs) (rest : List Char) :
    byteIndex? [')'] (cs ++ ')' :: rest) = some (String.ofList cs).utf8ByteSize := by
  induction cs with
  | nil => rfl
  | cons c cs ih =>
      rw [List.mem_cons, not_or] at h
      rw [List.cons_append, byteIndex?, if_neg (not_isPrefixOf_of_ne (Ne.symm h.1) _), ih h.2,
        utf8ByteSize_ofList_cons]
      rfl

theorem cutAt?_ofList (cs ds : List Char) :
    cutAt? (String.ofList (cs ++ ds)) (String.ofList cs).utf8ByteSize =
      some (String.ofList cs, String.ofList ds) := by
  rw [String.ofList_append, cutAt?_append]

theorem cutAt?_ofList_append (cs ds es : List Char) :
    cutAt? (String.ofList (cs ++ (ds ++ es)))
      ((String.ofList cs).utf8ByteSize + (String.ofList ds).utf8ByteSize) =
      some (String.ofList (cs ++ ds), String.ofList es) := by
  rw [← List.append_assoc, ← String.utf8ByteSize_append, ← String.ofList_append, cutAt?_ofList]

/-- Taking the first clause off cuts no character, and it takes off what the grammar says. -/
theorem sliceClause?_eq (rule : String) : sliceClause? rule =
    some ((firstClause? rule.toList).map fun c => (c.hosts, String.ofList c.rest)) := by
  rcases byteIndex?_opening none rule.toList with
    ⟨hindex, hfind⟩ | ⟨text, after, hrule, hindex, hfind⟩
  · rw [sliceClause?, hindex, firstClause?, hfind]
    rfl
  · -- every offset is the byte size of a text that stands before it
    have hbefore := cutAt?_ofList text (opening ++ after)
    have hinside := cutAt?_ofList_append text opening after
    have hopening : (String.ofList opening).utf8ByteSize = opening.length := by decide
    rw [← hrule, String.ofList_toList] at hbefore hinside
    rw [hopening] at hinside
    rw [Option.or_none] at hfind
    by_cases hclosed : ')' ∈ after
    · obtain ⟨arguments, rest, rfl, hfirst⟩ := List.eq_append_cons_of_mem hclosed
      have harguments := cutAt?_ofList arguments (')' :: rest)
      have hrest : cutAt? (String.ofList (arguments ++ ')' :: rest))
          ((String.ofList arguments).utf8ByteSize + 1) =
            some (String.ofList (arguments ++ [')']), String.ofList rest) :=
        cutAt?_ofList_append arguments [')'] rest
      rw [firstClause?_of_findOpening hfind hfirst, sliceClause?, hindex]
      simp only [hbefore, hinside, Option.bind_eq_bind, Option.bind_some, String.toList_ofList,
        byteIndex?_paren hfirst, harguments, hrest]
      -- the arguments are only cut out if the clause begins outside a word
      split
      · next hword => simp [Clause.hosts, hword]
      · next hword => simp [Clause.hosts, hword]
    · rw [firstClause?_of_unclosed hfind hclosed, sliceClause?, hindex]
      simp only [hbefore, hinside, Option.bind_eq_bind, Option.bind_some, String.toList_ofList,
        byteIndex?_paren_of_not_mem hclosed]
      rfl

theorem length_of_sliceClause? {rule rest : String} {hosts : List String}
    (h : sliceClause? rule = some (some (hosts, rest))) : rest.length < rule.length := by
  rw [sliceClause?_eq] at h
  obtain ⟨c, hc, hrest⟩ := Option.map_eq_some_iff.1 (Option.some.inj h)
  cases hrest
  have hlength := firstClause?_length hc
  rw [String.length_toList] at hlength
  rw [String.length_ofList]
  exact hlength

/-- The hosts of a rule, read by slices. There is no result if a cut fails. -/
def slicedHosts (rule : String) : Option (List String) :=
  match h : sliceClause? rule with
  | none => none
  | some none => some []
  | some (some (hosts, rest)) =>
    have : rest.length < rule.length := length_of_sliceClause? h
    (slicedHosts rest).map (hosts ++ ·)
termination_by rule.length

theorem slicedHosts_of_last {rule : String} (h : sliceClause? rule = some none) :
    slicedHosts rule = some [] := by
  rw [slicedHosts]
  split
  · next hother => cases hother.symm.trans h
  · rfl
  · next hother => cases hother.symm.trans h

theorem slicedHosts_of_clause {rule rest : String} {hosts : List String}
    (h : sliceClause? rule = some (some (hosts, rest))) :
    slicedHosts rule = (slicedHosts rest).map (hosts ++ ·) := by
  rw [slicedHosts]
  split
  · next hother => cases hother.symm.trans h
  · next hother => cases hother.symm.trans h
  · next hother =>
      cases hother.symm.trans h
      rfl

/-- No cut fails, and the hosts are those of the rule. -/
theorem slicedHosts_eq (rule : String) : slicedHosts rule = some (parse rule) := by
  induction rule using slicedHosts.induct with
  | case1 rule hfails =>
      rw [sliceClause?_eq] at hfails
      cases hfails
  | case2 rule hlast =>
      have hnone : firstClause? rule.toList = none := by
        rw [sliceClause?_eq] at hlast
        exact Option.map_eq_none_iff.1 (Option.some.inj hlast)
      rw [slicedHosts_of_last hlast, parse, hostsOf_of_none hnone]
  | case3 rule hosts rest hclause _ ih =>
      obtain ⟨c, hfirst, hc⟩ : ∃ c, firstClause? rule.toList = some c ∧
          (c.hosts, String.ofList c.rest) = (hosts, rest) := by
        rw [sliceClause?_eq] at hclause
        exact Option.map_eq_some_iff.1 (Option.some.inj hclause)
      rw [slicedHosts_of_clause hclause, ih]
      cases hc
      rw [parse, parse, String.toList_ofList, hostsOf_of_some hfirst]
      rfl

/-! ## The grammar of rules -/

/-- How rules are read. The scan by slices cuts no character of any rule and reads its hosts. Every
host that is read is one between two equal quotes in a clause of the rule. A rule that is made of
clauses between other text is read as the hosts of its clauses in order; those with malformed
arguments contribute none. -/
theorem rule_grammar :
    (∀ rule, slicedHosts rule = some (parse rule)) ∧
    (∀ rule, ∀ host ∈ parse rule, host ≠ "" ∧ ',' ∉ host.toList ∧ ')' ∉ host.toList ∧
      Names rule.toList host) ∧
    ∀ (parts : List Part) (tail : List Char), ¬ opening <:+: tail →
      parse (String.ofList (parts.flatMap Part.text ++ tail)) = parts.flatMap Part.hosts := by
  refine ⟨slicedHosts_eq, fun rule host hhost => ?_, fun parts tail htail => ?_⟩
  · obtain ⟨before, after, as, hrule, hends, a, ha, rfl⟩ := names_of_mem_hostsOf hhost
    exact ⟨a.host_ne, a.comma_not_mem, a.paren_not_mem, before, after, as, hrule, hends, a, ha, rfl⟩
  · rw [parse, String.toList_ofList, hostsOf_parts parts htail]

/-- The argument of a host, between backticks and without white space. -/
def ticked (host : String) (hne : host ≠ "") (hquote : '\x60' ∉ host.toList)
    (hcomma : ',' ∉ host.toList) (hparen : ')' ∉ host.toList) : Argument :=
  ⟨[], '\x60', host, [], List.forall_mem_nil _, Or.inl rfl, hne, hquote, hcomma, hparen,
    List.forall_mem_nil _⟩

/-- A rule with two clauses and a malformed one between them. -/
def mixedRule : List Part :=
  [.named ⟨"!(".toList, by decide, by decide⟩
    [ticked "a.com" (by decide) (by decide) (by decide) (by decide),
      ⟨['\u3000'], '"', "b.com", [' '], List.forall_mem_singleton.2 (by decide), Or.inr rfl,
        by decide, by decide, by decide, by decide, List.forall_mem_singleton.2 (by decide)⟩]
    (List.cons_ne_nil _ _),
   .malformed ⟨") && ".toList, by decide, by decide⟩ "\x60c.com\"".toList (by decide)
    (unlisted_of_hosts?_eq_none (by decide) (by decide)),
   .named ⟨[], by decide, by decide⟩
    [ticked "d.com" (by decide) (by decide) (by decide) (by decide)] (List.cons_ne_nil _ _)]

/-- Its text. -/
def mixedText : String :=
  "!(Host(\x60a.com\x60,\u3000\"b.com\" )) && Host(\x60c.com\")Host(\x60d.com\x60)x"

/-- The malformed clause contributes nothing, and the last one follows it at once. -/
theorem rule_grammar_mixedText :
    parse mixedText = ["a.com", "b.com", "d.com"] ∧ slicedHosts mixedText = some (parse mixedText) ∧
      Names mixedText.toList "b.com" := by
  obtain ⟨hslices, hnames, hparts⟩ := rule_grammar
  have hmixed : parse mixedText = ["a.com", "b.com", "d.com"] := hparts mixedRule ['x'] (by decide)
  exact ⟨hmixed, hslices mixedText, (hnames mixedText "b.com" (by rw [hmixed]; decide)).2.2.2⟩

end IngressTls.HostRule
