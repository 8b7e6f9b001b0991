import IngressTls.HostRule
import IngressTls.Proofs.Joined
import IngressTls.Proofs.Trimming

set_option autoImplicit false

/-! # The arguments of a clause

An argument is a host between two equal quotes, with any white space around it. The host is not
empty and holds neither the quote nor a comma nor a closing parenthesis. The arguments of a clause
are read exactly if they are a list of such arguments, and what is read are their hosts.

Main statement: `hosts?_eq_some_iff`.
-/

namespace IngressTls.HostRule

open IngressTls.Text (isBlank trimChars trimChars_append exists_blank_ends splitAt
  splitAt_intercalate intercalate_splitAt splitAt_ne_nil not_mem_of_mem_splitAt mem_of_mem_splitAt)

/-- An argument of a clause. -/
structure Argument where
  /-- The white space before it. -/
  lead : List Char
  /-- The quote on both sides of the host. -/
  quote : Char
  /-- The host. -/
  host : String
  /-- The white space after it. -/
  trail : List Char
  /-- There is nothing but white space before it. -/
  lead_blank : ∀ c ∈ lead, isBlank c = true
  /-- The quote is a backtick or a double quote. -/
  quote_eq : quote = '\x60' ∨ quote = '"'
  /-- There is a host. -/
  host_ne : host ≠ ""
  /-- The host does not hold its quote. -/
  quote_not_mem : quote ∉ host.toList
  /-- The host does not hold what ends an argument. -/
  comma_not_mem : ',' ∉ host.toList
  /-- The host does not hold what ends a clause. -/
  paren_not_mem : ')' ∉ host.toList
  /-- There is nothing but white space after it. -/
  trail_blank : ∀ c ∈ trail, isBlank c = true

/-- The text of an argument. -/
def Argument.text (a : Argument) : List Char :=
  a.lead ++ a.quote :: (a.host.toList ++ a.quote :: a.trail)

/-- The text of a list of arguments. -/
def listed (as : List Argument) : List Char := [','].intercalate (as.map Argument.text)

/-! ## One argument -/

theorem Argument.isBlank_quote (a : Argument) : isBlank a.quote = false := by
  rcases a.quote_eq with h | h
  · rw [h]
    decide
  · rw [h]
    decide

theorem Argument.trimChars_text (a : Argument) :
    trimChars a.text = a.quote :: (a.host.toList ++ [a.quote]) := by
  have hbare : Text.IsBare (a.quote :: (a.host.toList ++ [a.quote])) := by
    constructor
    · intro c hc
      cases hc
      exact a.isBlank_quote
    · intro c hc
      rw [← List.cons_append, List.getLast?_concat] at hc
      cases hc
      exact a.isBlank_quote
  have htext : a.text = a.lead ++ ((a.quote :: (a.host.toList ++ [a.quote])) ++ a.trail) := by
    simp [text]
  rw [htext]
  exact trimChars_append hbare a.lead_blank a.trail_blank

/-- The host of an argument is read. -/
theorem Argument.host?_text (a : Argument) : host? a.text = some a.host := by
  have hne : a.host.toList ≠ [] := by
    rw [Ne, String.toList_eq_nil_iff]
    exact a.host_ne
  rw [host?, a.trimChars_text]
  simp [a.quote_eq, hne, a.quote_not_mem]

/-- What is read stands between two equal quotes. -/
theorem quoted_of_host? {cs : List Char} {host : String} (h : host? cs = some host) :
    ∃ quote, (quote = '\x60' ∨ quote = '"') ∧ trimChars cs = quote :: (host.toList ++ [quote]) ∧
      host ≠ "" ∧ quote ∉ host.toList := by
  rw [host?] at h
  split at h
  · cases h
  · next quote quoted htrim =>
      split at h
      · next hquote =>
          split at h
          · cases h
          · next last reversed hreversed =>
              have hquoted : quoted = reversed.reverse ++ [last] := by
                rw [← List.reverse_reverse quoted, hreversed, List.reverse_cons]
              obtain ⟨hinner, hhost⟩ := Option.ite_none_right_eq_some.1 h
              simp only [Bool.and_eq_true, Bool.not_eq_true', decide_eq_true_iff] at hinner
              obtain ⟨⟨rfl, hne⟩, hplain⟩ := hinner
              cases hhost
              rw [String.toList_ofList]
              refine ⟨last, by simpa using hquote, by rw [htrim, hquoted], ?_, ?_⟩
              · rw [Ne, String.ofList_eq_empty_iff]
                exact List.isEmpty_eq_false_iff.1 hne
              · rw [← List.contains_iff_mem, hplain]
                exact Bool.false_ne_true
      · cases h

/-- What is read is the host of an argument. -/
theorem exists_argument {cs : List Char} {host : String} (h : host? cs = some host)
    (hcomma : ',' ∉ cs) (hparen : ')' ∉ cs) : ∃ a : Argument, a.text = cs ∧ a.host = host := by
  obtain ⟨lead, trail, hcs, hlead, htrail⟩ := exists_blank_ends cs
  obtain ⟨quote, hquote, htrim, hne, hplain⟩ := quoted_of_host? h
  have htext : cs = lead ++ quote :: (host.toList ++ quote :: trail) := by
    rw [hcs, htrim]
    simp
  have hsub {c : Char} (hc : c ∈ host.toList) : c ∈ cs := by
    rw [htext]
    simp [hc]
  exact ⟨⟨lead, quote, host, trail, hlead, hquote, hne, hplain, fun hc => hcomma (hsub hc),
    fun hc => hparen (hsub hc), htrail⟩, htext.symm, rfl⟩

/-! ## All arguments -/

/-- Around its host an argument holds nothing but white space and quotes. -/
theorem Argument.not_mem_text {a : Argument} {c : Char} (hhost : c ∉ a.host.toList)
    (hblank : isBlank c = false) (hquote : c ≠ '\x60' ∧ c ≠ '"') : c ∉ a.text := by
  have hplain {cs : List Char} (h : ∀ d ∈ cs, isBlank d = true) : c ∉ cs :=
    fun hc => Bool.false_ne_true (hblank.symm.trans (h c hc))
  have hne : c ≠ a.quote := by
    rcases a.quote_eq with h | h
    · rw [h]
      exact hquote.1
    · rw [h]
      exact hquote.2
  simp [text, hplain a.lead_blank, hplain a.trail_blank, hne, hhost]

theorem Argument.comma_not_mem_text (a : Argument) : ',' ∉ a.text :=
  not_mem_text a.comma_not_mem (by decide) (by decide)

theorem Argument.paren_not_mem_text (a : Argument) : ')' ∉ a.text :=
  not_mem_text a.paren_not_mem (by decide) (by decide)

theorem paren_not_mem_listed (as : List Argument) : ')' ∉ listed as := by
  induction as with
  | nil => exact List.not_mem_nil
  | cons a as ih =>
      cases as with
      | nil => simpa [listed] using a.paren_not_mem_text
      | cons b bs =>
          rw [listed] at ih ⊢
          rw [List.map_cons, List.map_cons, List.intercalate_cons_cons]
          rw [List.map_cons] at ih
          simpa [a.paren_not_mem_text] using ih

theorem mapM_host?_text (as : List Argument) :
    (as.map Argument.text).mapM host? = some (as.map Argument.host) := by
  induction as with
  | nil => rfl
  | cons a as ih =>
      rw [List.map_cons, List.mapM_cons, a.host?_text, ih]
      rfl

theorem exists_arguments {pieces : List (List Char)} {hosts : List String}
    (h : pieces.mapM host? = some hosts) (hplain : ∀ p ∈ pieces, ',' ∉ p ∧ ')' ∉ p) :
    ∃ as : List Argument, as.map Argument.text = pieces ∧ as.map Argument.host = hosts := by
  induction pieces generalizing hosts with
  | nil =>
      cases h
      exact ⟨[], rfl, rfl⟩
  | cons p ps ih =>
      rw [List.mapM_cons] at h
      obtain ⟨host, hhost, h⟩ := Option.bind_eq_some_iff.1 h
      obtain ⟨rest, hrest, h⟩ := Option.bind_eq_some_iff.1 h
      cases h
      obtain ⟨hcomma, hparen⟩ := hplain p List.mem_cons_self
      obtain ⟨a, rfl, rfl⟩ := exists_argument hhost hcomma hparen
      obtain ⟨as, rfl, rfl⟩ := ih hrest fun q hq => hplain q (List.mem_cons_of_mem _ hq)
      exact ⟨a :: as, rfl, rfl⟩

/-- The arguments of a clause are read exactly if they are a list of arguments, and what is read
are their hosts. -/
theorem hosts?_eq_some_iff {arguments : List Char} (hparen : ')' ∉ arguments)
    {hosts : List String} : hosts? arguments = some hosts ↔
      ∃ as : List Argument, as ≠ [] ∧ listed as = arguments ∧ as.map Argument.host = hosts := by
  constructor
  · intro h
    have hplain : ∀ p ∈ splitAt ',' arguments, ',' ∉ p ∧ ')' ∉ p :=
      fun p hp => ⟨not_mem_of_mem_splitAt hp, fun h => hparen (mem_of_mem_splitAt hp h)⟩
    obtain ⟨as, htexts, hhosts⟩ := exists_arguments h hplain
    -- even an empty text is one piece, so that there is an argument
    refine ⟨as, ?_, by rw [listed, htexts, intercalate_splitAt], hhosts⟩
    rintro rfl
    exact splitAt_ne_nil ',' arguments htexts.symm
  · rintro ⟨as, hne, rfl, rfl⟩
    rw [hosts?, listed, splitAt_intercalate, mapM_host?_text]
    · exact fun h => hne (List.map_eq_nil_iff.1 h)
    · intro p hp
      obtain ⟨a, -, rfl⟩ := List.mem_map.1 hp
      exact a.comma_not_mem_text

/-- Arguments that are not read are no list of arguments. -/
theorem unlisted_of_hosts?_eq_none {arguments : List Char} (hparen : ')' ∉ arguments)
    (h : hosts? arguments = none) (as : List Argument) (hne : as ≠ []) : listed as ≠ arguments := by
  intro htext
  have hread := (hosts?_eq_some_iff hparen).2 ⟨as, hne, htext, rfl⟩
  cases hread.symm.trans h

end IngressTls.HostRule
