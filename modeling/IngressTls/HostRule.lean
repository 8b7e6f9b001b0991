import IngressTls.Text.Alphanumeric
import IngressTls.Text.Blank
import IngressTls.Text.Split

set_option autoImplicit false

/-! # Hosts in match rules

A route's match rule names hosts in clauses ``Host(`a.example`, "b.example")``. The clauses
are found by their opening `Host(`; one that continues a longer word, as in `XHost(`, does
not count. The arguments reach to the next closing parenthesis and are separated by commas;
each is one host between two equal quotes, with no such quote inside. A clause with any
other argument names no host at all, and a rule ends at a clause that is not closed.
-/

namespace IngressTls.HostRule

open IngressTls.Text (isAlphanumeric trimChars splitAt)

/-- What opens a clause. -/
def opening : List Char := "Host(".toList

/-- A rule cut at its first clause: the last character before it, the arguments, and what
follows the closing parenthesis. -/
structure Clause where
  /-- The character just before the clause. -/
  before : Option Char
  /-- The characters between the parentheses. -/
  arguments : List Char
  /-- The characters after the closing parenthesis. -/
  rest : List Char

/-- The characters after the first `Host(`, with the character just before it. -/
def findOpening (before : Option Char) : List Char → Option (Option Char × List Char)
  | [] => none
  | c :: cs =>
    if opening.isPrefixOf (c :: cs) then some (before, (c :: cs).drop opening.length)
    else findOpening (some c) cs

/-- The first clause of a rule, if it has one that is closed. -/
def firstClause? (rule : List Char) : Option Clause :=
  match findOpening none rule with
  | none => none
  | some (before, after) =>
    match after.dropWhile (· ≠ ')') with
    | [] => none
    | _ :: rest => some ⟨before, after.takeWhile (· ≠ ')'), rest⟩

/-- Whether a character continues a word. -/
def continuesWord (c : Char) : Bool := isAlphanumeric c || c = '_'

/-- The host of one argument. -/
def host? (argument : List Char) : Option String :=
  match trimChars argument with
  | [] => none
  | quote :: quoted =>
    if quote = '\x60' || quote = '"' then
      match quoted.reverse with
      | [] => none
      | last :: reversed =>
        let inner := reversed.reverse
        if last = quote && !inner.isEmpty && !inner.contains quote then
          some (String.ofList inner)
        else none
    else none

/-- The hosts of a list of arguments, if every argument is one. -/
def hosts? (arguments : List Char) : Option (List String) :=
  (splitAt ',' arguments).mapM host?

/-- The hosts that a clause names. -/
def Clause.hosts (c : Clause) : List String :=
  if c.before.any continuesWord then [] else (hosts? c.arguments).getD []

theorem findOpening_length {before : Option Char} {cs after : List Char} {b : Option Char}
    (h : findOpening before cs = some (b, after)) : after.length < cs.length := by
  induction cs generalizing before with
  | nil => simp [findOpening] at h
  | cons c cs ih =>
    rw [findOpening] at h
    split at h
    · simp only [Option.some.injEq, Prod.mk.injEq] at h
      obtain ⟨-, rfl⟩ := h
      have hpos : 0 < opening.length := by decide
      rw [List.length_drop]
      exact Nat.sub_lt (Nat.succ_pos _) hpos
    · exact Nat.lt_trans (ih h) (by simp)

theorem firstClause?_length {rule : List Char} {c : Clause} (h : firstClause? rule = some c) :
    c.rest.length < rule.length := by
  rw [firstClause?] at h
  split at h
  · simp at h
  · next b after hf =>
    split at h
    · simp at h
    · next x rest hd =>
      simp only [Option.some.injEq] at h
      subst h
      have h1 := findOpening_length hf
      have h2 := (List.dropWhile_suffix (· ≠ ')') (l := after)).length_le
      rw [hd] at h2
      simp only [List.length_cons] at h2
      show rest.length < rule.length
      omega

/-- The hosts of a rule, clause by clause. -/
def hostsOf (rule : List Char) : List String :=
  match h : firstClause? rule with
  | none => []
  | some c =>
    have : c.rest.length < rule.length := firstClause?_length h
    c.hosts ++ hostsOf c.rest
termination_by rule.length

/-- The hosts that a match rule names, in the order of their clauses. -/
def parse (rule : String) : List String := hostsOf rule.toList

end IngressTls.HostRule
