import IngressTls.Platform
import IngressTls.Proofs.Bookkeeping.Faults
import Mathlib.Data.List.DropRight

set_option autoImplicit false

/-! # Checked settings

What can be wrong with the flags is a table of complaints, in the order in which the checks are
made. Flags are refused with the first complaint that applies to them, and accepted if none does.

The checks look at the trimmed texts, and the settings hold trimmed texts and positive periods. The
URL of the platform is the exception: its trailing slashes are removed after it has been trimmed and
its scheme has been checked. White space that stood before them becomes trailing white space, and if
nothing but slashes follows the scheme, the slashes of the scheme are removed as well.

Main statement: `Settings.ofFlags_accepts_exactly`.
-/

namespace IngressTls

open IngressTls.Text

namespace Settings

variable {f : Flags} {s : Settings}

/-! ## Complaints -/

/-- What can be wrong with the flags. -/
structure Complaint where
  /-- The flag that is wrong. -/
  flag : String
  /-- Whether it is wrong. -/
  Applies : Flags → Prop
  /-- What is said of it. -/
  text : Flags → String

namespace Complaint

/-- The text of a complaint names the flag. -/
def message (c : Complaint) (f : Flags) : String := "--" ++ c.flag ++ c.text f

/-- A text is not given, or it is blank. -/
def notGiven (flag : String) (value : Flags → Option String) : Complaint where
  flag := flag
  Applies f := ∀ raw, value f = some raw → IsTrimmed raw []
  text _ := " is required"

/-- A period is not positive. -/
def notPositive (flag : String) (seconds : Flags → Nat) : Complaint where
  flag := flag
  Applies f := seconds f = 0
  text _ := " must be greater than 0"

end Complaint

/-- The URL, when it is given and trimmed, begins with none of the two schemes. -/
def WrongScheme (f : Flags) : Prop :=
  ∃ raw url, f.platformUrl = some raw ∧ IsTrimmed raw url ∧
    ¬ "http://".toList <+: url ∧ ¬ "https://".toList <+: url

/-- Everything that can be wrong, in the order in which it is looked for. -/
def complaints : List Complaint :=
  [{ flag := "controller-name"
     Applies := fun f => IsTrimmed f.controllerName []
     text := fun _ => " must not be empty" },
    .notGiven "platform-url" Flags.platformUrl,
    { flag := "platform-url"
      Applies := WrongScheme
      text := fun f => " must be an http(s) URL, got " ++ trim (f.platformUrl.getD "") },
    .notGiven "platform-token" Flags.platformToken,
    { flag := "secured-routes-quota"
      Applies := fun f => f.quota < 0
      text := fun _ => " must not be negative" },
    { flag := "workers"
      Applies := fun f => f.workers = 0
      text := fun _ => " must be at least 1" },
    .notPositive "platform-timeout-secs" Flags.platformTimeout,
    .notPositive "renewal-interval-secs" Flags.renewalInterval,
    .notPositive "report-interval-secs" Flags.reportInterval,
    .notPositive "cache-sync-timeout-secs" Flags.cacheSyncTimeout]

/-- The first complaint of a list that applies. -/
inductive First (f : Flags) : List Complaint → Complaint → Prop where
  /-- It is the one at the head. -/
  | here {c : Complaint} {cs : List Complaint} (happlies : c.Applies f) : First f (c :: cs) c
  /-- The one at the head does not apply. -/
  | later {c c' : Complaint} {cs : List Complaint} (hnot : ¬ c.Applies f)
      (hfirst : First f cs c') : First f (c :: cs) c'

theorem First.mem {cs : List Complaint} {c : Complaint} (h : First f cs c) :
    c ∈ cs ∧ c.Applies f := by
  induction h with
  | here happlies => exact ⟨List.mem_cons_self, happlies⟩
  | later _ _ ih => exact ⟨List.mem_cons_of_mem _ ih.1, ih.2⟩

theorem First.unique {cs : List Complaint} {c c' : Complaint} (h : First f cs c)
    (h' : First f cs c') : c = c' := by
  induction h with
  | here happlies =>
      cases h' with
      | here => rfl
      | later hnot => exact absurd happlies hnot
  | later hnot _ ih =>
      cases h' with
      | here happlies => exact absurd happlies hnot
      | later _ hfirst => exact ih hfirst

/-- A check goes through a list of complaints: it ends with the first that applies, and with its
value if none does. -/
def Checks {α : Type} (f : Flags) (cs : List Complaint) (x : Except Error α) (a : α) : Prop :=
  (∃ c, First f cs c ∧ x = .error (.validation (c.message f))) ∨
    (∀ c ∈ cs, ¬ c.Applies f) ∧ x = .ok a

namespace Checks

variable {α : Type} {cs : List Complaint} {c : Complaint} {x : Except Error α} {a : α}

theorem pass (f : Flags) (a : α) : Checks f [] (.ok a) a :=
  Or.inr ⟨fun _ h => absurd h List.not_mem_nil, rfl⟩

theorem cons {p : Prop} [Decidable p] (hp : c.Applies f ↔ p) (h : ¬ p → Checks f cs x a) :
    Checks f (c :: cs) (if p then .error (.validation (c.message f)) else x) a := by
  by_cases happlies : p
  · rw [if_pos happlies]
    exact Or.inl ⟨c, .here (hp.2 happlies), rfl⟩
  · rw [if_neg happlies]
    have hnot : ¬ c.Applies f := mt hp.1 happlies
    rcases h happlies with ⟨c', hfirst, hx⟩ | ⟨hnone, hx⟩
    · exact Or.inl ⟨c', .later hnot hfirst, hx⟩
    · exact Or.inr ⟨List.forall_mem_cons.2 ⟨hnot, hnone⟩, hx⟩

end Checks

/-- The settings of flags with which nothing is wrong. -/
def unchecked (f : Flags) : Settings where
  controllerName := trim f.controllerName
  platformUrl := withoutSlash (trim (f.platformUrl.getD ""))
  platformToken := trim (f.platformToken.getD "")
  platformTimeout := f.platformTimeout
  quota := f.quota
  renewBefore := secondsOfDays f.renewBeforeDays
  renewalInterval := f.renewalInterval
  reportInterval := f.reportInterval
  workers := f.workers
  maxRetries := f.maxRetries
  cacheSyncTimeout := f.cacheSyncTimeout

theorem needed_bind {α : Type} (flag : String) (value : Option String)
    (next : String → Except Error α) :
    (needed flag value >>= next) = if (trim (value.getD "")).isEmpty then
      .error (.validation ("--" ++ flag ++ " is required")) else next (trim (value.getD "")) := by
  cases value with
  | none => rfl
  | some raw =>
      rw [needed, Option.map_some, Option.getD_some]
      dsimp only
      split <;> rfl

theorem positive_bind {α : Type} (flag : String) (seconds : Nat) (next : Nat → Except Error α) :
    (positive flag seconds >>= next) = if seconds = 0 then
      .error (.validation ("--" ++ flag ++ " must be greater than 0")) else next seconds := by
  rw [positive]
  split <;> rfl

theorem throw_bind {α β : Type} (e : Error) (next : α → Except Error β) :
    (throw e >>= next) = .error e := rfl

theorem toList_trim_eq_iff {raw : String} {mid : List Char} :
    (trim raw).toList = mid ↔ IsTrimmed raw mid := by
  rw [isTrimmed_iff, trim, String.toList_ofList]

theorem isTrimmed_nil_iff {raw : String} : IsTrimmed raw [] ↔ (trim raw).isEmpty = true := by
  rw [← toList_trim_eq_iff, String.isEmpty_iff, String.toList_eq_nil_iff]

theorem notGiven_iff {flag : String} {value : Flags → Option String} :
    (Complaint.notGiven flag value).Applies f ↔ (trim ((value f).getD "")).isEmpty = true := by
  show (∀ raw, value f = some raw → IsTrimmed raw []) ↔ _
  cases value f with
  | none => exact iff_of_true (fun _ h => nomatch h) rfl
  | some raw =>
      rw [Option.getD_some, ← isTrimmed_nil_iff]
      exact ⟨fun h => h raw rfl, fun h raw' hraw => Option.some.inj hraw ▸ h⟩

theorem isWebAddress_iff {url : String} : isWebAddress url = true ↔
    "http://".toList <+: url.toList ∨ "https://".toList <+: url.toList := by
  rw [isWebAddress, Bool.or_eq_true, List.isPrefixOf_iff_prefix, List.isPrefixOf_iff_prefix]

/-- A URL that is given has the wrong scheme if it is no web address after trimming. -/
theorem wrongScheme_iff (hgiven : ¬ (trim (f.platformUrl.getD "")).isEmpty = true) :
    WrongScheme f ↔ (!isWebAddress (trim (f.platformUrl.getD ""))) = true := by
  rw [WrongScheme]
  cases hraw : f.platformUrl with
  | none =>
      rw [hraw] at hgiven
      exact absurd rfl hgiven
  | some raw =>
      rw [Option.getD_some, Bool.not_eq_true', ← Bool.not_eq_true, isWebAddress_iff, not_or]
      constructor
      · rintro ⟨raw', url, hraw', hurl, hwrong⟩
        cases hraw'
        rwa [toList_trim_eq_iff.2 hurl]
      · intro hwrong
        exact ⟨raw, _, rfl, toList_trim_eq_iff.1 rfl, hwrong⟩

/-- The checks are made in the order of the table. -/
theorem checks_ofFlags (f : Flags) : Checks f complaints (ofFlags f) (unchecked f) := by
  unfold ofFlags
  simp only [needed_bind, positive_bind, throw_bind]
  refine .cons isTrimmed_nil_iff fun _ => ?_
  refine .cons notGiven_iff fun hgiven => ?_
  refine .cons (wrongScheme_iff hgiven) fun _ => ?_
  refine .cons notGiven_iff fun _ => ?_
  refine .cons Iff.rfl fun _ => ?_
  refine .cons Iff.rfl fun _ => ?_
  refine .cons Iff.rfl fun _ => ?_
  refine .cons Iff.rfl fun _ => ?_
  refine .cons Iff.rfl fun _ => ?_
  refine .cons Iff.rfl fun _ => ?_
  exact .pass f (unchecked f)

/-! ## The URL of the platform -/

/-- Between white space, a URL is a scheme, a rest that does not end in a slash, and slashes. -/
structure IsAddress (raw : String) (scheme rest : List Char) (slashes : Nat) : Prop where
  /-- There are two schemes. -/
  scheme_eq : scheme = "http:".toList ∨ scheme = "https:".toList
  /-- The slashes at the end are none of the rest. -/
  getLast?_ne : rest.getLast? ≠ some '/'
  /-- Together they are what trimming leaves. -/
  trimmed : IsTrimmed raw (scheme ++ "//".toList ++ rest ++ List.replicate slashes '/')

theorem toList_withoutSlash (url : String) :
    (withoutSlash url).toList = url.toList.rdropWhile (· = '/') :=
  String.toList_ofList

theorem rdropWhile_slash_eq_self {url : List Char} (h : url.getLast? ≠ some '/') :
    url.rdropWhile (· = '/') = url := by
  refine List.rdropWhile_eq_self_iff.2 fun hne hlast => h ?_
  rw [List.getLast?_eq_some_getLast hne, of_decide_eq_true hlast]

theorem rdropWhile_append_slashes {url : List Char} (h : url.getLast? ≠ some '/') (n : Nat) :
    (url ++ List.replicate n '/').rdropWhile (· = '/') = url := by
  induction n with
  | zero => rw [List.replicate_zero, List.append_nil, rdropWhile_slash_eq_self h]
  | succ n ih =>
      rw [List.replicate_succ', ← List.append_assoc]
      exact (List.rdropWhile_concat_pos _ _ _ rfl).trans ih

theorem getLast?_withoutSlash (url : String) :
    (withoutSlash url).toList.getLast? ≠ some '/' := by
  intro h
  have hnot := List.head?_dropWhile_not (· = '/') url.toList.reverse
  rw [toList_withoutSlash, List.rdropWhile, List.getLast?_reverse] at h
  rw [h] at hnot
  exact Bool.false_ne_true hnot.symm

/-- Nothing is left to remove for a client. -/
theorem withoutSlash_withoutSlash (url : String) :
    withoutSlash (withoutSlash url) = withoutSlash url := by
  rw [← String.toList_inj, toList_withoutSlash]
  exact rdropWhile_slash_eq_self (getLast?_withoutSlash _)

/-- With a transport there is a client of accepted settings, and it holds the URL, the token and the
time limit as they are set. -/
theorem ofSettings_unchecked_of_ok {build : Nat → Except String Unit}
    (h : build (unchecked f).platformTimeout = .ok ()) :
    PlatformClient.ofSettings build (unchecked f) =
      .ok ⟨(unchecked f).platformUrl, (unchecked f).platformToken, (unchecked f).platformTimeout⟩ := by
  have hbase : withoutSlash (unchecked f).platformUrl = (unchecked f).platformUrl :=
    withoutSlash_withoutSlash _
  rw [PlatformClient.ofSettings, PlatformClient.connect, h, PlatformClient.new, hbase]

/-- Without a transport there is none. -/
theorem ofSettings_of_error {build : Nat → Except String Unit} {why : String}
    (h : build s.platformTimeout = .error why) :
    PlatformClient.ofSettings build s = .error (.internal "platform_client" why) := by
  rw [PlatformClient.ofSettings, PlatformClient.connect, h]

theorem base_of_ofSettings {build : Nat → Except String Unit} {client : PlatformClient}
    (h : PlatformClient.ofSettings build (unchecked f) = .ok client) :
    client.base = (unchecked f).platformUrl := by
  cases hbuild : build (unchecked f).platformTimeout with
  | error why => exact absurd ((ofSettings_of_error hbuild).symm.trans h) (error_ne_ok _ _)
  | ok =>
      rw [← Except.ok.inj ((ofSettings_unchecked_of_ok hbuild).symm.trans h)]

theorem exists_isAddress {raw : String} (h : isWebAddress (trim raw) = true) :
    ∃ scheme rest slashes, IsAddress raw scheme rest slashes := by
  obtain ⟨scheme, hscheme, tail, htail⟩ : ∃ scheme : List Char,
      (scheme = "http:".toList ∨ scheme = "https:".toList) ∧
        scheme ++ "//".toList <+: (trim raw).toList := by
    rcases isWebAddress_iff.1 h with h | h
    · exact ⟨_, Or.inl rfl, h⟩
    · exact ⟨_, Or.inr rfl, h⟩
  have hslashes : tail.rtakeWhile (· = '/') =
      List.replicate (tail.rtakeWhile (· = '/')).length '/' :=
    List.eq_replicate_iff.2 ⟨rfl, fun c hc => by simpa using List.mem_rtakeWhile_imp hc⟩
  refine ⟨scheme, tail.rdropWhile (· = '/'), (tail.rtakeWhile (· = '/')).length, hscheme, ?_,
    toList_trim_eq_iff.1 ?_⟩
  · have hlast := getLast?_withoutSlash (String.ofList tail)
    rwa [toList_withoutSlash, String.toList_ofList] at hlast
  · rw [← hslashes, List.append_assoc, List.rdropWhile_append_rtakeWhile, htail]

namespace IsAddress

variable {raw : String} {scheme rest : List Char} {slashes : Nat}

/-- The slashes at the end go, and those of the scheme go with them if there is nothing between. -/
theorem withoutSlash_eq (h : IsAddress raw scheme rest slashes) :
    (withoutSlash (trim raw)).toList =
      if rest = [] then scheme else scheme ++ "//".toList ++ rest := by
  rw [toList_withoutSlash, toList_trim_eq_iff.2 h.trimmed]
  split
  · next hrest =>
      have hscheme : scheme.getLast? ≠ some '/' := by
        rcases h.scheme_eq with rfl | rfl <;> decide
      have hall : scheme ++ "//".toList ++ rest ++ List.replicate slashes '/' =
          scheme ++ List.replicate (2 + slashes) '/' := by
        rw [hrest, List.append_nil, List.append_assoc, List.replicate_add]
        rfl
      rw [hall, rdropWhile_append_slashes hscheme]
  · next hrest =>
      refine rdropWhile_append_slashes ?_ slashes
      rw [List.getLast?_append_of_ne_nil _ hrest]
      exact h.getLast?_ne

/-- The scheme is still there if and only if something stands between the slashes. -/
theorem isWebAddress_iff_ne_nil (h : IsAddress raw scheme rest slashes) :
    isWebAddress (withoutSlash (trim raw)) = true ↔ rest ≠ [] := by
  rw [isWebAddress_iff, h.withoutSlash_eq]
  split
  · next hrest =>
      refine iff_of_false ?_ (fun hne => hne hrest)
      rcases h.scheme_eq with rfl | rfl <;> decide
  · next hrest =>
      refine iff_of_true ?_ hrest
      rcases h.scheme_eq with rfl | rfl
      · exact Or.inl (List.prefix_append _ _)
      · exact Or.inr (List.prefix_append _ _)

theorem isBare_scheme (h : IsAddress raw scheme rest slashes) : IsBare scheme := by
  have hends : scheme.head? = some 'h' ∧ scheme.getLast? = some ':' := by
    rcases h.scheme_eq with rfl | rfl <;> exact ⟨rfl, rfl⟩
  rw [IsBare, hends.1, hends.2]
  constructor
  · intro c hc
    cases hc
    rfl
  · intro c hc
    cases hc
    rfl

/-- White space is left at the end if it stood before the slashes. -/
theorem isBare_iff_getLast? (h : IsAddress raw scheme rest slashes) :
    IsBare (withoutSlash (trim raw)).toList ↔ ∀ c ∈ rest.getLast?, isBlank c = false := by
  rw [h.withoutSlash_eq]
  split
  · next hrest =>
      rw [hrest]
      exact iff_of_true h.isBare_scheme fun _ hc => nomatch hc
  · next hrest =>
      have hhead : (scheme ++ "//".toList ++ rest).head? = scheme.head? := by
        rcases h.scheme_eq with rfl | rfl <;> rfl
      rw [IsBare, List.getLast?_append_of_ne_nil _ hrest, hhead]
      exact and_iff_right h.isBare_scheme.1

end IsAddress

/-! ## What is accepted -/

/-- What settings hold that were accepted. -/
structure Accepted (f : Flags) (s : Settings) : Prop where
  /-- The name is the trimmed one. -/
  controllerName : IsTrimmed f.controllerName s.controllerName.toList ∧ s.controllerName ≠ ""
  /-- The token is the trimmed one. -/
  platformToken : ∃ raw, f.platformToken = some raw ∧
    IsTrimmed raw s.platformToken.toList ∧ s.platformToken ≠ ""
  /-- The URL is that of a web address. -/
  platformUrl : ∃ raw scheme rest slashes,
    f.platformUrl = some raw ∧ IsAddress raw scheme rest slashes
  /-- It does not end in a slash. -/
  noSlash : s.platformUrl.toList.getLast? ≠ some '/'
  /-- It is the URL that a client uses, whatever transport the client is made with. -/
  base : ∀ build client, PlatformClient.ofSettings build s = .ok client →
    client.base = s.platformUrl
  /-- With a transport there is a client, and it has the token and the time limit as well. -/
  client : ∀ build, build s.platformTimeout = .ok () →
    PlatformClient.ofSettings build s = .ok ⟨s.platformUrl, s.platformToken, s.platformTimeout⟩
  /-- Without a transport there is an error that tells why. -/
  noClient : ∀ build why, build s.platformTimeout = .error why →
    PlatformClient.ofSettings build s = .error (.internal "platform_client" why)
  /-- The quota is not negative. -/
  quota : s.quota = f.quota ∧ 0 ≤ s.quota
  /-- There is a worker. -/
  workers : s.workers = f.workers ∧ 1 ≤ s.workers
  /-- The time limit of a call is positive. -/
  platformTimeout : s.platformTimeout = f.platformTimeout ∧ 0 < s.platformTimeout
  /-- The period of the renewal scan is positive. -/
  renewalInterval : s.renewalInterval = f.renewalInterval ∧ 0 < s.renewalInterval
  /-- The period of the usage report is positive. -/
  reportInterval : s.reportInterval = f.reportInterval ∧ 0 < s.reportInterval
  /-- The time limit of the first listings is positive. -/
  cacheSyncTimeout : s.cacheSyncTimeout = f.cacheSyncTimeout ∧ 0 < s.cacheSyncTimeout

theorem ofFlags_eq_ok_iff :
    ofFlags f = .ok s ↔ (∀ c ∈ complaints, ¬ c.Applies f) ∧ s = unchecked f := by
  rcases checks_ofFlags f with ⟨c, hfirst, herr⟩ | ⟨hnone, hok⟩
  · obtain ⟨hmem, happlies⟩ := hfirst.mem
    rw [herr]
    exact iff_of_false (error_ne_ok _ _) fun h => h.1 c hmem happlies
  · rw [hok, Except.ok.injEq, eq_comm (a := unchecked f), and_iff_right hnone]

theorem ofFlags_eq_error_iff {e : Error} : ofFlags f = .error e ↔
    ∃ c, First f complaints c ∧ e = .validation (c.message f) := by
  constructor
  · intro h
    rcases checks_ofFlags f with ⟨c, hfirst, herr⟩ | ⟨-, hok⟩
    · exact ⟨c, hfirst, Except.error.inj (h.symm.trans herr)⟩
    · exact absurd (h.symm.trans hok) (error_ne_ok _ _)
  · rintro ⟨c, hfirst, rfl⟩
    rcases checks_ofFlags f with ⟨c', hfirst', herr⟩ | ⟨hnone, -⟩
    · rw [herr, hfirst.unique hfirst']
    · exact absurd hfirst.mem.2 (hnone c hfirst.mem.1)

/-- A text that is not blank is trimmed to one that is not empty. -/
theorem trim_of_not_blank {raw : String} (h : ¬ IsTrimmed raw []) :
    IsTrimmed raw (trim raw).toList ∧ trim raw ≠ "" := by
  refine ⟨toList_trim_eq_iff.1 rfl, fun hempty => h ?_⟩
  rw [isTrimmed_nil_iff, hempty]
  rfl

/-- A text that is given is trimmed to one that is not empty. -/
theorem trim_of_given {flag : String} {value : Flags → Option String}
    (h : ¬ (Complaint.notGiven flag value).Applies f) :
    ∃ raw, value f = some raw ∧ IsTrimmed raw (trim ((value f).getD "")).toList ∧
      trim ((value f).getD "") ≠ "" := by
  obtain ⟨raw, hraw, hnot⟩ : ∃ raw, value f = some raw ∧ ¬ IsTrimmed raw [] := by
    by_contra hall
    exact h fun raw hraw => by_contra fun hnot => hall ⟨raw, hraw, hnot⟩
  rw [hraw]
  exact ⟨raw, rfl, trim_of_not_blank hnot⟩

/-- A URL that passes the checks is that of a web address. -/
theorem exists_isAddress_of_not (hurl : ¬ (trim (f.platformUrl.getD "")).isEmpty = true)
    (hscheme : ¬ WrongScheme f) :
    ∃ raw scheme rest slashes, f.platformUrl = some raw ∧ IsAddress raw scheme rest slashes := by
  rw [wrongScheme_iff hurl, Bool.not_eq_true', Bool.not_eq_false] at hscheme
  cases hraw : f.platformUrl with
  | none =>
      rw [hraw] at hurl
      exact absurd rfl hurl
  | some raw =>
      rw [hraw] at hscheme
      obtain ⟨scheme, rest, slashes, haddress⟩ := exists_isAddress hscheme
      exact ⟨raw, scheme, rest, slashes, rfl, haddress⟩

theorem accepted_unchecked (h : ∀ c ∈ complaints, ¬ c.Applies f) : Accepted f (unchecked f) := by
  simp only [complaints, List.forall_mem_cons] at h
  obtain ⟨hname, hurl, hscheme, htoken, hquota, hworkers, htimeout, hrenewal, hreport, hsync, -⟩ :=
    h
  exact {
    controllerName := trim_of_not_blank hname
    platformToken := trim_of_given htoken
    platformUrl := exists_isAddress_of_not (mt notGiven_iff.2 hurl) hscheme
    noSlash := getLast?_withoutSlash _
    base := fun _ _ => base_of_ofSettings
    client := fun _ => ofSettings_unchecked_of_ok
    noClient := fun _ _ => ofSettings_of_error
    quota := ⟨rfl, Int.not_lt.1 hquota⟩
    workers := ⟨rfl, Nat.pos_of_ne_zero hworkers⟩
    platformTimeout := ⟨rfl, Nat.pos_of_ne_zero htimeout⟩
    renewalInterval := ⟨rfl, Nat.pos_of_ne_zero hrenewal⟩
    reportInterval := ⟨rfl, Nat.pos_of_ne_zero hreport⟩
    cacheSyncTimeout := ⟨rfl, Nat.pos_of_ne_zero hsync⟩ }

/-- Flags are refused exactly with the first complaint of the table that applies to them, and
accepted exactly if none does. Accepted settings hold trimmed texts that are not empty, a quota that
is not negative, a worker at least, positive periods and a URL that does not end in a slash, which
is the one that every client of the settings uses. The URL is still one of a web address if and only if something
other than slashes followed its scheme, and it has white space at its end if and only if there was
some in front of its trailing slashes. -/
theorem ofFlags_accepts_exactly (f : Flags) :
    (∀ e, ofFlags f = .error e ↔ ∃ c, First f complaints c ∧ e = .validation (c.message f)) ∧
    ((∃ s, ofFlags f = .ok s) ↔ ∀ c ∈ complaints, ¬ c.Applies f) ∧
    ∀ s, ofFlags f = .ok s → Accepted f s ∧
      ∀ raw scheme rest slashes, f.platformUrl = some raw → IsAddress raw scheme rest slashes →
        (s.platformUrl.toList = if rest = [] then scheme else scheme ++ "//".toList ++ rest) ∧
        (isWebAddress s.platformUrl = true ↔ rest ≠ []) ∧
        (IsBare s.platformUrl.toList ↔ ∀ c ∈ rest.getLast?, isBlank c = false) := by
  refine ⟨fun e => ofFlags_eq_error_iff, ?_, fun s hs => ?_⟩
  · constructor
    · rintro ⟨s, hs⟩
      exact (ofFlags_eq_ok_iff.1 hs).1
    · intro h
      exact ⟨unchecked f, ofFlags_eq_ok_iff.2 ⟨h, rfl⟩⟩
  · obtain ⟨hnone, rfl⟩ := ofFlags_eq_ok_iff.1 hs
    refine ⟨accepted_unchecked hnone, fun raw scheme rest slashes hraw haddress => ?_⟩
    have hurl : (unchecked f).platformUrl = withoutSlash (trim raw) := by
      rw [unchecked, hraw, Option.getD_some]
    rw [hurl]
    exact ⟨haddress.withoutSlash_eq, haddress.isWebAddress_iff_ne_nil, haddress.isBare_iff_getLast?⟩

/-- Flags with a token and some URL. -/
def flagsFor (url : String) : Flags := { platformUrl := some url, platformToken := some " token\n" }

/-- White space and slashes around a URL are harmless. -/
theorem ofFlags_accepts_exactly_surrounded :
    ∃ s, ofFlags (flagsFor " https://example.com// ") = .ok s ∧
      s.platformUrl = "https://example.com" ∧ s.platformToken = "token" ∧
      isWebAddress s.platformUrl = true ∧ IsBare s.platformUrl.toList ∧
      ∃ client, PlatformClient.ofSettings (fun _ => .ok ()) s = .ok client ∧
        client.base = s.platformUrl := by
  have haddress : IsAddress " https://example.com// " "https:".toList "example.com".toList 2 :=
    ⟨Or.inr rfl, by decide, isTrimmed_iff.2 (by decide)⟩
  obtain ⟨s, hs, htoken⟩ : ∃ s, ofFlags (flagsFor " https://example.com// ") = .ok s ∧
      s.platformToken = "token" := ⟨_, rfl, by decide⟩
  obtain ⟨-, -, haccepted⟩ := ofFlags_accepts_exactly (flagsFor " https://example.com// ")
  obtain ⟨hfields, hparts⟩ := haccepted s hs
  obtain ⟨hurl, hweb, hbare⟩ := hparts _ _ _ _ rfl haddress
  have hlast : ∀ c ∈ "example.com".toList.getLast?, isBlank c = false := by
    intro c hc
    cases hc
    rfl
  have hclient := hfields.client (fun _ => .ok ()) rfl
  exact ⟨s, hs, String.toList_inj.1 hurl, htoken, hweb.2 (by decide), hbare.2 hlast, _, hclient,
    hfields.base _ _ hclient⟩

/-- A URL of a scheme alone loses its scheme, after which no request can be sent, and white space
in front of a trailing slash stays. -/
theorem accepted_urls_can_be_spoiled :
    (∃ s, ofFlags (flagsFor "http://") = .ok s ∧ s.platformUrl = "http:" ∧
      isWebAddress s.platformUrl = false ∧
      ∃ client, PlatformClient.ofSettings (fun _ => .ok ()) s = .ok client ∧
        client.isUsable = false) ∧
    ∃ s, ofFlags (flagsFor "http://x /") = .ok s ∧ s.platformUrl = "http://x " ∧
      ¬ IsBare s.platformUrl.toList := by
  refine ⟨⟨_, rfl, by decide, by decide, _, rfl, by decide⟩, _, rfl, by decide, fun hbare => ?_⟩
  exact absurd (hbare.2 ' ' (by decide)) (by decide)

end Settings

end IngressTls
