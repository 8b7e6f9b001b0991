import IngressTls.Proofs.Manager.Outstanding
import IngressTls.Proofs.Manager.Share

set_option autoImplicit false

/-! # Keys do not interfere

Take a run of the manager and a key, and delete everything that belongs to other keys: what is asked
for, released and stored for them, their delayed additions, and what workers do for them, with the
answers that they get. A worker that looks for a key and finds none, or another one, does not look:
without the other keys nobody would wake it. What is left is a run of the manager in which only the
key has a secret, and at every point of it the key's *share* of the whole is all that there is. So
workers issue for the same requests of the key, call and are answered alike, and the key has the
same request stored, the same flag, the same place in the queue, the same count of failures and the
same amounts.

What happens to one key depends on others only through the workers, which have to be free, and
through the quota, where its reservations have to find room.

Main statements: `Share.step_self`, `Share.step_other`, `Share.run?` and `keys_apart`.
-/

namespace IngressTls

/-- The key of the secret at a place of a store. -/
def ObjectKey.secretKey (p : ObjectKey) : String := (SecretRef.mk (p.ns.getD "") p.name).key

/-- The secrets of a key in a store. -/
def Snapshot.share (k : String) (s : Snapshot Secret) : Snapshot Secret :=
  ⟨s.entries.filter fun e => e.1.secretKey = k,
    s.keys_nodup.sublist (List.filter_sublist.map _)⟩

/-- The secret that a deed is about. -/
def Deed.secret : Deed → SecretRef
  | asked r | renewed r => r.target
  | released s | looked s | wrote s | withdrew s | removed s | placed s | failed s => s

/-- Where a worker stands if only one key counts. -/
def Post.share (k : String) (p : Post) : Post :=
  if p.request?.map Request.key = some k then p else .idle

/-- The event when there are no other keys: any delayed addition is then for the key. -/
def FloorEvent.alone : FloorEvent → FloorEvent
  | .ring _ => .ring 0
  | e => e

namespace Floor

/-! ## Deleting the other keys from a run -/

/-- Whether an event belongs to a key, or to all. -/
def concerns (f : Floor) (k : String) : FloorEvent → Bool
  | .take i => (f.manager.take i).2 = .key k
  | .serve i _ | .resume i | .order i _ => f.keyAt i = some k
  | .ring place => f.timers[place]? = some k
  | .list | .renew _ | .stop => true
  | .obtain r => r.key = k
  | .release s | .look s | .remove s => s.key = k
  | .put s => s.ref.key = k

/-- What is left of a run for a key. -/
def only (f : Floor) (k : String) : List FloorEvent → List FloorEvent
  | [] => []
  | e :: es =>
    let rest := match f.step? e with
      | none => []
      | some g => g.only k es
    if f.concerns k e then e.alone :: rest else rest

/-- Whether an event makes no reservation for a key that is refused because of the ceiling. -/
def hasRoom (f : Floor) (k : String) : FloorEvent → Bool
  | .resume i =>
    match f.post i with
    | .reading r (some a) => r.key ≠ k || f.manager.readHasRoom r a
    | _ => true
  | _ => true

/-- Whether a run makes no reservation for a key that is refused because of the ceiling. -/
def runHasRoom (f : Floor) (k : String) : List FloorEvent → Bool
  | [] => true
  | e :: es => f.hasRoom k e &&
    match f.step? e with
    | none => true
    | some g => g.runHasRoom k es

/-- Whether the restore makes no reservation for a key that is refused because of the ceiling. -/
def startHasRoom (k : String) (max : Int) (listing : Except Error (List Secret)) : Bool :=
  match listing with
  | .error _ => true
  | .ok secrets => Manager.restoreHasRoom k (.new max) secrets

/-- The manager starts, and there are no secrets but those of a key. -/
def startAlone (k : String) (settings : ManagerSettings) (max : Int)
    (listing : Except Error (List Secret)) (shelf : Snapshot Secret) : Floor :=
  start settings max (listing.map fun secrets => secrets.filter fun s => s.ref.key = k)
    (shelf.share k)

/-- The second floor is the share of a key in the first. -/
structure Share (k : String) (f g : Floor) : Prop where
  /-- The stored request, the flag, the place in the queue, the count of failures and the amounts
  of the key. -/
  manager : Manager.Share k f.manager g.manager
  /-- The secrets of the key. -/
  shelf : g.shelf.entries = f.shelf.entries.filter fun e => e.1.secretKey = k
  /-- The workers that issue for the key stand where they do. -/
  posts : g.posts = f.posts.map (Post.share k)
  /-- The delayed additions of the key. -/
  timers : g.timers = f.timers.filter (· = k)
  /-- The secrets of the key that the renewal scan has been given. -/
  scan : g.scan = f.scan.map fun listing => listing.filter fun s => s.ref.key = k
  /-- What has happened to the key. -/
  journal : g.journal = f.journal.filter fun d => d.secret.key = k

/-! ## What is left of a run -/

section Run

variable {f f₁ : Floor} {k : String} {e : FloorEvent} {es way : List FloorEvent}

theorem only_of_concerns (h : f.concerns k e = true) (hstep : f.step? e = some f₁) :
    f.only k (e :: es) = e.alone :: f₁.only k es := by
  rw [only, h, if_pos rfl, hstep]

theorem only_of_not_concerns (h : f.concerns k e = false) (hstep : f.step? e = some f₁) :
    f.only k (e :: es) = f₁.only k es := by
  rw [only, h, if_neg (by decide), hstep]

/-- Nothing is added, and nothing changes places. -/
theorem only_sublist : (f.only k es).Sublist (es.map FloorEvent.alone) := by
  induction es generalizing f with
  | nil => exact .slnil
  | cons e es ih =>
      have hrest : (match f.step? e with
          | none => []
          | some g => g.only k es).Sublist (es.map FloorEvent.alone) := by
        split
        · exact List.nil_sublist _
        · exact ih
      simp only [only]
      split
      · exact hrest.cons_cons e.alone
      · exact hrest.cons e.alone

theorem run?_of_earlier (hway : way <+: es) (hrun : f.run? es = some f₁) :
    ∃ f₂, f.run? way = some f₂ := by
  obtain ⟨rest, rfl⟩ := hway
  rw [run?_append] at hrun
  obtain ⟨f₂, hearlier, -⟩ := Option.bind_eq_some_iff.1 hrun
  exact ⟨f₂, hearlier⟩

theorem only_of_earlier (hway : way <+: es) : f.only k way <+: f.only k es := by
  induction way generalizing f es with
  | nil => exact List.nil_prefix
  | cons e way ih =>
      obtain ⟨es, rfl, htail⟩ := List.cons_prefix_iff.1 hway
      simp only [only]
      cases f.step? e with
      | none => exact List.prefix_rfl
      | some g =>
          dsimp only
          split
          · exact (List.prefix_cons_inj _).2 (ih htail)
          · exact ih htail

theorem runHasRoom_of_earlier (hway : way <+: es) (hroom : f.runHasRoom k es = true) :
    f.runHasRoom k way = true := by
  induction way generalizing f es with
  | nil => rfl
  | cons e way ih =>
      obtain ⟨es, rfl, htail⟩ := List.cons_prefix_iff.1 hway
      obtain ⟨hfirst, hrest⟩ := Bool.and_eq_true_iff.1 hroom
      refine Bool.and_eq_true_iff.2 ⟨hfirst, ?_⟩
      cases hstep : f.step? e with
      | none => rfl
      | some g =>
          rw [hstep] at hrest
          exact ih htail hrest

end Run

theorem share_of_request {k : String} {p : Post} {r : Request} (h : p.request? = some r)
    (hr : r.key = k) : p.share k = p := by
  rw [Post.share, h, Option.map_some, if_pos (congrArg some hr)]

theorem share_of_idle {k : String} {p : Post} (h : p.request? = none) : p.share k = .idle := by
  rw [Post.share, h, if_neg]
  intro heq
  cases heq

theorem share_of_other {k : String} {p : Post} {r : Request} (h : p.request? = some r)
    (hr : r.key ≠ k) : p.share k = .idle := by
  rw [Post.share, h, if_neg]
  intro heq
  exact hr (Option.some.inj heq)

namespace Share

variable {k : String} {f g : Floor} {m m' : Manager} {i : Nat} {r : Request}

/-! ## Changes of a share -/

theorem setManager (h : Share k f g) (hm : Manager.Share k m m') :
    Share k (f.setManager m) (g.setManager m') :=
  ⟨hm, h.shelf, h.posts, h.timers, h.scan, h.journal⟩

theorem setManager_other (h : Share k f g) (hm : Manager.Share k m g.manager) :
    Share k (f.setManager m) g :=
  ⟨hm, h.shelf, h.posts, h.timers, h.scan, h.journal⟩

theorem post_eq (h : Share k f g) (hi : f.post i ≠ .ended) : g.post i = (f.post i).share k := by
  rw [post, h.posts, List.getElem?_map, getElem?_posts hi]
  rfl

theorem post_self (h : Share k f g) (hi : (f.post i).request? = some r) (hr : r.key = k) :
    g.post i = f.post i :=
  (h.post_eq (ne_ended_of_request hi)).trans (share_of_request hi hr)

theorem post_idle (h : Share k f g) (hi : f.post i = .idle) : g.post i = .idle := by
  rw [h.post_eq (ne_ended_of_idle hi), hi]
  rfl

theorem setPost_self (h : Share k f g) {p : Post} (hp : p.share k = p) :
    Share k (f.setPost i p) (g.setPost i p) := by
  refine ⟨h.manager, h.shelf, ?_, h.timers, h.scan, h.journal⟩
  show g.posts.set i p = (f.posts.set i p).map (Post.share k)
  rw [List.map_set, h.posts, hp]

/-- A worker without the key moves. -/
theorem setPost_other (h : Share k f g) {p : Post} (hi : (f.post i).share k = .idle)
    (hp : p.share k = .idle) : Share k (f.setPost i p) g := by
  refine ⟨h.manager, h.shelf, ?_, h.timers, h.scan, h.journal⟩
  show g.posts = (f.posts.set i p).map (Post.share k)
  rw [List.map_set, hp, h.posts]
  refine (List.ext_getElem? fun j => ?_).symm
  rw [List.getElem?_set]
  split
  · next hij =>
      subst hij
      split
      · next hlt =>
          rw [List.length_map] at hlt
          rw [post, List.getElem?_eq_getElem hlt] at hi
          rw [List.getElem?_map, List.getElem?_eq_getElem hlt]
          exact congrArg some hi.symm
      · next hlt => rw [List.getElem?_eq_none (by omega)]
  · rfl

theorem note_self (h : Share k f g) {d : Deed} (hd : d.secret.key = k) :
    Share k (f.note d) (g.note d) := by
  refine ⟨h.manager, h.shelf, h.posts, h.timers, h.scan, ?_⟩
  show d :: g.journal = (d :: f.journal).filter _
  rw [List.filter_cons_of_pos (by simpa using hd), h.journal]

theorem note_other (h : Share k f g) {d : Deed} (hd : d.secret.key ≠ k) :
    Share k (f.note d) g := by
  refine ⟨h.manager, h.shelf, h.posts, h.timers, h.scan, ?_⟩
  show g.journal = (d :: f.journal).filter _
  rw [List.filter_cons_of_neg (by simpa using hd), h.journal]

theorem judge_self (h : Share k f g) {s : SecretRef} (hs : s.key = k) (service : Service) :
    Share k (f.judge s service) (g.judge s service) := by
  cases service with
  | done => exact h
  | refused e => exact h.note_self (d := .failed s) hs
  | lost e => exact h.note_self (d := .failed s) hs

theorem judge_other (h : Share k f g) {s : SecretRef} (hs : s.key ≠ k) (service : Service) :
    Share k (f.judge s service) g := by
  cases service with
  | done => exact h
  | refused e => exact h.note_other (d := .failed s) hs
  | lost e => exact h.note_other (d := .failed s) hs

/-! ## Secrets -/

theorem filter_erase (entries : List (ObjectKey × Secret)) (p : ObjectKey) :
    (entries.filter fun e => e.1 ≠ p).filter (fun e => e.1.secretKey = k) =
      (entries.filter fun e => e.1.secretKey = k).filter fun e => e.1 ≠ p := by
  rw [List.filter_filter, List.filter_filter]
  refine List.filter_congr fun e _ => ?_
  rw [Bool.and_comm]

theorem erase_self (h : Share k f g) (s : SecretRef) : Share k (f.erase s) (g.erase s) := by
  refine ⟨h.manager, ?_, h.posts, h.timers, h.scan, h.journal⟩
  show (g.shelf.entries.filter fun e => e.1 ≠ s.place) =
    (f.shelf.entries.filter fun e => e.1 ≠ s.place).filter _
  rw [filter_erase, h.shelf]

theorem erase_other (h : Share k f g) {s : SecretRef} (hs : s.key ≠ k) :
    Share k (f.erase s) g := by
  refine ⟨h.manager, ?_, h.posts, h.timers, h.scan, h.journal⟩
  show g.shelf.entries = (f.shelf.entries.filter fun e => e.1 ≠ s.place).filter _
  rw [filter_erase, h.shelf]
  -- what is left for the key does not stand at a place of another one
  refine (List.filter_eq_self.2 fun e he => ?_).symm
  have hkey : e.1.secretKey = k := by simpa using (List.mem_filter.1 he).2
  refine decide_eq_true fun hplace => hs ?_
  rw [← hkey, hplace]
  rfl

theorem insert_self (h : Share k f g) {s : Secret} (hs : s.metadata.key = s.ref.place)
    (hkey : s.ref.key = k) : Share k (f.insert s) (g.insert s) := by
  refine ⟨h.manager, ?_, h.posts, h.timers, h.scan, h.journal⟩
  show (s.metadata.key, s) :: g.shelf.entries.filter (fun e => e.1 ≠ s.metadata.key) =
    ((s.metadata.key, s) :: f.shelf.entries.filter fun e => e.1 ≠ s.metadata.key).filter _
  rw [List.filter_cons_of_pos, filter_erase, h.shelf]
  rw [hs]
  exact decide_eq_true hkey

theorem insert_other (h : Share k f g) {s : Secret} (hs : s.metadata.key = s.ref.place)
    (hkey : s.ref.key ≠ k) : Share k (f.insert s) g := by
  refine ⟨h.manager, ?_, h.posts, h.timers, h.scan, h.journal⟩
  show g.shelf.entries =
    ((s.metadata.key, s) :: f.shelf.entries.filter fun e => e.1 ≠ s.metadata.key).filter _
  rw [List.filter_cons_of_neg, hs]
  · exact (h.erase_other hkey).shelf
  · rw [hs]
    exact fun heq => hkey (of_decide_eq_true heq)

theorem secret?_self (h : Share k f g) {s : SecretRef} (hs : s.key = k) :
    g.secret? s = f.secret? s := by
  have hlookup : ∀ es : List (ObjectKey × Secret),
      (es.filter fun e => e.1.secretKey = k).lookup s.place = es.lookup s.place := by
    intro es
    induction es with
    | nil => rfl
    | cons e es ih =>
        rw [List.filter_cons]
        split
        · rw [List.lookup_cons, List.lookup_cons, ih]
        · next hother =>
            have hne : s.place ≠ e.1 := by
              rintro heq
              rw [← heq] at hother
              exact hother (decide_eq_true hs)
            rw [ih, List.lookup_cons, beq_false_of_ne hne]
  show g.shelf.entries.lookup s.place = f.shelf.entries.lookup s.place
  rw [h.shelf, hlookup]

/-- The secrets of the key that the manager owns. -/
theorem owned (h : Share k f g) (hfiled : f.Filed) :
    g.owned = f.owned.filter fun s => s.ref.key = k := by
  have hkey : ∀ e ∈ f.shelf.entries, e.1.secretKey = e.2.ref.key := by
    intro e he
    obtain ⟨-, hplace⟩ := hfiled e.1 e.2 (Snapshot.lookup_of_mem f.shelf.keys_nodup he)
    rw [← hplace]
    rfl
  have hobjects : g.shelf.objects = f.shelf.objects.filter fun s => s.ref.key = k := by
    show g.shelf.entries.map Prod.snd = (f.shelf.entries.map Prod.snd).filter _
    rw [h.shelf, List.filter_map]
    refine congrArg (List.map Prod.snd) (List.filter_congr fun e he => ?_)
    rw [hkey e he]
    rfl
  show g.shelf.objects.filter _ = (f.shelf.objects.filter _).filter _
  rw [hobjects, h.manager.settings, List.filter_filter, List.filter_filter]
  refine List.filter_congr fun s _ => ?_
  rw [Bool.and_comm]

/-! ## How a worker goes on -/

theorem conclude_self (h : Share k f g) (hr : r.key = k) (result : Except Error Unit) :
    Share k (f.conclude i r result) (g.conclude i r result) := by
  subst hr
  obtain ⟨hsettlement, hm⟩ := h.manager.settle_self r result
  have hmoved := (h.setManager hm.finish_self).setPost_self (i := i) (p := .idle) rfl
  refine ⟨hmoved.manager, hmoved.shelf, hmoved.posts, ?_, hmoved.scan, hmoved.journal⟩
  simp only [conclude]
  rw [hsettlement]
  cases (f.manager.settle r.key r result).2 with
  | forgotten => exact h.timers
  | again failures =>
      show r.key :: g.timers = (r.key :: f.timers).filter _
      rw [List.filter_cons_of_pos (by simp), h.timers]

theorem conclude_other (h : Share k f g) (hi : (f.post i).share k = .idle) (hr : r.key ≠ k)
    (result : Except Error Unit) : Share k (f.conclude i r result) g := by
  have hm := (h.manager.settle_other hr r result).finish_other hr
  have hmoved := (h.setManager_other hm).setPost_other (i := i) (p := .idle) hi rfl
  refine ⟨hmoved.manager, hmoved.shelf, hmoved.posts, ?_, hmoved.scan, hmoved.journal⟩
  simp only [conclude]
  cases (f.manager.settle r.key r result).2 with
  | forgotten => exact h.timers
  | again failures =>
      show g.timers = (r.key :: f.timers).filter _
      rw [List.filter_cons_of_neg (by simpa using hr), h.timers]

theorem advance_self (h : Share k f g) (hr : r.key = k) {next next' : Manager × Progress}
    (hnext : Manager.Agrees k next next') :
    Share k (f.advance i r next) (g.advance i r next') := by
  obtain ⟨m, progress⟩ := next
  obtain ⟨m', progress'⟩ := next'
  obtain ⟨hprogress, hm⟩ := hnext
  cases hprogress
  have hmoved : ∀ p : Post, p.request? = some r →
      Share k ((f.setManager m).setPost i p) ((g.setManager m').setPost i p) := fun p hp =>
    (h.setManager hm).setPost_self (share_of_request hp hr)
  cases progress with
  | order => exact hmoved (.ordering r) rfl
  | store s => exact hmoved (.storing r s none) rfl
  | withdraw => exact hmoved (.withdrawing r none) rfl
  | ended result => exact (h.setManager hm).conclude_self hr result

theorem advance_other (h : Share k f g) (hi : (f.post i).request? = some r) (hr : r.key ≠ k)
    {next : Manager × Progress} (hnext : Manager.Share k next.1 g.manager) :
    Share k (f.advance i r next) g := by
  obtain ⟨m, progress⟩ := next
  have hidle : ((f.setManager m).post i).share k = .idle := share_of_other hi hr
  have hmoved : ∀ p : Post, p.request? = some r →
      Share k ((f.setManager m).setPost i p) g := fun p hp =>
    (h.setManager_other hnext).setPost_other hidle (share_of_other hp hr)
  cases progress with
  | order => exact hmoved (.ordering r) rfl
  | store s => exact hmoved (.storing r s none) rfl
  | withdraw => exact hmoved (.withdrawing r none) rfl
  | ended result => exact (h.setManager_other hnext).conclude_other hidle hr result

/-! ## How a worker starts -/

theorem begin_self (hs : f.Sound) (h : Share k f g) {m₁ : Manager}
    (ht : f.manager.take i = (m₁, .key k)) : Share k (f.begin i) (g.begin i) := by
  obtain ⟨m₁', ht', hm⟩ := h.manager.take_self ht
  obtain ⟨hrequest, hstart⟩ := hm.startOn_self
  have hstored := take_requests ht
  simp only [begin, ht, ht']
  rw [← Prod.mk.eta (p := m₁'.startOn k), ← Prod.mk.eta (p := m₁.startOn k), hrequest]
  cases hr : (m₁.startOn k).2 with
  | none => exact h.setManager hstart.finish_self
  | some r =>
      have hkey : r.key = k := hs.keyed k r (hstored ▸ hr)
      exact (h.setManager hstart).setPost_self (share_of_request rfl hkey)

theorem begin_other (hs : f.Sound) (h : Share k f g) (hi : f.post i = .idle)
    (hother : (f.manager.take i).2 ≠ .key k) : Share k (f.begin i) g := by
  have hidle : (f.post i).share k = .idle := share_of_idle (by rw [hi]; rfl)
  have hbegun := begun f i
  generalize f.begin i = f₁ at hbegun
  cases hbegun with
  | waited taken =>
      rw [taken] at hother
      exact h.setManager_other (h.manager.take_other taken hother)
  | left taken =>
      rw [taken] at hother
      exact (h.setManager_other (h.manager.take_other taken hother)).setPost_other hidle rfl
  | @skipped m j taken none =>
      rw [taken] at hother
      have hj : j ≠ k := fun hj => hother (hj ▸ rfl)
      exact h.setManager_other
        (((h.manager.take_other taken hother).startOn_other hj).finish_other hj)
  | @started m j r taken some =>
      rw [taken] at hother
      have hj : j ≠ k := fun hj => hother (hj ▸ rfl)
      have hr : r.key ≠ k := by rwa [hs.keyed j r some]
      have hm := (h.manager.take_other taken hother).startOn_other hj
      exact (h.setManager_other hm).setPost_other hidle (share_of_other rfl hr)

/-! ## Delayed additions -/

theorem filter_eraseIdx_other {l : List String} {place : Nat} {j : String}
    (hplace : l[place]? = some j) (hj : j ≠ k) :
    (l.eraseIdx place).filter (· = k) = l.filter (· = k) := by
  induction l generalizing place with
  | nil => cases hplace
  | cons a l ih =>
      cases place with
      | zero =>
          cases hplace
          rw [List.eraseIdx_cons_zero, List.filter_cons_of_neg (by simpa using hj)]
      | succ place =>
          rw [List.eraseIdx_cons_succ, List.filter_cons, List.filter_cons, ih hplace]

/-- Whichever addition of the key is taken away, one less is left. -/
theorem filter_eraseIdx_self {l : List String} {place : Nat} (hplace : l[place]? = some k) :
    l.filter (· = k) = k :: (l.eraseIdx place).filter (· = k) := by
  induction l generalizing place with
  | nil => cases hplace
  | cons a l ih =>
      cases place with
      | zero =>
          cases hplace
          rw [List.eraseIdx_cons_zero, List.filter_cons_of_pos (by simp)]
      | succ place =>
          rw [List.eraseIdx_cons_succ]
          by_cases ha : a = k
          · rw [List.filter_cons_of_pos (by simpa using ha),
              List.filter_cons_of_pos (by simpa using ha), ih hplace, ha]
          · rw [List.filter_cons_of_neg (by simpa using ha),
              List.filter_cons_of_neg (by simpa using ha), ih hplace]

/-! ## Every step -/

theorem renew_self (h : Share k f g) (threshold : Int) (now : Instant) (listing : List Secret) :
    Share k (f.renew threshold now listing)
      (g.renew threshold now (listing.filter fun s => s.ref.key = k)) := by
  refine ⟨h.manager.renew threshold now listing, h.shelf, h.posts, h.timers, rfl, ?_⟩
  simp only [renew]
  rw [h.manager.due_filter, h.journal, List.filter_append, List.filter_reverse, List.filter_map]
  rfl

theorem key_of_keyAt (hkey : f.keyAt i = some k) (hi : (f.post i).request? = some r) :
    r.key = k :=
  Option.some.inj ((keyAt_of_request hi).symm.trans hkey)

theorem serve_self {f₁ : Floor} {service : Service} (hs : f.Sound) (h : Share k f g)
    (hkey : f.keyAt i = some k) (hstep : f.serve? i service = some f₁) :
    ∃ g₁, g.serve? i service = some g₁ ∧ Share k f₁ g₁ := by
  -- a worker that issues for the key is served in the share as it is in the whole
  have hworker : ∀ {p : Post} {r : Request}, f.post i = p → p.request? = some r →
      r.key = k ∧ g.post i = p := by
    rintro p r hp hr
    have hi : (f.post i).request? = some r := hp ▸ hr
    have hr := key_of_keyAt hkey hi
    exact ⟨hr, (h.post_self hi hr).trans hp⟩
  cases turn_serve hstep with
  | @read _ r _ reading =>
      obtain ⟨hr, hpost⟩ := hworker reading rfl
      refine ⟨_, by rw [serve?, hpost], ?_⟩
      rw [h.secret?_self hr]
      exact (h.judge_self hr service).setPost_self (share_of_request rfl hr)
  | @wrote _ r sec _ storing effect =>
      obtain ⟨hr, hpost⟩ := hworker storing rfl
      obtain ⟨c, hsec⟩ := hs.written i r sec none storing
      have hplace : sec.metadata.key = sec.ref.place := by rw [hsec]; rfl
      have hsecret : sec.ref.key = k := by rw [hsec]; exact hr
      refine ⟨_, by rw [serve?, hpost], ?_⟩
      simp only [effect, if_true]
      exact (((h.insert_self hplace hsecret).note_self (d := .wrote r.target) hr).judge_self hr
        service).setPost_self (share_of_request rfl hr)
  | @unwritten _ r sec _ storing effect =>
      obtain ⟨hr, hpost⟩ := hworker storing rfl
      refine ⟨_, by rw [serve?, hpost], ?_⟩
      simp only [effect]
      exact (h.judge_self hr service).setPost_self (share_of_request rfl hr)
  | @withdrew _ r _ withdrawing effect =>
      obtain ⟨hr, hpost⟩ := hworker withdrawing rfl
      refine ⟨_, by rw [serve?, hpost], ?_⟩
      simp only [effect, if_true]
      exact (((h.erase_self r.target).note_self (d := .withdrew r.target) hr).judge_self hr
        service).setPost_self (share_of_request rfl hr)
  | @unwithdrawn _ r _ withdrawing effect =>
      obtain ⟨hr, hpost⟩ := hworker withdrawing rfl
      refine ⟨_, by rw [serve?, hpost], ?_⟩
      simp only [effect]
      exact (h.judge_self hr service).setPost_self (share_of_request rfl hr)

theorem resume_self {f₁ : Floor} (hquota : 0 < f.manager.quota.max → f.manager.quota.Sound)
    (h : Share k f g) (hkey : f.keyAt i = some k) (hroom : f.hasRoom k (.resume i) = true)
    (hstep : f.resume? i = some f₁) : ∃ g₁, g.resume? i = some g₁ ∧ Share k f₁ g₁ := by
  cases turn_resume hstep with
  | @informed _ r a reading =>
      have hi : (f.post i).request? = some r := by rw [reading]; rfl
      have hr := key_of_keyAt hkey hi
      have hread : f.manager.readHasRoom r a = true := by
        rw [hasRoom, reading] at hroom
        simpa [hr] using hroom
      refine ⟨_, by rw [resume?, h.post_self hi hr, reading], ?_⟩
      exact h.advance_self hr (h.manager.afterRead_self hr hquota hread)
  | @stored _ r sec a storing =>
      have hi : (f.post i).request? = some r := by rw [storing]; rfl
      have hr := key_of_keyAt hkey hi
      refine ⟨_, by rw [resume?, h.post_self hi hr, storing], ?_⟩
      exact h.advance_self hr (h.manager.afterStore_self hr a)
  | @cleared _ r a withdrawing =>
      have hi : (f.post i).request? = some r := by rw [withdrawing]; rfl
      have hr := key_of_keyAt hkey hi
      refine ⟨_, by rw [resume?, h.post_self hi hr, withdrawing], ?_⟩
      exact h.advance_self hr ⟨rfl, h.manager⟩

theorem renewalThreshold_eq (h : Share k f g) :
    g.manager.renewalThreshold = f.manager.renewalThreshold := by
  rw [Manager.renewalThreshold, h.manager.settings, Manager.renewalThreshold]

/-- An event for the key happens to the share as well. -/
theorem step_self {e : FloorEvent} {f₁ : Floor} (hs : f.Sound) (hfiled : f.Filed)
    (hquota : 0 < f.manager.quota.max → f.manager.quota.Sound) (h : Share k f g)
    (hconcerns : f.concerns k e = true) (hroom : f.hasRoom k e = true)
    (hstep : f.step? e = some f₁) :
    ∃ g₁, g.step? e.alone = some g₁ ∧ Share k f₁ g₁ := by
  cases e with
  | take i =>
      have htaken : (f.manager.take i).2 = .key k := of_decide_eq_true hconcerns
      cases turn_of_step? hstep with
      | began idle awake =>
          refine ⟨g.begin i, ?_, h.begin_self hs (Prod.ext rfl htaken)⟩
          show g.step? (.take i) = _
          rw [step?, h.post_idle idle]
          simp only [h.manager.queue.waiting]
          rfl
  | serve i service => exact h.serve_self hs (of_decide_eq_true hconcerns) hstep
  | resume i => exact h.resume_self hquota (of_decide_eq_true hconcerns) hroom hstep
  | order i a =>
      cases turn_of_step? hstep with
      | @ordered _ r _ ordering =>
          have hi : (f.post i).request? = some r := by rw [ordering]; rfl
          have hr := key_of_keyAt (of_decide_eq_true hconcerns) hi
          refine ⟨g.advance i r (g.manager.afterOrder r a), ?_,
            h.advance_self hr (h.manager.afterOrder_self hr a)⟩
          show g.step? (.order i a) = _
          rw [step?, h.post_self hi hr, ordering]
  | ring place =>
      have htimer : f.timers[place]? = some k := of_decide_eq_true hconcerns
      have htimers := h.timers.trans (filter_eraseIdx_self htimer)
      cases turn_of_step? hstep with
      | rang timer =>
          cases timer.symm.trans htimer
          refine ⟨_, by rw [FloorEvent.alone, step?, htimers]; rfl, ?_⟩
          exact ⟨h.manager.readd_self, h.shelf, h.posts, rfl, h.scan, h.journal⟩
  | list =>
      rw [step?] at hstep
      split at hstep
      · next threshold hscan hvalid =>
          cases hstep
          have hscan' : g.scan = none := by rw [h.scan, hscan]; rfl
          refine ⟨{ g with scan := some g.owned }, ?_, h.manager, h.shelf, h.posts, h.timers, ?_,
            h.journal⟩
          · show g.step? .list = _
            rw [step?, hscan', h.renewalThreshold_eq, hvalid]
          · exact congrArg some (h.owned hfiled)
      · cases hstep
  | renew now =>
      rw [step?] at hstep
      split at hstep
      · next listing threshold hscan hvalid =>
          cases hstep
          have hscan' : g.scan = some (listing.filter fun s => s.ref.key = k) := by
            rw [h.scan, hscan]
            rfl
          refine ⟨_, ?_, h.renew_self threshold now listing⟩
          show g.step? (.renew now) = _
          rw [step?, hscan', h.renewalThreshold_eq, hvalid]
      · cases hstep
  | obtain r =>
      cases hstep
      have hr : r.key = k := of_decide_eq_true hconcerns
      exact ⟨_, rfl, (h.setManager (h.manager.obtain_self hr)).note_self (d := .asked r) hr⟩
  | release s =>
      cases hstep
      have hkey : s.key = k := of_decide_eq_true hconcerns
      exact ⟨_, rfl, (h.setManager (h.manager.release_self hkey)).note_self (d := .released s) hkey⟩
  | look s =>
      cases hstep
      have hkey : s.key = k := of_decide_eq_true hconcerns
      exact ⟨_, rfl, h.note_self (d := .looked s) hkey⟩
  | remove s =>
      cases hstep
      have hkey : s.key = k := of_decide_eq_true hconcerns
      exact ⟨_, rfl, (h.erase_self s).note_self (d := .removed s) hkey⟩
  | put s =>
      have hkey : s.ref.key = k := of_decide_eq_true hconcerns
      cases turn_of_step? hstep with
      | placed named =>
          exact ⟨_, if_pos named, (h.insert_self named hkey).note_self (d := .placed s.ref) hkey⟩
  | stop =>
      cases hstep
      exact ⟨_, rfl, h.setManager h.manager.shutDown⟩

/-- An event for another key leaves the share as it is. -/
theorem step_other {e : FloorEvent} {f₁ : Floor} (hs : f.Sound) (h : Share k f g)
    (hconcerns : f.concerns k e = false) (hstep : f.step? e = some f₁) : Share k f₁ g := by
  -- a worker with another key, or none, moves
  have hworker : ∀ {i : Nat} {p : Post} {r : Request}, f.keyAt i ≠ some k → f.post i = p →
      p.request? = some r → r.key ≠ k ∧ (f.post i).request? = some r := by
    rintro i p r hother hp hr
    have hi : (f.post i).request? = some r := hp ▸ hr
    exact ⟨fun hkey => hother ((keyAt_of_request hi).trans (congrArg some hkey)), hi⟩
  have hmoved : ∀ {i : Nat} {f₂ : Floor} {p : Post} {r : Request}, Share k f₂ g →
      f₂.posts = f.posts → (f.post i).request? = some r → p.request? = some r → r.key ≠ k →
      Share k (f₂.setPost i p) g := by
    intro i f₂ p r h₂ hposts hi hp hr
    refine h₂.setPost_other ?_ (share_of_other hp hr)
    rw [post, hposts]
    exact share_of_other hi hr
  cases turn_of_step? hstep with
  | began idle awake => exact h.begin_other hs idle (of_decide_eq_false hconcerns)
  | @read i r service reading =>
      obtain ⟨hr, hi⟩ := hworker (of_decide_eq_false hconcerns) reading rfl
      exact hmoved (h.judge_other hr service) rfl hi rfl hr
  | @wrote i r sec service storing effect =>
      obtain ⟨hr, hi⟩ := hworker (of_decide_eq_false hconcerns) storing rfl
      obtain ⟨c, hsec⟩ := hs.written i r sec none storing
      have hplace : sec.metadata.key = sec.ref.place := by rw [hsec]; rfl
      have hsecret : sec.ref.key ≠ k := by rw [hsec]; exact hr
      exact hmoved (((h.insert_other hplace hsecret).note_other (d := .wrote r.target)
        hr).judge_other hr service) rfl hi rfl hr
  | @unwritten i r sec service storing effect =>
      obtain ⟨hr, hi⟩ := hworker (of_decide_eq_false hconcerns) storing rfl
      exact hmoved (h.judge_other hr service) rfl hi rfl hr
  | @withdrew i r service withdrawing effect =>
      obtain ⟨hr, hi⟩ := hworker (of_decide_eq_false hconcerns) withdrawing rfl
      exact hmoved (((h.erase_other hr).note_other (d := .withdrew r.target) hr).judge_other hr
        service) rfl hi rfl hr
  | @unwithdrawn i r service withdrawing effect =>
      obtain ⟨hr, hi⟩ := hworker (of_decide_eq_false hconcerns) withdrawing rfl
      exact hmoved (h.judge_other hr service) rfl hi rfl hr
  | @informed i r a reading =>
      obtain ⟨hr, hi⟩ := hworker (of_decide_eq_false hconcerns) reading rfl
      exact h.advance_other hi hr (h.manager.afterRead_other hr a)
  | @stored i r sec a storing =>
      obtain ⟨hr, hi⟩ := hworker (of_decide_eq_false hconcerns) storing rfl
      exact h.advance_other hi hr (h.manager.afterStore_other hr a)
  | @cleared i r a withdrawing =>
      obtain ⟨hr, hi⟩ := hworker (of_decide_eq_false hconcerns) withdrawing rfl
      exact h.advance_other hi hr h.manager
  | @ordered i r a ordering =>
      obtain ⟨hr, hi⟩ := hworker (of_decide_eq_false hconcerns) ordering rfl
      exact h.advance_other hi hr (h.manager.afterOrder_other hr a)
  | @rang place j timer =>
      have hj : j ≠ k := fun hj => of_decide_eq_false hconcerns (timer.trans (congrArg some hj))
      exact ⟨h.manager.readd_other hj, h.shelf, h.posts,
        h.timers.trans (filter_eraseIdx_other timer hj).symm, h.scan, h.journal⟩
  | asked r =>
      have hr : r.key ≠ k := of_decide_eq_false hconcerns
      exact (h.setManager_other (h.manager.obtain_other hr)).note_other (d := .asked r) hr
  | released s =>
      have hkey : s.key ≠ k := of_decide_eq_false hconcerns
      exact (h.setManager_other (h.manager.release_other hkey)).note_other (d := .released s) hkey
  | looked s => exact h.note_other (d := .looked s) (of_decide_eq_false hconcerns)
  | removed s =>
      have hkey : s.key ≠ k := of_decide_eq_false hconcerns
      exact (h.erase_other hkey).note_other (d := .removed s) hkey
  | @placed s named =>
      have hkey : s.ref.key ≠ k := of_decide_eq_false hconcerns
      exact (h.insert_other named hkey).note_other (d := .placed s.ref) hkey
  | listed unlisted => cases hconcerns
  | renewed now scan valid => cases hconcerns
  | stopped => cases hconcerns

/-- What is left of a run happens to the share as well. -/
theorem run? {es : List FloorEvent} {f₁ : Floor} (hs : f.Sound) (hfiled : f.Filed)
    (hquota : 0 < f.manager.quota.max → f.manager.quota.Sound) (h : Share k f g)
    (hroom : f.runHasRoom k es = true) (hrun : f.run? es = some f₁) :
    ∃ g₁, g.run? (f.only k es) = some g₁ ∧ Share k f₁ g₁ := by
  induction es generalizing f g with
  | nil =>
      cases hrun
      exact ⟨g, rfl, h⟩
  | cons e es ih =>
      rw [run?_cons] at hrun
      obtain ⟨f₂, hstep, hrest⟩ := Option.bind_eq_some_iff.1 hrun
      obtain ⟨hfirst, hroom⟩ := Bool.and_eq_true_iff.1 hroom
      rw [hstep] at hroom
      have hm := move_of_step? hstep
      have hquota₂ : 0 < f₂.manager.quota.max → f₂.manager.quota.Sound := by
        rw [max_move hm]
        exact fun hmax => (worked_move hm).sound (hquota hmax)
      have ih := fun {g₂ : Floor} (h₂ : Share k f₂ g₂) =>
        ih (hs.move hm) (hfiled.move hs hm) hquota₂ h₂ hroom hrest
      cases hconcerns : f.concerns k e with
      | true =>
          obtain ⟨g₂, hstep₂, h₂⟩ := h.step_self hs hfiled hquota hconcerns hfirst hstep
          obtain ⟨g₁, hrun₁, h₁⟩ := ih h₂
          refine ⟨g₁, ?_, h₁⟩
          rw [only_of_concerns hconcerns hstep, run?_cons, hstep₂]
          exact hrun₁
      | false =>
          obtain ⟨g₁, hrun₁, h₁⟩ := ih (h.step_other hs hconcerns hstep)
          refine ⟨g₁, ?_, h₁⟩
          rw [only_of_not_concerns hconcerns hstep]
          exact hrun₁

/-- The share at the start is the start with the secrets of the key alone. -/
theorem start {settings : ManagerSettings} {max : Int} {listing : Except Error (List Secret)}
    {shelf : Snapshot Secret} (hroom : startHasRoom k max listing = true) :
    Share k (start settings max listing shelf) (startAlone k settings max listing shelf) := by
  have hmanager : ∀ {q q' : Quota}, Quota.Share k q q' →
      Manager.Share k (Manager.new settings q).markRestored
        (Manager.new settings q').markRestored := fun hq =>
    ⟨rfl, .empty k, .empty k, .empty k, rfl, hq⟩
  have hnew := hmanager (Quota.Share.new k max)
  refine ⟨?_, rfl, ?_, rfl, rfl, rfl⟩
  · show Manager.Share k (restored settings max listing) (restored settings max _)
    rw [restored, restored]
    by_cases henabled : (Manager.new settings (.new max)).quota.enabled = true
    · rw [if_pos henabled, if_pos henabled]
      cases listing with
      | error e => exact hnew
      | ok secrets =>
          exact hmanager (Manager.share_restore (.new k max) (fun hmax => .new hmax) hroom)
    · rw [if_neg henabled, if_neg henabled]
      exact hnew
  · exact (List.map_replicate (f := Post.share k) (a := .idle)).symm

end Share

/-! ## The statement -/

/-- Take any run of the manager, and a key whose reservations all find room. Without the events of
other keys it is a run of the manager as it would have started with the secrets of the key alone,
and at every point of it the key's share of the whole is all that there is: the same request is
stored, the same flag is set, the key stands in the queue as before and has failed as often, it has
acquired the same amount and the same amount is pending, its secrets are the same, and the same
workers issue for the same requests, make the same calls and have the same answers. -/
theorem keys_apart {k : String} {settings : ManagerSettings} {max : Int}
    {listing : Except Error (List Secret)} {shelf : Snapshot Secret} {es : List FloorEvent}
    {f : Floor} (hfiled : (start settings max listing shelf).Filed)
    (hstart : startHasRoom k max listing = true)
    (hroom : (start settings max listing shelf).runHasRoom k es = true)
    (hrun : (start settings max listing shelf).run? es = some f) :
    ((start settings max listing shelf).only k es).Sublist (es.map FloorEvent.alone) ∧
    ∀ way, way <+: es →
      (start settings max listing shelf).only k way <+:
        (start settings max listing shelf).only k es ∧
      ∃ f₁ g₁, (start settings max listing shelf).run? way = some f₁ ∧
        (startAlone k settings max listing shelf).run?
          ((start settings max listing shelf).only k way) = some g₁ ∧
        Share k f₁ g₁ := by
  refine ⟨only_sublist, fun way hway => ?_⟩
  obtain ⟨f₁, hearlier⟩ := run?_of_earlier hway hrun
  have hquota : 0 < (start settings max listing shelf).manager.quota.max →
      (start settings max listing shelf).manager.quota.Sound := by
    rw [max_start]
    exact fun hmax => (worked_start settings max listing shelf).sound (.new hmax)
  obtain ⟨g₁, hrun₁, h₁⟩ := (Share.start hstart).run? (sound_start settings max listing shelf)
    hfiled hquota (runHasRoom_of_earlier hway hroom) hearlier
  exact ⟨only_of_earlier hway, f₁, g₁, hearlier, hrun₁, h₁⟩

/-- Two workers issue for two keys in turns. Both certificates are pending, and the addition that is
made first is the later one on the list. -/
def interleaved : List FloorEvent :=
  [.obtain (requestOf "one"), .obtain (requestOf "two"), .take 0, .take 1, .serve 1 .done,
    .serve 0 .done, .resume 0, .resume 1, .order 0 (.error .pending), .order 1 (.error .pending),
    .ring 1, .take 1, .release ⟨"default", "two"⟩, .ring 0, .take 0]

/-- The worker that is left has the request again after the only delayed addition. -/
theorem keys_apart_interleaved :
    ∃ f g, Filed (start { ManagerSettings.standard with workers := 2 } 2 (.ok []) .empty) ∧
      startHasRoom (requestOf "one").key 2 (.ok []) = true ∧
      (start { ManagerSettings.standard with workers := 2 } 2 (.ok []) .empty).runHasRoom
        (requestOf "one").key interleaved = true ∧
      (start { ManagerSettings.standard with workers := 2 } 2 (.ok []) .empty).run?
        interleaved = some f ∧
      (startAlone (requestOf "one").key { ManagerSettings.standard with workers := 2 } 2 (.ok [])
        .empty).run? [.obtain (requestOf "one"), .take 0, .serve 0 .done, .resume 0,
          .order 0 (.error .pending), .ring 0, .take 1] = some g ∧
      Share (requestOf "one").key f g ∧
      g.post 1 = .reading (requestOf "one") none ∧
      g.manager.queue.failuresOf (requestOf "one").key = 1 := by
  have hfiled : Filed (start { ManagerSettings.standard with workers := 2 } 2 (.ok []) .empty) := by
    intro k o ho
    cases ho
  obtain ⟨f, hrun, honly⟩ : ∃ f,
      (start { ManagerSettings.standard with workers := 2 } 2 (.ok []) .empty).run?
        interleaved = some f ∧
      (start { ManagerSettings.standard with workers := 2 } 2 (.ok []) .empty).only
        (requestOf "one").key interleaved =
        [.obtain (requestOf "one"), .take 0, .serve 0 .done, .resume 0, .order 0 (.error .pending),
          .ring 0, .take 1] := ⟨_, rfl, rfl⟩
  obtain ⟨-, hapart⟩ := keys_apart (k := (requestOf "one").key) hfiled rfl rfl hrun
  obtain ⟨-, f₁, g, hrun₁, halone, hshare⟩ := hapart interleaved List.prefix_rfl
  cases hrun.symm.trans hrun₁
  rw [honly] at halone
  obtain ⟨hpost, hfailures⟩ : g.post 1 = .reading (requestOf "one") none ∧
      g.manager.queue.failuresOf (requestOf "one").key = 1 := by
    cases halone
    exact ⟨rfl, rfl⟩
  exact ⟨f, g, hfiled, rfl, rfl, hrun, halone, hshare, hpost, hfailures⟩

end Floor

end IngressTls
