import IngressTls.Proofs.Manager.Floor

set_option autoImplicit false

/-! # Where the workers stand

The key that a worker issues for, and what becomes of the keys of all workers when one of them
moves: it goes on with its key, starts on one, or ends and takes its key away. And the way of a
worker from post to post: from where it stands one can tell where it has come from.

Main statements: `post_setPost`, `busy_setPost_same`, `busy_setPost_start`, `busy_setPost_end` and
`stride_move`.
-/

namespace IngressTls.Floor

/-! ## Keys of workers -/

/-- The key that a worker issues for. -/
def keyAt (f : Floor) (i : Nat) : Option String := (f.post i).request?.map Request.key

/-- Whether a worker issues for a key. -/
def Busy (f : Floor) (k : String) : Prop := ∃ i, f.keyAt i = some k

/-- If the only worker looks for a key, nobody issues for one. -/
theorem not_busy_of_idle {f : Floor} {k : String} (h : f.posts = [.idle]) : ¬ f.Busy k := by
  rintro ⟨i, hi⟩
  rw [keyAt, post, h] at hi
  cases i with
  | zero => cases hi
  | succ i => cases hi

theorem keyAt_of_request {f : Floor} {i : Nat} {r : Request}
    (h : (f.post i).request? = some r) : f.keyAt i = some r.key := by
  rw [keyAt, h]
  rfl

theorem keyAt_of_idle {f : Floor} {i : Nat} (h : (f.post i).request? = none) :
    f.keyAt i = none := by
  rw [keyAt, h]
  rfl

theorem request_of_reservation {p : Post} {r : Request} (h : p.reservation? = some r) :
    p.request? = some r := by
  cases p with
  | ordering r' => exact h
  | storing r' s a => exact h
  | idle => cases h
  | reading r' a => cases h
  | withdrawing r' a => cases h
  | ended => cases h

theorem ne_ended_of_request {f : Floor} {i : Nat} {r : Request}
    (h : (f.post i).request? = some r) : f.post i ≠ .ended := by
  intro heq
  rw [heq] at h
  cases h

theorem ne_ended_of_idle {f : Floor} {i : Nat} (h : f.post i = .idle) : f.post i ≠ .ended := by
  intro heq
  rw [h] at heq
  cases heq

/-- A worker that waits for the authority, or has been told that its write failed, issues for a
request. -/
theorem request_of_standing {f : Floor} {i : Nat} {r : Request}
    (h : f.post i = .ordering r ∨ ∃ s e, f.post i = .storing r s (some (.error e))) :
    (f.post i).request? = some r := by
  rcases h with hpost | ⟨s, e, hpost⟩
  · rw [hpost]
    rfl
  · rw [hpost]
    rfl

theorem lt_of_post {f : Floor} {i : Nat} (h : f.post i ≠ .ended) : i < f.posts.length := by
  by_cases hlt : i < f.posts.length
  · exact hlt
  · have hnone : f.posts[i]? = none := List.getElem?_eq_none (by omega)
    exact absurd (by rw [post, hnone]; rfl) h

theorem getElem?_posts {f : Floor} {i : Nat} (h : f.post i ≠ .ended) :
    f.posts[i]? = some (f.post i) := by
  rw [post, List.getElem?_eq_getElem (lt_of_post h)]
  rfl

/-- Only the worker that moves stands somewhere else. -/
theorem post_setPost {f : Floor} {i : Nat} (h : f.post i ≠ .ended) (p : Post) (j : Nat) :
    (f.setPost i p).post j = if j = i then p else f.post j := by
  have hlt := lt_of_post h
  simp only [post, setPost, List.getElem?_set]
  by_cases hj : j = i
  · subst hj
    simp [hlt]
  · have hij : ¬ i = j := fun hij => hj hij.symm
    simp [hj, hij]

theorem post_of_posts {f g : Floor} {i : Nat} {p : Post} (hi : f.post i ≠ .ended)
    (hposts : g.posts = (f.setPost i p).posts) (j : Nat) :
    g.post j = if j = i then p else f.post j := by
  rw [← post_setPost hi, post, post, hposts]

theorem keyAt_setPost {f : Floor} {i : Nat} (h : f.post i ≠ .ended) (p : Post) (j : Nat) :
    (f.setPost i p).keyAt j = if j = i then p.request?.map Request.key else f.keyAt j := by
  rw [keyAt, post_setPost h]
  split
  · rfl
  · rfl

/-- A worker that goes on with its key leaves the others' keys as they are. -/
theorem busy_setPost_same {f : Floor} {i : Nat} (h : f.post i ≠ .ended) {p : Post}
    (hp : p.request? = (f.post i).request?) (k : String) :
    (f.setPost i p).Busy k ↔ f.Busy k := by
  have hkey : ∀ j, (f.setPost i p).keyAt j = f.keyAt j := by
    intro j
    rw [keyAt_setPost h]
    split
    · next hj => rw [hj, hp, keyAt]
    · rfl
  simp only [Busy, hkey]

/-- A worker that starts adds its key. -/
theorem busy_setPost_start {f : Floor} {i : Nat} (h : f.post i = .idle) {p : Post} {r : Request}
    (hp : p.request? = some r) (k : String) :
    (f.setPost i p).Busy k ↔ k = r.key ∨ f.Busy k := by
  have hne := ne_ended_of_idle h
  constructor
  · rintro ⟨j, hj⟩
    rw [keyAt_setPost hne] at hj
    split at hj
    · rw [hp] at hj
      exact Or.inl (Option.some.inj hj).symm
    · exact Or.inr ⟨j, hj⟩
  · rintro (rfl | ⟨j, hj⟩)
    · exact ⟨i, by rw [keyAt_setPost hne, if_pos rfl, hp]; rfl⟩
    · have hji : j ≠ i := by
        rintro rfl
        rw [keyAt, h] at hj
        cases hj
      exact ⟨j, by rw [keyAt_setPost hne, if_neg hji, hj]⟩

/-- No two workers issue for one key. -/
def Apart (f : Floor) : Prop :=
  ∀ i j k, f.keyAt i = some k → f.keyAt j = some k → i = j

/-- A worker that ends an issuance takes its key away. -/
theorem busy_setPost_end {f : Floor} {i : Nat} {r : Request} (hapart : f.Apart)
    (h : (f.post i).request? = some r) {p : Post} (hp : p.request? = none) (k : String) :
    (f.setPost i p).Busy k ↔ k ≠ r.key ∧ f.Busy k := by
  have hne := ne_ended_of_request h
  have hi := keyAt_of_request h
  constructor
  · rintro ⟨j, hj⟩
    rw [keyAt_setPost hne] at hj
    split at hj
    · rw [hp] at hj
      cases hj
    · next hji =>
        -- no other worker issues for the key
        refine ⟨?_, j, hj⟩
        rintro rfl
        exact hji (hapart j i r.key hj hi)
  · rintro ⟨hk, j, hj⟩
    have hji : j ≠ i := by
      rintro rfl
      rw [hi] at hj
      exact hk (Option.some.inj hj).symm
    exact ⟨j, by rw [keyAt_setPost hne, if_neg hji, hj]⟩

theorem Apart.setPost {f : Floor} (hapart : f.Apart) {i : Nat} (h : f.post i ≠ .ended)
    {p : Post} (hp : ∀ k, p.request?.map Request.key = some k → f.keyAt i = some k ∨ ¬ f.Busy k) :
    (f.setPost i p).Apart := by
  intro a b k ha hb
  rw [keyAt_setPost h] at ha hb
  split at ha
  · next hai =>
      split at hb
      · next hbi => rw [hai, hbi]
      · rcases hp k ha with hi | hfree
        · exact hai.trans (hapart i b k hi hb)
        · exact absurd ⟨b, hb⟩ hfree
  · split at hb
    · next hbi =>
        rcases hp k hb with hi | hfree
        · exact (hapart a i k ha hi).trans hbi.symm
        · exact absurd ⟨a, ha⟩ hfree
    · exact hapart a b k ha hb

/-! ## How a worker comes to where it stands -/

/-- How a worker comes to where it stands after a step, which notes `d`. -/
inductive Stride (f : Floor) (d : List Deed) (i : Nat) : Post → Prop where
  | stayed {p : Post} (same : f.post i = p) : Stride f d i p
  | left (idle : f.post i = .idle) : Stride f d i .ended
  | started {k : String} {r : Request} (idle : f.post i = .idle)
      (stored : f.manager.requests.find? k = some r) : Stride f d i (.reading r none)
  | read {r : Request} {a : Except Error (Option Secret)} (reading : f.post i = .reading r none) :
      Stride f d i (.reading r (some a))
  | reserved {r : Request} {a : Except Error (Option Secret)}
      (reading : f.post i = .reading r (some a)) : Stride f d i (.ordering r)
  | ordered {r : Request} {s : Secret} (ordering : f.post i = .ordering r)
      (unreleased : f.manager.isReleased r.key = false) : Stride f d i (.storing r s none)
  | wrote {r : Request} {s : Secret} (storing : f.post i = .storing r s none)
      (noted : .wrote r.target ∈ d) : Stride f d i (.storing r s (some (.ok ())))
  | unwritten {r : Request} {s : Secret} {e : Error} (storing : f.post i = .storing r s none)
      (noted : .failed r.target ∈ d) : Stride f d i (.storing r s (some (.error e)))
  | recalled {r : Request} {s : Secret} (storing : f.post i = .storing r s (some (.ok ())))
      (released : f.manager.isReleased r.key = true) : Stride f d i (.withdrawing r none)
  | withdrew {r : Request} {a : Except Error Unit} (withdrawing : f.post i = .withdrawing r none)
      (noted : .withdrew r.target ∈ d ∨ .failed r.target ∈ d) :
      Stride f d i (.withdrawing r (some a))
  | failed {r : Request} {a : Except Error (Option Secret)}
      (reading : f.post i = .reading r (some a)) : Stride f d i .idle
  | gaveUp {r : Request}
      (standing : f.post i = .ordering r ∨ ∃ s e, f.post i = .storing r s (some (.error e))) :
      Stride f d i .idle
  | stored {r : Request} {s : Secret} (storing : f.post i = .storing r s (some (.ok ())))
      (unreleased : f.manager.isReleased r.key = false) : Stride f d i .idle
  | cleared {r : Request} {a : Except Error Unit} (withdrawing : f.post i = .withdrawing r (some a)) :
      Stride f d i .idle

theorem stride_move {f g : Floor} {d : List Deed} (hm : Move f g)
    (hd : g.journal = d ++ f.journal) (j : Nat) : Stride f d j (g.post j) := by
  have hd' : ∀ {d'}, g.journal = d' ++ f.journal → d = d' := fun heq =>
    (List.append_left_inj f.journal).1 (hd.symm.trans heq)
  -- it is enough to look at the worker that moves
  have hmoved : ∀ {i p}, f.post i ≠ .ended → g.posts = (f.setPost i p).posts →
      (f.post j = f.post i → Stride f d j p) → Stride f d j (g.post j) := by
    intro i p hi hposts hp
    rw [post_of_posts hi hposts]
    split
    · next hj => exact hp (hj ▸ rfl)
    · exact .stayed rfl
  cases hm with
  | left idle taken =>
      exact hmoved (ne_ended_of_idle idle) rfl fun hj => .left (hj.trans idle)
  | started idle taken some =>
      exact hmoved (ne_ended_of_idle idle) rfl fun hj => .started (hj.trans idle) some
  | read service reading =>
      exact hmoved (by simp [reading]) rfl fun hj => .read (hj.trans reading)
  | @wrote i r s service storing effect =>
      refine hmoved (p := .storing r s _) (by simp [storing]) rfl fun hj => ?_
      have hnoted : d = service.notes r.target ++ [.wrote r.target] :=
        hd' (by rw [List.append_assoc]; rfl)
      cases service with
      | done => exact .wrote (hj.trans storing) (by simp [hnoted])
      | refused e => cases effect
      | lost e => exact .unwritten (hj.trans storing) (by simp [hnoted, Service.notes])
  | @unwritten i r s service storing effect =>
      refine hmoved (p := .storing r s _) (by simp [storing]) rfl fun hj => ?_
      have hnoted : d = service.notes r.target := hd' rfl
      cases service with
      | done => cases effect
      | refused e => exact .unwritten (hj.trans storing) (by simp [hnoted, Service.notes])
      | lost e => cases effect
  | @withdrew i r service withdrawing effect =>
      have hnoted : d = service.notes r.target ++ [.withdrew r.target] :=
        hd' (by rw [List.append_assoc]; rfl)
      exact hmoved (p := .withdrawing r _) (by simp [withdrawing]) rfl fun hj =>
        .withdrew (hj.trans withdrawing) (Or.inl (by simp [hnoted]))
  | @unwithdrawn i r service withdrawing effect =>
      refine hmoved (p := .withdrawing r _) (by simp [withdrawing]) rfl fun hj => ?_
      have hnoted : d = service.notes r.target := hd' rfl
      cases service with
      | done => cases effect
      | refused e =>
          exact .withdrew (hj.trans withdrawing) (Or.inr (by simp [hnoted, Service.notes]))
      | lost e => cases effect
  | failed e reading =>
      exact hmoved (p := .idle) (by simp [reading]) rfl fun hj => .failed (hj.trans reading)
  | reserved reading ours ok =>
      exact hmoved (by simp [reading]) rfl fun hj => .reserved (hj.trans reading)
  | @gaveUp i r result standing why =>
      exact hmoved (p := .idle) (ne_ended_of_request (request_of_standing standing)) rfl
        fun hj => .gaveUp (r := r) (hj ▸ standing)
  | ordered certificate ordering unreleased =>
      exact hmoved (by simp [ordering]) rfl fun hj => .ordered (hj.trans ordering) unreleased
  | recalled storing released =>
      exact hmoved (by simp [storing]) rfl fun hj => .recalled (hj.trans storing) released
  | stored storing unreleased =>
      exact hmoved (p := .idle) (by simp [storing]) rfl fun hj =>
        .stored (hj.trans storing) unreleased
  | cleared withdrawing =>
      exact hmoved (p := .idle) (by simp [withdrawing]) rfl fun hj =>
        .cleared (hj.trans withdrawing)
  | _ => exact .stayed rfl

end IngressTls.Floor
