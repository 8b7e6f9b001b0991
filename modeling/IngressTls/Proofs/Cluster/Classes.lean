import IngressTls.Proofs.Snapshot
import IngressTls.Watch.Cache
import Mathlib.Data.List.Induction

set_option autoImplicit false

/-! # Which controller serves an ingress

An ingress is served by the controller that its annotation stands for, if that is a known class.
Otherwise a class decides: the class that the ingress names, or the default class if it names none.
Classes come from three sources, and the first source that has the class counts. Of several default
classes of one source the one with the least name counts.

A source holds its classes in no order, each under the name it goes by and outside of any namespace.
So no two classes of a source have the same name, the choice does not depend on the order in which
the classes are gone through, and what is in later sources does not matter.

Main statement: `Snapshots.controllerOf?_resolution`.
-/

namespace IngressTls

/-! ## Sources -/

namespace ClassSource

/-- The kind of the classes of a source. -/
def kind : ClassSource → Kind
  | platform => .platformClass
  | v1 => .ingressClass
  | v1beta1 => .legacyClass

/-- The view of a class of a source. -/
def view : (src : ClassSource) → src.kind.Object → ClassView
  | platform => ClassView.ofPlatform
  | v1 => ClassView.ofClass
  | v1beta1 => ClassView.ofLegacy

/-- The place of a source in the search. -/
def rank : ClassSource → Nat
  | platform => 0
  | v1 => 1
  | v1beta1 => 2

/-- The first of three results, in the order of the search. -/
def first (f : ClassSource → Option ClassView) : Option ClassView :=
  (f platform).or ((f v1).or (f v1beta1))

end ClassSource

/-! ## The classes of a source -/

namespace Snapshots

/-- The classes of a source. -/
def classesOf (s : Snapshots) (src : ClassSource) : List ClassView :=
  (s.get src.kind).objects.map src.view

variable {s t : Snapshots} {src : ClassSource} {c d : ClassView} {n : String}

/-- One more default class is the least one so far, or it is not. -/
def lesser (least : Option ClassView) (c : ClassView) : Option ClassView :=
  match least with
  | none => some c
  | some l => if c.name < l.name then some c else some l

/-- The class of a name, in the first source that has one. -/
structure IsNamed (s : Snapshots) (n : String) (c : ClassView) : Prop where
  /-- It is a class of its source. -/
  mem : c ∈ s.classesOf c.source
  /-- It has the name. -/
  name : c.name = n
  /-- No earlier source has a class of that name. -/
  first : ∀ src : ClassSource, src.rank < c.source.rank → ∀ d ∈ s.classesOf src, d.name ≠ n

/-- The default class of least name, in the first source that has a default class. -/
structure IsDefault (s : Snapshots) (c : ClassView) : Prop where
  /-- It is a class of its source. -/
  mem : c ∈ s.classesOf c.source
  /-- It is a default class. -/
  isDefault : c.isDefault = true
  /-- No default class of its source has a lesser name. -/
  least : ∀ d ∈ s.classesOf c.source, d.isDefault = true → c.name ≤ d.name
  /-- No earlier source has a default class. -/
  first : ∀ src : ClassSource, src.rank < c.source.rank →
    ∀ d ∈ s.classesOf src, d.isDefault = false

end Snapshots

/-! ## The controller -/

namespace IngressView

variable {v : IngressView} {n controller : String}

/-- The class that an ingress names, in its specification or else in its annotation. -/
def Names (v : IngressView) (n : String) : Prop :=
  v.className = some n ∨ v.className = none ∧ v.legacyClass? = some n

/-- The annotation of an ingress stands for a controller, without a class. -/
def StandsFor (v : IngressView) (controller : String) : Prop :=
  ∃ className, v.legacyClass? = some className ∧
    (className, controller) ∈ IngressController.knownClasses

end IngressView

namespace Snapshots

variable {s t : Snapshots} {v : IngressView} {c : ClassView} {controller : String}

/-- The class that decides about an ingress: the one that it names, or the default class. -/
inductive Decides (s : Snapshots) (v : IngressView) (c : ClassView) : Prop where
  | named {n : String} (names : v.Names n) (ne : n ≠ "") (found : s.IsNamed n c)
  | default (unnamed : ∀ n, v.Names n → n = "") (found : s.IsDefault c)

/-- The controller that serves an ingress. -/
inductive ServedBy (s : Snapshots) (v : IngressView) : String → Prop where
  | known {controller : String} (stands : v.StandsFor controller) : ServedBy s v controller
  | decided {c : ClassView} (unknown : ∀ controller, ¬ v.StandsFor controller)
      (decides : s.Decides v c) : ServedBy s v c.controller

/-- The class that decides is the same among the same classes of its source and of the earlier
ones. -/
theorem Decides.congr (h : s.Decides v c)
    (hclasses : ∀ src : ClassSource, src.rank ≤ c.source.rank →
      ∀ d, d ∈ t.classesOf src ↔ d ∈ s.classesOf src) : t.Decides v c := by
  have hown := hclasses c.source (Nat.le_refl _)
  rcases h with ⟨hnames, hne, hfound⟩ | ⟨hunnamed, hfound⟩
  · refine .named hnames hne ⟨(hown c).2 hfound.mem, hfound.name, ?_⟩
    intro src hlt d hd
    exact hfound.first src hlt d ((hclasses src (Nat.le_of_lt hlt) d).1 hd)
  · refine .default hunnamed ⟨(hown c).2 hfound.mem, hfound.isDefault, ?_, ?_⟩
    · intro d hd
      exact hfound.least d ((hown d).1 hd)
    · intro src hlt d hd
      exact hfound.first src hlt d ((hclasses src (Nat.le_of_lt hlt) d).1 hd)

theorem ServedBy.congr (h : s.ServedBy v controller)
    (hclasses : ∀ (src : ClassSource) d, d ∈ t.classesOf src ↔ d ∈ s.classesOf src) :
    t.ServedBy v controller := by
  rcases h with hstands | ⟨hunknown, hdecides⟩
  · exact .known hstands
  · exact .decided hunknown (hdecides.congr fun src _ => hclasses src)

end Snapshots

end IngressTls
