import IngressTls.Proofs.Resource.Metadata
import IngressTls.View

set_option autoImplicit false

/-! # Resources survive being written

The types that are not built in are read from documents of several forms, with members missing,
null, unknown or in a list, but written in one. What is written of a specification is read back as
the same specification. What is written of an object that was read is read back as the same object,
so that it is seen as before, and is written again as the same document.

Main statement: `ResourceType.survives_writing`.
-/

namespace IngressTls

open Json (Inverse inverse_string)

/-! ## Specifications -/

namespace RouteDomain

theorem writtenAs (d : RouteDomain) : d.toJson.WrittenAs
    [("main", some (.string d.main)), ("sans", Json.listed .string d.sans)] := by
  refine ⟨?_, by simp⟩
  rw [toJson, Json.nonempty_eq]
  rfl

theorem inverse : Inverse ofJson? toJson := by
  refine ⟨fun d => ?_, fun _ => rfl⟩
  have h := d.writtenAs
  refine Option.bind_eq_some_iff.2 ⟨_, h.asRecord _, ?_⟩
  refine Option.bind_eq_some_iff.2
    ⟨d.main, inverse_string.defaulted (h.occurrences (by simp)), ?_⟩
  exact Option.bind_eq_some_iff.2
    ⟨d.sans, inverse_string.defaulted_listed (h.occurrences (by simp)), rfl⟩

end RouteDomain

namespace RouteTls

theorem writtenAs (t : RouteTls) : t.toJson.WrittenAs
    [("secretName", t.secretName.map .string),
     ("domains", Json.listed RouteDomain.toJson t.domains)] := by
  refine ⟨?_, by simp⟩
  rw [toJson, Json.present_eq, Json.nonempty_eq]
  rfl

theorem inverse : Inverse ofJson? toJson := by
  refine ⟨fun t => ?_, fun _ => rfl⟩
  have h := t.writtenAs
  refine Option.bind_eq_some_iff.2 ⟨_, h.asRecord _, ?_⟩
  refine Option.bind_eq_some_iff.2
    ⟨t.secretName, inverse_string.optional (h.occurrences (by simp)), ?_⟩
  exact Option.bind_eq_some_iff.2
    ⟨t.domains, RouteDomain.inverse.defaulted_listed (h.occurrences (by simp)), rfl⟩

end RouteTls

namespace RouteRule

theorem writtenAs (r : RouteRule) : r.toJson.WrittenAs
    [("match", some (.string r.matchRule)), ("kind", r.kind.map .string)] := by
  refine ⟨?_, by simp⟩
  rw [toJson, Json.present_eq]
  rfl

theorem inverse : Inverse ofJson? toJson := by
  refine ⟨fun r => ?_, fun _ => rfl⟩
  have h := r.writtenAs
  refine Option.bind_eq_some_iff.2 ⟨_, h.asRecord _, ?_⟩
  refine Option.bind_eq_some_iff.2
    ⟨r.matchRule, inverse_string.required (h.occurrences (by simp)), ?_⟩
  exact Option.bind_eq_some_iff.2
    ⟨r.kind, inverse_string.optional (h.occurrences (by simp)), rfl⟩

end RouteRule

namespace RouteSpec

theorem writtenAs (s : RouteSpec) : s.toJson.WrittenAs
    [("entryPoints", Json.listed .string s.entryPoints),
     ("routes", some (.array (s.routes.map RouteRule.toJson))),
     ("tls", s.tls.map RouteTls.toJson)] := by
  refine ⟨?_, by simp⟩
  rw [toJson, Json.nonempty_eq, Json.present_eq]
  rfl

theorem inverse : Inverse ofJson? toJson := by
  refine ⟨fun s => ?_, fun _ => rfl⟩
  have h := s.writtenAs
  refine Option.bind_eq_some_iff.2 ⟨_, h.asRecord _, ?_⟩
  refine Option.bind_eq_some_iff.2
    ⟨s.entryPoints, inverse_string.defaulted_listed (h.occurrences (by simp)), ?_⟩
  refine Option.bind_eq_some_iff.2
    ⟨s.routes, RouteRule.inverse.listOf.defaulted (h.occurrences (by simp)), ?_⟩
  exact Option.bind_eq_some_iff.2
    ⟨s.tls, RouteTls.inverse.optional (h.occurrences (by simp)), rfl⟩

end RouteSpec

namespace LegacyTlsEntry

theorem writtenAs (e : LegacyTlsEntry) : e.toJson.WrittenAs
    [("hosts", Json.listed .string e.hosts), ("secretName", e.secretName.map .string)] := by
  refine ⟨?_, by simp⟩
  rw [toJson, Json.nonempty_eq, Json.present_eq]
  rfl

theorem inverse : Inverse ofJson? toJson := by
  refine ⟨fun e => ?_, fun _ => rfl⟩
  have h := e.writtenAs
  refine Option.bind_eq_some_iff.2 ⟨_, h.asRecord _, ?_⟩
  refine Option.bind_eq_some_iff.2
    ⟨e.hosts, inverse_string.defaulted_listed (h.occurrences (by simp)), ?_⟩
  exact Option.bind_eq_some_iff.2
    ⟨e.secretName, inverse_string.optional (h.occurrences (by simp)), rfl⟩

end LegacyTlsEntry

namespace LegacyIngressSpec

theorem writtenAs (s : LegacyIngressSpec) : s.toJson.WrittenAs
    [("ingressClassName", s.className.map .string),
     ("tls", Json.listed LegacyTlsEntry.toJson s.tls)] := by
  refine ⟨?_, by simp⟩
  rw [toJson, Json.present_eq, Json.nonempty_eq]
  rfl

theorem inverse : Inverse ofJson? toJson := by
  refine ⟨fun s => ?_, fun _ => rfl⟩
  have h := s.writtenAs
  refine Option.bind_eq_some_iff.2 ⟨_, h.asRecord _, ?_⟩
  refine Option.bind_eq_some_iff.2
    ⟨s.className, inverse_string.optional (h.occurrences (by simp)), ?_⟩
  exact Option.bind_eq_some_iff.2
    ⟨s.tls, LegacyTlsEntry.inverse.defaulted_listed (h.occurrences (by simp)), rfl⟩

end LegacyIngressSpec

theorem ClassSpec.writtenAs (s : ClassSpec) :
    s.toJson.WrittenAs [("controller", some (.string s.controller))] := ⟨rfl, by simp⟩

theorem PlatformClass.inverse : Inverse spec? ClassSpec.toJson := by
  refine ⟨fun s => ?_, fun _ => rfl⟩
  unfold spec?
  refine Option.bind_eq_some_iff.2 ⟨_, s.writtenAs.asRecord _, ?_⟩
  exact Option.bind_eq_some_iff.2
    ⟨s.controller, inverse_string.required (s.writtenAs.occurrences (by simp)), rfl⟩

theorem LegacyClass.inverse : Inverse spec? ClassSpec.toJson := by
  refine ⟨fun s => ?_, fun _ => rfl⟩
  unfold spec?
  refine Option.bind_eq_some_iff.2 ⟨_, s.writtenAs.asRecord _, ?_⟩
  exact Option.bind_eq_some_iff.2
    ⟨s.controller, inverse_string.defaulted (s.writtenAs.occurrences (by simp)), rfl⟩

/-! ## Objects -/

/-- Reads an object that has metadata and a specification. -/
def resource? {Spec Object : Type} (spec? : Json → Option Spec) (mk : Metadata → Spec → Object)
    (j : Json) : Option Object := do
  let j ← j.asRecord ["metadata", "spec"]
  let metadata ← j.required "metadata" Metadata.ofJson?
  let spec ← j.required "spec" spec?
  return mk metadata spec

theorem writtenAs_resourceJson (apiVersion kind : String) (metadata spec : Json) :
    (resourceJson apiVersion kind metadata spec).WrittenAs
      [("apiVersion", some (.string apiVersion)), ("kind", some (.string kind)),
       ("metadata", some metadata), ("spec", some spec)] :=
  ⟨rfl, by simp⟩

/-- How the objects of a type are read, written and seen. -/
structure ResourceType where
  /-- The specifications. -/
  Spec : Type
  /-- The objects. -/
  Object : Type
  /-- What the controller knows of an object. -/
  View : Type
  /-- Reads a specification. -/
  spec? : Json → Option Spec
  /-- Writes a specification. -/
  specJson : Spec → Json
  /-- Reads an object. -/
  object? : Json → Option Object
  /-- Writes an object. -/
  objectJson : Object → Json
  /-- The specification of an object. -/
  spec : Object → Spec
  /-- The view of an object. -/
  view : Object → View

namespace ResourceType

/-- Ingress routes. -/
def route : ResourceType :=
  ⟨RouteSpec, IngressRoute, RouteView, RouteSpec.ofJson?, RouteSpec.toJson, IngressRoute.ofJson?,
    IngressRoute.toJson, IngressRoute.spec, RouteView.ofRoute⟩

/-- The ingress classes of the platform. -/
def platformClass : ResourceType :=
  ⟨ClassSpec, PlatformClass, ClassView, PlatformClass.spec?, ClassSpec.toJson,
    PlatformClass.ofJson?, PlatformClass.toJson, PlatformClass.spec, ClassView.ofPlatform⟩

/-- Ingresses of version `v1beta1`. -/
def legacyIngress : ResourceType :=
  ⟨LegacyIngressSpec, LegacyIngress, IngressView, LegacyIngressSpec.ofJson?,
    LegacyIngressSpec.toJson, LegacyIngress.ofJson?, LegacyIngress.toJson, LegacyIngress.spec,
    IngressView.ofLegacy⟩

/-- Ingress classes of version `v1beta1`. -/
def legacyClass : ResourceType :=
  ⟨ClassSpec, LegacyClass, ClassView, LegacyClass.spec?, ClassSpec.toJson, LegacyClass.ofJson?,
    LegacyClass.toJson, LegacyClass.spec, ClassView.ofLegacy⟩

/-- The types that are not built in. -/
def custom : List ResourceType := [route, platformClass, legacyIngress, legacyClass]

/-- An object of the type is its metadata and its specification, and both are read and written one
after the other. -/
structure Composed (t : ResourceType) (mk : Metadata → t.Spec → t.Object)
    (apiVersion kind : String) : Prop where
  /-- Specifications are read back. -/
  inverse : Inverse t.spec? t.specJson
  /-- What an object is read from. -/
  object?_eq : ∀ j, t.object? j = resource? t.spec? mk j
  /-- What an object is written as. -/
  objectJson_mk : ∀ metadata spec, t.objectJson (mk metadata spec) =
    resourceJson apiVersion kind metadata.toJson (t.specJson spec)
  /-- The specification of an object. -/
  spec_mk : ∀ metadata spec, t.spec (mk metadata spec) = spec

variable {t : ResourceType} {mk : Metadata → t.Spec → t.Object} {apiVersion kind : String}
  {j : Json} {o : t.Object}

/-- An object is read back as it was if its metadata is. -/
theorem Composed.object?_mk (h : t.Composed mk apiVersion kind) {metadata : Metadata}
    (hmetadata : Metadata.ofJson? metadata.toJson = some metadata) (spec : t.Spec) :
    t.object? (t.objectJson (mk metadata spec)) = some (mk metadata spec) := by
  have hwritten := writtenAs_resourceJson apiVersion kind metadata.toJson (t.specJson spec)
  rw [h.object?_eq, h.objectJson_mk]
  unfold resource?
  refine Option.bind_eq_some_iff.2 ⟨_, hwritten.asRecord _, ?_⟩
  refine Option.bind_eq_some_iff.2
    ⟨metadata, Json.required_of_toList hmetadata (hwritten.occurrences (by simp)), ?_⟩
  exact Option.bind_eq_some_iff.2
    ⟨spec, h.inverse.required (hwritten.occurrences (by simp)), rfl⟩

/-- An object that was read is read back as it was. -/
theorem Composed.object?_objectJson (h : t.Composed mk apiVersion kind)
    (ho : t.object? j = some o) : t.object? (t.objectJson o) = some o := by
  rw [h.object?_eq] at ho
  obtain ⟨j, -, ho⟩ := Option.bind_eq_some_iff.1 ho
  obtain ⟨metadata, hmetadata, ho⟩ := Option.bind_eq_some_iff.1 ho
  obtain ⟨spec, -, ho⟩ := Option.bind_eq_some_iff.1 ho
  cases ho
  obtain ⟨v, hv⟩ := Json.exists_of_required hmetadata
  exact h.object?_mk (Metadata.ofJson?_toJson hv) spec

theorem exists_composed (h : t ∈ custom) : ∃ mk apiVersion kind, t.Composed mk apiVersion kind := by
  rw [custom, List.mem_cons, List.mem_cons, List.mem_cons, List.mem_singleton] at h
  rcases h with rfl | rfl | rfl | rfl
  · exact ⟨IngressRoute.mk, _, _, RouteSpec.inverse, fun _ => rfl, fun _ _ => rfl, fun _ _ => rfl⟩
  · exact ⟨PlatformClass.mk, _, _, PlatformClass.inverse, fun _ => rfl, fun _ _ => rfl,
      fun _ _ => rfl⟩
  · exact ⟨LegacyIngress.mk, _, _, LegacyIngressSpec.inverse, fun _ => rfl, fun _ _ => rfl,
      fun _ _ => rfl⟩
  · exact ⟨LegacyClass.mk, _, _, LegacyClass.inverse, fun _ => rfl, fun _ _ => rfl,
      fun _ _ => rfl⟩

/-- What is written of a specification is read back as this specification, and there is an object
with it that is read back as well. What is written of an object that was read, from whatever
document, is read back as an object with the same specification and the same view, and is written
again as the same document. -/
theorem survives_writing {t : ResourceType} (h : t ∈ custom) :
    (∀ s, t.spec? (t.specJson s) = some s ∧
      ∃ o, t.spec o = s ∧ t.object? (t.objectJson o) = some o) ∧
    ∀ j o, t.object? j = some o → ∃ o', t.object? (t.objectJson o) = some o' ∧
      t.spec o' = t.spec o ∧ t.objectJson o' = t.objectJson o ∧ t.view o' = t.view o := by
  obtain ⟨mk, apiVersion, kind, hcomposed⟩ := exists_composed h
  have hempty : Metadata.ofJson? Metadata.empty.toJson = some Metadata.empty := rfl
  refine ⟨fun s => ⟨hcomposed.inverse.read_write s, mk .empty s, hcomposed.spec_mk _ s,
    hcomposed.object?_mk hempty s⟩, fun j o ho => ?_⟩
  exact ⟨o, hcomposed.object?_objectJson ho, rfl, rfl, rfl⟩

/-- A route that is written as a list, with unknown members, nulls and a time in another form. -/
def looseRoute : Json :=
  .array
    [.object
      [("name", .string "web"), ("labels", .null), ("unknown", .bool true),
        ("creationTimestamp", .string "2024-2-29 23:30:60.5z")],
     .object
      [("routes", .array [.array [.string "Host(`a.com`)"]]), ("unknown", .null),
        ("tls", .array [.null, .array [.object [("sans", .array [])]]])]]

/-- How it is written. -/
def plainRoute : Json :=
  resourceJson "traefik.containo.us/v1alpha1" "IngressRoute"
    (.object [("name", .string "web"), ("creationTimestamp", .string "2024-02-29T23:30:60Z")])
    (.object
      [("routes", .array [.object [("match", .string "Host(`a.com`)")]]),
        ("tls", .object [("domains", .array [.object [("main", .string "")]])])])

theorem survives_writing_looseRoute : ∃ o o' : IngressRoute, IngressRoute.ofJson? looseRoute = some o ∧
    o.toJson = plainRoute ∧ IngressRoute.ofJson? plainRoute = some o' ∧ o'.spec = o.spec ∧
    o'.toJson = plainRoute ∧ RouteView.ofRoute o' = RouteView.ofRoute o := by
  have hread : IngressRoute.ofJson? looseRoute =
      some ((IngressRoute.ofJson? looseRoute).getD default) := rfl
  have hwrite : ((IngressRoute.ofJson? looseRoute).getD default).toJson = plainRoute := rfl
  obtain ⟨o', ho', hspec, hagain, hview⟩ := (survives_writing (t := route) List.mem_cons_self).2 _ _ hread
  refine ⟨_, o', hread, hwrite, ?_, hspec, hagain.trans hwrite, hview⟩
  rw [← hwrite]
  exact ho'

end ResourceType

end IngressTls
