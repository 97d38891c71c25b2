import Provision.Compile.Compatibility
import Provision.Proofs.Returns
import Provision.Proofs.Tables

/-!
# What adapting leaves of a resource

Adapting goes through the fallbacks, and `AdaptsTo` says how it can go at each of them, whatever the
catalog does. Only nesting a property changes the resource (`AdaptsTo.preserves`), so nothing is
touched but properties with a fallback and what passes them through (`AdaptsTo.untouched`). There is
one fallback only: either the resource stays as it is, or its property is nested, if there is a
mapping to take it (`AdaptsTo.intact_or_nested`).
-/

namespace Provision

open MonadAttach LawfulMonadAttach

namespace Resource

variable {m : Type → Type} [Monad m] [MonadAttach m]

/-- How adapting a resource by fallbacks can go: a fallback is passed over, or what the endpoint
supports is not to be found out, or it supports the property, or the property is nested, or there is
no nesting it. -/
inductive AdaptsTo (catalog : Catalog m) (name : String) :
    List Fallback → Resource → SupportMemo → Adapted → Prop
  | done {r : Resource} {memo : SupportMemo} : AdaptsTo catalog name [] r memo ⟨r, memo, none⟩
  | passedOver {f : Fallback} {fs : List Fallback} {r : Resource} {memo : SupportMemo} {a : Adapted}
      (hnone : r.concern? f = none) (hrest : AdaptsTo catalog name fs r memo a) :
      AdaptsTo catalog name (f :: fs) r memo a
  | unanswered {f : Fallback} {fs : List Fallback} {r : Resource} {memo : SupportMemo}
      {value : Property} {e : ServiceError} (hvalue : r.concern? f = some value)
      (hasked : CanReturn (memo.supported catalog f.type) (.error e)) :
      AdaptsTo catalog name (f :: fs) r memo ⟨r, memo, some (.service e)⟩
  | supported {f : Fallback} {fs : List Fallback} {r : Resource} {memo memo' : SupportMemo}
      {a : Adapted} {value : Property} {properties : NameSet} (hvalue : r.concern? f = some value)
      (hasked : CanReturn (memo.supported catalog f.type) (.ok (properties, memo')))
      (hhas : properties.contains f.property = true)
      (hrest : AdaptsTo catalog name fs r memo' a) : AdaptsTo catalog name (f :: fs) r memo a
  | nested {f : Fallback} {fs : List Fallback} {r r' : Resource} {memo memo' : SupportMemo}
      {a : Adapted} {value : Property} {properties : NameSet} (hvalue : r.concern? f = some value)
      (hasked : CanReturn (memo.supported catalog f.type) (.ok (properties, memo')))
      (hlacks : properties.contains f.property = false)
      (hnest : r.nest name f value = (r', none))
      (hrest : AdaptsTo catalog name fs r' memo' a) : AdaptsTo catalog name (f :: fs) r memo a
  | unnestable {f : Fallback} {fs : List Fallback} {r r' : Resource} {memo memo' : SupportMemo}
      {value : Property} {properties : NameSet} {fault : Fault} (hvalue : r.concern? f = some value)
      (hasked : CanReturn (memo.supported catalog f.type) (.ok (properties, memo')))
      (hlacks : properties.contains f.property = false)
      (hnest : r.nest name f value = (r', some fault)) :
      AdaptsTo catalog name (f :: fs) r memo ⟨r', memo', some fault⟩

variable {catalog : Catalog m} {name : String} {f : Fallback} {fs : List Fallback}
variable {r : Resource} {memo : SupportMemo} {a : Adapted} {value : Property}

theorem adaptsTo_of_canReturn [LawfulMonad m] [LawfulMonadAttach m]
    (h : CanReturn (r.adaptBy catalog name fs memo) a) : AdaptsTo catalog name fs r memo a := by
  induction fs generalizing r memo with
  | nil =>
    cases eq_of_canReturn_pure h
    exact .done
  | cons f fs ih =>
    rw [adaptBy] at h
    split at h
    · rename_i hnone
      exact .passedOver hnone (ih h)
    · rename_i value hvalue
      obtain ⟨result, hasked, h⟩ := canReturn_bind_imp' h
      rcases result with e | ⟨properties, memo'⟩
      · cases eq_of_canReturn_pure h
        exact .unanswered hvalue hasked
      · dsimp only at h
        split at h
        · rename_i hhas
          exact .supported hvalue hasked hhas (ih h)
        · rename_i hlacks
          rw [Bool.not_eq_true] at hlacks
          rcases hnest : r.nest name f value with ⟨r', _ | fault⟩
          · rw [hnest] at h
            exact .nested hvalue hasked hlacks hnest (ih h)
          · rw [hnest] at h
            cases eq_of_canReturn_pure h
            exact .unnestable hvalue hasked hlacks hnest

/-- Only nesting changes a resource. -/
theorem AdaptsTo.preserves {P : Resource → Prop} (h : AdaptsTo catalog name fs r memo a) (hr : P r)
    (hnest : ∀ f ∈ fs, ∀ r value, r.concern? f = some value → P r → P (r.nest name f value).1) :
    P a.resource := by
  induction h with
  | done => exact hr
  | unanswered => exact hr
  | passedOver _ _ ih | supported _ _ _ _ ih => exact ih hr (List.forall_mem_cons.1 hnest).2
  | nested hvalue _ _ heq _ ih =>
    obtain ⟨hfirst, hrest⟩ := List.forall_mem_cons.1 hnest
    have hr' := hfirst _ _ hvalue hr
    rw [heq] at hr'
    exact ih hr' hrest
  | unnestable hvalue _ _ heq =>
    have hr' := (List.forall_mem_cons.1 hnest).1 _ _ hvalue hr
    rwa [heq] at hr'

theorem type_nest : (r.nest name f value).1.type = r.type := by
  unfold nest
  dsimp only
  repeat' split
  all_goals rfl

theorem get?_nest {key : String} (hp : key ≠ f.property) (hp' : key ≠ f.passthrough) :
    (r.nest name f value).1.properties.get? key = r.properties.get? key := by
  have hget : (r.properties.erase f.property).get? key = r.properties.get? key :=
    Table.get?_erase.trans (if_neg hp)
  unfold nest
  dsimp only
  split
  · exact (Table.get?_put.trans (if_neg hp')).trans hget
  · exact (Table.get?_put.trans (if_neg hp')).trans hget
  · exact hget

theorem get?_property_nest (r : Resource) (name : String) (value : Property)
    (hp : f.property ≠ f.passthrough) :
    (r.nest name f value).1.properties.get? f.property = none := by
  have hget : (r.properties.erase f.property).get? f.property = none :=
    Table.get?_erase.trans (if_pos rfl)
  unfold nest
  dsimp only
  split
  · exact (Table.get?_put.trans (if_neg hp)).trans hget
  · exact (Table.get?_put.trans (if_neg hp)).trans hget
  · exact hget

theorem concern?_eq_some_iff :
    r.concern? f = some value ↔ r.type = f.type ∧ r.properties.get? f.property = some value := by
  unfold concern?
  split
  · rename_i htype
    rw [and_iff_right htype]
  · rename_i htype
    simp [htype]

theorem AdaptsTo.type (h : AdaptsTo catalog name fs r memo a) : a.resource.type = r.type :=
  h.preserves (P := fun r' => r'.type = r.type) rfl fun _ _ _ _ _ hr => type_nest.trans hr

/-- With or without a fault, only properties with a fallback for the type are touched, and what
passes them through. -/
theorem AdaptsTo.untouched (h : AdaptsTo catalog name fs r memo a) {key : String}
    (hkey : ∀ f ∈ fs, f.type = r.type → key ≠ f.property ∧ key ≠ f.passthrough) :
    a.resource.properties.get? key = r.properties.get? key := by
  have hall : a.resource.type = r.type
      ∧ a.resource.properties.get? key = r.properties.get? key := by
    refine h.preserves (P := fun r' => r'.type = r.type
      ∧ r'.properties.get? key = r.properties.get? key) ⟨rfl, rfl⟩ fun f hf r' value hvalue hr => ?_
    obtain ⟨hne, hne'⟩ := hkey f hf ((concern?_eq_some_iff.1 hvalue).1.symm.trans hr.1)
    exact ⟨type_nest.trans hr.1, (get?_nest hne hne').trans hr.2⟩
  exact hall.2

/-- Adapting by a single fallback leaves the resource as it is, or nests the property. -/
theorem AdaptsTo.intact_or_nested (h : AdaptsTo catalog name [f] r memo a) :
    (a.resource = r ∧ (a.fault = none ∨ ∃ e, a.fault = some (.service e)))
      ∨ ∃ value, r.concern? f = some value ∧ (a.resource, a.fault) = r.nest name f value := by
  cases h with
  | passedOver hnone hrest =>
    cases hrest
    exact .inl ⟨rfl, .inl rfl⟩
  | unanswered hvalue hasked => exact .inl ⟨rfl, .inr ⟨_, rfl⟩⟩
  | supported hvalue hasked hhas hrest =>
    cases hrest
    exact .inl ⟨rfl, .inl rfl⟩
  | nested hvalue hasked hlacks hnest hrest =>
    cases hrest
    exact .inr ⟨_, hvalue, hnest.symm⟩
  | unnestable hvalue hasked hlacks hnest => exact .inr ⟨_, hvalue, hnest.symm⟩

section Nest

/-- The mapping that the passthrough takes more entries into: none yet if there is no such property,
and there is none to take them if it is something else. -/
def passed? (r : Resource) (f : Fallback) : Option (List (String × Property)) :=
  match r.properties.get? f.passthrough with
  | none => some []
  | some (.map es) => some es
  | some _ => none

theorem passed?_eq_none (h : r.passed? f = none) :
    ∃ other, r.properties.get? f.passthrough = some other ∧ ∀ es, other ≠ .map es := by
  unfold passed? at h
  split at h
  · cases h
  · cases h
  · rename_i other hmap hother
    exact ⟨other, hother, fun es hes => hmap es hes⟩

theorem of_passed?_eq_some {es : List (String × Property)} (h : r.passed? f = some es) :
    (r.properties.get? f.passthrough = none ∧ es = [])
      ∨ r.properties.get? f.passthrough = some (.map es) := by
  unfold passed? at h
  split at h
  · rename_i hnone
    cases h
    exact .inl ⟨hnone, rfl⟩
  · rename_i hmap
    cases h
    exact .inr hmap
  · cases h

variable (name : String) (value : Property) (hp : f.property ≠ f.passthrough)
include hp

theorem nest_of_passed {es : List (String × Property)} (h : r.passed? f = some es) :
    r.nest name f value
      = (({ r with properties := r.properties.erase f.property } : Resource).set f.passthrough
          (.map (Entries.put f.property value es)), none) := by
  have hget : (r.properties.erase f.property).get? f.passthrough
      = r.properties.get? f.passthrough := Table.get?_erase.trans (if_neg (Ne.symm hp))
  unfold nest
  dsimp only
  rw [hget]
  rcases of_passed?_eq_some h with ⟨hnone, rfl⟩ | hmap
  · rw [hnone]
    rfl
  · rw [hmap]

theorem nest_of_unpassed (h : r.passed? f = none) :
    ∃ other, r.properties.get? f.passthrough = some other ∧ (∀ es, other ≠ .map es)
      ∧ r.nest name f value = ({ r with properties := r.properties.erase f.property },
        some (.invalidCapability name (.passthroughNoMapping f.passthrough other.debug))) := by
  obtain ⟨other, hother, hmap⟩ := passed?_eq_none h
  refine ⟨other, hother, hmap, ?_⟩
  have hget : (r.properties.erase f.property).get? f.passthrough = some other :=
    (Table.get?_erase.trans (if_neg (Ne.symm hp))).trans hother
  unfold nest
  dsimp only
  rw [hget]
  split
  · rename_i heq
    cases heq
  · rename_i es heq
    cases heq
    exact absurd rfl (hmap es)
  · rename_i heq
    cases heq
    rfl

end Nest

theorem property_ne_passthrough (hf : f ∈ fallbacks) : f.property ≠ f.passthrough := by
  obtain rfl := List.mem_singleton.1 hf
  decide

/-- There is one fallback only. -/
theorem adaptsTo_of_adapt [LawfulMonad m] [LawfulMonadAttach m] (hf : f ∈ fallbacks)
    (h : CanReturn (r.adapt catalog name memo) a) : AdaptsTo catalog name [f] r memo a := by
  obtain rfl := List.mem_singleton.1 hf
  exact adaptsTo_of_canReturn h

end Resource

end Provision
