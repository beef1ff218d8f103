import SignalTree.Node.Record

/-!
The properties of a node, set one step at a time.

A step says which attribute it sets, and one without a value sets nothing. Of an attribute the
last step that has a value for it decides, whatever the steps for other attributes are and
wherever they stand: `steps_settle_properties`.
-/
namespace SignalTree

def Attribute.Before (a b : Attribute) : Prop := a.ctorIdx < b.ctorIdx

instance : DecidableRel Attribute.Before := fun _ _ => inferInstanceAs (Decidable (_ < _))

theorem Attribute.pairwise_all : Attribute.all.Pairwise Attribute.Before := by decide

/-- One attribute to set. A bound comes with the datatype it is a value of. -/
inductive PropertyStep where
  | description (value : String)
  | comment (value : String)
  | datatype (value : String)
  | unit (value : String)
  | min (value type : String)
  | max (value type : String)

namespace PropertyStep

def apply (p : Properties) : PropertyStep → Properties
  | description v => p.withDescription v
  | comment v => p.withComment v
  | datatype v => p.withDatatype v
  | unit v => p.withUnit v
  | min v t => p.withMin v t
  | max v t => p.withMax v t

def key : PropertyStep → Attribute
  | description _ => .description
  | comment _ => .comment
  | datatype _ => .datatype
  | unit _ => .unit
  | min _ _ => .min
  | max _ _ => .max

def value : PropertyStep → String
  | description v | comment v | datatype v | unit v | min v _ | max v _ => v

def type : PropertyStep → ValueType
  | description _ | comment _ | unit _ => .scalar .string
  | datatype v => .ofDatatype v
  | min _ t | max _ t => .ofDatatype t

def property (s : PropertyStep) : Property := ⟨s.key, s.value, s.type⟩

/-- The step has a value, and a bound has a datatype as well. -/
def Gives : PropertyStep → Prop
  | description v | comment v | datatype v | unit v => v ≠ ""
  | min v t | max v t => v ≠ "" ∧ t ≠ ""

instance (s : PropertyStep) : Decidable s.Gives := by
  cases s <;> unfold Gives <;> infer_instance

end PropertyStep

namespace Properties

def build (uuid kind : String) (steps : List PropertyStep) : Properties :=
  steps.foldl PropertyStep.apply (new uuid kind)

private theorem replace_of_ne {α : Type} (old : Option α) {value : String} (new : α)
    (h : value ≠ "") : replace old value new = some new := by simp [replace, h]

private theorem replaceBound_of_ne (old : Option Bound) {value datatype : String}
    (h : value ≠ "" ∧ datatype ≠ "") :
    replaceBound old value datatype = some ⟨value, .ofDatatype datatype⟩ := by
  simp [replaceBound, replace, h.1, h.2]

private theorem replaceBound_of_not (old : Option Bound) {value datatype : String}
    (h : ¬(value ≠ "" ∧ datatype ≠ "")) : replaceBound old value datatype = old := by
  by_cases hd : datatype = ""
  · subst hd
    rfl
  · obtain rfl : value = "" := Decidable.byContradiction fun hv => h ⟨hv, hd⟩
    simp [replaceBound, replace]

private theorem text_inj {a : Attribute} {type : String → ValueType} {old new : Option String}
    (h : old.map (fun v => Property.mk a v (type v)) = new.map (fun v => ⟨a, v, type v⟩)) :
    old = new := by
  refine (Option.map_inj_right fun v w hvw => ?_).mp h
  exact congrArg Property.value hvw

private theorem bound_inj {a : Attribute} {old new : Option Bound}
    (h : old.map (fun b => Property.mk a b.value b.type) =
      new.map (fun b => ⟨a, b.value, b.type⟩)) : old = new := by
  refine (Option.map_inj_right fun b c hbc => ?_).mp h
  obtain ⟨-, hvalue, htype⟩ := Property.mk.inj hbc
  cases b
  cases c
  exact Bound.mk.injEq .. ▸ ⟨hvalue, htype⟩

theorem ext_get? {p q : Properties} (h : ∀ a, p.get? a = q.get? a) : p = q := by
  have huuid : p.uuid = q.uuid := congrArg Property.value (Option.some.inj (h .uuid))
  have hkind : p.kind = q.kind := congrArg Property.value (Option.some.inj (h .type))
  cases p
  cases q
  simp only [Properties.mk.injEq]
  exact ⟨huuid, hkind, text_inj (h .description), text_inj (h .comment), text_inj (h .datatype),
    text_inj (h .unit), bound_inj (h .min), bound_inj (h .max)⟩

theorem get?_apply_of_ne (p : Properties) {s : PropertyStep} {a : Attribute} (h : s.key ≠ a) :
    (s.apply p).get? a = p.get? a := by
  cases s <;> cases a <;> first | rfl | exact absurd rfl h

theorem get?_apply_key (p : Properties) {s : PropertyStep} (h : s.Gives) :
    (s.apply p).get? s.key = some s.property := by
  cases s with
  | description v => exact congrArg (Option.map _) (replace_of_ne p.description v h)
  | comment v => exact congrArg (Option.map _) (replace_of_ne p.comment v h)
  | datatype v => exact congrArg (Option.map _) (replace_of_ne p.datatype v h)
  | unit v => exact congrArg (Option.map _) (replace_of_ne p.unit v h)
  | min v t => exact congrArg (Option.map _) (replaceBound_of_ne p.min h)
  | max v t => exact congrArg (Option.map _) (replaceBound_of_ne p.max h)

theorem apply_of_not_gives (p : Properties) {s : PropertyStep} (h : ¬s.Gives) : s.apply p = p := by
  cases s with
  | description v | comment v | datatype v | unit v =>
    obtain rfl : v = "" := Decidable.not_not.mp h
    rfl
  | min v t => rw [PropertyStep.apply, withMin, replaceBound_of_not p.min h]
  | max v t => rw [PropertyStep.apply, withMax, replaceBound_of_not p.max h]

theorem get?_apply (p : Properties) (s : PropertyStep) (a : Attribute) :
    (s.apply p).get? a = if s.key = a ∧ s.Gives then some s.property else p.get? a := by
  by_cases hkey : s.key = a
  · subst hkey
    by_cases hgives : s.Gives
    · rw [get?_apply_key p hgives, if_pos ⟨rfl, hgives⟩]
    · rw [apply_of_not_gives p hgives, if_neg fun h => hgives h.2]
  · rw [get?_apply_of_ne p hkey, if_neg fun h => hkey h.1]

/-- Each attribute has the value of the last step that gives one, if any does. -/
theorem get?_foldl_apply (p : Properties) (steps : List PropertyStep) (a : Attribute) :
    (steps.foldl PropertyStep.apply p).get? a =
      ((steps.filter fun s => s.key = a ∧ s.Gives).getLast?.map PropertyStep.property).or
        (p.get? a) := by
  induction steps generalizing p with
  | nil => rfl
  | cons s steps ih =>
    rw [List.foldl_cons, ih, get?_apply]
    by_cases h : s.key = a ∧ s.Gives
    · rw [if_pos h, List.filter_cons_of_pos (by simpa using h), List.getLast?_cons]
      cases (steps.filter fun s => s.key = a ∧ s.Gives).getLast? <;> rfl
    · rw [if_neg h, List.filter_cons_of_neg (by simpa using h)]

theorem get?_new {uuid kind : String} {a : Attribute} (huuid : a ≠ .uuid) (htype : a ≠ .type) :
    (new uuid kind).get? a = none := by
  cases a <;> first | rfl | contradiction

theorem pairwise_toList (p : Properties) :
    p.toList.Pairwise fun x y => x.key.Before y.key := by
  refine List.pairwise_filterMap.mpr (Attribute.pairwise_all.imp fun hab x hx y hy => ?_)
  rw [key_of_get? hx, key_of_get? hy]
  exact hab

theorem mem_toList_and_key {p : Properties} {x : Property} {a : Attribute} :
    x ∈ p.toList ∧ x.key = a ↔ p.get? a = some x := by
  rw [mem_toList]
  constructor
  · rintro ⟨hx, rfl⟩
    exact hx
  · intro hx
    obtain rfl := key_of_get? hx
    exact ⟨hx, rfl⟩

theorem mem_keys {p : Properties} {a : Attribute} :
    a ∈ p.toList.map Property.key ↔ p.get? a ≠ none := by
  simp only [List.mem_map, mem_toList_and_key, Option.ne_none_iff_exists']

section build

variable (uuid kind : String) (steps : List PropertyStep)

theorem get?_build_of_fixed {a : Attribute} (h : a = .uuid ∨ a = .type) :
    (build uuid kind steps).get? a = (new uuid kind).get? a := by
  have hnone : (steps.filter fun s => s.key = a ∧ s.Gives) = [] := by
    refine List.filter_eq_nil_iff.mpr fun s _ hs => ?_
    obtain ⟨rfl, -⟩ := of_decide_eq_true hs
    cases s <;> simp [PropertyStep.key] at h
  rw [build, get?_foldl_apply, hnone]
  rfl

theorem mem_keys_build {a : Attribute} (huuid : a ≠ .uuid) (htype : a ≠ .type) :
    a ∈ (build uuid kind steps).toList.map Property.key ↔ ∃ s ∈ steps, s.key = a ∧ s.Gives := by
  rw [mem_keys, build, get?_foldl_apply, get?_new huuid htype, Option.or_none, ne_eq,
    Option.map_eq_none_iff, List.getLast?_eq_none_iff, List.filter_eq_nil_iff]
  simp

theorem get?_build_of_last {before after : List PropertyStep} {s : PropertyStep} (hs : s.Gives)
    (hafter : ∀ t ∈ after, t.key = s.key → ¬t.Gives) :
    (build uuid kind (before ++ s :: after)).get? s.key = some s.property := by
  have hnone : (after.filter fun t => t.key = s.key ∧ t.Gives) = [] :=
    List.filter_eq_nil_iff.mpr fun t ht h =>
      hafter t ht (of_decide_eq_true h).1 (of_decide_eq_true h).2
  rw [build, get?_foldl_apply, List.filter_append, List.filter_cons_of_pos (by simp [hs]), hnone]
  simp

theorem build_congr {others : List PropertyStep}
    (h : ∀ a, others.filter (·.key = a) = steps.filter (·.key = a)) :
    build uuid kind others = build uuid kind steps := by
  refine ext_get? fun a => ?_
  have hgiving (l : List PropertyStep) : (l.filter fun s => s.key = a ∧ s.Gives) =
      (l.filter (·.key = a)).filter (·.Gives) := by simp [List.filter_filter, Bool.and_comm]
  rw [build, build, get?_foldl_apply, get?_foldl_apply, hgiving, hgiving, h]

end build

theorem apply_comm (p : Properties) {s t : PropertyStep} (h : s.key ≠ t.key) :
    t.apply (s.apply p) = s.apply (t.apply p) := by
  refine ext_get? fun a => ?_
  simp only [get?_apply]
  by_cases hs : s.key = a ∧ s.Gives
  · have ht : ¬(t.key = a ∧ t.Gives) := fun ht => h (hs.1.trans ht.1.symm)
    rw [if_neg ht, if_pos hs, if_pos hs]
  · rw [if_neg hs, if_neg hs]

end Properties

namespace Record

open Properties

def steps (r : Record) : List PropertyStep :=
  [.description r.description, .comment r.comment, .datatype r.datatype, .unit r.unit,
    .min r.min r.datatype, .max r.max r.datatype]

theorem valueType_resolve {r : Record} (h : r.datatype ≠ "") :
    r.resolve.valueType = .ofDatatype r.datatype := by
  have hd : r.resolve.properties.datatype = some r.datatype := replace_of_ne none r.datatype h
  rw [Node.valueType, valueType, hd]
  rfl

theorem type_of_replaceBound {r : Record} {value : String} {b : Bound}
    (h : replaceBound none value r.datatype = some b) : b.type = r.resolve.valueType := by
  by_cases hg : value ≠ "" ∧ r.datatype ≠ ""
  · rw [replaceBound_of_ne none hg, Option.some.injEq] at h
    rw [valueType_resolve hg.2, ← h]
  · rw [replaceBound_of_not none hg] at h
    cases h

theorem type_of_bound {r : Record} {x : Property} (hx : x ∈ r.resolve.properties.toList)
    (hkey : x.key = .min ∨ x.key = .max) : x.type = r.resolve.valueType := by
  have hget := mem_toList.mp hx
  rcases hkey with hmin | hmax
  · rw [hmin] at hget
    obtain ⟨b, hb, rfl⟩ := Option.map_eq_some_iff.mp hget
    exact type_of_replaceBound hb
  · rw [hmax] at hget
    obtain ⟨b, hb, rfl⟩ := Option.map_eq_some_iff.mp hget
    exact type_of_replaceBound hb

end Record

namespace Properties

/-- What some steps make of the properties of a node. -/
structure Settled (uuid kind : String) (steps : List PropertyStep) : Prop where
  sorted : (build uuid kind steps).toList.Pairwise fun x y => x.key.Before y.key
  identifier : ∀ x, x ∈ (build uuid kind steps).toList ∧ x.key = .uuid ↔
    x = ⟨.uuid, uuid, .scalar .string⟩
  nodeKind : ∀ x, x ∈ (build uuid kind steps).toList ∧ x.key = .type ↔
    x = ⟨.type, kind, .scalar .string⟩
  present : ∀ a, a ≠ .uuid → a ≠ .type → (a ∈ (build uuid kind steps).toList.map Property.key ↔
    ∃ s ∈ steps, s.key = a ∧ s.Gives)
  last : ∀ before s after, steps = before ++ s :: after → s.Gives →
    (∀ t ∈ after, t.key = s.key → ¬t.Gives) →
    ∀ x, x ∈ (build uuid kind steps).toList ∧ x.key = s.key ↔ x = ⟨s.key, s.value, s.type⟩
  reordered : ∀ others, (∀ a, others.filter (·.key = a) = steps.filter (·.key = a)) →
    build uuid kind others = build uuid kind steps

theorem settled (uuid kind : String) (steps : List PropertyStep) : Settled uuid kind steps where
  sorted := pairwise_toList _
  identifier x := by
    rw [mem_toList_and_key, get?_build_of_fixed _ _ _ (.inl rfl)]
    exact Option.some_inj.trans eq_comm
  nodeKind x := by
    rw [mem_toList_and_key, get?_build_of_fixed _ _ _ (.inr rfl)]
    exact Option.some_inj.trans eq_comm
  present a := mem_keys_build uuid kind steps
  last := by
    rintro before s after rfl hs hafter x
    rw [mem_toList_and_key, get?_build_of_last _ _ hs hafter]
    exact Option.some_inj.trans eq_comm
  reordered others := build_congr uuid kind steps

/-- Steps settle the properties of a node. They come in the order of their attributes, once
each. The identifier and the kind are those the node was given. Any other attribute is there if
and only if some step gives a value of it, and then it is the property of the last step that
does; so only the order among the steps for one attribute counts. The attributes of an entry are
steps, and its bounds are of the type of its value. -/
theorem steps_settle_properties (uuid kind : String) (steps : List PropertyStep) :
    Settled uuid kind steps ∧
    (∀ p s t, s.key ≠ t.key → PropertyStep.apply (PropertyStep.apply p s) t =
      PropertyStep.apply (PropertyStep.apply p t) s) ∧
    ∀ r : Record, r.resolve.properties = build r.uuid r.kind r.steps ∧
      ∀ x ∈ r.resolve.properties.toList,
        x.key = .min ∨ x.key = .max → x.type = r.resolve.valueType :=
  ⟨settled uuid kind steps, fun p _ _ => apply_comm p, fun r => ⟨rfl, fun _ => r.type_of_bound⟩⟩

theorem steps_settle_properties_sample :
    let steps : List PropertyStep := [.min "0" "uint8", .unit "km", .unit "", .min "1" ""]
    let others : List PropertyStep := [.unit "km", .unit "", .min "0" "uint8", .min "1" ""]
    PropertyStep.Gives (.min "0" "uint8") ∧ ¬PropertyStep.Gives (.min "1" "") ∧
      ⟨.min, "0", .ofDatatype "uint8"⟩ ∈ (build "u" "sensor" steps).toList ∧
      build "u" "sensor" others = build "u" "sensor" steps := by
  intro steps others
  obtain ⟨hsettled, -⟩ := steps_settle_properties "u" "sensor" steps
  refine ⟨by decide, by decide, ?_, hsettled.reordered others fun a => by cases a <;> rfl⟩
  have hafter : ∀ t ∈ steps.tail, t.key = .min → ¬t.Gives := by decide
  exact ((hsettled.last [] (.min "0" "uint8") steps.tail rfl (by decide) hafter _).mpr rfl).1

end Properties

end SignalTree
