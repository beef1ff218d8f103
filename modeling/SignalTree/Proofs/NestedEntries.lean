import Mathlib.Logic.Relation
import SignalTree.Proofs.Elementwise
import SignalTree.Proofs.EntryTree

/-!
Which nested documents can be read, what is read from them and what is reported of the
others. Every entry that the root reaches counts, and none that a reserved key hides.
-/
namespace SignalTree

namespace Path

theorem text_append (p q : Path) : (p ++ q).text = p.text ++ "." ++ q.text := by
  change (p.append q).text = _
  induction q with
  | root s => rfl
  | child q s ih => simp only [Path.append, text, ih, String.append_assoc]

theorem append_ofText (p : Path) (key : String) :
    p ++ ofText key = ofText (p.text ++ "." ++ key) := by
  rw [← ofText_text (p ++ ofText key), text_append, text_ofText]

end Path

namespace Definition.Nested

structure Place where
  path : Path
  value : Json

namespace Place

variable {reserved : List Attribute} {p q : Place}

def member? (p : Place) (key : String) : Option Json := p.value.members?.bind (Json.member? key)

def text (p : Place) (a : Attribute) : String := ((p.member? a.name).map attributeText).getD ""

/-- An entry that can be read, whatever is below it. -/
structure IsSound (p : Place) : Prop where
  object : ∃ members, p.value = .object members
  typed : p.text .type ≠ ""
  children : ∀ value, p.member? childrenKey = some value →
    value = .null ∨ ∃ children, value = .object children

/-- What is wrong with an entry. Its type is looked at before its children. -/
inductive HasDefect (p : Place) : Defect → Prop
  | notObject (value : ∀ members, p.value ≠ .object members) : HasDefect p (.entryNotObject p.path)
  | missingType {members : List (String × Json)} (object : p.value = .object members)
      (untyped : p.text .type = "") : HasDefect p (.missingType p.path)
  | childrenNotObject {value : Json} (typed : p.text .type ≠ "")
      (held : p.member? childrenKey = some value) (not_null : value ≠ .null)
      (not_object : ∀ children, value ≠ .object children) :
      HasDefect p (.childrenNotObject p.path)

structure IsReadAs (p : Place) (record : Record) : Prop where
  path : record.path = p.path
  attributes : ∀ a, record.get a = p.text a

/-- The entries right below an entry. -/
def below (reserved : List Attribute) (p : Place) : List Place :=
  match p.member? childrenKey with
  | some (.object children) =>
    (children.filter (!isReserved reserved ·.1)).map fun (key, value) =>
      ⟨.ofText (p.path.text ++ "." ++ key), value⟩
  | _ => []

def Reaches (reserved : List Attribute) : Place → Place → Prop :=
  Relation.ReflTransGen fun p q => q ∈ p.below reserved

theorem sizeOf_member {members : List (String × Json)} {key : String} {value : Json}
    (h : (key, value) ∈ members) : sizeOf value < sizeOf (Json.object members) := by
  have hlt := List.sizeOf_lt_of_mem h
  simp only [Prod.mk.sizeOf_spec, Json.object.sizeOf_spec] at hlt ⊢
  omega

theorem sizeOf_member? {key : String} {value : Json} (h : p.member? key = some value) :
    sizeOf value < sizeOf p.value := by
  obtain ⟨path, value'⟩ := p
  cases value' with
  | object members =>
    obtain ⟨before, after, rfl, -⟩ := List.lookup_eq_some_iff.mp h
    exact sizeOf_member (List.mem_append_right before List.mem_cons_self)
  | _ => simp [member?, Json.members?] at h

theorem sizeOf_below (h : q ∈ p.below reserved) : sizeOf q.value < sizeOf p.value := by
  unfold below at h
  split at h
  · next children hchildren =>
    obtain ⟨⟨key, value⟩, hmem, rfl⟩ := List.mem_map.mp h
    exact Nat.lt_trans (sizeOf_member (List.mem_of_mem_filter hmem)) (sizeOf_member? hchildren)
  · simp at h

/-- An entry and all entries below it: parents first, siblings in the order of the document. -/
def preorder (reserved : List Attribute) (p : Place) : List Place :=
  p :: (p.below reserved).attach.flatMap fun ⟨q, _⟩ => q.preorder reserved
termination_by sizeOf p.value
decreasing_by exact sizeOf_below ‹_›

theorem preorder_eq (reserved : List Attribute) (p : Place) :
    p.preorder reserved = p :: (p.below reserved).flatMap (preorder reserved) := by
  rw [preorder, List.flatMap_subtype fun _ _ => rfl, List.unattach_attach]

theorem mem_preorder : q ∈ p.preorder reserved ↔ Reaches reserved p q := by
  induction hsize : sizeOf p.value using Nat.strongRecOn generalizing p with
  | ind n ih =>
    subst hsize
    rw [preorder_eq, List.mem_cons, List.mem_flatMap, Reaches,
      Relation.ReflTransGen.cases_head_iff]
    refine or_congr eq_comm (exists_congr fun c => and_congr_right fun hc => ?_)
    exact ih _ (sizeOf_below hc) rfl

end Place

def readPlace : Place → Except Defect Record
  | ⟨path, .object members⟩ => do
    let record ← readRecord path members
    match Json.member? childrenKey members with
    | none | some .null | some (.object _) => return record
    | some _ => .error (.childrenNotObject path)
  | ⟨path, _⟩ => .error (.entryNotObject path)

theorem readRecord_of_typed {path : Path} {members : List (String × Json)}
    (h : Place.text ⟨path, .object members⟩ .type ≠ "") :
    ∃ record, readRecord path members = .ok record ∧
      Place.IsReadAs ⟨path, .object members⟩ record := by
  obtain ⟨record, hrecord, hpath, hget⟩ := Record.exists_ofAttributes? path h
  refine ⟨record, ?_, hpath, hget⟩
  change Record.ofAttributes? path (fun a =>
    ((Json.member? a.name members).map attributeText).getD "") = some record at hrecord
  rw [readRecord, hrecord]

theorem readRecord_of_untyped {path : Path} {members : List (String × Json)}
    (h : Place.text ⟨path, .object members⟩ .type = "") :
    readRecord path members = .error (.missingType path) := by
  have hrecord := Record.ofAttributes?_of_untyped path h
  change Record.ofAttributes? path (fun a =>
    ((Json.member? a.name members).map attributeText).getD "") = none at hrecord
  rw [readRecord, hrecord]

theorem readPlace_meets (p : Place) : Meets (readPlace p) p.IsSound p.IsReadAs p.HasDefect where
  total := by
    obtain ⟨path, value⟩ := p
    cases value with
    | object members =>
      by_cases htype : Place.text ⟨path, .object members⟩ .type = ""
      · exact .inr ⟨_, .missingType rfl htype⟩
      · by_cases hchildren : ∀ value, Json.member? childrenKey members = some value →
            value = .null ∨ ∃ children, value = .object children
        · exact .inl ⟨⟨members, rfl⟩, htype, hchildren⟩
        · simp only [not_forall, not_or, not_exists] at hchildren
          obtain ⟨value, held, hnull, hobject⟩ := hchildren
          exact .inr ⟨_, .childrenNotObject htype held hnull hobject⟩
    | _ => exact .inr ⟨_, .notObject (by simp)⟩
  ok := by
    obtain ⟨path, value⟩ := p
    rintro ⟨⟨members, hvalue⟩, htype, hchildren⟩
    obtain rfl : value = .object members := hvalue
    obtain ⟨record, hrecord, has⟩ := readRecord_of_typed htype
    refine ⟨record, ?_, has⟩
    simp only [readPlace, hrecord]
    change ∀ value, Json.member? childrenKey members = some value → _ at hchildren
    cases held : Json.member? childrenKey members with
    | none => rfl
    | some value => obtain rfl | ⟨children, rfl⟩ := hchildren value held <;> rfl
  error := by
    obtain ⟨path, value⟩ := p
    intro d h
    cases h with
    | notObject hvalue =>
      cases value with
      | object members => exact absurd rfl (hvalue members)
      | _ => rfl
    | @missingType members hobject htype =>
      obtain rfl : value = .object members := hobject
      rw [readPlace, readRecord_of_untyped htype]
      rfl
    | @childrenNotObject held htype hheld hnull hobject =>
      cases value with
      | object members =>
        obtain ⟨record, hrecord, -⟩ := readRecord_of_typed htype
        change Json.member? childrenKey members = some held at hheld
        simp only [readPlace, hrecord, hheld]
        cases held with
        | null => exact absurd rfl hnull
        | object children => exact absurd rfl (hobject children)
        | _ => rfl
      | _ => simp [Place.member?, Json.members?] at hheld

theorem meets_preorder (reserved : List Attribute) (root : Place) :
    Meets ((root.preorder reserved).mapM readPlace) (∀ p ∈ root.preorder reserved, p.IsSound)
      (List.Forall₂ Place.IsReadAs (root.preorder reserved))
      (FirstWrong Place.IsSound Place.HasDefect (root.preorder reserved)) :=
  .mapM fun p _ => readPlace_meets p

/-! The recursive reader reads entry by entry. -/

theorem readEntries_eq {reserved : List Attribute} {path : Path}
    {children : List (String × Json)}
    (h : ∀ key value, (key, value) ∈ children →
      readEntry reserved (.ofText (path.text ++ "." ++ key)) value =
        (Place.preorder reserved ⟨.ofText (path.text ++ "." ++ key), value⟩).mapM readPlace) :
    readEntries reserved path children =
      (((children.filter (!isReserved reserved ·.1)).map fun (key, value) =>
        (⟨.ofText (path.text ++ "." ++ key), value⟩ : Place)).flatMap
          (Place.preorder reserved)).mapM readPlace := by
  induction children with
  | nil => rfl
  | cons child rest ih =>
    obtain ⟨key, value⟩ := child
    have hrest := ih fun key value hmem => h key value (List.mem_cons_of_mem _ hmem)
    rw [readEntries]
    cases hkey : isReserved reserved key with
    | true => simpa [hkey] using hrest
    | false =>
      rw [if_neg (by simp), hrest, Path.append_ofText, h key value List.mem_cons_self,
        List.filter_cons_of_pos (by simp [hkey]), List.map_cons, List.flatMap_cons,
        List.mapM_append]

theorem readEntry_eq (reserved : List Attribute) (p : Place) :
    readEntry reserved p.path p.value = (p.preorder reserved).mapM readPlace := by
  induction hsize : sizeOf p.value using Nat.strongRecOn generalizing p with
  | ind n ih =>
    subst hsize
    obtain ⟨path, value⟩ := p
    rw [Place.preorder_eq, List.mapM_cons]
    cases value with
    | object members =>
      rw [readEntry, readChildren_eq, readPlace]
      cases readRecord path members with
      | error d => rfl
      | ok record =>
        have hbelow : Place.member? ⟨path, .object members⟩ childrenKey =
          Json.member? childrenKey members := rfl
        rw [Place.below, hbelow]
        cases held : Json.member? childrenKey members with
        | none => rfl
        | some value =>
          cases value with
          | object children =>
            have hsize (key : String) (value : Json) (hmem : (key, value) ∈ children) :
                sizeOf value < sizeOf (Json.object members) :=
              Nat.lt_trans (Place.sizeOf_member hmem) (Place.sizeOf_member? (hbelow.trans held))
            simp only
            rw [readEntries_eq fun key value hmem =>
              ih _ (hsize key value hmem) ⟨.ofText (path.text ++ "." ++ key), value⟩ rfl]
            rfl
          | _ => rfl
    | _ => rfl

/-! A document is read as its root. -/

/-- A document with an object at its root. -/
def HasRoot (document : Json) (root : Place) : Prop :=
  ∃ members, document.members?.bind (Json.member? rootKey) = some (.object members) ∧
    root = ⟨.ofText rootKey, .object members⟩

def IsSoundDocument (reserved : List Attribute) (document : Json) : Prop :=
  ∃ root, HasRoot document root ∧ ∀ p, Place.Reaches reserved root p → p.IsSound

/-- One record for each entry that the root reaches, in preorder. -/
def IsReadAs (reserved : List Attribute) (document : Json) (records : List Record) : Prop :=
  ∃ root, HasRoot document root ∧
    List.Forall₂ Place.IsReadAs (root.preorder reserved) records

inductive HasDefect (reserved : List Attribute) (document : Json) : Defect → Prop
  | missingRoot (missing : document.members?.bind (Json.member? rootKey) = none) :
      HasDefect reserved document .missingRoot
  | rootNotObject {value : Json}
      (held : document.members?.bind (Json.member? rootKey) = some value)
      (not_object : ∀ members, value ≠ .object members) :
      HasDefect reserved document .rootNotObject
  | entry {root : Place} {d : Defect} (held : HasRoot document root)
      (first : FirstWrong Place.IsSound Place.HasDefect (root.preorder reserved) d) :
      HasDefect reserved document d

theorem readDocument_of_hasRoot {reserved : List Attribute} {document : Json} {root : Place}
    (h : HasRoot document root) :
    readDocument reserved document = (root.preorder reserved).mapM readPlace := by
  obtain ⟨members, hheld, rfl⟩ := h
  rw [← readEntry_eq, readDocument, hheld]

theorem readDocument_meets (reserved : List Attribute) (document : Json) :
    Meets (readDocument reserved document) (IsSoundDocument reserved document)
      (IsReadAs reserved document) (HasDefect reserved document) where
  total := by
    cases hheld : document.members?.bind (Json.member? rootKey) with
    | none => exact .inr ⟨_, .missingRoot hheld⟩
    | some value =>
      cases value with
      | object members =>
        have hroot : HasRoot document ⟨.ofText rootKey, .object members⟩ := ⟨members, hheld, rfl⟩
        refine (meets_preorder reserved _).total.imp (fun hsound => ⟨_, hroot, fun p hp => ?_⟩)
          fun ⟨d, hfirst⟩ => ⟨d, .entry hroot hfirst⟩
        exact hsound p (Place.mem_preorder.mpr hp)
      | _ => exact .inr ⟨_, .rootNotObject hheld (by simp)⟩
  ok := by
    rintro ⟨root, hroot, hsound⟩
    obtain ⟨records, hread, has⟩ := (meets_preorder reserved root).ok fun p hp =>
      hsound p (Place.mem_preorder.mp hp)
    exact ⟨records, by rwa [readDocument_of_hasRoot hroot], root, hroot, has⟩
  error := by
    intro d h
    cases h with
    | missingRoot missing => rw [readDocument, missing]
    | @rootNotObject value held not_object =>
      rw [readDocument, held]
      cases value with
      | object members => exact absurd rfl (not_object members)
      | _ => rfl
    | entry held first =>
      rw [readDocument_of_hasRoot held]
      exact (meets_preorder reserved _).error first

/-- A text is read exactly if every entry that the root of its document reaches is sound.
Otherwise the first entry in preorder that is not decides what is reported. -/
theorem read_iff_sound {source : String} {document : Json} (reserved : List Attribute)
    (h : Json.read? source = some document) :
    ((∃ records, read reserved source = .ok records) ↔ IsSoundDocument reserved document) ∧
      (∀ records, read reserved source = .ok records → IsReadAs reserved document records) ∧
      ∀ d, read reserved source = .error d ↔ HasDefect reserved document d := by
  have hread : read reserved source = readDocument reserved document := by rw [read, h]
  have hspec := readDocument_meets reserved document
  rw [hread]
  exact ⟨hspec.isOk_iff, fun _ => hspec.as, fun _ => hspec.error_iff⟩

def hiddenJson : String :=
  "\x7b\"Vehicle\": \x7b\"type\": \"branch\", \"children\": \x7b" ++
    "\"unit\": \x7b\"children\": []\x7d, \"Speed\": \x7b\"type\": \"sensor\"\x7d\x7d\x7d\x7d"

def hiddenDocument : Json := .object [
  ("Vehicle", .object [
    ("type", .string "branch"),
    ("children", .object [
      ("unit", .object [("children", .array [])]),
      ("Speed", .object [("type", .string "sensor")])])])]

theorem read?_hiddenJson : Json.read? hiddenJson = some hiddenDocument := by
  cbv

theorem read_hiddenJson :
    Json.read? hiddenJson = some hiddenDocument ∧ IsSoundDocument [.unit] hiddenDocument ∧
      HasDefect [] hiddenDocument (.missingType (.ofText "Vehicle.unit")) := by
  have hread : (read [.unit] hiddenJson).isOk = true ∧
      read [] hiddenJson = .error (.missingType (.ofText "Vehicle.unit")) := by
    simp only [read, read?_hiddenJson]
    decide +kernel
  refine ⟨read?_hiddenJson, (read_iff_sound [.unit] read?_hiddenJson).1.mp ?_,
    ((read_iff_sound [] read?_hiddenJson).2.2 _).mp hread.2⟩
  cases hok : read [.unit] hiddenJson with
  | ok records => exact ⟨records, rfl⟩
  | error d => simp [hok, Except.isOk, Except.toBool] at hread

end Definition.Nested

end SignalTree
