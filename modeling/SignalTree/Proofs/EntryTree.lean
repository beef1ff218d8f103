import SignalTree.Definition.Nested
import SignalTree.Proofs.Lines

/-!
Trees of entries, apart from any layout, and the JSON values that hold them. The
names and values of a tree are those that every layout can hold as they are.
-/
namespace SignalTree

namespace Text

structure IsTrimmed (cs : List Char) : Prop where
  first : ∀ c ∈ cs.head?, isBlank c = false
  last : ∀ c ∈ cs.getLast?, isBlank c = false

theorem isTrimmed_iff {cs : List Char} :
    IsTrimmed cs ↔ ¬ cs.head?.any isBlank ∧ ¬ cs.getLast?.any isBlank := by
  simp only [Option.any_eq_true, not_exists, not_and, Bool.not_eq_true]
  exact ⟨fun h => ⟨h.first, h.last⟩, fun h => ⟨h.1, h.2⟩⟩

instance (cs : List Char) : Decidable (IsTrimmed cs) := decidable_of_iff _ isTrimmed_iff.symm

theorem IsTrimmed.trim_eq {cs : List Char} (h : IsTrimmed cs) : trim cs = cs :=
  trim_of_ends h.first h.last

def IsQuoted (cs : List Char) : Prop :=
  ∃ q inner, (q = '"' ∨ q = '\'') ∧ cs = q :: (inner ++ [q])

theorem not_isQuoted_of_head? {cs : List Char} (hdouble : cs.head? ≠ some '"')
    (hsingle : cs.head? ≠ some '\'') :
    ¬ IsQuoted cs := by
  rintro ⟨q, inner, hq, rfl⟩
  rcases hq with rfl | rfl
  · exact hdouble rfl
  · exact hsingle rfl

theorem unquote_of_not_isQuoted {cs : List Char} (h : ¬ IsQuoted cs) : unquote cs = cs := by
  cases cs with
  | nil => rfl
  | cons q rest =>
    rw [unquote, if_neg]
    rintro ⟨hq, hlast⟩
    obtain ⟨inner, rfl⟩ := List.getLast?_eq_some_iff.mp hlast
    exact h ⟨q, inner, hq, rfl⟩

end Text

namespace Definition

/-- The name of an entry below its parent. It fits into a header line and is no
key that means something else among children. -/
structure EntryName extends Segment where
  nonempty : text ≠ ""
  noColon : ':' ∉ text.toList
  oneLine : '\n' ∉ text.toList
  trimmed : Text.IsTrimmed text.toList
  ne_children : text ≠ Nested.childrenKey
  ne_attribute : ∀ a : Attribute, text ≠ a.name

/-- The attributes of an entry, the empty text for those it leaves out. -/
structure EntryAttributes where
  value : Attribute → String
  oneLine : ∀ a, '\n' ∉ (value a).toList
  trimmed : ∀ a, Text.IsTrimmed (value a).toList
  unquoted : ∀ a, ¬ Text.IsQuoted (value a).toList
  typed : value .type ≠ ""

inductive EntryTree where
  | node (attributes : EntryAttributes) (children : List (EntryName × EntryTree))

structure Entry where
  path : Path
  attributes : EntryAttributes

namespace Entry

def value (e : Entry) (a : Attribute) : String := e.attributes.value a

def record (e : Entry) : Record where
  path := e.path
  uuid := e.value .uuid
  kind := e.value .type
  description := e.value .description
  comment := e.value .comment
  datatype := e.value .datatype
  unit := e.value .unit
  min := e.value .min
  max := e.value .max

theorem ofAttributes?_value (e : Entry) :
    Record.ofAttributes? e.path e.value = some e.record := by
  rw [Record.ofAttributes?, if_neg]
  · rfl
  · simpa [value] using e.attributes.typed

end Entry

namespace EntryTree

mutual

def entries (path : Path) : EntryTree → List Entry
  | node attributes children => ⟨path, attributes⟩ :: entriesBelow path children

def entriesBelow (path : Path) : List (EntryName × EntryTree) → List Entry
  | [] => []
  | (name, tree) :: rest => tree.entries (.child path name.toSegment) ++ entriesBelow path rest

end

def records (path : Path) (tree : EntryTree) : List Record := (tree.entries path).map Entry.record

end EntryTree

/-! The values that hold a tree. -/

namespace Nested

/-- An attribute without a value may be missing. -/
def HoldsAttribute (members : List (String × Json)) (a : Attribute) (value : String) : Prop :=
  Json.member? a.name members = some (.string value) ∨
    value = "" ∧ (Json.member? a.name members = none ∨ Json.member? a.name members = some .null)

mutual

inductive HoldsTree : EntryTree → Json → Prop
  | object {attributes : EntryAttributes} {children : List (EntryName × EntryTree)}
      {members : List (String × Json)}
      (attributes_held : ∀ a, HoldsAttribute members a (attributes.value a))
      (children_held : HoldsChildren children (Json.member? childrenKey members)) :
      HoldsTree (.node attributes children) (.object members)

inductive HoldsChildren : List (EntryName × EntryTree) → Option Json → Prop
  | missing : HoldsChildren [] none
  | null : HoldsChildren [] (some .null)
  | object {children : List (EntryName × EntryTree)} {members : List (String × Json)}
      (held : HoldsForest children members) : HoldsChildren children (some (.object members))

inductive HoldsForest : List (EntryName × EntryTree) → List (String × Json) → Prop
  | nil : HoldsForest [] []
  | cons {name : EntryName} {tree : EntryTree} {value : Json}
      {rest : List (EntryName × EntryTree)} {members : List (String × Json)}
      (head : HoldsTree tree value) (tail : HoldsForest rest members) :
      HoldsForest ((name, tree) :: rest) ((name.text, value) :: members)

end

def HoldsDocument (tree : EntryTree) (document : Json) : Prop :=
  ∃ root, document.members?.bind (Json.member? rootKey) = some root ∧ HoldsTree tree root

theorem HoldsAttribute.lookup_eq {members : List (String × Json)} {a : Attribute} {value : String}
    (h : HoldsAttribute members a value) :
    ((Json.member? a.name members).map attributeText).getD "" = value := by
  rcases h with h | ⟨rfl, h | h⟩ <;> simp [h, attributeText]

theorem readRecord_of_holds {path : Path} {attributes : EntryAttributes}
    {members : List (String × Json)}
    (h : ∀ a, HoldsAttribute members a (attributes.value a)) :
    readRecord path members = .ok (Entry.record ⟨path, attributes⟩) := by
  have hlookup : (fun a : Attribute =>
      ((Json.member? a.name members).map attributeText).getD "") =
      Entry.value ⟨path, attributes⟩ := funext fun a => (h a).lookup_eq
  simp only [readRecord, hlookup, Entry.ofAttributes?_value ⟨path, attributes⟩]

theorem readChildren_cons (reserved : List Attribute) (path : Path) (key : String) (value : Json)
    (rest : List (String × Json)) :
    readChildren reserved path ((key, value) :: rest) =
      if key == childrenKey then
        match value with
        | .null => .ok []
        | .object children => readEntries reserved path children
        | _ => .error (.childrenNotObject path)
      else readChildren reserved path rest := by
  cases value <;> rfl

theorem readChildren_eq (reserved : List Attribute) (path : Path)
    (members : List (String × Json)) :
    readChildren reserved path members =
      match Json.member? childrenKey members with
      | none | some .null => .ok []
      | some (.object children) => readEntries reserved path children
      | some _ => .error (.childrenNotObject path) := by
  induction members with
  | nil => rfl
  | cons member rest ih =>
    obtain ⟨key, value⟩ := member
    rw [readChildren_cons, ih, Json.member?, Json.member?, List.lookup_cons]
    by_cases h : key = childrenKey
    · subst h
      cases value <;> simp
    · have hkey : (childrenKey == key) = false := beq_eq_false_iff_ne.mpr (Ne.symm h)
      rw [if_neg (by simpa using h), hkey]

theorem isReserved_name (name : EntryName) : isReserved Attribute.all name.text = false := by
  simp only [isReserved, Bool.or_eq_false_iff, beq_eq_false_iff_ne, List.any_eq_false, beq_iff_eq]
  exact ⟨name.ne_children, fun a _ => (name.ne_attribute a).symm⟩

theorem append_ofText_name (path : Path) (name : EntryName) :
    path ++ Path.ofText name.text = .child path name.toSegment := by
  have hname : Path.ofText name.text = .root name.toSegment :=
    Path.ofText_text (.root name.toSegment)
  rw [hname]
  rfl

mutual

theorem readEntry_of_holds (path : Path) :
    (tree : EntryTree) → {value : Json} → HoldsTree tree value →
      readEntry Attribute.all path value = .ok (tree.records path)
  | .node attributes children, .object members, h => by
    cases h with
    | object attributes_held children_held =>
      have hbelow := readChildren_of_holds path children children_held rfl
      rw [readEntry, readRecord_of_holds attributes_held, hbelow]
      rfl

theorem readChildren_of_holds (path : Path) :
    (children : List (EntryName × EntryTree)) → {value : Option Json} →
      HoldsChildren children value → {members : List (String × Json)} →
      Json.member? childrenKey members = value →
      readChildren Attribute.all path members =
        .ok ((EntryTree.entriesBelow path children).map Entry.record)
  | children, _, h, members, hvalue => by
    rw [readChildren_eq, hvalue]
    cases h with
    | missing => rfl
    | null => rfl
    | object held => exact readEntries_of_holds path children held

theorem readEntries_of_holds (path : Path) :
    (children : List (EntryName × EntryTree)) → {members : List (String × Json)} →
      HoldsForest children members →
      readEntries Attribute.all path members =
        .ok ((EntryTree.entriesBelow path children).map Entry.record)
  | [], _, h => by
    cases h
    rfl
  | (name, tree) :: rest, _, h => by
    cases h with
    | cons head tail =>
      rw [readEntries, isReserved_name, append_ofText_name, readEntry_of_holds _ tree head,
        readEntries_of_holds path rest tail]
      simp only [EntryTree.entriesBelow, List.map_append]
      rfl

end

theorem readDocument_of_holds {tree : EntryTree} {document : Json}
    (h : HoldsDocument tree document) :
    readDocument Attribute.all document = .ok (tree.records (.ofText rootKey)) := by
  obtain ⟨root, hroot, held⟩ := h
  have hread := readEntry_of_holds (.ofText rootKey) tree held
  rw [readDocument, hroot]
  cases held with
  | object => exact hread

end Nested

end Definition

end SignalTree
