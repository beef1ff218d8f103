import SignalTree.Definition.Format
import SignalTree.Proofs.Listing

/-! The layouts of definition files say the same: a tree is read alike from each. -/
namespace SignalTree

open Definition

namespace Definition.EntryTree

mutual

theorem isHeadingPath_of_mem_entries {path : Path} (hpath : Flat.IsHeadingPath path) :
    (tree : EntryTree) → ∀ e ∈ tree.entries path, Flat.IsHeadingPath e.path
  | .node attributes children, e, he => by
    rcases List.mem_cons.mp he with rfl | he
    · exact hpath
    · exact isHeadingPath_of_mem_entriesBelow hpath children e he

theorem isHeadingPath_of_mem_entriesBelow {path : Path} (hpath : Flat.IsHeadingPath path) :
    (children : List (EntryName × EntryTree)) → ∀ e ∈ entriesBelow path children,
      Flat.IsHeadingPath e.path
  | [], _, he => absurd he List.not_mem_nil
  | (name, tree) :: rest, e, he => by
    rcases List.mem_append.mp he with he | he
    · exact isHeadingPath_of_mem_entries (hpath.child name) tree e he
    · exact isHeadingPath_of_mem_entriesBelow hpath rest e he

end

end Definition.EntryTree

theorem isHeadingPath_root : Flat.IsHeadingPath (.ofText Nested.rootKey) where
  noColon := by simp [Nested.rootKey]
  first := ⟨'V', "ehicle".toList, by simp [Nested.rootKey], by decide, by decide⟩
  last := by
    rw [Path.text_ofText]
    exact Text.IsTrimmed.last (by decide)

/-- A tree is read as its entries, parents first, whether they are nested in each other or
listed one after another. Siblings may even share a name, although no object that was read
holds two members of one key. -/
theorem Format.read_of_tree {tree : EntryTree} {json yaml : String} {document : Json}
    (hread : Json.read? json = some document) (hdocument : Nested.HoldsDocument tree document)
    (hlisting : Flat.Lists (tree.entries (.ofText Nested.rootKey))
      (Text.pieces '\n' yaml.toList)) :
    Format.json.read json = .ok (tree.records (.ofText Nested.rootKey)) ∧
      Format.yaml.read yaml = .ok (tree.records (.ofText Nested.rootKey)) ∧
      (Format.json.read json).map (·.map Record.resolve) =
        (Format.yaml.read yaml).map (·.map Record.resolve) := by
  have hjson : Format.json.read json = .ok (tree.records (.ofText Nested.rootKey)) := by
    change Nested.read Attribute.all json = _
    rw [Nested.read, hread]
    exact Nested.readDocument_of_holds hdocument
  have hyaml : Format.yaml.read yaml = .ok (tree.records (.ofText Nested.rootKey)) :=
    Flat.read_of_lists hlisting (tree.isHeadingPath_of_mem_entries isHeadingPath_root)
  exact ⟨hjson, hyaml, by rw [hjson, hyaml]⟩

/-! A vehicle with one sensor below it, in both layouts. A value of the vehicle looks like a line
of its own, and its lines stand in another order. -/

def vehicleAttributes : EntryAttributes where
  value
    | .type => "branch"
    | .comment => "no key: type: none"
    | _ => ""
  oneLine a := by cases a <;> decide
  trimmed a := by cases a <;> decide
  unquoted a := by cases a <;> exact Text.not_isQuoted_of_head? (by decide) (by decide)
  typed := by decide

def speedAttributes : EntryAttributes where
  value
    | .type => "sensor"
    | .unit => "km/h"
    | _ => ""
  oneLine a := by cases a <;> decide
  trimmed a := by cases a <;> decide
  unquoted a := by cases a <;> exact Text.not_isQuoted_of_head? (by decide) (by decide)
  typed := by decide

def speedName : EntryName where
  text := "Speed"
  dotFree := by decide
  nonempty := by decide
  noColon := by decide
  oneLine := by decide
  trimmed := by decide
  ne_children := by decide
  ne_attribute a := by cases a <;> decide

def speedTree : EntryTree := .node vehicleAttributes [(speedName, .node speedAttributes [])]

def speedMembers : List (String × Json) := [
  ("type", .string "branch"),
  ("comment", .string "no key: type: none"),
  ("children", .object [("Speed", .object [("unit", .string "km/h"), ("type", .string "sensor")])])]

def speedJson : String :=
  "\x7b\"Vehicle\": \x7b\"type\": \"branch\", \"comment\": \"no key: type: none\", " ++
    "\"children\": \x7b\"Speed\": \x7b\"unit\": \"km/h\", \"type\": \"sensor\"\x7d\x7d\x7d\x7d"

def speedYaml : String :=
  "Vehicle:\n  comment: no key: type: none\n  type: branch\n\n \nVehicle.Speed:\r\n" ++
    "  unit: km/h\n\ttype: sensor\n"

theorem read?_speedJson :
    Json.read? speedJson = some (.object [("Vehicle", .object speedMembers)]) := by
  cbv

theorem holdsDocument_speedTree :
    Nested.HoldsDocument speedTree (.object [("Vehicle", .object speedMembers)]) := by
  have vehicle : ∀ a, Nested.HoldsAttribute speedMembers a (vehicleAttributes.value a) := by
    intro a
    cases a <;> first | exact .inl rfl | exact .inr ⟨rfl, .inl rfl⟩
  have speed : ∀ a, Nested.HoldsAttribute [("unit", .string "km/h"), ("type", .string "sensor")] a
      (speedAttributes.value a) := by
    intro a
    cases a <;> first | exact .inl rfl | exact .inr ⟨rfl, .inl rfl⟩
  exact ⟨_, rfl, .object vehicle (.object (.cons (.object speed .missing) .nil))⟩

def vehicleParagraph : List Flat.Line :=
  ["Vehicle:".toList, "  comment: no key: type: none".toList, "  type: branch".toList]

def speedParagraph : List Flat.Line :=
  ["Vehicle.Speed:\r".toList, "  unit: km/h".toList, "\ttype: sensor".toList]

theorem lists_speedTree :
    Flat.Lists (speedTree.entries (.ofText Nested.rootKey))
      (Text.pieces '\n' speedYaml.toList) := by
  have hpieces : Text.pieces '\n' speedYaml.toList =
      vehicleParagraph ++ [] :: [' '] :: (speedParagraph ++ [[]]) := by
    cbv
  have vehicle : Flat.IsParagraph ⟨.ofText Nested.rootKey, vehicleAttributes⟩ vehicleParagraph := by
    refine @Flat.IsParagraph.lines _ _ [.comment, .type] _ ⟨[], [], by simp, by decide +kernel⟩
      (by decide) (fun a => by cases a <;> decide) ?_
    exact .cons ⟨"  ".toList, [], List.all_eq_true.mp rfl, by decide +kernel⟩
      (.cons ⟨"  ".toList, [], List.all_eq_true.mp rfl, by decide +kernel⟩ .nil)
  have speed : Flat.IsParagraph
      ⟨.child (.ofText Nested.rootKey) speedName.toSegment, speedAttributes⟩ speedParagraph := by
    refine @Flat.IsParagraph.lines _ _ [.unit, .type] _
      ⟨[], ['\r'], List.all_eq_true.mp rfl, by decide +kernel⟩
      (by decide) (fun a => by cases a <;> decide) ?_
    exact .cons ⟨"  ".toList, [], List.all_eq_true.mp rfl, by decide +kernel⟩
      (.cons ⟨['\t'], [], List.all_eq_true.mp rfl, by decide +kernel⟩ .nil)
  have empty : Text.IsPadded [] [] := ⟨[], [], List.forall_mem_nil _, rfl⟩
  have space : Text.IsPadded [] [' '] := ⟨[' '], [], List.all_eq_true.mp rfl, rfl⟩
  rw [hpieces]
  exact .entry vehicle (by simpa using empty) (.blank empty (.blank space
    (.entry speed (by simpa using empty) (.blank empty .nil))))

theorem Format.read_speedTree :
    Json.read? speedJson = some (.object [("Vehicle", .object speedMembers)]) ∧
      Format.json.read speedJson = .ok (speedTree.records (.ofText Nested.rootKey)) ∧
      Format.yaml.read speedYaml = .ok (speedTree.records (.ofText Nested.rootKey)) :=
  have h := Format.read_of_tree read?_speedJson holdsDocument_speedTree lists_speedTree
  ⟨read?_speedJson, h.1, h.2.1⟩

end SignalTree
