import SignalTree.Proofs.ItemCode
import SignalTree.Proofs.Outline

/-!
What a source text declares: structs with their fields, implementations and modules.
Declarations are read from the words on the lines.
-/
namespace SignalTree

namespace Source

def words (content : List Char) : List String := (Text.pieces ' ' content).map String.ofList

theorem words_eq {content : List Char} (parts : List String) (hne : parts ≠ [])
    (hparts : ∀ part ∈ parts, ' ' ∉ part.toList)
    (h : content = (" ".intercalate parts).toList) : words content = parts := by
  have hpieces : Text.pieces ' ' ([' '].intercalate (parts.map String.toList)) = _ :=
    Text.pieces_intercalate ' ' (by simpa using hne) (by simpa using hparts)
  rw [words, h, String.toList_intercalate]
  change (Text.pieces ' ' ([' '].intercalate (parts.map String.toList))).map String.ofList = parts
  rw [hpieces, List.map_map]
  simp [Function.comp_def]

def dropMark? (mark : Char) (word : String) : Option String :=
  (Text.stripSuffix? [mark] word.toList).map String.ofList

theorem dropMark?_append (word : String) {mark : Char} {text : String} (h : text.toList = [mark]) :
    dropMark? mark (word ++ text) = some word := by
  have hstrip : Text.stripSuffix? [mark] (word ++ text).toList = some word.toList :=
    Text.stripSuffix?_eq_some.mpr (by rw [String.toList_append, h])
  rw [dropMark?, hstrip, Option.map_some, String.ofList_toList]

namespace TypePath

def cut : List Char → List (List Char)
  | [] => [[]]
  | ':' :: ':' :: rest => [] :: cut rest
  | c :: rest =>
    match cut rest with
    | [] => [[c]]
    | name :: more => (c :: name) :: more

def ofText (text : String) : TypePath :=
  let names := (cut text.toList).map String.ofList
  ⟨names.dropLast, names.getLast?.getD ""⟩

theorem cut_append {name : List Char} (h : ':' ∉ name) (rest : List Char) :
    cut (name ++ ':' :: ':' :: rest) = name :: cut rest := by
  induction name with
  | nil => rw [List.nil_append, cut]
  | cons c name ih =>
    obtain ⟨hc, hname⟩ : ':' ≠ c ∧ ':' ∉ name := by simpa using h
    rw [List.cons_append, cut, ih hname]
    intro rest' e
    exact absurd e.symm hc

theorem cut_of_not_mem {name : List Char} (h : ':' ∉ name) : cut name = [name] := by
  induction name with
  | nil => rfl
  | cons c name ih =>
    obtain ⟨hc, hname⟩ : ':' ≠ c ∧ ':' ∉ name := by simpa using h
    rw [cut, ih hname]
    intro rest' e
    exact absurd e.symm hc

theorem cut_intercalate {names : List (List Char)} (hne : names ≠ [])
    (h : ∀ name ∈ names, ':' ∉ name) : cut ([':', ':'].intercalate names) = names := by
  induction names with
  | nil => exact absurd rfl hne
  | cons name rest ih =>
    have hname := h name List.mem_cons_self
    cases rest with
    | nil => simpa using cut_of_not_mem hname
    | cons next rest =>
      rw [List.intercalate_cons_cons, List.append_assoc, List.cons_append, List.singleton_append,
        cut_append hname, ih (by simp) fun n hn => h n (List.mem_cons_of_mem _ hn)]

theorem ofText_text {p : TypePath} (h : p.IsNamed) : ofText p.text = p := by
  have hnames : ∀ n ∈ (p.modules ++ [p.name]).map String.toList, ':' ∉ n := by
    intro cs hcs
    obtain ⟨n, hn, rfl⟩ := List.mem_map.mp hcs
    rcases List.mem_append.mp hn with hn | hn
    · exact (h.1 n hn).not_mem (by decide)
    · rw [List.mem_singleton.mp hn]
      exact h.2.not_mem (by decide)
  have hcut : (cut p.text.toList).map String.ofList = p.modules ++ [p.name] := by
    rw [text, String.toList_intercalate]
    change (cut ([':', ':'].intercalate _)).map String.ofList = _
    rw [cut_intercalate (by simp) hnames, List.map_map]
    simp [Function.comp_def]
  rw [ofText, hcut]
  simp

end TypePath

/-- An implementation for a struct: its literal paths, the traits that nodes are seen
through in it, and the parent. -/
structure Impl where
  trait : Option TypePath
  type : String
  paths : List String
  views : List TypePath
  parents : List TypePath

inductive Decl where
  | struct (name : String) (fields : List Field)
  | impl (item : Impl)
  | module (name : String) (decls : List Decl)

namespace Outline

def field? : Outline → Option Field
  | line content =>
    match words content with
    | ["pub", name, type] => do return ⟨← dropMark? ':' name, .ofText (← dropMark? ',' type)⟩
    | _ => none
  | block _ _ => none

def pathWord : List Char := "pub const VSS_PATH: &'static str = ".toList

def path? : Outline → Option String
  | line content =>
    ((Text.stripPrefix? pathWord content).bind (Text.stripSuffix? [';'])).map String.ofList
  | block _ _ => none

def parent? : Outline → Option TypePath
  | line content =>
    match words content with
    | ["type", "Parent", "=", path] => (dropMark? ';' path).map .ofText
    | _ => none
  | block _ _ => none

def cast? : Outline → Option TypePath
  | line content =>
    match words content with
    | [_, "as", "&dyn", path] => (dropMark? ',' path).map .ofText
    | _ => none
  | block _ _ => none

def casts : Outline → List TypePath
  | line _ => []
  | block _ entries => entries.filterMap cast?

/-- The trait that children are seen through: in the type of the list and in the list. -/
def views : Outline → List TypePath
  | line _ => []
  | block head body =>
    match words head with
    | ["fn", "children(&self)", "->", "Vec<&dyn", path, "\x7b"] =>
      ((dropMark? '>' path).map .ofText).toList ++ body.flatMap casts
    | _ => []

mutual

def decls : Outline → List Decl
  | line _ => []
  | block head body =>
    match words head with
    | ["pub", "struct", name, "\x7b"] => [.struct name (body.filterMap field?)]
    | ["pub", "mod", name, "\x7b"] => [.module name (declsOf body)]
    | ["impl", type, "\x7b"] => [.impl ⟨none, type, body.filterMap path?, [], []⟩]
    | ["impl", trait, "for", type, "\x7b"] =>
      [.impl ⟨some (.ofText trait), type, [], body.flatMap views, body.filterMap parent?⟩]
    | _ => []

def declsOf : List Outline → List Decl
  | [] => []
  | o :: rest => o.decls ++ declsOf rest

end

end Outline

namespace Code

theorem outline_line {text : String} (h : IsPlain text) (hne : text.toList ≠ []) :
    (line text).outline = [.line text.toList] := by
  have hempty : text.toList.isEmpty = false := by simpa using hne
  rw [outline, h.shown, isComment_of_starts h.starts, hempty]
  rfl

theorem outline_block {text closing : String} (h : IsHead text) (body : List Code) :
    (block text body closing).outline = [.block text.toList (outlineOf body)] := by
  rw [outline, h.shown]

theorem declsOf_outline_line (text : String) : Outline.declsOf (line text).outline = [] := by
  rw [outline]
  split <;> rfl

end Code

namespace Outline

theorem declsOf_append (xs ys : List Outline) : declsOf (xs ++ ys) = declsOf xs ++ declsOf ys := by
  induction xs with
  | nil => rfl
  | cons x xs ih => simp [declsOf, ih]

theorem declsOf_singleton (o : Outline) : declsOf [o] = o.decls := by
  rw [declsOf, declsOf, List.append_nil]

section

variable {head : List Char} {body : List Outline} {name : String}

theorem decls_struct (h : words head = ["pub", "struct", name, "\x7b"]) :
    (block head body).decls = [.struct name (body.filterMap field?)] := by
  simp only [decls, h]

theorem decls_module (h : words head = ["pub", "mod", name, "\x7b"]) :
    (block head body).decls = [.module name (declsOf body)] := by
  simp only [decls, h]

theorem decls_impl (h : words head = ["impl", name, "\x7b"]) :
    (block head body).decls = [.impl ⟨none, name, body.filterMap path?, [], []⟩] := by
  simp only [decls, h]

theorem decls_implFor {trait : String} (h : words head = ["impl", trait, "for", name, "\x7b"]) :
    (block head body).decls =
      [.impl ⟨some (.ofText trait), name, [], body.flatMap views, body.filterMap parent?⟩] := by
  simp only [decls, h]

end

theorem views_of_not_mem {head : List Char} {body : List Outline}
    (h : "children(&self)" ∉ words head) : (block head body).views = [] := by
  rw [views]
  split
  · next hwords => simp [hwords] at h
  · rfl

theorem field?_eq {name type : String} (hname : IsName name) (htype : ' ' ∉ type.toList) :
    (line ("pub " ++ name ++ ": " ++ type ++ ",").toList).field? =
      some ⟨name, .ofText type⟩ := by
  have hwords : words ("pub " ++ name ++ ": " ++ type ++ ",").toList =
      ["pub", name ++ ":", type ++ ","] :=
    words_eq _ (by simp) (by simpa using ⟨hname.not_mem (by decide), htype⟩) (by simp)
  simp only [field?, hwords, dropMark?_append _ (show ":".toList = [':'] by simp),
    dropMark?_append _ (show ",".toList = [','] by simp)]
  rfl

end Outline

end Source

end SignalTree
