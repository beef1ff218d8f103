import SignalTree.Proofs.ModuleTree
import SignalTree.Proofs.IndexNames
import SignalTree.Proofs.WrittenRows

/-!
The files of a module side by side, whatever the names of its types: their names are apart even
where case does not matter, and the index has one submodule and one exported type for each of the
other files, which declares that type (`moduleFiles`).
-/
namespace SignalTree.Source

/-! Checks that blame names only. -/

/-- A check that names alone can fail. -/
def BlamesNames {α : Type} (check : Except Fault α) : Prop :=
  ∀ e, check = .error e → ∃ v, e = .invariant v

namespace BlamesNames

variable {α β : Type}

theorem ok (a : α) : BlamesNames (.ok a) := nofun

theorem bind {x : Except Fault α} {f : α → Except Fault β} (hx : BlamesNames x)
    (hf : ∀ a, BlamesNames (f a)) : BlamesNames (x >>= f) := by
  intro e he
  cases x with
  | error cause =>
    cases he
    exact hx _ rfl
  | ok a => exact hf a e he

theorem of_decides {x : Except Fault α} {p : Prop} (h : Decides x p) : BlamesNames x :=
  fun _ he => h.error he

end BlamesNames

mutual

theorem blamesNames_checkDecl (types : Claims) (d : TypeDecl) : BlamesNames (checkDecl types d) := by
  match d with
  | ⟨name, node, children, nested, implicit⟩ =>
    rw [checkDecl]
    exact (BlamesNames.of_decides (decides_checkFields _)).bind fun _ =>
      blamesNames_checkNested types [] nested

theorem blamesNames_checkNested (types modules : Claims) (ds : List TypeDecl) :
    BlamesNames (checkNested types modules ds) := by
  match ds with
  | [] => exact .ok _
  | d :: rest =>
    have hrest (types' modules' : Claims) : BlamesNames
        (checkDecl [] d >>= fun _ => checkNested types' modules' rest) :=
      (blamesNames_checkDecl [] d).bind fun _ => blamesNames_checkNested types' modules' rest
    rw [checkNested]
    refine (BlamesNames.of_decides (decides_claim _ _ _ _)).bind fun types' => ?_
    dsimp only
    split
    · exact hrest types' modules
    · exact (BlamesNames.of_decides (decides_claim _ _ _ _)).bind fun modules' =>
        hrest types' modules'

end

theorem fresh_of_checkNested {types modules : Claims} {ds : List TypeDecl} {x : PUnit}
    (h : checkNested types modules ds = .ok x) : Fresh types.names (ds.map (·.name)) := by
  induction ds generalizing types modules with
  | nil => exact fresh_nil _
  | cons d rest ih =>
    rw [checkNested] at h
    obtain ⟨types', htypes, h⟩ := Except.bind_eq_ok.mp h
    obtain ⟨modules', h⟩ : ∃ modules',
        (checkDecl [] d >>= fun _ => checkNested types' modules' rest) = .ok x := by
      dsimp only at h
      split at h
      · exact ⟨modules, h⟩
      · obtain ⟨modules', -, h⟩ := Except.bind_eq_ok.mp h
        exact ⟨modules', h⟩
    obtain ⟨-, -, h⟩ := Except.bind_eq_ok.mp h
    have hfresh : d.name ∉ types.names := (decides_claim _ _ _ _).ok_iff.mp ⟨types', htypes⟩
    rw [List.map_cons, fresh_cons, ← names_of_claim htypes]
    exact ⟨hfresh, ih h⟩

theorem nodup_of_checkUnit {u : TypeUnit} {x : PUnit} (h : checkUnit u = .ok x) :
    (u.decl.name :: u.decl.nested.map (·.name)).Nodup := by
  obtain ⟨⟨name, node, children, nested, implicit⟩, parent⟩ := u
  rw [checkUnit, checkDecl] at h
  obtain ⟨-, -, h⟩ := Except.bind_eq_ok.mp h
  exact fresh_singleton.mp (fresh_of_checkNested h)

variable {units : List TypeUnit} {module : String} {files : List SourceFile}

theorem blamesNames_renderUnits (units : List TypeUnit) :
    BlamesNames (units.mapM renderUnit).result := by
  induction units with
  | nil => exact .ok _
  | cons u units ih =>
    rw [List.mapM_cons, Outcome.result_bind, result_renderUnit]
    refine BlamesNames.bind (fun e he => ?_) fun file => ?_
    · cases hcheck : checkUnit u with
      | error cause =>
        rw [hcheck] at he
        cases he
        exact blamesNames_checkDecl _ _ _ hcheck
      | ok x =>
        rw [hcheck] at he
        cases he
    · rw [Outcome.result_bind]
      exact ih.bind fun _ => .ok _

theorem blamesNames_renderModule (units : List TypeUnit) (module : String) :
    BlamesNames (renderModule units module).result := by
  rw [renderModule, Outcome.result_bind]
  refine (blamesNames_renderUnits units).bind fun files => ?_
  rw [Outcome.result_bind]
  refine BlamesNames.bind (fun e he => ?_) fun _ => .ok _
  change requireDistinct _ = _ at he
  unfold requireDistinct at he
  split at he
  · cases he
    exact ⟨_, rfl⟩
  · cases he

/-! What a reader finds at the left margin of the files. -/

def structName? (row : List Char) : Option String := do
  return String.ofList (← Text.stripSuffix? openBrace.toList (← Text.stripPrefix? structWord row))

def submodule? (row : List Char) : Option String := do
  return String.ofList (← Text.stripSuffix? [';'] (← Text.stripPrefix? moduleWord row))

def exportWord : List Char := "pub use ".toList

theorem exportWord_eq : exportWord = ['p', 'u', 'b', ' ', 'u', 's', 'e', ' '] := by cbv

def export? (row : List Char) : Option (String × String) := do
  let path ← Text.stripSuffix? [';'] (← Text.stripPrefix? exportWord row)
  let (module, rest) ← Text.splitOnce? ':' path
  return (String.ofList module, String.ofList (← Text.stripPrefix? [':'] rest))

def found {α : Type} (read : List Char → Option α) (cs : List Code) : List α :=
  cs.flatMap fun c => c.margin.filterMap fun t => read t.toList

section

variable {α : Type} (read : List Char → Option α)

theorem found_append (xs ys : List Code) : found read (xs ++ ys) = found read xs ++ found read ys :=
  List.flatMap_append

theorem found_blank_cons (cs : List Code) : found read (.blank :: cs) = found read cs := rfl

theorem filterMap_cons_toList {β : Type} (f : β → Option α) (x : β) (xs : List β) :
    (x :: xs).filterMap f = (f x).toList ++ xs.filterMap f := by
  cases h : f x with
  | none => rw [List.filterMap_cons_none h, Option.toList_none, List.nil_append]
  | some a => rw [List.filterMap_cons_some h, Option.toList_some, List.singleton_append]

theorem found_line_cons (text : String) (cs : List Code) :
    found read (.line text :: cs) = (read text.toList).toList ++ found read cs := by
  rw [found, List.flatMap_cons, Code.margin, filterMap_cons_toList, List.filterMap_nil,
    List.append_nil, found]

theorem found_block_cons (opening closing : String) (body cs : List Code) :
    found read (.block opening body closing :: cs) =
      (read opening.toList).toList ++ (read closing.toList).toList ++ found read cs := by
  rw [found, List.flatMap_cons, Code.margin, filterMap_cons_toList, filterMap_cons_toList,
    List.filterMap_nil, List.append_nil, found]

theorem found_spaced (parts : List (List Code)) :
    found read (Code.spaced parts) = parts.flatMap (found read) :=
  Code.flatMap_spaced rfl parts

theorem found_paragraph (lines : List Code) : found read (paragraph lines) = found read lines := by
  unfold paragraph
  split
  · next h => rw [List.isEmpty_iff.mp h]
  · rw [found_append]
    exact List.append_nil _

theorem found_map_line (names : List String) (text : String → String) :
    found read (names.map fun n => .line (text n)) =
      names.filterMap fun n => read (text n).toList := by
  induction names with
  | nil => rfl
  | cons n names ih =>
    rw [List.map_cons, found_line_cons, ih, filterMap_cons_toList]

end

theorem filterMap_physicalLines {α : Type} {cs : List Code} (h : EachTakesRow cs)
    {read : List Char → Option α} (hnil : read [] = none)
    (hspace : ∀ row, read (' ' :: row) = none) :
    (physicalLines (render cs)).filterMap read = found read cs := by
  rw [h.filterMap_physicalLines hnil hspace, List.filterMap_flatMap, found]

theorem read_nil : structName? [] = none ∧ submodule? [] = none ∧ export? [] = none := by
  simp [structName?, submodule?, export?, structWord_eq, moduleWord_eq, exportWord_eq,
    Text.stripPrefix?]

theorem read_of_ne {c : Char} (hc : c ≠ 'p') (row : List Char) :
    structName? (c :: row) = none ∧ submodule? (c :: row) = none ∧ export? (c :: row) = none := by
  simp [structName?, submodule?, export?, structWord_eq, moduleWord_eq, exportWord_eq,
    Text.stripPrefix?, hc.symm]

theorem structName?_declaration (name : String) :
    structName? ("pub struct " ++ name ++ openBrace).toList = some name := by
  have hrow : ("pub struct " ++ name ++ openBrace).toList =
      structWord ++ (name.toList ++ openBrace.toList) := by
    simp [structWord_eq]
  simp [structName?, hrow, Text.stripPrefix?_append, Text.stripSuffix?_append]

theorem submodule?_line (m : String) : submodule? ("pub mod " ++ m ++ ";").toList = some m := by
  have hrow : ("pub mod " ++ m ++ ";").toList = moduleWord ++ (m.toList ++ [';']) := by
    simp [moduleWord_eq]
  simp [submodule?, hrow, Text.stripPrefix?_append, Text.stripSuffix?_append]

theorem submodule?_export (text : String) : submodule? ("pub use " ++ text).toList = none := by
  simp [submodule?, moduleWord_eq, Text.stripPrefix?]

theorem export?_submodule (text : String) : export? ("pub mod " ++ text).toList = none := by
  simp [export?, exportWord_eq, Text.stripPrefix?]

theorem export?_line {m : String} (hm : IsName m) (name : String) :
    export? ("pub use " ++ (TypePath.mk [m] name).text ++ ";").toList = some (m, name) := by
  have hrow : ("pub use " ++ (TypePath.mk [m] name).text ++ ";").toList =
      exportWord ++ (m.toList ++ ':' :: ([':'] ++ name.toList) ++ [';']) := by
    simp [exportWord_eq, TypePath.text, String.intercalate_cons_cons]
  have hcolon : ':' ∉ m.toList := hm.not_mem (by decide)
  rw [export?, hrow, Text.stripPrefix?_append, Option.bind_eq_bind, Option.bind_some,
    Text.stripSuffix?_append, Option.bind_eq_bind, Option.bind_some, Text.splitOnce?_append hcolon,
    Option.bind_some]
  simp [Text.stripPrefix?]

/-! The index. -/

theorem eachTakesRow_paragraph {lines : List Code} (h : EachTakesRow lines) :
    EachTakesRow (paragraph lines) := by
  unfold paragraph
  split
  · exact eachTakesRow_nil
  · exact eachTakesRow_append.mpr ⟨h, eachTakesRow_blank_cons.mpr eachTakesRow_nil⟩

theorem prefix_append_append {cs : List Char} {a : String} (h : cs <+: a.toList) (b c : String) :
    cs <+: (a ++ b ++ c).toList := by
  rw [String.toList_append, String.toList_append, List.append_assoc]
  exact h.trans (List.prefix_append _ _)

theorem slashes_indexNote (module : String) : ['/', '/'] <+: (indexNote module).toList := by
  have hstart : ['/', '/'] <+: "//! VSS node model `".toList := by decide +kernel
  exact prefix_append_append hstart module "`."

theorem takesRow_indexNote (hmodule : '\n' ∉ module.toList) : TakesRow (indexNote module) where
  ne_nil h := by
    have hstart := slashes_indexNote module
    rw [h] at hstart
    simp at hstart
  oneLine := by
    have hends : '\n' ∉ "//! VSS node model `".toList ∧ '\n' ∉ "`.".toList := by decide +kernel
    unfold indexNote
    rw [String.toList_append, String.toList_append, List.mem_append, List.mem_append]
    exact not_or_intro (not_or_intro hends.1 hmodule) hends.2

theorem eachTakesRow_indexCode {names : List String} (hnames : ∀ n ∈ names, '\n' ∉ n.toList)
    (hmodule : '\n' ∉ module.toList) : EachTakesRow (indexCode names module) := by
  have hheader : EachTakesRow [.line generatedNote, .line (indexNote module), .blank] := by
    have hnote : TakesRow generatedNote := ⟨by decide +kernel, by decide +kernel⟩
    exact eachTakesRow_line_cons.mpr ⟨hnote, eachTakesRow_line_cons.mpr
      ⟨takesRow_indexNote hmodule, eachTakesRow_blank_cons.mpr eachTakesRow_nil⟩⟩
  have hsubmodules : EachTakesRow (names.map submoduleLine) :=
    eachTakesRow_map_line fun n _ => ⟨by simp, by
      simpa using (isName_moduleName n).not_mem (c := '\n') (by decide)⟩
  have hexports : EachTakesRow (names.map exportLine) := by
    refine eachTakesRow_map_line fun n hn => ⟨by simp, ?_⟩
    have hpath : (TypePath.mk [moduleName n] n).IsOneLine :=
      TypePath.isOneLine_of (by simpa using isName_moduleName n) (hnames n hn)
    simpa using hpath.newline_not_mem
  have htraits : EachTakesRow (nodeTraitCode ++ .blank :: childTraitCode) := by
    have htexts : ∀ t ∈ Code.texts (nodeTraitCode ++ .blank :: childTraitCode),
        t.toList ≠ [] ∧ '\n' ∉ t.toList := by decide +kernel
    exact fun t ht => ⟨(htexts t ht).1, (htexts t ht).2⟩
  rw [indexCode_eq, indexBody, eachTakesRow_append, eachTakesRow_append, eachTakesRow_append]
  exact ⟨hheader, ⟨eachTakesRow_paragraph hsubmodules, eachTakesRow_paragraph hexports⟩, htraits⟩

theorem found_header {α : Type} {read : List Char → Option α}
    (hread : ∀ row, read ('/' :: row) = none) {note : String} (hnote : ['/', '/'] <+: note.toList) :
    found read [.line generatedNote, .line note, .blank] = [] := by
  have hcomment {text : String} (htext : ['/', '/'] <+: text.toList) : read text.toList = none := by
    obtain ⟨rest, hrest⟩ := htext
    rw [← hrest]
    exact hread _
  have hgenerated : ['/', '/'] <+: generatedNote.toList := by decide +kernel
  simp [found, Code.margin, hcomment hgenerated, hcomment hnote]

theorem found_indexCode {α : Type} {read : List Char → Option α}
    (hread : ∀ row, read ('/' :: row) = none)
    (htraits : found read (nodeTraitCode ++ .blank :: childTraitCode) = [])
    (names : List String) (module : String) :
    found read (indexCode names module) =
      names.filterMap (fun n => read ("pub mod " ++ moduleName n ++ ";").toList) ++
        names.filterMap fun n =>
          read ("pub use " ++ (TypePath.mk [moduleName n] n).text ++ ";").toList := by
  rw [indexCode_eq, indexBody, found_append, found_append, found_append, found_paragraph,
    found_paragraph, htraits, found_header hread (slashes_indexNote module), List.nil_append,
    List.append_nil]
  congr 1
  · exact found_map_line read names fun n => "pub mod " ++ moduleName n ++ ";"
  · exact found_map_line read names fun n =>
      "pub use " ++ (TypePath.mk [moduleName n] n).text ++ ";"

theorem found_submodules (names : List String) (module : String) :
    found submodule? (indexCode names module) = names.map moduleName := by
  rw [found_indexCode (fun row => (read_of_ne (by decide) row).2.1) (by decide +kernel)]
  simp only [submodule?_line]
  simp only [String.append_assoc, submodule?_export]
  simp

theorem found_exports (names : List String) (module : String) :
    found export? (indexCode names module) = names.map fun n => (moduleName n, n) := by
  rw [found_indexCode (fun row => (read_of_ne (by decide) row).2.2) (by decide +kernel)]
  simp only [export?_line (isName_moduleName _)]
  simp only [String.append_assoc, export?_submodule]
  simp

/-! The files of units. -/

theorem structName?_of_head? {cs : List Char} {c : Char} (hcs : cs.head? = some c) (hc : c ≠ 'p') :
    structName? cs = none := by
  obtain ⟨row, rfl⟩ := List.head?_eq_some_iff.mp hcs
  exact (read_of_ne hc row).1

theorem structName?_closeBrace : structName? closeBrace.toList = none := by decide +kernel

theorem found_braces_cons {head : String} {body cs : List Code} {c : Char}
    (hhead : head.toList.head? = some c) (hc : c ≠ 'p') :
    found structName? (braces head body :: cs) = found structName? cs := by
  have hopening : structName? (head ++ openBrace).toList = none := by
    refine structName?_of_head? ?_ hc
    rw [String.toList_append, List.head?_append, hhead, Option.some_or]
  rw [braces, found_block_cons, hopening, structName?_closeBrace]
  rfl

theorem found_declaration_cons (s : StructItem) (cs : List Code) :
    found structName? (s.declaration :: cs) = s.name :: found structName? cs := by
  rw [StructItem.declaration, braces, found_block_cons, structName?_declaration,
    structName?_closeBrace]
  rfl

theorem found_structCode (s : StructItem) : found structName? s.code = [s.name] := by
  have hdocs : found structName? (s.docs.map docLine) = [] := by
    rw [show docLine = fun text => .line (docText text) from funext docLine_eq, found_map_line]
    refine List.filterMap_eq_nil_iff.mpr fun text _ => ?_
    obtain ⟨mark, ⟨rest, rfl⟩, -, htext⟩ := toList_docText text
    rw [htext]
    exact (read_of_ne (by decide) _).1
  have hderive (cs : List Code) : found structName?
      (.line "#[derive(Debug, Clone, PartialEq)]" :: cs) = found structName? cs := by
    have hnone : structName? "#[derive(Debug, Clone, PartialEq)]".toList = none := by
      decide +kernel
    rw [found_line_cons, hnone]
    rfl
  rw [StructItem.code, found_append, found_append, hdocs, hderive, found_declaration_cons,
    found_blank_cons, StructItem.constantImpl, found_braces_cons (c := 'i') (by simp) (by decide),
    found_blank_cons, StructItem.defaultImpl, found_braces_cons (c := 'i') (by simp) (by decide),
    found_blank_cons, StructItem.nodeImpl, found_braces_cons (c := 'i') (by simp) (by decide)]
  cases s.parent with
  | none => rfl
  | some parent =>
    dsimp only
    rw [found_blank_cons, StructItem.parentImpl, found_braces_cons (c := 'i') (by simp) (by decide)]
    rfl

def Item.structName? : Item → Option String
  | .struct s => some s.name
  | .module _ _ => none

theorem found_spaced_codesOf (items : List Item) :
    found Source.structName? (Code.spaced (Item.codesOf items)) =
      items.filterMap Item.structName? := by
  rw [found_spaced]
  induction items with
  | nil => rfl
  | cons item items ih =>
    rw [Item.codesOf, List.flatMap_cons, ih]
    cases item with
    | struct s =>
      rw [Item.code, found_structCode]
      rfl
    | module name items =>
      have hopening : Source.structName? ("pub mod " ++ name ++ openBrace).toList = none := by
        simp [Source.structName?, structWord_eq, Text.stripPrefix?]
      have hmodule : found Source.structName? (Item.code (.module name items)) = [] := by
        rw [Item.code, braces, found_block_cons, hopening, structName?_closeBrace]
        rfl
      rw [hmodule]
      rfl

theorem structNames_nestedItemsOf (depth : Nat) (parent : TypePath) (ds : List TypeDecl) :
    (nestedItemsOf depth parent ds).filterMap Item.structName? = ds.map (·.name) := by
  induction ds with
  | nil => rfl
  | cons d ds ih =>
    have hd : (nestedItems depth parent d).filterMap Item.structName? = [d.name] := by
      rw [nestedItems_eq]
      cases d.nested.isEmpty <;> rfl
    rw [nestedItemsOf, List.filterMap_append, hd, ih, List.map_cons, List.singleton_append]

theorem structNames_unitItems (u : TypeUnit) :
    (unitItems u).filterMap Item.structName? = u.decl.name :: u.decl.nested.map (·.name) := by
  rw [← structNames_nestedItemsOf 1 ⟨[], u.decl.name⟩]
  rfl

/-! Files side by side. -/

theorem toLower_of_isIdentChar {c : Char} (h : isIdentChar c = true) : c.toLower = c := by
  have hrange : 97 ≤ c.toNat ∨ c.toNat ≤ 57 ∨ c = '_' := by
    change ((c.val ≥ 97 && c.val ≤ 122) || (c.val ≥ 48 && c.val ≤ 57) || c == '_') = true at h
    simp only [Bool.or_eq_true, Bool.and_eq_true, decide_eq_true_eq, beq_iff_eq, ge_iff_le,
      UInt32.le_iff_toNat_le] at h
    change ((97 ≤ c.toNat ∧ c.toNat ≤ 122) ∨ 48 ≤ c.toNat ∧ c.toNat ≤ 57) ∨ c = '_' at h
    rcases h with (h | h) | h
    · exact .inl h.1
    · exact .inr (.inl h.2)
    · exact .inr (.inr h)
  have hupper : ¬(c.val ≥ 'A'.val ∧ c.val ≤ 'Z'.val) := by
    simp only [ge_iff_le, UInt32.le_iff_toNat_le]
    change ¬(65 ≤ c.toNat ∧ c.toNat ≤ 90)
    rcases hrange with h | h | rfl
    · omega
    · omega
    · decide
  exact dif_neg hupper

/-- The files of a module, and what their names and the index say of them. -/
structure ModuleFiles (units : List TypeUnit) (module : String) (files : List SourceFile) :
    Prop where
  listed : files = units.map fileOf ++ [renderIndex units module]
  names : files.map (·.name) =
    (units.map fun u => moduleName u.decl.name ++ ".rs") ++ ["mod.rs"]
  distinct : (files.map (·.name)).Nodup
  caseless : (files.map fun f => f.name.toList.map Char.toLower).Nodup
  plain : ∀ f ∈ files, ∃ stem, f.name = stem ++ ".rs" ∧ ∀ c ∈ stem.toList, isIdentChar c = true
  inside : ∀ f ∈ files, '/' ∉ f.name.toList ∧ '\\' ∉ f.name.toList ∧ f.name ≠ "." ∧ f.name ≠ ".."
  types : (units.map (·.decl.name)).Nodup
  submodules : ((physicalLines (renderIndex units module).contents).filterMap submodule?).Nodup ∧
    ∀ m, m ∈ (physicalLines (renderIndex units module).contents).filterMap submodule? ↔
      ∃ f ∈ units.map fileOf, f.name = m ++ ".rs"
  exports : (physicalLines (renderIndex units module).contents).filterMap export? =
    units.map fun u => (moduleName u.decl.name, u.decl.name)
  /-- Read below the header, whose line a path may break; the index is read whole. -/
  declared : ∀ u ∈ units, ∃ body, (fileOf u).contents =
      generatedNote ++ "\n" ++ unitNote u ++ "\n\n" ++ body ∧
    (physicalLines body).filterMap structName? = u.decl.name :: u.decl.nested.map (·.name) ∧
    (u.decl.name :: u.decl.nested.map (·.name)).Nodup

theorem exists_stem {f : SourceFile} (hf : f ∈ units.map fileOf ++ [renderIndex units module]) :
    ∃ stem, f.name = stem ++ ".rs" ∧ ∀ c ∈ stem.toList, isIdentChar c = true := by
  rcases List.mem_append.mp hf with hf | hf
  · obtain ⟨u, -, rfl⟩ := List.mem_map.mp hf
    exact ⟨moduleName u.decl.name, rfl, fun c hc => isIdentChar_of_mem_moduleName hc⟩
  · rw [List.mem_singleton.mp hf]
    have hindex : indexFile = "mod" ++ ".rs" := by decide +kernel
    have hstem : "mod".toList.all isIdentChar = true := by decide +kernel
    exact ⟨"mod", hindex, List.all_eq_true.mp hstem⟩

theorem toLower_name {f : SourceFile} {stem : String} (hname : f.name = stem ++ ".rs")
    (hstem : ∀ c ∈ stem.toList, isIdentChar c = true) :
    f.name.toList.map Char.toLower = f.name.toList := by
  have hmap : stem.toList.map Char.toLower = stem.toList := by
    conv_rhs => rw [← List.map_id stem.toList]
    exact List.map_congr_left fun c hc => toLower_of_isIdentChar (hstem c hc)
  rw [hname, String.toList_append, List.map_append, hmap]
  congr 1

theorem inside_of_name {name stem : String} (hname : name = stem ++ ".rs")
    (hstem : ∀ c ∈ stem.toList, isIdentChar c = true) :
    '/' ∉ name.toList ∧ '\\' ∉ name.toList ∧ name ≠ "." ∧ name ≠ ".." := by
  have hnot {c : Char} (hc : isIdentChar c = false) : c ∉ stem.toList := fun hmem => by
    rw [hstem c hmem] at hc
    cases hc
  have hlast : name.toList.getLast? = some 's' := by
    rw [hname, String.toList_append, List.getLast?_append]
    rfl
  refine ⟨?_, ?_, ?_, ?_⟩
  · simp [hname, hnot (c := '/') (by decide)]
  · simp [hname, hnot (c := '\\') (by decide)]
  · rintro rfl
    simp at hlast
  · rintro rfl
    simp at hlast

theorem fileName_injective : Function.Injective fun stem : String => stem ++ ".rs" := by
  intro s t h
  apply String.toList_injective
  have hlist := congrArg String.toList h
  simpa using hlist

theorem nodup_names_iff : ((units.map fileOf ++ [renderIndex units module]).map (·.name)).Nodup ↔
    (units.map fun u => moduleName u.decl.name).Nodup ∧ ∀ u ∈ units, unitFile u ≠ indexFile := by
  have hunits : (units.map fileOf).map (·.name) =
      (units.map fun u => moduleName u.decl.name).map (· ++ ".rs") := by
    rw [List.map_map, List.map_map]
    rfl
  rw [List.map_append, hunits, List.nodup_append, List.nodup_map_iff fileName_injective]
  simp only [List.map_singleton, List.nodup_singleton, true_and, List.mem_singleton, ne_eq,
    forall_eq, List.mem_map, forall_exists_index, and_imp, forall_apply_eq_imp_iff₂]
  rfl

section

variable (hunits : ∀ u ∈ units, u.NamesOneLine) (hmodule : '\n' ∉ module.toList)

include hunits hmodule

theorem eachTakesRow_index : EachTakesRow (indexCode (units.map (·.decl.name)) module) :=
  eachTakesRow_indexCode (List.forall_mem_map.mpr fun u hu =>
    ((hunits u hu).decl _ (TypeDecl.self_mem_types _)).1) hmodule

theorem submodules_renderIndex :
    (physicalLines (renderIndex units module).contents).filterMap submodule? =
      units.map fun u => moduleName u.decl.name := by
  rw [renderIndex, filterMap_physicalLines (eachTakesRow_index hunits hmodule) read_nil.2.1
    fun row => (read_of_ne (by decide) row).2.1, found_submodules, List.map_map]
  rfl

theorem exports_renderIndex :
    (physicalLines (renderIndex units module).contents).filterMap export? =
      units.map fun u => (moduleName u.decl.name, u.decl.name) := by
  rw [renderIndex, filterMap_physicalLines (eachTakesRow_index hunits hmodule) read_nil.2.2
    fun row => (read_of_ne (by decide) row).2.2, found_exports, List.map_map]
  rfl

end

theorem structs_fileOf {u : TypeUnit} (hu : u.NamesOneLine) : ∃ body,
    (fileOf u).contents = generatedNote ++ "\n" ++ unitNote u ++ "\n\n" ++ body ∧
    (physicalLines body).filterMap structName? = u.decl.name :: u.decl.nested.map (·.name) := by
  refine ⟨render (Code.spaced (Item.codesOf (unitItems u))), ?_, ?_⟩
  · rw [← render_header, ← render_append]
    rfl
  · have hrows : EachTakesRow (Code.spaced (Item.codesOf (unitItems u))) :=
      eachTakesRow_spaced.mpr (Item.eachTakesRow_codesOf (eachOneLine_unitItems hu))
    rw [filterMap_physicalLines hrows read_nil.1 fun row => (read_of_ne (by decide) row).1,
      found_spaced_codesOf, structNames_unitItems]

/-- Modules that are rendered have files that agree with each other, and modules whose files
would share a name are refused. -/
theorem moduleFiles (units : List TypeUnit) (module : String) :
    (∀ files, (∀ u ∈ units, u.NamesOneLine) → '\n' ∉ module.toList →
      (renderModule units module).result = .ok files → ModuleFiles units module files) ∧
    (¬(units.map fun u => moduleName u.decl.name).Nodup ∨
        (∃ u ∈ units, unitFile u = indexFile) →
      ∃ v, (renderModule units module).result = .error (.invariant v)) := by
  constructor
  · intro files hunits hmodule h
    obtain ⟨rfl, hcheck, hdistinct⟩ := renderModule_eq_ok h
    have hmodules := (nodup_names_iff.mp hdistinct).1
    have hsubmodules := submodules_renderIndex hunits hmodule
    refine ⟨rfl, ?_, hdistinct, ?_, fun f hf => exists_stem hf, fun f hf => ?_,
      nodup_unit_names hmodules, ⟨by rwa [hsubmodules], fun m => ?_⟩,
      exports_renderIndex hunits hmodule, fun u hu => ?_⟩
    · rw [List.map_append, List.map_map]
      rfl
    · have hsame : ((units.map fileOf ++ [renderIndex units module]).map fun f =>
          f.name.toList.map Char.toLower) =
          ((units.map fileOf ++ [renderIndex units module]).map (·.name)).map String.toList := by
        rw [List.map_map]
        refine List.map_congr_left fun f hf => ?_
        obtain ⟨stem, hname, hstem⟩ := exists_stem hf
        exact toLower_name hname hstem
      rw [hsame]
      exact nodup_map_toList.mpr hdistinct
    · obtain ⟨stem, hname, hstem⟩ := exists_stem hf
      exact inside_of_name hname hstem
    · rw [hsubmodules, List.mem_map]
      constructor
      · rintro ⟨u, hu, rfl⟩
        exact ⟨fileOf u, List.mem_map_of_mem hu, rfl⟩
      · rintro ⟨f, hf, hname⟩
        obtain ⟨u, hu, rfl⟩ := List.mem_map.mp hf
        exact ⟨u, hu, fileName_injective hname⟩
    · obtain ⟨body, hbody, hstructs⟩ := structs_fileOf (hunits u hu)
      obtain ⟨_, hu⟩ := hcheck u hu
      exact ⟨body, hbody, hstructs, nodup_of_checkUnit hu⟩
  · intro hclash
    cases h : (renderModule units module).result with
    | error e =>
      obtain ⟨v, rfl⟩ := blamesNames_renderModule units module e h
      exact ⟨v, rfl⟩
    | ok files =>
      obtain ⟨rfl, -, hdistinct⟩ := renderModule_eq_ok h
      obtain ⟨hmodules, hindex⟩ := nodup_names_iff.mp hdistinct
      rcases hclash with hclash | ⟨u, hu, hclash⟩
      · exact absurd hmodules hclash
      · exact absurd hclash (hindex u hu)

/-- A unit of one type with any name. -/
def loneUnit (name : String) : TypeUnit :=
  ⟨⟨name, .plainBranch (Path.ofText "A"), [], [], false⟩, none⟩

theorem moduleFiles_loneUnits :
    (∃ files, (renderModule [loneUnit "A/b; c", loneUnit "é"] "a::b").result = .ok files ∧
      ModuleFiles [loneUnit "A/b; c", loneUnit "é"] "a::b" files) ∧
    (∃ v, (renderModule [loneUnit "Ab", loneUnit "ab"] "a").result = .error (.invariant v)) ∧
    ∃ v, (renderModule [loneUnit "Mod"] "a").result = .error (.invariant v) := by
  have hone (name : String) (hname : '\n' ∉ name.toList) : (loneUnit name).NamesOneLine :=
    ⟨by simpa [loneUnit, TypeDecl.NamesOneLine, TypeDecl.types, TypeDecl.typesOf] using hname,
      by simp [loneUnit]⟩
  have hunits : ∀ u ∈ [loneUnit "A/b; c", loneUnit "é"], u.NamesOneLine := by
    simpa using ⟨hone "A/b; c" (by simp), hone "é" (by simp)⟩
  refine ⟨?_, (moduleFiles _ _).2 (.inl (by decide +kernel)),
    (moduleFiles _ _).2 (.inr ⟨_, List.mem_cons_self, by decide +kernel⟩)⟩
  have hok : (renderModule [loneUnit "A/b; c", loneUnit "é"] "a::b").result.isOk = true := by
    decide +kernel
  cases hfiles : (renderModule [loneUnit "A/b; c", loneUnit "é"] "a::b").result with
  | error e =>
    rw [hfiles] at hok
    cases hok
  | ok files => exact ⟨files, rfl, (moduleFiles _ _).1 files hunits (by simp) hfiles⟩

end SignalTree.Source
