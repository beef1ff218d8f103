import SignalTree.Proofs.Standing
import SignalTree.Proofs.Writer
import SignalTree.Proofs.WrittenRows

/-!
Units and their index told to a writer, call by call, as the types of a unit are walked: a type,
then what is declared in its scope. These are the calls of the code of the unit, so one writer
makes of many units what a fresh one makes of each (`composes`).
-/
namespace SignalTree.Source

def emitConstants (s : StructItem) : List Call :=
  .opening ("impl " ++ s.name ++ openBrace) ::
    (s.constants.map fun c =>
      .line ("pub const " ++ c.name ++ ": " ++ c.type ++ " = " ++ c.literal ++ ";")) ++
    [.closing closeBrace]

def emitChildList (s : StructItem) : List Call :=
  if s.fields.isEmpty then [.line "Vec::new()"]
  else
    .opening "vec![" ::
      (s.fields.map fun f =>
        .line ("&self." ++ f.name ++ " as &dyn " ++ (s.traitPath nodeTrait).text ++ ",")) ++
      [.closing "]"]

def emitStruct (s : StructItem) : List Call :=
  let trait := (s.traitPath nodeTrait).text
  (s.docs.map fun text => .line (docText text)) ++
  [.line "#[derive(Debug, Clone, PartialEq)]",
    .opening ("pub struct " ++ s.name ++ openBrace),
    .line ("pub " ++ valueField ++ ": " ++ s.value.rustType ++ ",")] ++
  (s.fields.map fun f => .line ("pub " ++ f.name ++ ": " ++ f.type.text ++ ",")) ++
  [.closing closeBrace, .blank] ++
  emitConstants s ++
  [.blank, .opening ("impl Default for " ++ s.name ++ openBrace),
    .opening ("fn default() -> Self" ++ openBrace), .opening ("Self" ++ openBrace),
    .line (valueField ++ ": " ++ s.value.defaultLiteral ++ ",")] ++
  (s.fields.map fun f => .line (f.name ++ ": Default::default(),")) ++
  [.closing closeBrace, .closing closeBrace, .closing closeBrace, .blank,
    .opening ("impl " ++ trait ++ " for " ++ s.name ++ openBrace),
    .opening ("fn vss_path(&self) -> &'static str" ++ openBrace), .line "Self::VSS_PATH",
    .closing closeBrace, .blank,
    .opening ("fn children(&self) -> Vec<&dyn " ++ trait ++ ">" ++ openBrace)] ++
  emitChildList s ++
  [.closing closeBrace, .closing closeBrace] ++
  match s.parent with
  | some parent =>
    [.blank, .opening ("impl " ++ (s.traitPath childTrait).text ++ " for " ++ s.name ++ openBrace),
      .line ("type Parent = " ++ parent.text ++ ";"), .closing closeBrace]
  | none => []

mutual

/-- A type and what is declared in its scope. `depth` counts the modules around the type in its
file. -/
def emitType (isUnit : Bool) (depth : Nat) (parent : Option TypePath) (d : TypeDecl) : List Call :=
  match d with
  | ⟨name, node, children, nested, implicit⟩ =>
    emitStruct (structItem isUnit (depth + 1) parent ⟨name, node, children, nested, implicit⟩) ++
      if nested.isEmpty then []
      else if isUnit then emitEach depth (innerParent true name) true nested
      else
        .blank :: .opening ("pub mod " ++ moduleName name ++ openBrace) ::
          emitEach (depth + 1) (innerParent false name) false nested ++ [.closing closeBrace]

def emitEach (depth : Nat) (parent : TypePath) (spaced : Bool) : List TypeDecl → List Call
  | [] => []
  | d :: rest =>
    (if spaced then [.blank] else []) ++ emitType false depth (some parent) d ++
      emitEach depth parent true rest

end

def emitUnit (u : TypeUnit) : List Call :=
  [.line generatedNote, .line ("//! `" ++ u.decl.path.text ++ "`"), .blank] ++
    emitType true 0 (u.parent.map parentPath) u.decl

def emitIndex (units : List TypeUnit) (module : String) : List Call :=
  let gap : List Call := if units.isEmpty then [] else [.blank]
  [.line generatedNote, .line ("//! VSS node model `" ++ module ++ "`."), .blank] ++
  (units.map fun u => .line ("pub mod " ++ moduleName u.decl.name ++ ";")) ++ gap ++
  (units.map fun u => .line ("pub use " ++ moduleName u.decl.name ++ "::" ++ u.decl.name ++ ";")) ++
  gap ++
  [.line "/// Common view over every generated VSS node.",
    .opening ("pub trait " ++ nodeTrait ++ openBrace),
    .line "/// Dotted VSS path of the node.",
    .line "fn vss_path(&self) -> &'static str;",
    .blank,
    .line "/// Child nodes, in definition order.",
    .line ("fn children(&self) -> Vec<&dyn " ++ nodeTrait ++ ">;"),
    .closing closeBrace,
    .blank,
    .line "/// Links a node type to the type of its parent node.",
    .opening ("pub trait " ++ childTrait ++ openBrace),
    .line ("type Parent: " ++ nodeTrait ++ ";"),
    .closing closeBrace]

/-! The calls are those of the code. -/

theorem emitStruct_eq (s : StructItem) : emitStruct s = Code.callsOf s.code := by
  have hdocs : Code.callsOf (s.docs.map docLine) = s.docs.map fun text => .line (docText text) := by
    rw [show docLine = fun text => .line (docText text) from funext docLine_eq,
      Code.callsOf_map_line]
  have hconstants : Code.callsOf (s.constants.map Constant.code) = s.constants.map fun c =>
      .line ("pub const " ++ c.name ++ ": " ++ c.type ++ " = " ++ c.literal ++ ";") :=
    Code.callsOf_map_line _ _
  have hchildren : Code.callsOf [s.childList] = emitChildList s := by
    unfold StructItem.childList emitChildList
    split <;> simp
  simp only [emitStruct, StructItem.code, Code.callsOf_append, hdocs]
  simp only [StructItem.declaration, StructItem.constantImpl, StructItem.defaultImpl,
    StructItem.nodeImpl, braces, emitConstants, Code.callsOf_line_cons, Code.callsOf_block_cons,
    Code.callsOf_blank_cons, Code.callsOf_nil, Code.callsOf_map_line, hconstants, hchildren]
  cases s.parent with
  | none => simp
  | some parent => simp [StructItem.parentImpl, braces]

theorem Code.spaced_cons (part : List Code) (rest : List (List Code)) :
    Code.spaced (part :: rest) = part ++ rest.flatMap (.blank :: ·) := by
  induction rest generalizing part with
  | nil => simp [Code.spaced]
  | cons next rest ih => simp [Code.spaced, ih]

theorem Item.codesOf_append (xs ys : List Item) :
    Item.codesOf (xs ++ ys) = Item.codesOf xs ++ Item.codesOf ys := by
  induction xs with
  | nil => rfl
  | cons x xs ih => simp [Item.codesOf, ih]

def trailing (items : List Item) : List Code := (Item.codesOf items).flatMap (.blank :: ·)

theorem trailing_append (xs ys : List Item) : trailing (xs ++ ys) = trailing xs ++ trailing ys := by
  rw [trailing, Item.codesOf_append, List.flatMap_append, trailing, trailing]

theorem trailing_cons (item : Item) (items : List Item) :
    trailing (item :: items) = .blank :: Code.spaced (Item.codesOf (item :: items)) := by
  rw [Item.codesOf, Code.spaced_cons]
  rfl

theorem trailing_nestedItems (depth : Nat) (parent : TypePath) (d : TypeDecl) :
    trailing (nestedItems depth parent d) =
      .blank :: Code.spaced (Item.codesOf (nestedItems depth parent d)) := by
  rw [nestedItems_eq, trailing_cons]

theorem emitEach_true (depth : Nat) (parent : TypePath) (d : TypeDecl) (rest : List TypeDecl) :
    emitEach depth parent true (d :: rest) = .blank :: emitEach depth parent false (d :: rest) := by
  simp [emitEach]

mutual

theorem emitType_eq (depth : Nat) (parent : TypePath) (d : TypeDecl) :
    emitType false depth (some parent) d =
      Code.callsOf (Code.spaced (Item.codesOf (nestedItems (depth + 1) parent d))) := by
  match d with
  | ⟨name, node, children, [], implicit⟩ =>
    simp [emitType, emitStruct_eq, nestedItems, Item.codesOf, Item.code, Code.spaced]
  | ⟨name, node, children, first :: rest, implicit⟩ =>
    have hinner := emitEach_eq (depth + 1) (innerParent false name) (first :: rest)
    have hmodule : emitEach (depth + 1) (innerParent false name) false (first :: rest) =
        Code.callsOf (Code.spaced (Item.codesOf
          (nestedItemsOf (depth + 1 + 1) (innerParent false name) (first :: rest)))) := by
      rw [emitEach_true, nestedItemsOf, nestedItems_eq, List.cons_append, trailing_cons,
        Code.callsOf_blank_cons] at hinner
      rw [(List.cons.inj hinner).2, nestedItemsOf, nestedItems_eq, List.cons_append]
    rw [innerParent_false] at hmodule
    simp [emitType, emitStruct_eq, nestedItems, Item.codesOf, Item.code, Code.spaced, braces,
      hmodule, nestedModule]

theorem emitEach_eq (depth : Nat) (parent : TypePath) (ds : List TypeDecl) :
    emitEach depth parent true ds =
      Code.callsOf (trailing (nestedItemsOf (depth + 1) parent ds)) := by
  match ds with
  | [] => rfl
  | d :: rest =>
    have hd := emitType_eq depth parent d
    have hrest := emitEach_eq depth parent rest
    rw [emitEach, nestedItemsOf, trailing_append, Code.callsOf_append, hrest, hd,
      trailing_nestedItems]
    rfl

end

theorem emitType_unit_eq (u : TypeUnit) : emitType true 0 (u.parent.map parentPath) u.decl =
    Code.callsOf (Code.spaced (Item.codesOf (unitItems u))) := by
  obtain ⟨⟨name, node, children, nested, implicit⟩, parent⟩ := u
  have heach := emitEach_eq 0 ⟨[], name⟩ nested
  rw [unitItems, Item.codesOf, Code.spaced_cons, Code.callsOf_append, ← trailing, ← heach,
    emitType, emitStruct_eq]
  cases nested with
  | nil => rfl
  | cons first rest => rfl

theorem emitUnit_eq (u : TypeUnit) : emitUnit u = Code.callsOf (unitCode u) := by
  rw [emitUnit, unitCode, Code.callsOf_append, emitType_unit_eq]
  rfl

theorem emitIndex_eq (units : List TypeUnit) (module : String) :
    emitIndex units module = Code.callsOf (indexCode (units.map (·.decl.name)) module) := by
  have hexport (name : String) : (TypePath.mk [moduleName name] name).text =
      moduleName name ++ "::" ++ name := by
    simp [TypePath.text, String.intercalate_cons_cons]
  have hsubmodules : Code.callsOf ((units.map (·.decl.name)).map submoduleLine) =
      units.map fun u => .line ("pub mod " ++ moduleName u.decl.name ++ ";") := by
    rw [List.map_map]
    exact Code.callsOf_map_line _ _
  have hexports : Code.callsOf ((units.map (·.decl.name)).map exportLine) = units.map fun u =>
      .line ("pub use " ++ moduleName u.decl.name ++ "::" ++ u.decl.name ++ ";") := by
    rw [List.map_map]
    refine (Code.callsOf_map_line _ _).trans (List.map_congr_left fun u _ => ?_)
    rw [hexport, ← String.append_assoc, ← String.append_assoc]
  have hgap {lines : List Code} (h : lines.length = units.length) :
      Code.callsOf (paragraph lines) =
        Code.callsOf lines ++ if units.isEmpty then [] else [.blank] := by
    cases lines with
    | nil => simp [paragraph, List.length_eq_zero_iff.mp h.symm]
    | cons line lines =>
      cases units with
      | nil => simp at h
      | cons u units => exact Code.callsOf_append (line :: lines) [.blank]
  rw [indexCode, Code.callsOf_append, Code.callsOf_append, Code.callsOf_append,
    Code.callsOf_append, hgap (by simp), hgap (by simp), hsubmodules, hexports]
  simp [emitIndex, nodeTraitCode, childTraitCode, braces]

/-! Where a type is written. -/

theorem balanced_emitStruct (s : StructItem) : Balanced (emitStruct s) := by
  rw [emitStruct_eq]
  exact Code.balanced_callsOf _

theorem balanced_emitType (depth : Nat) (parent : TypePath) (d : TypeDecl) :
    Balanced (emitType false depth (some parent) d) := by
  rw [emitType_eq]
  exact Code.balanced_callsOf _

theorem emitUnits_eq (units : List TypeUnit) :
    units.flatMap emitUnit = Code.callsOf (units.flatMap unitCode) := by
  rw [Code.callsOf_flatMap]
  exact congrArg (units.flatMap ·) (funext emitUnit_eq)

theorem balanced_emitUnit (u : TypeUnit) : Balanced (emitUnit u) := by
  rw [emitUnit_eq]
  exact Code.balanced_callsOf _

theorem balanced_emitUnits (units : List TypeUnit) : Balanced (units.flatMap emitUnit) := by
  rw [emitUnits_eq]
  exact Code.balanced_callsOf _

/-- Calls that are part of others, so many levels further in than these begin. -/
def Within (part : List Call) (levels : Nat) (calls : List Call) : Prop :=
  ∃ before after, calls = before ++ part ++ after ∧
    ∀ w : Writer, (w.run before).indent = w.indent + levels

namespace Within

theorem trans {inner part calls : List Call} {a b : Nat} (h : Within part b calls)
    (hinner : Within inner a part) : Within inner (b + a) calls := by
  obtain ⟨front, back, rfl, hfront⟩ := h
  obtain ⟨before, after, rfl, hbefore⟩ := hinner
  refine ⟨front ++ before, after ++ back, by simp, fun w => ?_⟩
  rw [Writer.run_append, hbefore, hfront, Nat.add_assoc]

theorem append_left {xs ys part : List Call} {levels : Nat} (h : Within part levels ys)
    (hxs : ∀ w : Writer, (w.run xs).indent = w.indent) : Within part levels (xs ++ ys) := by
  have hys : Within ys 0 (xs ++ ys) := ⟨xs, [], by simp, hxs⟩
  simpa using hys.trans h

theorem append_right {xs part : List Call} {levels : Nat} (h : Within part levels xs)
    (ys : List Call) : Within part levels (xs ++ ys) := by
  have hxs : Within xs 0 (xs ++ ys) := ⟨[], ys, by simp, fun _ => rfl⟩
  simpa using hxs.trans h

end Within

theorem within_emitEach {depth : Nat} {parent : TypePath} {ds : List TypeDecl} {d : TypeDecl}
    (hd : d ∈ ds) (spaced : Bool) :
    Within (emitType false depth (some parent) d) 0 (emitEach depth parent spaced ds) := by
  induction ds generalizing spaced with
  | nil => exact absurd hd List.not_mem_nil
  | cons first rest ih =>
    have hgap (w : Writer) : (w.run (if spaced then [.blank] else [])).indent = w.indent := by
      cases spaced <;> rfl
    rw [emitEach]
    rcases List.mem_cons.mp hd with rfl | hd
    · exact ⟨_, _, rfl, hgap⟩
    · refine (ih hd true).append_left fun w => ?_
      rw [Writer.run_append, (balanced_emitType depth parent first).settled, hgap]

theorem within_emitType {isUnit : Bool} {depth : Nat} {parent : Option TypePath}
    {t d : TypeDecl} (hd : d ∈ t.nested) :
    Within (emitType false (depth + (innerModules isUnit t.name).length)
        (some (innerParent isUnit t.name)) d) (innerModules isUnit t.name).length
      (emitType isUnit depth parent t) := by
  obtain ⟨name, node, children, nested, implicit⟩ := t
  have hne : nested.isEmpty = false := by simpa using List.ne_nil_of_mem hd
  rw [emitType, hne, if_neg (by simp)]
  refine Within.append_left ?_ (balanced_emitStruct _).settled
  cases isUnit with
  | true => exact within_emitEach hd true
  | false =>
    have hbody : Within (emitEach (depth + 1) (innerParent false name) false nested) 1
        (.blank :: .opening ("pub mod " ++ moduleName name ++ openBrace) ::
          emitEach (depth + 1) (innerParent false name) false nested ++ [.closing closeBrace]) :=
      ⟨[.blank, .opening ("pub mod " ++ moduleName name ++ openBrace)], [.closing closeBrace], rfl,
        fun _ => rfl⟩
    exact hbody.trans (within_emitEach hd false)

theorem StandsAt.within {units : List TypeUnit} {loc : Location} {isUnit : Bool}
    {parent : Option TypePath} {t : TypeDecl} (h : StandsAt units loc isUnit parent t) :
    Within (emitType isUnit (loc.length - 1) parent t) (loc.length - 1)
      (units.flatMap emitUnit) := by
  induction h with
  | @unit u hm =>
    obtain ⟨before, after, rfl⟩ := List.append_of_mem hm
    rw [List.flatMap_append, List.flatMap_cons]
    refine Within.append_left (Within.append_right ?_ _) (balanced_emitUnits before).settled
    exact ⟨_, [], (List.append_nil _).symm, fun _ => rfl⟩
  | @nested loc isUnit parent t d ht hd ih =>
    have hlength : (loc ++ innerModules isUnit t.name).length - 1 =
        loc.length - 1 + (innerModules isUnit t.name).length := by
      have hpos := ht.length_pos
      rw [List.length_append]
      omega
    rw [hlength]
    exact ih.trans (within_emitType hd)

/-! What is written. -/

theorem ofList_written (indent : Nat) (cs : List Code) :
    String.ofList (Writer.written indent (Code.callsOf cs)) = renderAt indent cs := by
  rw [Code.written_callsOf, renderAt]

/-- What one writer makes of some units and their index, told one after the other. -/
structure Composes (units : List TypeUnit) (module : String) : Prop where
  concatenated : Writer.written 0 (units.flatMap emitUnit ++ emitIndex units module) =
    units.flatMap (fun u => Writer.written 0 (emitUnit u)) ++
      Writer.written 0 (emitIndex units module)
  unit : ∀ u, Writer.written 0 (emitUnit u) = (fileOf u).contents.toList
  index : Writer.written 0 (emitIndex units module) = (renderIndex units module).contents.toList
  together : (renderTogether units module).result =
    .ok (String.ofList (Writer.written 0 (units.flatMap emitUnit ++ emitIndex units module)))
  guarded : ∀ before text after,
    units.flatMap emitUnit ++ emitIndex units module = before ++ .closing text :: after →
    0 < (Writer.fresh.run before).indent
  nested : ∀ {loc parent d levels}, StandsAt units loc false (some parent) d →
    loc.length = levels + 1 →
    (∃ before after, units.flatMap emitUnit ++ emitIndex units module =
        before ++ emitType false levels (some parent) d ++ after ∧
      (Writer.fresh.run before).indent = levels ∧
      ∃ tail, Writer.written 0 (units.flatMap emitUnit ++ emitIndex units module) =
        Writer.written 0 before ++
          Writer.written levels (emitType false levels (some parent) d) ++ tail) ∧
    (d.NamesOneLine → parent.IsOneLine →
      physicalLines (String.ofList (Writer.written levels (emitType false levels (some parent) d))) =
        (physicalLines (String.ofList
          (Writer.written 0 (emitType false levels (some parent) d)))).map (deepen levels))

theorem deepen_written {levels depth : Nat} {parent : TypePath} {d : TypeDecl}
    (hd : d.NamesOneLine) (hparent : parent.IsOneLine) :
    physicalLines (String.ofList (Writer.written levels (emitType false depth (some parent) d))) =
      (physicalLines (String.ofList
        (Writer.written 0 (emitType false depth (some parent) d)))).map (deepen levels) := by
  have hrows : EachTakesRow (Code.spaced (Item.codesOf (nestedItems (depth + 1) parent d))) :=
    eachTakesRow_spaced.mpr
      (Item.eachTakesRow_codesOf (eachOneLine_nestedItems (depth + 1) d hd hparent))
  rw [emitType_eq, ofList_written, ofList_written]
  exact hrows.physicalLines_renderAt levels

theorem composes (units : List TypeUnit) (module : String) : Composes units module := by
  have hcalls : units.flatMap emitUnit ++ emitIndex units module =
      Code.callsOf (units.flatMap unitCode ++ indexCode (units.map (·.decl.name)) module) := by
    rw [emitUnits_eq, emitIndex_eq, Code.callsOf_append]
  refine ⟨?_, ?_, ?_, ?_, ?_, ?_⟩
  · rw [(balanced_emitUnits units).written_append, Balanced.written_flatMap balanced_emitUnit]
  · intro u
    rw [emitUnit_eq, Code.written_callsOf, fileOf, render, String.toList_ofList]
  · rw [emitIndex_eq, Code.written_callsOf, renderIndex, render, String.toList_ofList]
  · rw [hcalls, ofList_written, renderAt_zero]
    rfl
  · intro before text after h
    rw [hcalls] at h
    exact (Code.balanced_callsOf _).above before text after h .fresh
  · intro loc parent d levels hstands hlevels
    have hwithin := hstands.within.append_right (emitIndex units module)
    rw [hlevels, Nat.add_sub_cancel] at hwithin
    obtain ⟨before, after, heq, hindent⟩ := hwithin
    have hbefore : (Writer.fresh.run before).indent = levels := by
      rw [hindent]
      exact Nat.zero_add _
    refine ⟨⟨before, after, heq, hbefore, ?_⟩, deepen_written⟩
    have hpart : Writer.written 0 (before ++ emitType false levels (some parent) d) =
        Writer.written 0 before ++
          Writer.written levels (emitType false levels (some parent) d) := by
      have hstart : (Writer.run ⟨[], 0⟩ before).indent = levels := hbefore
      rw [Writer.written_append, hstart]
    exact ⟨_, by rw [heq, Writer.written_append, hpart]⟩

def towerSample : TypeUnit where
  decl := ⟨"VssA", .plainBranch (Path.ofText "A"), [],
    [⟨"VssB", .plainBranch (Path.ofText "A.B"), [],
      [⟨"VssC", .plainBranch (Path.ofText "A.B.C"), [],
        [⟨"VssD", .plainBranch (Path.ofText "A.B.C.D"), [], [], true⟩], true⟩], true⟩], false⟩
  parent := none

theorem composes_towerSample :
    ∃ d ∈ towerSample.types, d.name = "VssD" ∧
      physicalLines (String.ofList (Writer.written 2
        (emitType false 2 (some ⟨[TypePath.upward], "VssC"⟩) d))) =
      (physicalLines (String.ofList (Writer.written 0
        (emitType false 2 (some ⟨[TypePath.upward], "VssC"⟩) d)))).map (deepen 2) := by
  have hunit : StandsAt [towerSample] _ true _ towerSample.decl := .unit List.mem_cons_self
  have hstands := ((hunit.nested List.mem_cons_self).nested List.mem_cons_self).nested
    List.mem_cons_self
  have hlevels : 3 = 2 + 1 := rfl
  refine ⟨_, ?_, rfl, ((composes [towerSample] "model").nested hstands hlevels).2 ?_ ?_⟩
  · simp [towerSample, TypeUnit.types, TypeDecl.types, TypeDecl.typesOf]
  · simp [TypeDecl.NamesOneLine, TypeDecl.types, TypeDecl.typesOf]
  · exact TypePath.isOneLine_of (by simpa using TypePath.isName_upward) (by simp)

end SignalTree.Source
