import Mathlib.Data.List.DropRight
import SignalTree.Proofs.Quote
import SignalTree.Proofs.WrittenRows

/-!
The constants of a type read back from the text they are written in. A row holds one constant,
no value ends its literal or its row early, and the literals say exactly what the node says:
its texts, and those of its bounds that fit (`constants_tell`).
-/
namespace SignalTree

namespace Text.Literal

def bareQuotes : List Char → Nat
  | [] => 0
  | '\\' :: _ :: rest => bareQuotes rest
  | c :: rest => bareQuotes rest + if c = '"' then 1 else 0

theorem bareQuotes_append {cs : List Char} (hquote : '"' ∉ cs) (hslash : '\\' ∉ cs)
    (rest : List Char) : bareQuotes (cs ++ rest) = bareQuotes rest := by
  induction cs with
  | nil => rfl
  | cons c cs ih =>
    simp only [List.mem_cons, not_or] at hquote hslash
    rw [List.cons_append, bareQuotes, ih hquote.2 hslash.2, if_neg (Ne.symm hquote.1)]
    · rfl
    · rintro d more rfl
      exact absurd rfl hslash.1

theorem bareQuotes_escape (c : Char) (rest : List Char) :
    bareQuotes (escape c ++ rest) = bareQuotes rest := by
  obtain ⟨d, h, -⟩ | ⟨h, hslash, hquote, -⟩ | h := escape_cases c
  · rw [h]
    rfl
  · rw [h]
    exact bareQuotes_append (by simpa using hquote.symm) (by simpa using hslash.symm) rest
  · have hdigits {d : Char} (hd : ∀ n, Nat.digitChar n ≠ d) : d ∉ Nat.toDigits 16 c.toNat :=
      not_mem_toDigits hd (by decide) _
    have hquote : '"' ∉ 'u' :: '{' :: (Nat.toDigits 16 c.toNat ++ ['}']) := by
      simpa using hdigits (by simp)
    have hslash : '\\' ∉ '{' :: (Nat.toDigits 16 c.toNat ++ ['}']) := by
      simpa using hdigits (by simp)
    rw [h, escapeNumber]
    change bareQuotes ('\\' :: 'u' :: ('{' :: (Nat.toDigits 16 c.toNat ++ ['}']) ++ rest)) = _
    rw [bareQuotes, bareQuotes_append (fun hmem => hquote (List.mem_cons_of_mem _ hmem)) hslash]

theorem bareQuotes_flatMap_escape (cs : List Char) : bareQuotes (cs.flatMap escape) = 0 := by
  induction cs with
  | nil => rfl
  | cons c cs ih => rw [List.flatMap_cons, bareQuotes_escape, ih]

/-- A literal that ends neither its row nor itself before its last character. -/
structure IsConfined (literal : List Char) : Prop where
  newline : '\n' ∉ literal
  carriage : '\r' ∉ literal
  quotes : bareQuotes literal = 0 ∨
    ∃ inner, literal = '"' :: inner ++ ['"'] ∧ bareQuotes inner = 0

theorem isConfined_encode (cs : List Char) : IsConfined (encode cs) where
  newline := not_mem_encode (.inl rfl) cs
  carriage := not_mem_encode (.inr rfl) cs
  quotes := .inr ⟨_, rfl, bareQuotes_flatMap_escape cs⟩

theorem isConfined_of_isNumberChar {cs : List Char} (h : ∀ c ∈ cs, isNumberChar c = true) :
    IsConfined cs := by
  have hnone {c : Char} (hc : isNumberChar c = false) : c ∉ cs := fun hmem => by
    rw [h c hmem] at hc
    cases hc
  have hquotes : bareQuotes (cs ++ []) = 0 :=
    bareQuotes_append (hnone (by decide)) (hnone (by decide)) []
  exact ⟨hnone (by decide), hnone (by decide), .inl (by rwa [List.append_nil] at hquotes)⟩

end Text.Literal

theorem Scalar.isConfined_literal? {s : Scalar} {raw literal : String}
    (h : s.literal? raw = some literal) : Text.Literal.IsConfined literal.toList := by
  cases s with
  | string =>
    simp only [literal?, Option.some.injEq] at h
    subst h
    simpa using Text.Literal.isConfined_encode (Text.trim raw.toList)
  | boolean =>
    simp only [literal?] at h
    split_ifs at h <;> cases h
    · exact ⟨by decide +kernel, by decide +kernel, .inl (by decide +kernel)⟩
    · exact ⟨by decide +kernel, by decide +kernel, .inl (by decide +kernel)⟩
  | integer signed w =>
    simp only [literal?, Option.bind_eq_some_iff] at h
    obtain ⟨n, -, hn⟩ := h
    split_ifs at hn
    cases hn
    exact Text.Literal.isConfined_of_isNumberChar (isNumberChar_toString n)
  | float =>
    simp only [literal?, Option.bind_eq_some_iff] at h
    obtain ⟨x, -, hx⟩ := h
    split_ifs at hx
    cases hx
    exact Text.Literal.isConfined_of_isNumberChar
      (NumberFormat.isNumberChar_render (List.forall_mem_nil _) x)
  | double =>
    simp only [literal?, Option.map_eq_some_iff] at h
    obtain ⟨x, -, rfl⟩ := h
    exact Text.Literal.isConfined_of_isNumberChar
      (NumberFormat.isNumberChar_render (List.forall_mem_nil _) x)

namespace Source

/-! Rows with constants. -/

def constantRow (indent : Nat) (c : Constant) : List Char :=
  (Line.text indent ("pub const " ++ c.name ++ ": " ++ c.type ++ " = " ++ c.literal ++ ";")).row

def constant? (row : List Char) : Option Constant := do
  let declared ← Text.stripPrefix? "pub const ".toList (row.dropWhile (· == ' '))
  let (name, typed) ← Text.splitOnce? ':' declared
  let (type, value) ← Text.splitOnce? '=' (← Text.stripPrefix? [' '] typed)
  let type ← Text.stripSuffix? [' '] type
  let literal ← Text.stripSuffix? [';'] (← Text.stripPrefix? [' '] value)
  return ⟨String.ofList name, String.ofList type, String.ofList literal⟩

theorem dropWhile_spaces (n : Nat) (cs : List Char) :
    (List.replicate n ' ' ++ cs).dropWhile (· == ' ') = cs.dropWhile (· == ' ') :=
  List.dropWhile_append_of_pos fun c hc => by simp [List.eq_of_mem_replicate hc]

theorem constant?_constantRow {c : Constant} (hname : ':' ∉ c.name.toList)
    (htype : '=' ∉ c.type.toList) (indent : Nat) :
    constant? (constantRow indent c) = some c := by
  have hrow : (constantRow indent c).dropWhile (· == ' ') = "pub const ".toList ++
      (c.name.toList ++ ':' :: ([' '] ++ (c.type.toList ++ [' '] ++ '=' ::
        ([' '] ++ (c.literal.toList ++ [';']))))) := by
    rw [constantRow, Line.row, dropWhile_spaces]
    simp
  have htype : '=' ∉ c.type.toList ++ [' '] := by simpa using htype
  simp only [constant?, hrow, Text.stripPrefix?_append, Text.splitOnce?_append hname,
    Text.splitOnce?_append htype, Text.stripSuffix?_append, Option.bind_eq_bind, Option.bind_some,
    String.ofList_toList]
  rfl

def blockRows (text : String) : List (List Char) :=
  (physicalLines text).rtakeWhile fun row => row.getLast? != some '{'

def readConstants (text : String) : List Constant := (blockRows text).filterMap constant?

theorem rtakeWhile_append {α : Type} {p : α → Bool} {before after : List α} {x : α}
    (hx : p x = false) (hafter : ∀ y ∈ after, p y = true) :
    (before ++ [x] ++ after).rtakeWhile p = after := by
  rw [List.rtakeWhile, List.reverse_append, List.reverse_append, List.takeWhile_append_of_pos]
  · simp [hx]
  · simpa using hafter

theorem pieces_concat {sep c : Char} (hc : c ≠ sep) (cs : List Char) :
    ∃ before last, Text.pieces sep (cs ++ [c]) = before ++ [last ++ [c]] := by
  induction cs with
  | nil => exact ⟨[], [], by simp [Text.pieces, hc]⟩
  | cons d cs ih =>
    obtain ⟨before, last, h⟩ := ih
    rw [List.cons_append, Text.pieces, h]
    split
    · exact ⟨[] :: before, last, rfl⟩
    · cases before with
      | nil => exact ⟨[], d :: last, rfl⟩
      | cons row before => exact ⟨(d :: row) :: before, last, rfl⟩

namespace StructItem

variable {s : StructItem}

theorem physicalLines_constantImpl (h : ∀ c ∈ s.constants, c.OneLine) (indent : Nat) :
    physicalLines (renderAt indent [s.constantImpl]) =
      physicalLines (String.ofList (List.replicate (4 * indent) ' ') ++ "impl " ++ s.name ++
        openBrace) ++ (s.constants.map (constantRow (indent + 1)) ++
          [List.replicate (4 * indent) ' ' ++ ['}'], []]) := by
  have hbody : Code.linesOf (indent + 1) (s.constants.map Constant.code) =
      s.constants.map fun c => .text (indent + 1)
        ("pub const " ++ c.name ++ ": " ++ c.type ++ " = " ++ c.literal ++ ";") := by
    induction s.constants with
    | nil => rfl
    | cons c cs ih =>
      rw [List.map_cons, Code.linesOf, ih]
      rfl
  have hone : ∀ l ∈ Code.linesOf (indent + 1) (s.constants.map Constant.code) ++
      [.text indent closeBrace], l.OneLine :=
    List.forall_mem_append.mpr ⟨(eachTakesRow_constants h).oneLine _,
      List.forall_mem_singleton.mpr takesRow_closeBrace.oneLine⟩
  have htext : renderAt indent [s.constantImpl] =
      String.ofList (List.replicate (4 * indent) ' ') ++ "impl " ++ s.name ++ openBrace ++ "\n" ++
        String.ofList ((Code.linesOf (indent + 1) (s.constants.map Constant.code) ++
          [Line.text indent closeBrace]).flatMap Line.chars) := by
    apply String.toList_injective
    simp [renderAt, constantImpl, braces, Code.linesOf, Code.lines, Line.chars]
  rw [htext, physicalLines_append]
  congr 1
  rw [physicalLines, String.toList_ofList, pieces_flatMap_chars_eq hone, hbody, List.map_append,
    List.map_map, List.append_assoc]
  rfl

theorem blockRows_constantImpl (h : ∀ c ∈ s.constants, c.OneLine) (indent : Nat) :
    blockRows (renderAt indent [s.constantImpl]) =
      s.constants.map (constantRow (indent + 1)) ++
        [List.replicate (4 * indent) ' ' ++ ['}'], []] := by
  obtain ⟨before, last, hhead⟩ := pieces_concat (show '{' ≠ '\n' by decide)
    (String.ofList (List.replicate (4 * indent) ' ') ++ "impl " ++ s.name ++ " ").toList
  have hhead : physicalLines (String.ofList (List.replicate (4 * indent) ' ') ++ "impl " ++
      s.name ++ openBrace) = before ++ [last ++ ['{']] := by
    rw [← hhead, physicalLines]
    simp [openBrace]
  rw [blockRows, physicalLines_constantImpl h, hhead]
  refine rtakeWhile_append (by simp) fun row hrow => ?_
  rcases List.mem_append.mp hrow with hrow | hrow
  · obtain ⟨c, -, rfl⟩ := List.mem_map.mp hrow
    simp [constantRow, Line.row, List.getLast?_append, List.getLast?_cons]
  · simp only [List.mem_cons, List.not_mem_nil, or_false] at hrow
    rcases hrow with rfl | rfl <;> simp [List.getLast?_append]

end StructItem

/-! What the constants of a node tell. -/

def boundAttribute : BoundKind → Attribute
  | .min => .min
  | .max => .max

def optionalTexts : List (String × Attribute) :=
  [("DESCRIPTION", .description), ("COMMENT", .comment), ("UNIT", .unit), ("DATATYPE", .datatype)]

/-- The texts of a node under the names of their constants: where and what it is, and those of
the optional attributes that it has. -/
def namedTexts (n : Node) : List (String × String) :=
  [("VSS_PATH", n.path.text), ("UUID", n.properties.uuid), ("NODE_KIND", n.properties.kind)] ++
    optionalTexts.filterMap fun (name, a) => (n.properties.value? a).map (name, ·)

/-- What becomes of a bound: a node without it says nothing of it, a bound that fits becomes a
constant, and any other is reported. -/
inductive BoundOutcome (n : Node) (bound : BoundKind) : List Constant → List Event → Prop
  | absent (h : n.properties.value? (boundAttribute bound) = none) : BoundOutcome n bound [] []
  | written {raw type literal : String}
      (hraw : n.properties.value? (boundAttribute bound) = some raw)
      (htype : n.valueType.boundType? = some type)
      (hliteral : n.valueType.boundLiteral? raw = some literal) :
    BoundOutcome n bound [⟨bound.name, type, literal⟩] []
  | omitted {raw : String} (hraw : n.properties.value? (boundAttribute bound) = some raw)
      (hfit : n.valueType.boundType? = none ∨ n.valueType.boundLiteral? raw = none) :
    BoundOutcome n bound [] [.boundOmitted n.path bound raw n.valueType]

/-- What a block of constants tells of a node, and the events that go with it. -/
structure Tells (n : Node) (name : String) (indent : Nat) (text : String) (log : List Event) :
    Prop where
  rows : ∃ rows last, physicalLines text =
      physicalLines (String.ofList (List.replicate (4 * indent) ' ') ++ "impl " ++ name ++
        openBrace) ++ blockRows text ∧
    blockRows text = rows ++ [last, []] ∧ rows.map constant? = (readConstants text).map some
  confined : ∀ c ∈ readConstants text, Text.Literal.IsConfined c.literal.toList
  constants : ∃ texts minimum maximum minLog maxLog,
    readConstants text = texts ++ minimum ++ maximum ∧ log = minLog ++ maxLog ∧
    (texts.map fun c => (c.name, c.type, Text.Literal.decode? c.literal.toList)) =
      ((namedTexts n).map fun t => (t.1, "&'static str", some t.2.toList)) ∧
    BoundOutcome n .min minimum minLog ∧ BoundOutcome n .max maximum maxLog

/-- Nodes that say the same but for their bounds. -/
structure SameTexts (n m : Node) : Prop where
  path : n.path = m.path
  uuid : n.properties.uuid = m.properties.uuid
  kind : n.properties.kind = m.properties.kind
  description : n.properties.description = m.properties.description
  comment : n.properties.comment = m.properties.comment
  unit : n.properties.unit = m.properties.unit
  datatype : n.properties.datatype = m.properties.datatype

section

variable {n m : Node}

theorem bounds_eq (p : Properties) :
    bounds p = ((p.value? .min).map (BoundKind.min, ·)).toList ++
      ((p.value? .max).map (BoundKind.max, ·)).toList := by
  simp [bounds, Properties.value?, Properties.get?, Function.comp_def]

theorem boundOutcome (n : Node) (bound : BoundKind) :
    let entry := ((n.properties.value? (boundAttribute bound)).map (bound, ·)).toList
    BoundOutcome n bound
      (entry.filterMap fun (bound, raw) => boundConstant? n.valueType bound raw)
      (entry.filterMap fun (bound, raw) =>
        match boundConstant? n.valueType bound raw with
        | some _ => none
        | none => some (.boundOmitted n.path bound raw n.valueType)) := by
  cases hraw : n.properties.value? (boundAttribute bound) with
  | none => exact .absent hraw
  | some raw =>
    cases htype : n.valueType.boundType? with
    | none => simpa [boundConstant?, htype] using .omitted hraw (.inl htype)
    | some type =>
      cases hliteral : n.valueType.boundLiteral? raw with
      | none => simpa [boundConstant?, htype, hliteral] using .omitted hraw (.inr hliteral)
      | some literal =>
        simpa [boundConstant?, htype, hliteral] using .written hraw htype hliteral

theorem constants_eq (n : Node) :
    constants n = (namedTexts n).map (fun t => textConstant t.1 t.2) ++ boundConstants n := by
  have hvalue (name : String) (value : Option String) :
      ((value.map (name, ·)).toList.map fun t => textConstant t.1 t.2) =
        (value.map (textConstant name)).toList := by
    cases value <;> rfl
  simp [constants, namedTexts, optionalTexts, Properties.value?, Properties.get?,
    Function.comp_def, List.filterMap_eq_flatMap_toList, hvalue]

theorem mem_constants {c : Constant} (hc : c ∈ constants n) :
    (∃ t ∈ namedTexts n, c = textConstant t.1 t.2) ∨
      ∃ bound raw, boundConstant? n.valueType bound raw = some c := by
  rw [constants_eq] at hc
  rcases List.mem_append.mp hc with hc | hc
  · obtain ⟨t, ht, rfl⟩ := List.mem_map.mp hc
    exact .inl ⟨t, ht, rfl⟩
  · obtain ⟨⟨bound, raw⟩, -, hbound⟩ := List.mem_filterMap.mp hc
    exact .inr ⟨bound, raw, hbound⟩

theorem boundConstant?_eq_some {type : ValueType} {bound : BoundKind} {raw : String}
    {c : Constant} : boundConstant? type bound raw = some c ↔
      ∃ s literal, type.bounded? = some s ∧ s.literal? raw = some literal ∧
        c = ⟨bound.name, s.constantType, literal⟩ := by
  simp only [boundConstant?, ValueType.boundType?, ValueType.boundLiteral?, Option.bind_eq_bind,
    Option.bind_eq_some_iff, Option.map_eq_some_iff, Option.pure_def, Option.some.injEq]
  grind

theorem marks_not_mem {c : Constant} (hc : c ∈ constants n) :
    ':' ∉ c.name.toList ∧ '=' ∉ c.type.toList := by
  refine ⟨(isCode_constants n hc).name.not_mem (by decide), ?_⟩
  obtain ⟨t, -, rfl⟩ | ⟨bound, raw, h⟩ := mem_constants hc
  · simp [textConstant]
  · obtain ⟨s, literal, -, -, rfl⟩ := boundConstant?_eq_some.mp h
    cases s with
    | string => simp [Scalar.constantType]
    | boolean => exact (IsCodeText.isName_rustType .boolean).not_mem (by decide)
    | integer signed w => exact (IsCodeText.isName_rustType (.integer signed w)).not_mem (by decide)
    | float => exact (IsCodeText.isName_rustType .float).not_mem (by decide)
    | double => exact (IsCodeText.isName_rustType .double).not_mem (by decide)

theorem isConfined_constants {c : Constant} (hc : c ∈ constants n) :
    Text.Literal.IsConfined c.literal.toList := by
  obtain ⟨t, -, rfl⟩ | ⟨bound, raw, h⟩ := mem_constants hc
  · simpa [textConstant, Text.Literal.quote] using Text.Literal.isConfined_encode t.2.toList
  · obtain ⟨s, literal, -, hliteral, rfl⟩ := boundConstant?_eq_some.mp h
    exact s.isConfined_literal? hliteral

theorem constant?_row {c : Constant} (hc : c ∈ constants n) (indent : Nat) :
    constant? (constantRow indent c) = some c :=
  constant?_constantRow (marks_not_mem hc).1 (marks_not_mem hc).2 indent

def isBoundName (name : String) : Bool := name == BoundKind.min.name || name == BoundKind.max.name

theorem isBoundName_namedTexts {t : String × String} (ht : t ∈ namedTexts n) :
    isBoundName t.1 = false := by
  rcases List.mem_append.mp ht with ht | ht
  · have hnames : ∀ name ∈ ["VSS_PATH", "UUID", "NODE_KIND"], isBoundName name = false := by
      decide +kernel
    refine hnames t.1 ?_
    simp only [List.mem_cons, List.not_mem_nil, or_false] at ht
    rcases ht with rfl | rfl | rfl <;> simp
  · have hnames : ∀ entry ∈ optionalTexts, isBoundName entry.1 = false := by decide +kernel
    obtain ⟨entry, hentry, h⟩ := List.mem_filterMap.mp ht
    obtain ⟨value, -, rfl⟩ := Option.map_eq_some_iff.mp h
    exact hnames entry hentry

theorem filter_constants (n : Node) :
    (constants n).filter (fun c => !isBoundName c.name) =
      (namedTexts n).map fun t => textConstant t.1 t.2 := by
  have htexts : ((namedTexts n).map fun t => textConstant t.1 t.2).filter
      (fun c => !isBoundName c.name) = (namedTexts n).map fun t => textConstant t.1 t.2 := by
    refine List.filter_eq_self.mpr fun c hc => ?_
    obtain ⟨t, ht, rfl⟩ := List.mem_map.mp hc
    simpa [textConstant] using isBoundName_namedTexts ht
  have hbounds : (boundConstants n).filter (fun c => !isBoundName c.name) = [] := by
    refine List.filter_eq_nil_iff.mpr fun c hc => ?_
    obtain ⟨⟨bound, raw⟩, -, hbound⟩ := List.mem_filterMap.mp hc
    obtain ⟨s, literal, -, -, rfl⟩ := boundConstant?_eq_some.mp hbound
    cases bound <;> simp [isBoundName]
  rw [constants_eq, List.filter_append, htexts, hbounds, List.append_nil]

theorem lookup_filterMap {f : Attribute → Option String} {entries : List (String × Attribute)}
    (hentries : (entries.map Prod.fst).Nodup) (name : String) :
    (entries.filterMap fun (name, a) => (f a).map (name, ·)).lookup name =
      (entries.lookup name).bind f := by
  induction entries with
  | nil => rfl
  | cons entry rest ih =>
    obtain ⟨key, a⟩ := entry
    rw [List.map_cons, List.nodup_cons] at hentries
    have ih := ih hentries.2
    by_cases hkey : name = key
    · subst hkey
      have hrest : rest.lookup name = none := by
        rw [List.lookup_eq_none_iff]
        grind
      cases hf : f a with
      | none => simpa [List.filterMap_cons, hf, List.lookup_cons, hrest] using ih
      | some value => simp [hf]
    · have hne : (name == key) = false := by simpa using hkey
      cases hf : f a with
      | none => simpa [List.filterMap_cons, hf, List.lookup_cons, hne] using ih
      | some value => simpa [List.filterMap_cons, hf, List.lookup_cons, hne] using ih

theorem sameTexts_of_namedTexts (h : namedTexts n = namedTexts m) : SameTexts n m := by
  obtain ⟨hfirst, hoptional⟩ := List.append_inj h rfl
  simp only [List.cons.injEq, Prod.mk.injEq, true_and, and_true] at hfirst
  obtain ⟨hpath, huuid, hkind⟩ := hfirst
  have hvalue {name : String} {a : Attribute} (hname : optionalTexts.lookup name = some a) :
      n.properties.value? a = m.properties.value? a := by
    have hnodup : (optionalTexts.map Prod.fst).Nodup := by decide +kernel
    have hlookup := congrArg (List.lookup name) hoptional
    rw [lookup_filterMap hnodup, lookup_filterMap hnodup, hname] at hlookup
    exact hlookup
  have hdescription := hvalue (show optionalTexts.lookup "DESCRIPTION" = _ by rfl)
  have hcomment := hvalue (show optionalTexts.lookup "COMMENT" = _ by rfl)
  have hunit := hvalue (show optionalTexts.lookup "UNIT" = _ by rfl)
  have hdatatype := hvalue (show optionalTexts.lookup "DATATYPE" = _ by rfl)
  simp only [Properties.value?, Properties.get?, Option.map_map, Function.comp_def,
    Option.map_id_fun', id_eq] at hdescription hcomment hunit hdatatype
  exact ⟨Path.text_injective hpath, huuid, hkind, hdescription, hcomment, hunit, hdatatype⟩

theorem readConstants_constantImpl (isUnit : Bool) (depth : Nat) (parent : Option TypePath)
    (d : TypeDecl) (indent : Nat) :
    readConstants (renderAt indent [(structItem isUnit depth parent d).constantImpl]) =
      constants d.node := by
  have hlast : constant? (List.replicate (4 * indent) ' ' ++ ['}']) = none := by
    rw [constant?, dropWhile_spaces]
    rfl
  have hread : ((constants d.node).map (constantRow (indent + 1))).filterMap constant? =
      constants d.node := by
    rw [List.filterMap_map]
    exact (List.filterMap_congr fun c hc => constant?_row hc (indent + 1)).trans
      List.filterMap_some
  have hconstants : (structItem isUnit depth parent d).constants = constants d.node := rfl
  rw [readConstants, StructItem.blockRows_constantImpl fun _ hc => oneLine_constants d.node hc,
    List.filterMap_append, hconstants, hread, List.filterMap_cons_none hlast]
  exact List.append_nil _

theorem tells_constantImpl (isUnit : Bool) (depth : Nat) (parent : Option TypePath)
    (d : TypeDecl) (indent : Nat) :
    Tells d.node d.name indent
      (renderAt indent [(structItem isUnit depth parent d).constantImpl])
      (omittedBounds d.node) := by
  have hone : ∀ c ∈ (structItem isUnit depth parent d).constants, c.OneLine :=
    fun _ hc => oneLine_constants d.node hc
  have hread := readConstants_constantImpl isUnit depth parent d indent
  refine ⟨⟨_, _, ?_, StructItem.blockRows_constantImpl hone indent, ?_⟩, ?_, ?_⟩
  · rw [StructItem.blockRows_constantImpl hone, StructItem.physicalLines_constantImpl hone]
    rfl
  · rw [hread]
    rw [List.map_map]
    exact List.map_congr_left fun c hc => constant?_row hc (indent + 1)
  · rw [hread]
    exact fun c hc => isConfined_constants hc
  · refine ⟨(namedTexts d.node).map fun t => textConstant t.1 t.2, _, _, _, _, ?_, ?_, ?_,
      boundOutcome d.node .min, boundOutcome d.node .max⟩
    · rw [hread, constants_eq, boundConstants, bounds_eq, List.filterMap_append, List.append_assoc]
      rfl
    · rw [omittedBounds, bounds_eq, List.filterMap_append]
      rfl
    · rw [List.map_map]
      refine List.map_congr_left fun t ht => ?_
      simp [textConstant, Text.Literal.quote, Text.Literal.decode?_encode]

theorem log_renderUnit {u : TypeUnit} {x : PUnit} (h : checkUnit u = .ok x) :
    (renderUnit u).log = u.types.flatMap fun d => omittedBounds d.node := by
  rw [renderUnit, h]
  exact List.append_nil _

/-- Every block of constants can be read back, the log of a unit has the bounds that are left
out of the blocks of its types, and blocks of nodes that say different things differ. -/
theorem constants_tell :
    (∀ isUnit depth parent d indent, Tells d.node d.name indent
      (renderAt indent [(structItem isUnit depth parent d).constantImpl])
      (omittedBounds d.node)) ∧
    (∀ u file, (renderUnit u).result = .ok file →
      (renderUnit u).log = u.types.flatMap fun d => omittedBounds d.node) ∧
    ∀ isUnit depth parent d indent isUnit' depth' parent' e indent',
      renderAt indent [(structItem isUnit depth parent d).constantImpl] =
        renderAt indent' [(structItem isUnit' depth' parent' e).constantImpl] →
      SameTexts d.node e.node := by
  refine ⟨tells_constantImpl, fun u file hfile => ?_, ?_⟩
  · obtain ⟨⟨_, hcheck⟩, -⟩ := renderUnit_eq_ok.mp hfile
    exact log_renderUnit hcheck
  · intro isUnit depth parent d indent isUnit' depth' parent' e indent' h
    have hconstants := congrArg readConstants h
    rw [readConstants_constantImpl, readConstants_constantImpl] at hconstants
    have htexts := congrArg (List.filter fun c => !isBoundName c.name) hconstants
    rw [filter_constants, filter_constants] at htexts
    refine sameTexts_of_namedTexts ((List.map_inj_right fun s t hst => ?_).mp htexts)
    simp only [textConstant, Constant.mk.injEq, true_and] at hst
    exact Prod.ext hst.1 (Text.Literal.quote_injective hst.2)

def quotingSample (children : List ChildRef) : TypeDecl where
  name := "VssA"
  node := {
    path := Path.ofText "A"
    properties := {
      uuid := ""
      kind := "sensor"
      description := some "a \"\\\n"
      comment := none
      datatype := some "uint8"
      unit := none
      min := some ⟨"-1", .scalar (.integer false .bits8)⟩
      max := some ⟨"9", .scalar (.integer false .bits8)⟩ } }
  children := children
  nested := []
  implicit := false

theorem constants_tell_quotingSample :
    Tells (quotingSample []).node "VssA" 2
      (renderAt 2 [(structItem true 1 none (quotingSample [])).constantImpl])
      (omittedBounds (quotingSample []).node) ∧
    (renderUnit ⟨quotingSample [], none⟩).log =
      [.boundOmitted (Path.ofText "A") .min "-1" (.scalar (.integer false .bits8))] ∧
    SameTexts (quotingSample []).node
      (quotingSample [⟨.unit, "VssB", Path.ofText "A.B"⟩]).node := by
  have hcheck : checkUnit ⟨quotingSample [], none⟩ = .ok ⟨⟩ := rfl
  have hlog := constants_tell.2.1 _ _ (renderUnit_eq_ok.mpr ⟨⟨_, hcheck⟩, rfl⟩)
  refine ⟨constants_tell.1 true 1 none (quotingSample []) 2, hlog.trans (by decide +kernel), ?_⟩
  exact constants_tell.2.2 true 1 none (quotingSample []) 0 true 1 none
    (quotingSample [⟨.unit, "VssB", Path.ofText "A.B"⟩]) 0 rfl

end

end Source

end SignalTree
