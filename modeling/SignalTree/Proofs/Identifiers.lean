import SignalTree.Proofs.SegmentNames
import SignalTree.Proofs.UnitFaults

/-!
What can be written as an identifier. The names of fields and of modules of types are identifiers
whatever text a path has (`Path.names_legal`); the name of the generated module is a setting, which
is checked for its characters only (`Settings.resolve_isOk_iff`).
-/
namespace SignalTree

/-- A word over lower case letters, digits and underscores whose first character is no digit. -/
structure IsIdentWord (name : String) : Prop where
  ne_empty : name ≠ ""
  chars : ∀ c ∈ name.toList, isIdentChar c = true
  first : ∀ c ∈ name.toList.head?, c.isDigit = false

/-- The keywords of Rust 2024 in lower case letters: those in use, and those kept for later. -/
def rustKeywords : List String :=
  ["as", "async", "await", "break", "const", "continue", "crate", "dyn", "else", "enum", "extern",
    "false", "fn", "for", "if", "impl", "in", "let", "loop", "match", "mod", "move", "mut", "pub",
    "ref", "return", "self", "static", "struct", "super", "trait", "true", "type", "unsafe", "use",
    "where", "while"] ++
  ["abstract", "become", "box", "do", "final", "gen", "macro", "override", "priv", "try", "typeof",
    "unsized", "virtual", "yield"]

/-- Keywords that stand for a place in a path. They take no mark. -/
def pathKeywords : List String := ["crate", "self", "super"]

/-- Keywords and the single underscore, which looks like an identifier but is none. -/
def IsReserved (name : String) : Prop := name ∈ rustKeywords ∨ name = "_"

structure IsIdent (name : String) : Prop extends IsIdentWord name where
  not_reserved : ¬IsReserved name

/-- A keyword with the mark that makes an identifier of it. -/
def IsRawIdent (name : String) : Prop := ∃ k ∈ rustKeywords, k ∉ pathKeywords ∧ name = "r#" ++ k

theorem isIdentWord_iff {name : String} : IsIdentWord name ↔ name ≠ "" ∧
    name.toList.all isIdentChar = true ∧ name.toList.head?.all (!·.isDigit) = true := by
  have hfirst : name.toList.head?.all (!·.isDigit) = true ↔
      ∀ c ∈ name.toList.head?, c.isDigit = false := by
    cases name.toList.head? <;> simp
  rw [List.all_eq_true, hfirst]
  exact ⟨fun hw => ⟨hw.ne_empty, hw.chars, hw.first⟩, fun ⟨hne, hchars, hfirst⟩ =>
    ⟨hne, hchars, hfirst⟩⟩

instance (name : String) : Decidable (IsIdentWord name) := decidable_of_iff _ isIdentWord_iff.symm

instance (name : String) : Decidable (IsReserved name) :=
  inferInstanceAs (Decidable (name ∈ rustKeywords ∨ name = "_"))

instance (name : String) : Decidable (IsIdent name) :=
  decidable_of_iff (IsIdentWord name ∧ ¬IsReserved name)
    ⟨fun ⟨hw, hr⟩ => ⟨hw, hr⟩, fun h => ⟨h.toIsIdentWord, h.not_reserved⟩⟩

theorem forall_isReserved {P : String → Prop} (h : ∀ k ∈ rustKeywords ++ ["_"], P k) {name : String}
    (hr : IsReserved name) : P name :=
  h name (List.mem_append.mpr (hr.imp_right List.mem_singleton.mpr))

/-- The tables that names are escaped by know all reserved words. -/
theorem mem_tables_of_isReserved {name : String} (h : IsReserved name) :
    name ∈ keywords ∨ name ∈ strictKeywords := by
  have hcover : ∀ k ∈ rustKeywords ++ ["_"], k ∈ keywords ∨ k ∈ strictKeywords := by
    decide +kernel
  exact forall_isReserved hcover h

theorem isRawIdent_of_mem_keywords {name : String} (h : name ∈ keywords) :
    IsRawIdent ("r#" ++ name) := by
  have hraw : ∀ k ∈ keywords, k ∈ rustKeywords ∧ k ∉ pathKeywords := by decide +kernel
  obtain ⟨hkeyword, hpath⟩ := hraw name h
  exact ⟨name, hkeyword, hpath, rfl⟩

theorem not_isReserved_of_toList {name : String} {rest : List Char}
    (h : name.toList = 'v' :: 's' :: rest) : ¬IsReserved name := by
  have hstarts : ∀ k ∈ rustKeywords ++ ["_"], k.toList.take 2 ≠ ['v', 's'] := by
    decide +kernel
  intro hr
  refine forall_isReserved hstarts hr ?_
  rw [h]
  rfl

/-! Fields. -/

theorem isIdentWord_guardFirst {ident : String} (h : ∀ c ∈ ident.toList, isIdentChar c = true) :
    IsIdentWord (guardFirst ident) := by
  unfold guardFirst
  split
  · exact by decide +kernel
  · next c hc =>
    split
    · refine ⟨by simp, ?_, by simp⟩
      simpa [isIdentChar] using h
    · next hdigit =>
      refine ⟨?_, h, ?_⟩
      · rintro rfl
        simp at hc
      · rw [hc]
        simpa using hdigit

/-- Each way out of a clash ends in a legal name: what a suffix makes of the reserved words is
reserved no longer. -/
theorem isIdent_or_isRawIdent_escapeField {ident : String} (h : IsIdentWord ident) :
    IsIdent (escapeField ident) ∨ IsRawIdent (escapeField ident) := by
  unfold escapeField
  split
  · next hvalue =>
    rw [hvalue]
    exact .inl (by decide +kernel)
  · split
    · next hstrict =>
      have hsuffixed : ∀ k ∈ strictKeywords, IsIdent (k ++ "_") := by decide +kernel
      exact .inl (hsuffixed ident hstrict)
    · next hstrict =>
      split
      · next hkeyword => exact .inr (isRawIdent_of_mem_keywords hkeyword)
      · next hkeyword =>
        exact .inl ⟨h, fun hr => (mem_tables_of_isReserved hr).elim hkeyword hstrict⟩

/-! Modules of types. -/

theorem IsTypeName.isIdent_moduleName {name : String} (h : IsTypeName name) :
    IsIdent (moduleName name) := by
  obtain ⟨rest, hrest⟩ := h.exists_toList_moduleName
  refine ⟨⟨?_, fun c hc => isIdentChar_of_mem_moduleName hc, ?_⟩, not_isReserved_of_toList hrest⟩
  · intro hempty
    rw [hempty] at hrest
    simp at hrest
  · rw [hrest]
    simp

/-- A field is named by an identifier or a raw one, and never like the value; a type, if its path
has a name at all, by the prefix and letters, digits and underscores; and the module of the type by
an identifier with the prefix in lower case. -/
theorem Path.names_legal (text : String) :
    (IsIdent (fieldName (ofText text)) ∨ IsRawIdent (fieldName (ofText text))) ∧
      fieldName (ofText text) ≠ valueField ∧
      ∀ name, (ofText text).typeName? = .ok name →
        (∃ rest, name = "Vss" ++ rest ∧ ∀ c ∈ rest.toList, isTypeNameChar c = true) ∧
          (∃ rest, moduleName name = "vss" ++ rest) ∧ IsIdent (moduleName name) := by
  refine ⟨?_, fieldName_ne_valueField _, fun name hname => ?_⟩
  · refine isIdent_or_isRawIdent_escapeField (isIdentWord_guardFirst fun c hc => ?_)
    exact isIdentChar_of_mem_moduleName hc
  · obtain ⟨hnameable, rfl⟩ := typeName?_eq_ok.mp hname
    have htype : IsTypeName (ofText text).typeName := ⟨_, hnameable, rfl⟩
    obtain ⟨rest, hrest⟩ := htype.exists_toList_moduleName
    refine ⟨⟨_, rfl, fun c hc => ?_⟩, ⟨String.ofList rest, ?_⟩, htype.isIdent_moduleName⟩
    · rw [String.toList_ofList] at hc
      exact mem_sanitize (by decide) hc
    · apply String.toList_inj.mp
      rw [hrest]
      simp

theorem Path.names_legal_oxygen : (ofText "Vehicle.OBD.O2-WR").typeName? = .ok "VssO2_WR" ∧
    (∃ rest, "VssO2_WR" = "Vss" ++ rest ∧ ∀ c ∈ rest.toList, isTypeNameChar c = true) ∧
      (∃ rest, moduleName "VssO2_WR" = "vss" ++ rest) ∧ IsIdent (moduleName "VssO2_WR") := by
  have hname : (ofText "Vehicle.OBD.O2-WR").typeName? = .ok "VssO2_WR" := by decide +kernel
  exact ⟨hname, (names_legal _).2.2 _ hname⟩

example : fieldName (.ofText "Vehicle.µ") = "__" := by decide +kernel

namespace Settings

/-- The module name that counts: from the command line, else from the file, else the default. -/
def selectedModule (file overrides : Preferences) : String :=
  match overrides.module, file.module with
  | some name, _ => name
  | none, some name => name
  | none, none => "vss"

theorem resolve_eq (file overrides : Preferences) : resolve file overrides =
    if isModuleName (selectedModule file overrides) then
      .ok ⟨(overrides.input <|> file.input).getD default.inputDir,
        (overrides.out <|> file.out).getD default.outputDir, selectedModule file overrides⟩
    else .error (.configuration (.moduleName (selectedModule file overrides))) := by
  have hmodule : (overrides.module <|> file.module).getD default.module =
      selectedModule file overrides := by
    unfold selectedModule
    cases overrides.module <;> cases file.module <;> rfl
  simp only [resolve, hmodule]

theorem isDigit_eq_false_of_isLower {c : Char} (h : c.isLower = true) : c.isDigit = false := by
  change (c.val ≥ 97 && c.val ≤ 122) = true at h
  change (c.val ≥ 48 && c.val ≤ 57) = false
  simp only [Bool.and_eq_true, Bool.and_eq_false_iff, decide_eq_true_eq, decide_eq_false_iff_not,
    ge_iff_le, UInt32.le_iff_toNat_le] at h ⊢
  change 97 ≤ c.toNat ∧ c.toNat ≤ 122 at h
  change ¬48 ≤ c.toNat ∨ ¬c.toNat ≤ 57
  omega

theorem isLower_or_underscore_iff {c : Char} :
    (c.isLower || c == '_') = true ↔ isIdentChar c = true ∧ c.isDigit = false := by
  constructor
  · intro hc
    refine ⟨by rw [isIdentChar, Bool.or_right_comm, hc, Bool.true_or], ?_⟩
    rcases (Bool.or_eq_true _ _).mp hc with hlower | hunderscore
    · exact isDigit_eq_false_of_isLower hlower
    · rw [beq_iff_eq.mp hunderscore]
      rfl
  · rintro ⟨hc, hdigit⟩
    rwa [isIdentChar, hdigit, Bool.or_false] at hc

theorem isModuleName_iff_isIdentWord {name : String} :
    isModuleName name = true ↔ IsIdentWord name := by
  rw [isIdentWord_iff]
  unfold isModuleName
  split
  · next hnil => simp [String.toList_eq_nil_iff.mp hnil]
  · next c rest hcons =>
    have hne : name ≠ "" := by
      rintro rfl
      simp at hcons
    have hrest : rest.all (fun d => d.isLower || d.isDigit || d == '_') = rest.all isIdentChar :=
      rfl
    rw [hcons, hrest, Bool.and_eq_true, isLower_or_underscore_iff, List.all_cons,
      Bool.and_eq_true, List.head?_cons, Option.all_some, Bool.not_eq_true', and_right_comm]
    exact ⟨fun hc => ⟨hne, hc⟩, And.right⟩

theorem isModuleName_iff {name : String} :
    isModuleName name = true ↔ IsIdent name ∨ IsReserved name := by
  rw [isModuleName_iff_isIdentWord]
  constructor
  · intro hw
    by_cases hr : IsReserved name
    · exact .inr hr
    · exact .inl ⟨hw, hr⟩
  · rintro (hi | hr)
    · exact hi.toIsIdentWord
    · have hwords : ∀ k ∈ rustKeywords ++ ["_"], IsIdentWord k := by decide +kernel
      exact forall_isReserved hwords hr

variable {file overrides : Preferences}

theorem exists_resolve_eq_ok_iff :
    (∃ s, resolve file overrides = .ok s ∧ s.module = selectedModule file overrides) ↔
      isModuleName (selectedModule file overrides) = true := by
  rw [resolve_eq]
  split
  · next hm => simp [hm]
  · next hm => simp [hm]

theorem resolve_eq_error_iff :
    resolve file overrides =
        .error (.configuration (.moduleName (selectedModule file overrides))) ↔
      ¬isModuleName (selectedModule file overrides) = true := by
  rw [resolve_eq]
  split
  · next hm => simp [hm]
  · next hm => simp [hm]

theorem module_of_resolve {s : Settings} (hs : resolve file overrides = .ok s) :
    s.module = selectedModule file overrides := by
  rw [resolve_eq] at hs
  split at hs
  · cases hs
    rfl
  · cases hs

/-- The settings stand with every identifier as the name of the module, but also with a keyword and
with a single underscore, which are none; any other name is a fault of the configuration. -/
theorem resolve_isOk_iff (file overrides : Preferences) :
    ((∃ s, resolve file overrides = .ok s ∧ s.module = selectedModule file overrides) ↔
        IsIdent (selectedModule file overrides) ∨ IsReserved (selectedModule file overrides)) ∧
      (resolve file overrides =
          .error (.configuration (.moduleName (selectedModule file overrides))) ↔
        ¬(IsIdent (selectedModule file overrides) ∨ IsReserved (selectedModule file overrides))) ∧
      (((∃ s, resolve file overrides = .ok s) ↔ IsIdent (selectedModule file overrides)) ↔
        ¬IsReserved (selectedModule file overrides)) := by
  have hok : (∃ s, resolve file overrides = .ok s) ↔
      IsIdent (selectedModule file overrides) ∨ IsReserved (selectedModule file overrides) := by
    rw [← isModuleName_iff, ← exists_resolve_eq_ok_iff]
    exact exists_congr fun s => ⟨fun hs => ⟨hs, module_of_resolve hs⟩, And.left⟩
  refine ⟨by rw [exists_resolve_eq_ok_iff, isModuleName_iff],
    by rw [resolve_eq_error_iff, isModuleName_iff], ?_⟩
  rw [hok]
  constructor
  · intro hclaim hr
    exact (hclaim.mp (.inr hr)).not_reserved hr
  · exact fun hr => or_iff_left hr

theorem resolve_reserved :
    ¬((∃ s, resolve .empty { Preferences.empty with module := some "fn" } = .ok s) ↔
        IsIdent (selectedModule .empty { Preferences.empty with module := some "fn" })) ∧
      ¬((∃ s, resolve .empty { Preferences.empty with module := some "_" } = .ok s) ↔
        IsIdent (selectedModule .empty { Preferences.empty with module := some "_" })) := by
  have hfn : ¬IsIdent "fn" := by decide +kernel
  have hunderscore : ¬IsIdent "_" := by decide +kernel
  exact ⟨fun h => hfn (h.mp ⟨_, rfl⟩), fun h => hunderscore (h.mp ⟨_, rfl⟩)⟩

end Settings

end SignalTree
