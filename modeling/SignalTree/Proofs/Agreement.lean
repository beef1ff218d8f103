import SignalTree.Proofs.FileText

/-!
The check of a unit and the text of its file agree. The scan of the text knows no
types, only lines and blocks, so it sees whatever documentation, constants and names
put on the lines (`render_agrees`).
-/
namespace SignalTree.Source

theorem silent_header {u : TypeUnit} (hpath : '\n' ∉ u.decl.path.text.toList) :
    ∀ c ∈ [Code.line generatedNote, .line ("//! `" ++ u.decl.path.text ++ "`"), .blank],
      c.Silent := by
  simp only [List.mem_cons, List.not_mem_nil, or_false, forall_eq_or_imp, forall_eq]
  refine ⟨?_, ?_, Code.silent_blank⟩
  · exact Code.silent_comment _ (by simp [generatedNote]) (by simp [generatedNote]; rfl)
  · exact Code.silent_comment _ (by simpa using hpath) (by simp; rfl)

theorem scan?_unitCode {u : TypeUnit} (hu : u.IsNamed)
    (hpath : '\n' ∉ u.decl.path.text.toList) :
    ∃ s, scan? (render (unitCode u)) = some s ∧ s.outer = [] ∧
      (s.repeated = [] ↔ Item.AllDistinct (unitItems u)) := by
  have hheader := silent_header hpath
  obtain ⟨hshaped, hdeclared, honce⟩ :=
    Item.declares_codesOf (unitItems u) (eachWritable_unitItems hu)
  have hdeclaredHeader : [Code.line generatedNote, .line ("//! `" ++ u.decl.path.text ++ "`"),
      .blank].flatMap (Code.declared false) = [] :=
    List.flatMap_eq_nil_iff.mpr fun c hc => (hheader c hc).declared
  have hall : Code.ShapedAll (unitCode u) := by
    rw [Code.shapedAll_iff] at hshaped ⊢
    intro c hc
    rcases List.mem_append.mp hc with hc | hc
    · exact (hheader c hc).shaped
    · exact hshaped c hc
  obtain ⟨s, hscan, houter, hrepeated⟩ := Code.scan?_render hall
  refine ⟨s, hscan, houter, ?_⟩
  rw [hrepeated, unitCode, List.flatMap_append, hdeclaredHeader, hdeclared, List.nil_append,
    nodup_map_toList, Item.AllDistinct, ← honce, Code.onceInsideAll_iff, Code.onceInsideAll_iff,
    List.forall_mem_append, and_iff_right fun c hc => (hheader c hc).once]

/-- A unit is rendered when its text declares nothing twice, and then as that text.
The blocks of the text are in order either way, and a unit that is not rendered has a
clash of names. -/
theorem render_agrees {u : TypeUnit} (hu : u.IsNamed) (hpath : '\n' ∉ u.decl.path.text.toList) :
    IsBalanced (render (unitCode u)) ∧
      ((∃ file, (renderUnit u).result = .ok file) ↔ DeclaresOnce (render (unitCode u))) ∧
      (∀ file, (renderUnit u).result = .ok file → file = ⟨unitFile u, render (unitCode u)⟩) ∧
      ∀ e, (renderUnit u).result = .error e → ∃ v, e = .invariant v := by
  obtain ⟨s, hscan, houter, hrepeated⟩ := scan?_unitCode hu hpath
  have hcheck := decides_checkUnit hu.types
  have honce : DeclaresOnce (render (unitCode u)) ↔ Item.AllDistinct (unitItems u) := by
    rw [← hrepeated]
    constructor
    · rintro ⟨s', hscan', -, hnone⟩
      rw [hscan, Option.some.injEq] at hscan'
      rwa [hscan']
    · intro hnone
      exact ⟨s, hscan, houter, hnone⟩
  rw [result_renderUnit, honce, ← hcheck.ok_iff]
  refine ⟨⟨s, hscan, houter⟩, ?_, ?_, ?_⟩
  · cases checkUnit u <;> simp [Except.map]
  · cases checkUnit u with
    | error e => simp [Except.map]
    | ok x => simp [Except.map, eq_comm]
  · intro e he
    cases hx : checkUnit u with
    | error e' =>
      rw [hx] at he hcheck
      cases he
      exact hcheck.error rfl
    | ok x =>
      rw [hx] at he
      cases he

/-- Two children of one type that would share a field. -/
def clashingUnit : TypeUnit where
  decl := {
    name := "VssCabin"
    node := .plainBranch (.ofText "Vehicle.Cabin")
    children := [⟨.nested, "VssSeat", .ofText "Vehicle.Cabin.Seat"⟩]
    nested := [{
      name := "VssSeat"
      node := .plainBranch (.ofText "Vehicle.Cabin.Seat")
      children := [⟨.unit, "VssRow", .ofText "Vehicle.Cabin.Seat.Row"⟩,
        ⟨.unit, "Vssrow", .ofText "Vehicle.Cabin.Seat.row"⟩]
      nested := []
      implicit := true }]
    implicit := false }
  parent := some ⟨"VssVehicle", []⟩

theorem render_agrees_clashingUnit :
    clashingUnit.IsNamed ∧ '\n' ∉ clashingUnit.decl.path.text.toList ∧
      IsBalanced (render (unitCode clashingUnit)) ∧
      ¬DeclaresOnce (render (unitCode clashingUnit)) := by
  have hcabin : IsTypeName "VssCabin" := ⟨.ofText "Cabin", by decide +kernel, by decide +kernel⟩
  have hseat : IsTypeName "VssSeat" := ⟨.ofText "Seat", by decide +kernel, by decide +kernel⟩
  have hrow : IsTypeName "VssRow" := ⟨.ofText "Row", by decide +kernel, by decide +kernel⟩
  have hrow' : IsTypeName "Vssrow" := ⟨.ofText "row", by decide +kernel, by decide +kernel⟩
  have hvehicle : IsTypeName "VssVehicle" :=
    ⟨.ofText "Vehicle", by decide +kernel, by decide +kernel⟩
  have hnamed : clashingUnit.IsNamed := by
    constructor
    · simp [TypeUnit.types, TypeDecl.types, TypeDecl.typesOf, clashingUnit, hcabin, hseat]
    · simp [TypeUnit.types, TypeDecl.types, TypeDecl.typesOf, clashingUnit, hseat, hrow, hrow']
    · simp [clashingUnit, hvehicle]
  have hpath : '\n' ∉ clashingUnit.decl.path.text.toList := by decide +kernel
  obtain ⟨hbalanced, honce, -, -⟩ := render_agrees hnamed hpath
  refine ⟨hnamed, hpath, hbalanced, ?_⟩
  rw [← honce]
  rintro ⟨file, hfile⟩
  have herror : (renderUnit clashingUnit).result.isOk = false := by decide +kernel
  simp [hfile, Except.isOk, Except.toBool] at herror

end SignalTree.Source
