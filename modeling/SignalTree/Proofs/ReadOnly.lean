import SignalTree.Generate
import SignalTree.Proofs.DiskJobs

/-!
What a run does before it installs anything: it finds definition files and reads them, and
leaves the disk as it is.
-/
namespace SignalTree

open Disk

namespace Job

variable {α β : Type} {d d' : Disk}

theorem attempt_readText (file : FilePath) :
    (Job.attempt file (Files.readText file) : Job Action String) d =
      (⟨[], (d.readText file).mapError (.io file)⟩, d) := by
  cases hr : d.readText file with
  | ok text => exact attempt_of_ok (congrArg (·, d) hr)
  | error e => exact attempt_of_error (congrArg (·, d) hr)

/-- A job that leaves the disk as it is. -/
def IsReadOnly (x : Job Action α) : Prop := ∀ d, (x d).2 = d

namespace IsReadOnly

variable {x : Job Action α}

theorem eq (h : IsReadOnly x) (d : Disk) : x d = ((x d).1, d) := Prod.ext rfl (h d)

theorem bind (h : IsReadOnly x) {f : α → Job Action β} (hf : ∀ a, IsReadOnly (f a)) :
    IsReadOnly (x >>= f) := by
  intro d
  rcases hx : x d with ⟨⟨log, e | a⟩, d'⟩
  · rw [bind_of_error hx, ← h d, hx]
  · rw [bind_of_ok hx]
    exact (hf a d').trans (by rw [← h d, hx])

theorem outcome (x : Outcome α) : IsReadOnly (liftM x : Job Action α) := fun _ => rfl

theorem pure (a : α) : IsReadOnly (pure a : Job Action α) := fun _ => rfl

theorem fail (e : Fault) : IsReadOnly (Job.fail e : Job Action α) := fun _ => rfl

theorem fst_bind (h : IsReadOnly x) (f : α → Job Action β) (d : Disk) :
    ((x >>= f) d).1 = (x d).1 >>= fun a => (f a d).1 := by
  rcases hx : x d with ⟨⟨log, e | a⟩, d'⟩
  · rw [bind_of_error hx]
    rfl
  · obtain rfl : d' = d := by rw [← h d, hx]
    rw [bind_of_ok hx]
    rfl

end IsReadOnly

end Job

variable {d : Disk}

theorem discover_eq (dir : FilePath) (d : Disk) : (discover dir : Job Action _) d =
    (if d.isDirectory dir then selectInputs dir (foundFiles dir (d.filesBelow dir))
      else throw (.configuration (.missingDirectory dir)), d) := by
  have hdirectory : (Job.lift (Files.isDirectory dir) : Job Action Bool) d =
      (⟨[], .ok (d.isDirectory dir)⟩, d) := Job.lift_eq rfl
  have hfiles : (Job.lift (Files.filesBelow dir) : Job Action _) d =
      (⟨[], .ok (d.filesBelow dir)⟩, d) := Job.lift_eq rfl
  rw [discover, Job.bind_of_silent hdirectory]
  cases d.isDirectory dir with
  | false => rfl
  | true => exact Job.bind_of_silent hfiles _

theorem result_selectInputs (dir : FilePath) (files : List FilePath) :
    (selectInputs dir files).result =
      if (files.filter fun file => (Format.ofFile? file).isSome).isEmpty then
        .error (.configuration (.noDefinitions dir))
      else .ok (files.filter fun file => (Format.ofFile? file).isSome) := by
  rw [selectInputs, Outcome.result_bind]
  dsimp only
  split <;> rfl

theorem isReadOnly_discover (dir : FilePath) : Job.IsReadOnly (discover dir) := fun d =>
  congrArg Prod.snd (discover_eq dir d)

def recordsOf (file : FilePath) (text : Except OsError String) : Except Fault (List Record) :=
  match Format.ofFile? file with
  | some format =>
    text.mapError (.io file) >>= fun source => (format.read source).mapError (.definition file)
  | none => .error (.configuration (.unsupportedExtension file))

theorem readRecords_eq (file : FilePath) (d : Disk) : (readRecords file : Job Action _) d =
    (⟨[], recordsOf file (d.readText file)⟩, d) := by
  rw [readRecords, recordsOf]
  cases Format.ofFile? file with
  | none => rfl
  | some format =>
    have hread := Job.attempt_readText (d := d) file
    cases htext : d.readText file with
    | error e =>
      rw [htext] at hread
      exact Job.bind_of_error hread _
    | ok source =>
      rw [htext] at hread
      refine (Job.bind_of_silent hread _).trans ?_
      dsimp only [Except.mapError, bind, Except.bind]
      cases format.read source <;> rfl

theorem isReadOnly_readRecords (file : FilePath) : Job.IsReadOnly (readRecords file) := fun d =>
  congrArg Prod.snd (readRecords_eq file d)

theorem isReadOnly_readNodes (files : List FilePath) : Job.IsReadOnly (readNodes files) := by
  induction files with
  | nil => exact .pure _
  | cons file rest ih =>
    exact (isReadOnly_readRecords file).bind fun _ =>
      (Job.IsReadOnly.outcome _).bind fun _ => ih.bind fun _ => .pure _

theorem fst_readNodes_cons (file : FilePath) (rest : List FilePath) (d : Disk) :
    ((readNodes (file :: rest) : Job Action _) d).1 = do
      let records ← ⟨[], recordsOf file (d.readText file)⟩
      Outcome.report [.fileParsed file records.length]
      let nodes ← ((readNodes rest : Job Action _) d).1
      return records.map Record.resolve ++ nodes := by
  rw [readNodes, (isReadOnly_readRecords file).fst_bind, readRecords_eq]
  refine congrArg (_ >>= ·) (funext fun records => ?_)
  rw [(Job.IsReadOnly.outcome _).fst_bind]
  exact congrArg (_ >>= ·) (funext fun _ => (isReadOnly_readNodes rest).fst_bind _ d)

/-- What is read depends on the texts of the files alone. -/
theorem fst_readNodes_congr {d' : Disk} {files : List FilePath}
    (h : ∀ file ∈ files, d.readText file = d'.readText file) :
    ((readNodes files : Job Action _) d).1 = ((readNodes files : Job Action _) d').1 := by
  induction files with
  | nil => rfl
  | cons file rest ih =>
    obtain ⟨hfile, hrest⟩ := List.forall_mem_cons.mp h
    rw [fst_readNodes_cons, fst_readNodes_cons, hfile, ih hrest]

theorem isReadOnly_readRegistry (files : List FilePath) : Job.IsReadOnly (readRegistry files) :=
  (isReadOnly_readNodes files).bind fun _ => .outcome _

def modelOf (dir : FilePath) (inputs : List FilePath) (nodes : List Node) : Outcome Model := do
  let registry ← Registry.register nodes
  if registry.nodes.isEmpty then throw (.configuration (.noNodes dir))
  else
    let units ← registry.units
    return { inputs, registry, units }

theorem isReadOnly_buildModel (dir : FilePath) : Job.IsReadOnly (buildModel dir) := by
  refine (isReadOnly_discover dir).bind fun inputs => ?_
  refine (isReadOnly_readRegistry inputs).bind fun registry => ?_
  split
  · exact .fail _
  · exact (Job.IsReadOnly.outcome _).bind fun _ => .pure _

theorem fst_buildModel (dir : FilePath) (d : Disk) : ((buildModel dir : Job Action _) d).1 =
    (do
      let inputs ← ((discover dir : Job Action _) d).1
      let nodes ← ((readNodes inputs : Job Action _) d).1
      modelOf dir inputs nodes) := by
  rw [buildModel, (isReadOnly_discover dir).fst_bind]
  refine congrArg (_ >>= ·) (funext fun inputs => ?_)
  have hrest (registry : Registry) : ((if registry.nodes.isEmpty then
      Job.fail (.configuration (.noNodes dir))
    else do
      let units ← liftM registry.units
      return { inputs, registry, units } : Job Action Model) d).1 =
      if registry.nodes.isEmpty then throw (.configuration (.noNodes dir))
      else do
        let units ← registry.units
        return { inputs, registry, units } := by
    split
    · rfl
    · exact (Job.IsReadOnly.outcome _).fst_bind _ d
  rw [(isReadOnly_readRegistry inputs).fst_bind, readRegistry, (isReadOnly_readNodes inputs).fst_bind,
    bind_assoc]
  refine congrArg (_ >>= ·) (funext fun nodes => ?_)
  exact congrArg (_ >>= ·) (funext hrest)

theorem buildModel_eq_ok_iff {dir : FilePath} {model : Model} :
    ((buildModel dir : Job Action _) d).1.result = .ok model ↔
      ∃ inputs nodes, ((discover dir : Job Action _) d).1.result = .ok inputs ∧
        ((readNodes inputs : Job Action _) d).1.result = .ok nodes ∧
        (modelOf dir inputs nodes).result = .ok model := by
  simp only [fst_buildModel, Outcome.result_bind, Except.bind_eq_ok, exists_and_left]

theorem inputs_of_modelOf {dir : FilePath} {inputs : List FilePath} {nodes : List Node}
    {model : Model} (h : (modelOf dir inputs nodes).result = .ok model) : model.inputs = inputs := by
  rw [modelOf, Outcome.result_bind] at h
  obtain ⟨r, -, h⟩ := Except.bind_eq_ok.mp h
  split at h
  · cases h
  · rw [Outcome.result_bind] at h
    obtain ⟨units, -, h⟩ := Except.bind_eq_ok.mp h
    cases h
    rfl

theorem modelOf_eq_ok {dir : FilePath} {inputs : List FilePath} {nodes : List Node} {r : Registry}
    {units : List TypeUnit} (hregistry : (Registry.register nodes).result = .ok r)
    (hnonempty : r.nodes.isEmpty = false) (hunits : r.units.result = .ok units) :
    (modelOf dir inputs nodes).result = .ok ⟨inputs, r, units⟩ := by
  rw [modelOf, Outcome.result_bind, hregistry]
  change (if r.nodes.isEmpty then _ else _ : Outcome Model).result = _
  rw [if_neg (by simp [hnonempty]), Outcome.result_bind, hunits]
  rfl

end SignalTree
