import DependencyAtlas.Loading
import DependencyAtlas.Proofs.Graph.History

/-!
# What inputs hold

The units that an input holds, the values that it sets aside and the error at which it gives up are
a matter of the input alone, whatever the graph looks like that it is registered in.
-/

namespace DependencyAtlas

theorem SharedBuild.register_eq (b : SharedBuild) (u : CodeUnit) :
    b.register u =
      match u.fault? with
      | none => .ok ⟨b.inner.insert u⟩
      | some e => .error e := by
  rw [register, CodeUnit.validate_eq]
  cases u.fault? <;> rfl

theorem SharedBuild.foldlM_register (us : List CodeUnit) (b : SharedBuild) :
    us.foldlM register b =
      match us.findSome? CodeUnit.fault? with
      | none => .ok ⟨us.foldl Graph.insert b.inner⟩
      | some e => .error e := by
  induction us generalizing b with
  | nil => rfl
  | cons u us ih =>
    rw [List.foldlM_cons, register_eq, List.findSome?_cons]
    cases u.fault? with
    | some e => rfl
    | none => exact ih ⟨b.inner.insert u⟩

namespace CodeUnit

/-- Why a value is no valid unit. -/
def refusal? (v : Json) : Option GraphError :=
  match ofValue v with
  | .ok _ => none
  | .error e => some e

theorem ofValue_eq_ok_iff {v : Json} {u : CodeUnit} :
    ofValue v = .ok u ↔ ofJson v = .ok u ∧ u.fault? = none := by
  rw [ofValue]
  cases ofJson v with
  | error m => simp
  | ok w =>
    simp only [validate_eq]
    cases hw : w.fault? with
    | none =>
      simp only [Except.map, Except.ok.injEq, iff_self_and]
      rintro rfl
      exact hw
    | some e =>
      simp only [Except.map, reduceCtorEq, Except.ok.injEq, false_iff, not_and]
      rintro rfl
      simp [hw]

theorem fault?_of_ofValue {v : Json} {u : CodeUnit} (h : ofValue v = .ok u) : u.fault? = none :=
  (ofValue_eq_ok_iff.mp h).2

end CodeUnit

namespace Input

/-- The units that an input hands over, if it does not give up before. -/
def records : Input → List CodeUnit
  | units values => values.filterMap fun v => (CodeUnit.ofValue v).toOption
  | snapshot s =>
    match s.toUnits with
    | .ok us => us
    | .error _ => []

/-- The error at which an input gives up. Only snapshots do. -/
def failure? : Input → Option GraphError
  | units _ => none
  | snapshot s =>
    match s.toUnits with
    | .ok us => us.findSome? CodeUnit.fault?
    | .error e => some e

def rejects (source : String) : Input → List Rejected
  | units values => values.zipIdx.filterMap fun v =>
      (CodeUnit.refusal? v.1).map fun e => ⟨source, v.2, e⟩
  | snapshot _ => []

theorem isValid_of_mem_records {input : Input} (h : input.failure? = none) :
    ∀ u ∈ input.records, u.isValid = true := by
  cases input with
  | units values =>
    intro u hu
    obtain ⟨v, -, hv⟩ := List.mem_filterMap.mp hu
    apply CodeUnit.isValid_eq_true_iff_fault?.mpr
    apply CodeUnit.fault?_of_ofValue (v := v)
    cases hr : CodeUnit.ofValue v with
    | ok w => simpa [hr, Except.toOption] using hv
    | error e => simp [hr, Except.toOption] at hv
  | snapshot s =>
    rw [failure?] at h
    rw [records]
    cases hs : s.toUnits with
    | ok us => exact CodeUnit.findSome?_fault?_eq_none_iff.mp (by simpa [hs] using h)
    | error e => simp

theorem pairwise_rejects (input : Input) (source : String) :
    (input.rejects source).Pairwise fun r s => r.index < s.index := by
  cases input with
  | snapshot s => exact .nil
  | units values =>
    apply (pairwise_zipIdx values 0).filterMap
    rintro v w hvw _ hr _ hs
    obtain ⟨e, -, rfl⟩ := Option.map_eq_some_iff.mp hr
    obtain ⟨e', -, rfl⟩ := Option.map_eq_some_iff.mp hs
    exact hvw

theorem registerValue_eq (b : SharedBuild) (v : Json) :
    registerValue b v = (CodeUnit.ofValue v).map fun u => ⟨b.inner.insert u⟩ := by
  rw [registerValue]
  cases hv : CodeUnit.ofValue v with
  | error e => rfl
  | ok u =>
    change b.register u = _
    rw [SharedBuild.register_eq, CodeUnit.fault?_of_ofValue hv]
    rfl

theorem registerValues_eq (source : String) (values : List Json) (index : Nat) (b : SharedBuild) :
    registerValues source index b values =
      (⟨(values.filterMap fun v => (CodeUnit.ofValue v).toOption).foldl Graph.insert b.inner⟩,
        (values.zipIdx index).filterMap fun v =>
          (CodeUnit.refusal? v.1).map fun e => ⟨source, v.2, e⟩) := by
  induction values generalizing index b with
  | nil => rfl
  | cons v values ih =>
    rw [registerValues, registerValue_eq, List.zipIdx_cons, List.filterMap_cons,
      List.filterMap_cons, CodeUnit.refusal?]
    cases CodeUnit.ofValue v with
    | ok u => exact ih (index + 1) ⟨b.inner.insert u⟩
    | error e =>
      simp only [Except.map, ih (index + 1) b]
      rfl

theorem register_eq (input : Input) (source : String) (b : SharedBuild) :
    input.register b source =
      match input.failure? with
      | some e => .error e
      | none => .ok (⟨input.records.foldl Graph.insert b.inner⟩, input.rejects source) := by
  cases input with
  | units values => simp only [register, registerValues_eq, failure?, records, rejects]
  | snapshot s =>
    simp only [register, failure?, records, rejects]
    cases s.toUnits with
    | error e => rfl
    | ok us =>
      change (us.foldlM SharedBuild.register b >>= fun b => pure (b, [])) = _
      rw [SharedBuild.foldlM_register]
      simp only
      cases us.findSome? CodeUnit.fault? <;> rfl

theorem registerAll_eq (inputs : List (String × Input)) (b : SharedBuild) :
    registerAll b inputs =
      match inputs.findSome? fun i => i.2.failure? with
      | some e => .error e
      | none => .ok (⟨(inputs.flatMap fun i => i.2.records).foldl Graph.insert b.inner⟩,
          inputs.flatMap fun i => i.2.rejects i.1) := by
  induction inputs generalizing b with
  | nil => rfl
  | cons i inputs ih =>
    obtain ⟨source, input⟩ := i
    rw [registerAll, register_eq, List.findSome?_cons]
    cases input.failure? with
    | some e => rfl
    | none =>
      simp only [bind, Except.bind, ih, List.flatMap_cons, List.foldl_append]
      cases inputs.findSome? fun i => i.2.failure? <;> rfl

end Input

theorem Loaded.represents_of_ofFiles {files : String → FileEntry} {paths : List String}
    {loaded : Loaded} (h : ofFiles files paths = .ok loaded) :
    ∃ units, loaded.graph.Represents units := by
  rw [ofFiles] at h
  cases hinputs : paths.mapM fun path =>
      (Input.read files path).map fun input => (path, input) with
  | error e => simp [hinputs, bind, Except.bind] at h
  | ok inputs =>
    simp only [hinputs, bind, Except.bind, Input.registerAll_eq] at h
    cases hfailure : inputs.findSome? fun i => i.2.failure? with
    | some e => simp [hfailure] at h
    | none =>
      simp only [hfailure] at h
      rw [← Except.ok.inj h]
      refine ⟨inputs.flatMap fun i => i.2.records, ?_⟩
      exact Graph.represents_foldl_insert _

end DependencyAtlas
