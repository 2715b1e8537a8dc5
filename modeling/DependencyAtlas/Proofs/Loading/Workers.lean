import DependencyAtlas.Loading.Workers
import DependencyAtlas.Proofs.Loading.Inputs
import DependencyAtlas.Proofs.Loading.Interleaving

/-!
# Workers in any order

Whatever the order of their turns, workers hand over the units of their files in the order of the
files and come to the same verdicts. Each verdict is a matter of one file: what a worker sets aside
and whether it gives up does not depend on the graph that it shares.
-/

namespace DependencyAtlas

/-- The units that tasks hand over, up to the one at which the worker gives up. -/
def Task.calls : List Task → List CodeUnit
  | [] => []
  | .value _ v :: rest => (CodeUnit.ofValue v).toOption.toList ++ calls rest
  | .unit u :: rest => u :: if u.isValid then calls rest else []

/-- What tasks set aside, unless the worker gives up. -/
def Task.verdict (source : String) : List Task → Except GraphError (List Rejected)
  | [] => .ok []
  | .value index v :: rest =>
    match CodeUnit.refusal? v with
    | none => verdict source rest
    | some e => (verdict source rest).map fun rejected => ⟨source, index, e⟩ :: rejected
  | .unit u :: rest =>
    match u.fault? with
    | none => verdict source rest
    | some e => .error e

namespace Worker

def ahead (w : Worker) : List CodeUnit :=
  match w.left with
  | .ok tasks => Task.calls tasks
  | .error _ => []

/-- What a worker will hand back in the end. -/
def verdict (w : Worker) : Except GraphError (List Rejected) :=
  match w.left with
  | .ok tasks => (Task.verdict w.source tasks).map fun rejected => w.rejected ++ rejected
  | .error e => .error e

/-- What a turn does to a worker: it has come to an end, hands over a unit, sets a value aside, or
gives up. -/
inductive Turn : Worker → Option CodeUnit → Worker → Prop
  | done {w : Worker} (h : w.isDone = true) : Turn w none w
  | value {source : String} {index : Nat} {v : Json} {rest : List Task} {rejected : List Rejected}
      {u : CodeUnit} (h : CodeUnit.ofValue v = .ok u) :
      Turn ⟨source, .ok (.value index v :: rest), rejected⟩ (some u) ⟨source, .ok rest, rejected⟩
  | setAside {source : String} {index : Nat} {v : Json} {rest : List Task}
      {rejected : List Rejected} {e : GraphError} (h : CodeUnit.ofValue v = .error e) :
      Turn ⟨source, .ok (.value index v :: rest), rejected⟩ none
        ⟨source, .ok rest, rejected ++ [⟨source, index, e⟩]⟩
  | unit {source : String} {u : CodeUnit} {rest : List Task} {rejected : List Rejected}
      (h : u.fault? = none) :
      Turn ⟨source, .ok (.unit u :: rest), rejected⟩ (some u) ⟨source, .ok rest, rejected⟩
  | giveUp {source : String} {u : CodeUnit} {rest : List Task} {rejected : List Rejected}
      {e : GraphError} (h : u.fault? = some e) :
      Turn ⟨source, .ok (.unit u :: rest), rejected⟩ (some u) ⟨source, .error e, rejected⟩

/-- A turn changes a worker in the same way whatever the graph is, and the graph by one call at
most. -/
theorem turn_spec (w : Worker) (b : SharedBuild) :
    Turn w w.call? (w.turn b).1 ∧ (w.turn b).2 = w.call?.elim b b.call := by
  obtain ⟨source, left, rejected⟩ := w
  match left with
  | .error e => exact ⟨.done rfl, rfl⟩
  | .ok [] => exact ⟨.done rfl, rfl⟩
  | .ok (.value index v :: rest) =>
    simp only [turn, call?, Task.call?, Input.registerValue_eq]
    cases hv : CodeUnit.ofValue v with
    | error e => exact ⟨.setAside hv, rfl⟩
    | ok u =>
      refine ⟨.value hv, ?_⟩
      simp only [Except.toOption, Option.elim, Except.map, SharedBuild.call,
        SharedBuild.register_eq, CodeUnit.fault?_of_ofValue hv]
  | .ok (.unit u :: rest) =>
    simp only [turn, call?, Task.call?, Option.elim, SharedBuild.call, SharedBuild.register_eq]
    cases hu : u.fault? with
    | none => exact ⟨.unit hu, rfl⟩
    | some e => exact ⟨.giveUp hu, rfl⟩

variable {w w' : Worker} {call : Option CodeUnit}

theorem Turn.verdict_eq (h : Turn w call w') : w'.verdict = w.verdict := by
  cases h with
  | done h => rfl
  | value h => simp only [verdict, Task.verdict, CodeUnit.refusal?, h]
  | @setAside source index v rest rejected e h =>
    simp only [verdict, Task.verdict, CodeUnit.refusal?, h]
    cases Task.verdict source rest with
    | error e => rfl
    | ok more => simp [Except.map]
  | unit h => simp only [verdict, Task.verdict, h]
  | giveUp h => simp only [verdict, Task.verdict, h, Except.map]

theorem Turn.ahead_eq (h : Turn w call w') : w.ahead = call.toList ++ w'.ahead := by
  cases h with
  | done h => rfl
  | value h => simp only [ahead, Task.calls, h, Except.toOption]
  | setAside h => simp only [ahead, Task.calls, h, Except.toOption]
  | unit h =>
    simp only [ahead, Task.calls, CodeUnit.isValid_eq_true_iff_fault?.mpr h]
    rfl
  | @giveUp source u rest rejected e h =>
    have hu : u.isValid ≠ true := by simp [CodeUnit.isValid_eq_true_iff_fault?, h]
    simp only [ahead, Task.calls, if_neg hu]
    rfl

/-- How many turns a worker may still take before it comes to an end. -/
def turnsLeft (w : Worker) : Nat :=
  match w.left with
  | .ok tasks => tasks.length
  | .error _ => 0

theorem Turn.turnsLeft_lt (h : Turn w call w') (hw : w.isDone = false) :
    w'.turnsLeft < w.turnsLeft := by
  cases h with
  | done h => simp [h] at hw
  | value h => simp [turnsLeft]
  | setAside h => simp [turnsLeft]
  | unit h => simp [turnsLeft]
  | giveUp h => simp [turnsLeft]

theorem verdict_of_isDone (h : w.isDone = true) : w.verdict = w.result := by
  obtain ⟨source, left, rejected⟩ := w
  match left with
  | .error e => rfl
  | .ok [] => simp [verdict, result, Task.verdict, Except.map]
  | .ok (_ :: _) => simp [isDone] at h

theorem ahead_of_isDone (h : w.isDone = true) : w.ahead = [] := by
  obtain ⟨source, left, rejected⟩ := w
  match left with
  | .error e => rfl
  | .ok [] => rfl
  | .ok (_ :: _) => simp [isDone] at h

theorem calls_values (values : List Json) (index : Nat) :
    Task.calls ((values.zipIdx index).map fun v => .value v.2 v.1) =
      values.filterMap fun v => (CodeUnit.ofValue v).toOption := by
  induction values generalizing index with
  | nil => rfl
  | cons v values ih =>
    rw [List.zipIdx_cons, List.map_cons, Task.calls, ih, List.filterMap_cons]
    cases CodeUnit.ofValue v <;> rfl

theorem verdict_values (source : String) (values : List Json) (index : Nat) :
    Task.verdict source ((values.zipIdx index).map fun v => .value v.2 v.1) =
      .ok ((values.zipIdx index).filterMap fun v =>
        (CodeUnit.refusal? v.1).map fun e => ⟨source, v.2, e⟩) := by
  induction values generalizing index with
  | nil => rfl
  | cons v values ih =>
    rw [List.zipIdx_cons, List.map_cons, Task.verdict, ih, List.filterMap_cons]
    cases CodeUnit.refusal? v <;> rfl

theorem calls_units {us : List CodeUnit} (h : us.findSome? CodeUnit.fault? = none) :
    Task.calls (us.map .unit) = us := by
  rw [CodeUnit.findSome?_fault?_eq_none_iff] at h
  induction us with
  | nil => rfl
  | cons u us ih =>
    obtain ⟨hu, hus⟩ := List.forall_mem_cons.mp h
    rw [List.map_cons, Task.calls, if_pos hu, ih hus]

theorem verdict_units (source : String) (us : List CodeUnit) :
    Task.verdict source (us.map .unit) =
      match us.findSome? CodeUnit.fault? with
      | none => .ok []
      | some e => .error e := by
  induction us with
  | nil => rfl
  | cons u us ih =>
    rw [List.map_cons, Task.verdict, List.findSome?_cons]
    cases u.fault? with
    | none => exact ih
    | some e => rfl

theorem ahead_ofInput (source : String) {input : Input} (h : input.failure? = none) :
    (ofInput source input).ahead = input.records := by
  cases input with
  | units values => exact calls_values values 0
  | snapshot s =>
    simp only [Input.failure?] at h
    simp only [ofInput, ahead, Input.records]
    cases hs : s.toUnits with
    | error e => simp [hs] at h
    | ok us => exact calls_units (by simpa [hs] using h)

theorem verdict_ofInput (source : String) (input : Input) :
    (ofInput source input).verdict =
      match input.failure? with
      | some e => .error e
      | none => .ok (input.rejects source) := by
  cases input with
  | units values =>
    simp only [ofInput, verdict, verdict_values, Input.failure?, Input.rejects]
    rfl
  | snapshot s =>
    simp only [ofInput, verdict, Input.failure?, Input.rejects]
    cases s.toUnits with
    | error e => rfl
    | ok us =>
      simp only [Except.map, verdict_units]
      cases us.findSome? CodeUnit.fault? <;> rfl

end Worker

namespace Crew

variable {c c' c'' : Crew} {calls calls' : List (Nat × CodeUnit)}

def ahead (c : Crew) (i : Nat) : List CodeUnit :=
  (c.workers[i]?.map Worker.ahead).getD []

/-- What is true of workers and their graph after some calls: the graph is the one that these calls
make, the verdicts are still the same, and each worker has handed over what it had ahead, in
order. -/
structure Leads (c : Crew) (calls : List (Nat × CodeUnit)) (c' : Crew) : Prop where
  build : c'.build = calls.foldl (fun b t => b.call t.2) c.build
  verdicts : c'.workers.map Worker.verdict = c.workers.map Worker.verdict
  ahead : ∀ i, c.ahead i = (calls.filter fun t => t.1 == i).map (·.2) ++ c'.ahead i

theorem Leads.refl (c : Crew) : c.Leads [] c :=
  ⟨rfl, rfl, fun _ => rfl⟩

theorem Leads.trans (h : c.Leads calls c') (h' : c'.Leads calls' c'') :
    c.Leads (calls ++ calls') c'' where
  build := by rw [List.foldl_append, ← h.build, h'.build]
  verdicts := h'.verdicts.trans h.verdicts
  ahead i := by rw [h.ahead, h'.ahead, List.filter_append, List.map_append, List.append_assoc]

theorem leads_turn (c : Crew) (i : Nat) : c.Leads (c.calls [i]) (c.turn i) := by
  rw [Crew.calls, Crew.calls, List.append_nil, turn]
  cases hw : c.workers[i]? with
  | none => exact .refl c
  | some w =>
    obtain ⟨hturn, hbuild⟩ := w.turn_spec c.build
    obtain ⟨hi, hget⟩ := List.getElem?_eq_some_iff.mp hw
    refine ⟨?_, ?_, fun j => ?_⟩
    · simp only [hbuild, Option.bind_some]
      cases w.call? <;> rfl
    · simp only [List.map_set, hturn.verdict_eq]
      rw [← hget, ← List.getElem_map Worker.verdict, List.set_getElem_self]
      simpa using hi
    · simp only [ahead, Option.bind_some]
      by_cases hij : i = j
      · subst hij
        rw [List.getElem?_set_self hi, hw]
        simp only [Option.map_some, Option.getD_some, hturn.ahead_eq]
        cases w.call? <;> simp
      · rw [List.getElem?_set_ne hij]
        cases w.call? <;> simp [hij]

theorem leads_run (turns : List Nat) (c : Crew) : c.Leads (c.calls turns) (c.run turns) := by
  induction turns generalizing c with
  | nil => exact .refl c
  | cons i turns ih =>
    have h := (c.leads_turn i).trans (ih (c.turn i))
    simpa [Crew.calls, run] using h

variable {inputs : List (String × Input)} {turns : List Nat}

theorem ahead_ofInputs (h : (inputs.findSome? fun i => i.2.failure?) = none) (i : Nat) :
    (ofInputs inputs).ahead i = (inputs.map fun i => i.2.records)[i]?.getD [] := by
  rw [ahead, ofInputs, List.getElem?_map, List.getElem?_map, Option.map_map]
  cases hi : inputs[i]? with
  | none => rfl
  | some input =>
    have hnone := List.findSome?_eq_none_iff.mp h input (List.mem_of_getElem? hi)
    simp [Worker.ahead_ofInput input.1 hnone]

theorem ahead_of_isDone (h : c.isDone = true) (i : Nat) : c.ahead i = [] := by
  rw [ahead]
  cases hi : c.workers[i]? with
  | none => rfl
  | some w =>
    have hw : w.isDone = true := List.all_eq_true.mp h w (List.mem_of_getElem? hi)
    simp [Worker.ahead_of_isDone hw]

/-- The calls of a whole run are the units of the files, each file in its order. -/
theorem interleaves_calls (hdone : ((ofInputs inputs).run turns).isDone = true)
    (h : (inputs.findSome? fun i => i.2.failure?) = none) :
    Interleaves ((ofInputs inputs).calls turns) (inputs.map fun i => i.2.records) := by
  intro i
  have hahead := ((ofInputs inputs).leads_run turns).ahead i
  rw [ahead_of_isDone hdone, List.append_nil, ahead_ofInputs h] at hahead
  exact hahead.symm

theorem mapM_verdict (inputs : List (String × Input)) :
    ((ofInputs inputs).workers.map Worker.verdict).mapM id =
      match inputs.findSome? fun i => i.2.failure? with
      | some e => .error e
      | none => .ok (inputs.map fun i => i.2.rejects i.1) := by
  induction inputs with
  | nil => rfl
  | cons i inputs ih =>
    simp only [ofInputs, List.map_cons, List.mapM_cons, id, List.findSome?_cons,
      Worker.verdict_ofInput] at ih ⊢
    cases i.2.failure? with
    | some e => rfl
    | none =>
      simp only [ih]
      cases inputs.findSome? fun i => i.2.failure? <;> rfl

theorem outcome_of_isDone (hdone : ((ofInputs inputs).run turns).isDone = true) :
    ((ofInputs inputs).run turns).outcome =
      match inputs.findSome? fun i => i.2.failure? with
      | some e => .error e
      | none => .ok ⟨(SharedBuild.afterTurns ((ofInputs inputs).calls turns)).finish,
          inputs.flatMap fun i => i.2.rejects i.1⟩ := by
  have hleads := (ofInputs inputs).leads_run turns
  have hresults : ((ofInputs inputs).run turns).workers.map Worker.result =
      (ofInputs inputs).workers.map Worker.verdict := by
    rw [← hleads.verdicts]
    apply List.map_congr_left
    intro w hw
    exact (Worker.verdict_of_isDone (List.all_eq_true.mp hdone w hw)).symm
  have hmapM : ((ofInputs inputs).run turns).workers.mapM Worker.result =
      (((ofInputs inputs).run turns).workers.map Worker.result).mapM id := by
    rw [List.mapM_map]
    rfl
  rw [outcome, hmapM, hresults, mapM_verdict, hleads.build]
  cases inputs.findSome? fun i => i.2.failure? with
  | some e => rfl
  | none =>
    simp only [Except.map, List.flatMap]
    rfl

theorem run_append (c : Crew) (turns turns' : List Nat) :
    c.run (turns ++ turns') = (c.run turns).run turns' :=
  List.foldl_append

theorem calls_append (c : Crew) (turns turns' : List Nat) :
    c.calls (turns ++ turns') = c.calls turns ++ (c.run turns).calls turns' := by
  induction turns generalizing c with
  | nil => rfl
  | cons i turns ih =>
    rw [List.cons_append, Crew.calls, ih, Crew.calls, List.append_assoc]
    rfl

theorem exists_run_worker (before after : List Worker) (w : Worker) (b : SharedBuild) :
    ∃ turns w' b', (⟨b, before ++ w :: after⟩ : Crew).run turns = ⟨b', before ++ w' :: after⟩ ∧
      w'.isDone = true ∧
        ((⟨b, before ++ w :: after⟩ : Crew).calls turns).map (·.2) = w.ahead := by
  -- every turn of this worker leaves it fewer turns, and the others are not touched
  induction hn : w.turnsLeft using Nat.strong_induction_on generalizing w b with
  | _ n ih =>
    cases hw : w.isDone with
    | true => exact ⟨[], w, b, rfl, hw, (Worker.ahead_of_isDone hw).symm⟩
    | false =>
      obtain ⟨hturn, -⟩ := w.turn_spec b
      obtain ⟨turns, w', b', hrun, hdone, hcalls⟩ :=
        ih _ (hn ▸ hturn.turnsLeft_lt hw) (w.turn b).1 (w.turn b).2 rfl
      have hget : (before ++ w :: after)[before.length]? = some w := by simp
      have hstep : (⟨b, before ++ w :: after⟩ : Crew).turn before.length =
          ⟨(w.turn b).2, before ++ (w.turn b).1 :: after⟩ := by
        simp [turn]
      refine ⟨before.length :: turns, w', b', ?_, hdone, ?_⟩
      · rw [run, List.foldl_cons, hstep]
        exact hrun
      · rw [Crew.calls, hstep, List.map_append, hcalls, hturn.ahead_eq]
        simp only [hget, Option.bind_some]
        cases w.call? <;> rfl

theorem exists_run_all (before after : List Worker) (b : SharedBuild)
    (hbefore : ∀ w ∈ before, w.isDone = true) :
    ∃ turns, ((⟨b, before ++ after⟩ : Crew).run turns).isDone = true ∧
      ((⟨b, before ++ after⟩ : Crew).calls turns).map (·.2) = after.flatMap Worker.ahead := by
  induction after generalizing before b with
  | nil => exact ⟨[], by simpa [run, isDone] using hbefore, rfl⟩
  | cons w after ih =>
    obtain ⟨turns, w', b', hrun, hdone, hcalls⟩ := exists_run_worker before after w b
    obtain ⟨turns', hdone', hcalls'⟩ := ih (before ++ [w']) b'
      (List.forall_mem_append.mpr ⟨hbefore, List.forall_mem_singleton.mpr hdone⟩)
    rw [List.append_assoc, List.singleton_append] at hdone' hcalls'
    refine ⟨turns ++ turns', ?_, ?_⟩
    · rw [run_append, hrun, hdone']
    · rw [calls_append, List.map_append, hcalls, hrun, hcalls', List.flatMap_cons]

/-- The load that takes one file after the other is what some order of turns comes to. -/
theorem exists_run_eq_registerAll (inputs : List (String × Input)) :
    ∃ turns, ((ofInputs inputs).run turns).isDone = true ∧
      ((ofInputs inputs).run turns).outcome =
        (Input.registerAll .new inputs).map fun r => ⟨r.1.finish, r.2⟩ := by
  obtain ⟨turns, hdone, hcalls⟩ :=
    exists_run_all [] (inputs.map fun i => .ofInput i.1 i.2) .new (by simp)
  refine ⟨turns, hdone, ?_⟩
  rw [outcome_of_isDone hdone, Input.registerAll_eq]
  cases hfailure : inputs.findSome? fun i => i.2.failure? with
  | some e => rfl
  | none =>
    have hnone := List.findSome?_eq_none_iff.mp hfailure
    have hrecords : ((ofInputs inputs).calls turns).map (·.2) =
        inputs.flatMap fun i => i.2.records := by
      refine hcalls.trans ?_
      rw [List.flatMap_map]
      apply List.flatMap_congr
      intro i hi
      exact Worker.ahead_ofInput i.1 (hnone i hi)
    have hvalid : (inputs.flatMap fun i => i.2.records).filter CodeUnit.isValid =
        inputs.flatMap fun i => i.2.records := by
      rw [List.filter_eq_self]
      intro u hu
      obtain ⟨i, hi, hu⟩ := List.mem_flatMap.mp hu
      exact Input.isValid_of_mem_records (hnone i hi) u hu
    simp only [SharedBuild.finish_afterTurns_eq_foldl, hrecords, hvalid]
    rfl

theorem failure?_eq_none_of_units (h : ∀ i ∈ inputs, ∃ values, i.2 = .units values) :
    (inputs.findSome? fun i => i.2.failure?) = none := by
  rw [List.findSome?_eq_none_iff]
  intro i hi
  obtain ⟨values, hvalues⟩ := h i hi
  rw [hvalues, Input.failure?]

/-- The outcomes of two orders of turns differ in nothing that a snapshot shows, as long as the
files have their own identifiers. -/
theorem outcome_toSnapshot_eq (hown : OwnIdentifiers (inputs.map fun i => i.2.records))
    {turns' : List Nat} (hdone : ((ofInputs inputs).run turns).isDone = true)
    (hdone' : ((ofInputs inputs).run turns').isDone = true) :
    (((ofInputs inputs).run turns).outcome.map fun l => l.graph.toSnapshot) =
      ((ofInputs inputs).run turns').outcome.map fun l => l.graph.toSnapshot := by
  rw [outcome_of_isDone hdone, outcome_of_isDone hdone']
  cases hfailure : inputs.findSome? fun i => i.2.failure? with
  | some e => rfl
  | none =>
    exact congrArg Except.ok (SharedBuild.toSnapshot_afterTurns_eq hown
      (interleaves_calls hdone hfailure) (interleaves_calls hdone' hfailure))

/-- Producers that share a graph build what their calls make one after the other, without a trace of
units at fault, and with one snapshot for all orders if they have their own identifiers. The workers
of a load are such producers. In every order of turns they end with one error or with one list of
what was set aside, by file and by position, and some order is that of the files. -/
theorem order_independent :
    (∀ (producers : List (List CodeUnit)) (turns : List (Nat × CodeUnit)),
      Interleaves turns producers →
        (SharedBuild.afterTurns turns).finish =
            Graph.afterCalls (turns.map fun t => .register t.2) ∧
          (SharedBuild.afterTurns (turns.filter fun t => t.2.isValid)).finish =
            (SharedBuild.afterTurns turns).finish ∧
          (OwnIdentifiers producers → ∀ turns', Interleaves turns' producers →
            (SharedBuild.afterTurns turns).finish.toSnapshot =
              (SharedBuild.afterTurns turns').finish.toSnapshot)) ∧
      (∀ (inputs : List (String × Input)) (turns : List Nat),
        ((ofInputs inputs).run turns).isDone = true →
          match inputs.findSome? fun i => i.2.failure? with
          | some e => ((ofInputs inputs).run turns).outcome = .error e
          | none =>
            Interleaves ((ofInputs inputs).calls turns) (inputs.map fun i => i.2.records) ∧
              ((ofInputs inputs).run turns).outcome =
                .ok ⟨(SharedBuild.afterTurns ((ofInputs inputs).calls turns)).finish,
                  inputs.flatMap fun i => i.2.rejects i.1⟩) ∧
        (∀ inputs : List (String × Input), OwnIdentifiers (inputs.map fun i => i.2.records) →
          ∀ turns turns', ((ofInputs inputs).run turns).isDone = true →
            ((ofInputs inputs).run turns').isDone = true →
              (((ofInputs inputs).run turns).outcome.map fun l => l.graph.toSnapshot) =
                ((ofInputs inputs).run turns').outcome.map fun l => l.graph.toSnapshot) ∧
          (∀ inputs : List (String × Input), (∀ i ∈ inputs, ∃ values, i.2 = .units values) →
            (∀ i ∈ inputs, (i.2.rejects i.1).Pairwise fun r s => r.index < s.index) ∧
              ∀ turns, ((ofInputs inputs).run turns).isDone = true →
                ∃ g, ((ofInputs inputs).run turns).outcome =
                  .ok ⟨g, inputs.flatMap fun i => i.2.rejects i.1⟩) ∧
            ∀ inputs : List (String × Input), ∃ turns,
              ((ofInputs inputs).run turns).isDone = true ∧
                ((ofInputs inputs).run turns).outcome =
                  (Input.registerAll .new inputs).map fun r => ⟨r.1.finish, r.2⟩ := by
  refine ⟨fun producers turns h => ?_, fun inputs turns hdone => ?_,
    fun inputs hown turns turns' => outcome_toSnapshot_eq hown, fun inputs hunits => ?_,
    exists_run_eq_registerAll⟩
  · exact ⟨SharedBuild.finish_afterTurns turns, SharedBuild.finish_afterTurns_filter turns,
      fun hown turns' h' => SharedBuild.toSnapshot_afterTurns_eq hown h h'⟩
  · have houtcome := outcome_of_isDone hdone
    cases hfailure : inputs.findSome? fun i => i.2.failure? with
    | some e => simpa only [hfailure] using houtcome
    | none => exact ⟨interleaves_calls hdone hfailure, by simpa only [hfailure] using houtcome⟩
  · refine ⟨fun i _ => i.2.pairwise_rejects i.1, fun turns hdone => ?_⟩
    have houtcome := outcome_of_isDone hdone
    rw [failure?_eq_none_of_units hunits] at houtcome
    exact ⟨_, houtcome⟩

/-- A unit that depends on another one, and a unit at fault. -/
def readers : List CodeUnit :=
  [⟨"reader", .service, "", [⟨"store", "calls", none, ""⟩]⟩, ⟨" ", .model, "", []⟩]

def stores : List CodeUnit :=
  [⟨"store", .model, "", []⟩]

/-- The store is registered between the calls of the other producer. -/
def inBetween : List (Nat × CodeUnit) :=
  [(0, ⟨"reader", .service, "", [⟨"store", "calls", none, ""⟩]⟩), (1, ⟨"store", .model, "", []⟩),
    (0, ⟨" ", .model, "", []⟩)]

def storeFirst : List (Nat × CodeUnit) :=
  [(1, ⟨"store", .model, "", []⟩), (0, ⟨"reader", .service, "", [⟨"store", "calls", none, ""⟩]⟩),
    (0, ⟨" ", .model, "", []⟩)]

/-- Two lists of values, one of which holds a value that is no unit. -/
def twoFiles : List (String × Input) :=
  [("readers", .units [.object [("identifier", .text "reader"), ("kind", .text "service")], .null]),
    ("stores", .units [.object [("identifier", .text "store"), ("kind", .text "model")]])]

theorem order_independent_twoFiles :
    (Interleaves inBetween [readers, stores] ∧ Interleaves storeFirst [readers, stores] ∧
        OwnIdentifiers [readers, stores] ∧
          (SharedBuild.afterTurns inBetween).finish.toSnapshot =
            (SharedBuild.afterTurns storeFirst).finish.toSnapshot) ∧
      ((ofInputs twoFiles).run [0, 1, 0]).isDone = true ∧
        ∃ g, ((ofInputs twoFiles).run [0, 1, 0]).outcome =
          .ok ⟨g, twoFiles.flatMap fun i => i.2.rejects i.1⟩ := by
  have hbetween : Interleaves inBetween [readers, stores] := by
    rintro (_ | _ | i)
    · rfl
    · rfl
    · simp [inBetween]
  have hfirst : Interleaves storeFirst [readers, stores] := by
    rintro (_ | _ | i)
    · rfl
    · rfl
    · simp [storeFirst]
  have hown : OwnIdentifiers [readers, stores] := by
    have hreaders : ∀ u ∈ readers, u.identifier ≠ "store" := by decide
    have hstores : ∀ u ∈ stores, u.identifier = "store" := by decide
    intro i j u v hu hv _ _ hid
    match i, j with
    | 0, 0 => rfl
    | 1, 1 => rfl
    | 0, 1 => exact absurd (hid.trans (hstores v hv)) (hreaders u hu)
    | 1, 0 => exact absurd (hid.symm.trans (hstores u hu)) (hreaders v hv)
    | i + 2, _ => simp at hu
    | _, j + 2 => simp at hv
  have hdone : ((ofInputs twoFiles).run [0, 1, 0]).isDone = true := by rfl
  have hunits : ∀ i ∈ twoFiles, ∃ values, i.2 = .units values := by simp [twoFiles]
  exact ⟨⟨hbetween, hfirst, hown,
    (order_independent.1 [readers, stores] inBetween hbetween).2.2 hown storeFirst hfirst⟩,
    hdone, (order_independent.2.2.2.1 twoFiles hunits).2 [0, 1, 0] hdone⟩

end Crew

end DependencyAtlas
