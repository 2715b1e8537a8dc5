import DependencyAtlas.Loading

/-!
# A worker for each file

While files are loaded, each has a worker of its own. A worker goes through its file in order and
registers units in the graph that all workers share, one at a turn. Nothing orders the turns of
different workers. Once all have come to an end, the first one in the order of the files that gave
up decides about the load; if none did, what they set aside is put together in that order.
-/

namespace DependencyAtlas

inductive Task where
  /-- Registers the value at a position of a list, or sets it aside. -/
  | value (index : Nat) (v : Json)
  /-- Registers a unit of a snapshot, or gives up. -/
  | unit (u : CodeUnit)

/-- The unit with which a task calls on the shared graph, if it gets that far. -/
def Task.call? : Task → Option CodeUnit
  | value _ v => (CodeUnit.ofValue v).toOption
  | unit u => some u

structure Worker where
  source : String
  /-- The tasks ahead, or the error with which the worker gave up. -/
  left : Except GraphError (List Task)
  rejected : List Rejected := []

namespace Worker

def ofInput (source : String) : Input → Worker
  | .units values => ⟨source, .ok (values.zipIdx.map fun v => .value v.2 v.1), []⟩
  | .snapshot s => ⟨source, s.toUnits.map fun units => units.map .unit, []⟩

def turn (w : Worker) (b : SharedBuild) : Worker × SharedBuild :=
  match w.left with
  | .error _ => (w, b)
  | .ok [] => (w, b)
  | .ok (.value index v :: rest) =>
    match Input.registerValue b v with
    | .ok b => ({ w with left := .ok rest }, b)
    | .error e => (⟨w.source, .ok rest, w.rejected ++ [⟨w.source, index, e⟩]⟩, b)
  | .ok (.unit u :: rest) =>
    match b.register u with
    | .ok b => ({ w with left := .ok rest }, b)
    | .error e => ({ w with left := .error e }, b)

def call? (w : Worker) : Option CodeUnit :=
  match w.left with
  | .ok (task :: _) => task.call?
  | _ => none

def isDone (w : Worker) : Bool :=
  match w.left with
  | .ok (_ :: _) => false
  | _ => true

def result (w : Worker) : Except GraphError (List Rejected) :=
  w.left.map fun _ => w.rejected

end Worker

structure Crew where
  build : SharedBuild
  workers : List Worker

namespace Crew

def ofInputs (inputs : List (String × Input)) : Crew :=
  ⟨.new, inputs.map fun i => .ofInput i.1 i.2⟩

def turn (c : Crew) (i : Nat) : Crew :=
  match c.workers[i]? with
  | none => c
  | some w => ⟨(w.turn c.build).2, c.workers.set i (w.turn c.build).1⟩

def run (c : Crew) (turns : List Nat) : Crew :=
  turns.foldl turn c

/-- The calls on the shared graph while workers take turns, each with the worker it comes from. -/
def calls : Crew → List Nat → List (Nat × CodeUnit)
  | _, [] => []
  | c, i :: turns =>
    ((c.workers[i]?.bind Worker.call?).map fun u => (i, u)).toList ++ calls (c.turn i) turns

def isDone (c : Crew) : Bool :=
  c.workers.all Worker.isDone

def outcome (c : Crew) : Except GraphError Loaded :=
  (c.workers.mapM Worker.result).map fun rejected => ⟨c.build.finish, rejected.flatten⟩

end Crew

end DependencyAtlas
