import MaterialGraph.Callable.Build
import MaterialGraph.Lowering.Body
import MaterialGraph.Settings.Basic

/-!
Compiling one root: what feeds it is scheduled, checked to be resolved and well typed, and lowered.
-/

set_option autoImplicit false

namespace MaterialGraph

structure CompiledRoot where
  root : NodeId
  /-- The nodes that feed the root, producers first. -/
  schedule : Schedule
  types : TypeTable
  exprs : ExprList
  parameters : Parameters
  results : List Lowering.Result

namespace CompiledRoot

def result? (compiled : CompiledRoot) (name : String) : Option ExprId :=
  (compiled.results.find? fun result => result.name = name).map Lowering.Result.expr

end CompiledRoot

namespace Wired

/-- Lowers a root whose schedule and types are known. -/
def lowerRoot (wired : WiredMaterial) (schedule : Schedule) (types : TypeTable) (root : NodeId) :
    Except LoweringError (ExprList × List Lowering.Result) :=
  let body := Lowering.Body.top wired types
  let steps : Lowering.Lower (List Lowering.Result) := do
    body.build schedule.order
    body.results root
  match steps (.ofExprs []) with
  | .ok results builder => .ok (builder.exprs, results)
  | .error error _ => .error error

def compileRoot (wired : WiredMaterial) (policy : ErrorPolicy) (root : NodeId) :
    Except CompileError CompiledRoot :=
  if !wired.graph.contains root then .error (.unknownRoot root)
  else
    match wired.schedule [root] with
    | .error cycle => .error (.cycle cycle)
    | .ok schedule =>
        match wired.unresolvedCall? schedule.order with
        | some error => .error error
        | none =>
            match Typing.checkAll wired (policy = .abortOnFirst) schedule.order [] with
            | (types, []) =>
                match wired.lowerRoot schedule types root with
                | .error error => .error (.lowering error)
                | .ok (exprs, results) =>
                    match Parameters.collect exprs [] with
                    | (_, some conflict) => .error (.parameter conflict)
                    | (parameters, none) =>
                        .ok ⟨root, schedule, types, exprs, parameters, results⟩
            | (_, diagnostics) => .error (.validation diagnostics)

end Wired

end MaterialGraph
