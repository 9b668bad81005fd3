import JobMatrix.Cli.Program
import JobMatrix.Files.Tree

/-!
# A model of the world around a run

A `World` is what a run can see and change: files, the events it has reported, and what it has
written.  With it a run is a function.
-/

set_option autoImplicit false

namespace JobMatrix

structure World where
  tree : FileTree
  events : List LogEvent := []
  out : String := ""
  err : String := ""

namespace World

/-- An operation on the files of a world. -/
def onTree {α : Type} (x : StateM FileTree α) : StateM World α := fun w =>
  let (a, tree) := x.run w.tree
  (a, { w with tree })

/-- The files of a world, seen from a working directory. -/
def files (cwd : Location) : FileAccess (StateM World) :=
  let access := FileTree.access cwd
  { readText := fun path => onTree (access.readText path)
    writeText := fun path text => onTree (access.writeText path text)
    rename := fun source path => onTree (access.rename source path)
    remove := fun path => onTree (access.remove path) }

/-- A host that keeps all events. -/
def host (cwd : Location) : Host (StateM World) where
  files := files cwd
  report e := modify fun w => { w with events := w.events ++ [e] }

def console : Console (StateM World) where
  out text := modify fun w => { w with out := w.out ++ text }
  err text := modify fun w => { w with err := w.err ++ text }

end World

end JobMatrix
