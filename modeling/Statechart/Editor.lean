import Statechart.Editor.Chart
import Statechart.Service

/-! Editors: the editor chart with the hooks of an application. -/
namespace Statechart

structure Editor (T W : Type) where
  chart : Chart (EditorContext T) (EditorEvent T)
  hooks : Hooks T W

namespace Editor

variable {T W : Type}

def ofSettings (settings : EditorSettings T W) : Except Problem (Editor T W) := do
  let chart ← (spec settings.isDirty settings.idleDelay).build
  return { chart, hooks := settings.hooks }

def interpreter (editor : Editor T W) : Interpreter (EditorContext T) (EditorEvent T) W where
  chart := editor.chart

def start (editor : Editor T W) (world : W) : Ran W (Snapshot (EditorContext T)) :=
  editor.interpreter.start editor.hooks.handler world

def send (editor : Editor T W) (s : Snapshot (EditorContext T)) (event : EditorEvent T)
    (world : W) : Ran W (Snapshot (EditorContext T)) :=
  editor.interpreter.send s (.event event) editor.hooks.handler world

def spawn (editor : Editor T W) (options : Options) (clockwork : Clockwork) (world : W) :
    Ran W (Service (EditorContext T) (EditorEvent T) W) :=
  Service.start editor.chart editor.hooks.handler options clockwork world

end Editor
end Statechart
