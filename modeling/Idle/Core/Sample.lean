import Idle.Core.Step

/-!
# Small contexts

Layouts in which every service but the root has one import and one export. They are large enough
to run into everything the later modules say about single runs.
-/

namespace Idle

namespace Layout

/-- The root is service 0 and has an export only; `parent` tells where the others are. -/
def small (parent : ServiceId → Part) : Layout where
  root := 0
  parent s := if s = 0 then ⟨0, .kExport, 0⟩ else parent s
  parts s := if s = 0 then [⟨0, .kExport, 0⟩] else [⟨s, .kImport, 0⟩, ⟨s, .kExport, 0⟩]
  parts_owner := by
    intro s p hp
    split at hp
    · simp_all
    · rcases List.mem_cons.1 hp with rfl | hp
      · rfl
      · rw [List.mem_singleton.1 hp]
  parts_nodup s := by
    split <;> simp
  root_owner := rfl
  root_isExport := rfl
  root_parts := by simp [Part.isImport]

/-- The export of a service. -/
def exportOf (s : ServiceId) : Part := ⟨s, .kExport, 0⟩

/-- The import of a service. -/
def importOf (s : ServiceId) : Part := ⟨s, .kImport, 0⟩

/-- All services are children of the root. -/
def flat : Layout := small fun _ => exportOf 0

/-- Every service is a child of the export of the one before. -/
def chain : Layout := small fun s => exportOf (s - 1)

end Layout

/-- The state after some operations. -/
def State.after (L : Layout) (ops : List Op) : State := ops.foldl Op.exec (.initial L)

lemma State.after_concat (L : Layout) (ops : List Op) (op : Op) :
    State.after L (ops ++ [op]) = op.exec (State.after L ops) := by
  rw [State.after, List.foldl_append]
  rfl

end Idle
