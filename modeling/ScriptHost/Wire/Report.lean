import ScriptHost.Coalesce.Report
import ScriptHost.Engine.Scheduler
import ScriptHost.Wire.Verdict

/-! What an engine tells of itself and its sessions, as JSON. -/

namespace ScriptHost

namespace Stats

def toJson (s : Stats) : Json :=
  .obj [("queued", .nat s.queued), ("active", .nat s.active), ("peakActive", .nat s.peakActive),
    ("compilations", .nat s.compilations), ("executions", .nat s.executions),
    ("completed", .nat s.completed)]

end Stats

namespace Session

def toJson (s : Session) : Json :=
  .obj ([("id", .nat s.id), ("state", .str s.state.name), ("createdTime", .str s.created.iso)]
    ++ (s.verdict.map fun v => ("verdict", v.toJson)).toList)

end Session

namespace Coalesce.Report

def toJson (r : Report) : Json :=
  .obj [("source", .str r.source), ("compiles", .bool r.compiles),
    ("diagnostics", .arr (r.diagnostics.map Diagnostic.toJson))]

end Coalesce.Report

end ScriptHost
