import WorkflowCompiler.Path.Posix

/-! Notes on the progress of a run, for those who look for the cause of a fault. -/

namespace WorkflowCompiler

inductive Note
  | rootSetting (text : String)
  | loading (config : Path)
  | bundled (text : String)
  | emptying (root : Path)
  | wrote (path : Path)
deriving DecidableEq, Repr

namespace Note

def text : Note → String
  | rootSetting text => s!"Using WFCOMPOSE_ROOT={text}"
  | loading config => s!"Loading config from {config.text}"
  | bundled text => text
  | emptying root => s!"Emptying {root.text}"
  | wrote path => s!"Wrote {path.text}"

end Note

end WorkflowCompiler
