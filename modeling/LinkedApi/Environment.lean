/-!
# The environment of a run

The variables and the directory that a run depends on.
-/

namespace LinkedApi

structure Environment where
  /-- Directory for the artifacts when none is configured. -/
  outputDirectory : Option String
  /-- Filter of log lines, over the one that is configured. -/
  logFilter : Option String
  /-- Directory of the user's configuration files. -/
  configHome : Option String
  home : Option String
  currentDirectory : Option String
  deriving DecidableEq, Repr

end LinkedApi
