import LinkedApi.Generation.Writers
import LinkedApi.Text.Shown

/-!
# The state of the writers as it is shown
-/

namespace LinkedApi

def Phase.shown : Phase → String
  | .fresh => "Fresh"
  | .opened => "Open"
  | .sealed => "Sealed"

def Method.shown (method : Method) : String := method.name.capitalize

def DataSource.shown (source : DataSource) : String :=
  Text.shownRecord "DataSource"
    [("source_type", Text.shown source.type), ("value", Text.shown source.value)]

def Route.shown (route : Route) : String :=
  Text.shownRecord "Route" [("method", route.method.shown), ("path", Text.shown route.path)]

def Writers.shown (w : Writers) : Artifact → String
  | .pipeModules =>
    Text.shownRecord "PipeModuleWriter"
      [("phase", (w.phase .pipeModules).shown),
        ("current", Text.shownList (w.chain.map Text.shown))]
  | .query =>
    let last :=
      match w.lastQuery with
      | some name => s!"Some({Text.shown name})"
      | none => "None"
    Text.shownRecord "QueryWriter"
      [("phase", (w.phase .query).shown),
        ("data_sources", Text.shownList (w.dataSources.map DataSource.shown)),
        ("last_emitted", last)]
  | .routes =>
    Text.shownRecord "RouteWriter"
      [("phase", (w.phase .routes).shown),
        ("routes", Text.shownList (w.routes.map Route.shown))]

end LinkedApi
