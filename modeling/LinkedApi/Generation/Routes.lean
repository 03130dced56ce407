import LinkedApi.Generation.Writers

/-!
# The module of the routes

One handler for each route. It runs the query of the route and passes the result through the
chain of pipe modules; all of these must have been written before.
-/

namespace LinkedApi

/-- A route with what its handler needs. -/
structure RouteBinding where
  route : Route
  query : String
  /-- The names of the pipe modules, in order. -/
  pipes : List String
  deriving DecidableEq, Repr

namespace Writers

namespace Routes

def header : String := "const express = require('express');
const queries = require('./executeQuery');
const pipeModules = require('./pipeModules');

const router = express.Router();

"

def handler : Template := .ofText "router.{{0}}({{1}}, async (req, res, next) => {
  try {
    const variables = { ...req.query, ...req.params };
    let data = await queries.executeQuery(queries.{{2}}, variables);
{{3}}    res.json(data);
  } catch (err) {
    next(err);
  }
});

"

def pipeCall : Template := .ofText "    data = await pipeModules.{{0}}(data);\n"

def exports : Template := .ofText "module.exports = router;
module.exports.routes = {{0}};
"

/-- The first name a handler refers to that has not been written. -/
def dangling? (registry : Registry) (binding : RouteBinding) : Option (NameKind × String) :=
  ((.query, binding.query) :: binding.pipes.map fun name => (NameKind.pipeModule, name)).find?
    fun (kind, name) => !registry.contains kind name

end Routes

variable {m : Type → Type} [Monad m]

def beginRoutes (sink : Sink m) : Writing m Unit := writeHeader sink .routes Routes.header

/-- The calls of the pipe modules in a handler. -/
def pipeCalls : List String → Writing m String
  | [] => return ""
  | name :: rest => do
    let call ← filled Routes.pipeCall [.ident name]
    return call ++ (← pipeCalls rest)

/-- Writes the handler of one route. -/
def emitRoute (sink : Sink m) (binding : RouteBinding) : Writing m Unit := do
  requireOpen .routes .entity
  match Routes.dangling? (← get).registry binding with
  | some (kind, name) => throw (.danglingReference binding.route kind name)
  | none =>
    let calls ← pipeCalls binding.pipes
    let text ← filled Routes.handler
      [.raw binding.route.method.name, .str binding.route.path, .ident binding.query, .raw calls]
    modify fun w => { w with routes := w.routes ++ [binding.route] }
    onBuffer .routes do
      Buffer.push text
      Buffer.flush sink .routes

def closeRoutes (sink : Sink m) : Writing m Unit := do
  requireOpen .routes .exports
  let routes := Json.arr ((← get).routes.map Route.toJson)
  writeExports sink .routes (← filled Routes.exports [.json routes])

end Writers

end LinkedApi
