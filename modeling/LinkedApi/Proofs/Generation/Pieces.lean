import LinkedApi.Generation.PipeModules
import LinkedApi.Generation.Queries
import LinkedApi.Generation.Routes
import LinkedApi.Proofs.Template

/-!
# The pieces of the generated modules

Every text that is appended to an artifact is made of a few kinds of pieces: a header, a definition
or a handler for each entity, an export section. Here each is written out as one expression, and
the templates are shown to give exactly these texts.
-/

namespace LinkedApi.Generated

def pipeDefinition (pipe : PipeModule) : String :=
  "// source: " ++ Text.literalOf pipe.source ++ "\nconst " ++ pipe.name ++ " = " ++ pipe.code ++ ";\n\n"

def pipeExports (names : List String) : String :=
  if names.isEmpty then "module.exports = \x7b\x7d;\n"
  else "module.exports = \x7b " ++ ", ".intercalate names ++ " \x7d;\n"

def queryHeader (sources : List DataSource) : String :=
  "const \x7b Client \x7d = require('graphql-ld');
const \x7b QueryEngineComunica \x7d = require('graphql-ld-comunica');

const comunicaConfig = \x7b
  sources: " ++ (Json.arr (sources.map DataSource.toJson)).compress ++ ",
\x7d;

async function executeQuery(definition, variables) \x7b
  const client = new Client(\x7b
    context: definition.context,
    queryEngine: new QueryEngineComunica(comunicaConfig),
  \x7d);
  const \x7b data \x7d = await client.query(\x7b query: definition.query, variables \x7d);
  return data;
\x7d

"

def queryDefinition (query : Query) : String :=
  "const " ++ query.name ++ " = \x7b\n  query: " ++ Text.literalOf query.text ++ ",\n  context: " ++
    query.context.compress ++ ",\n\x7d;\n\n"

/-- The names of the queries follow the function that runs them. -/
def queryExports (names : List String) : String :=
  "module.exports = \x7b " ++ ", ".intercalate ("executeQuery" :: names) ++ " \x7d;\n"

def pipeCall (name : String) : String := "    data = await pipeModules." ++ name ++ "(data);\n"

def handler (binding : RouteBinding) : String :=
  "router." ++ binding.route.method.name ++ "(" ++ Text.literalOf binding.route.path ++
    ", async (req, res, next) => \x7b
  try \x7b
    const variables = \x7b ...req.query, ...req.params \x7d;
    let data = await queries.executeQuery(queries." ++ binding.query ++ ", variables);
" ++ String.join (binding.pipes.map pipeCall) ++ "    res.json(data);
  \x7d catch (err) \x7b
    next(err);
  \x7d
\x7d);

"

def routeExports (routes : List Route) : String :=
  "module.exports = router;\nmodule.exports.routes = " ++
    (Json.arr (routes.map Route.toJson)).compress ++ ";\n"

end LinkedApi.Generated

namespace LinkedApi.Writers

open Template

set_option maxRecDepth 16384

theorem pieces_pipeDefinition : PipeModules.definition.pieces =
    [.text "// source: ".toList, .marker 0, .text "\nconst ".toList, .marker 1,
      .text " = ".toList, .marker 2, .text ";\n\n".toList] := by
  apply pieces_ofText
  repeat rw [String.toList_ofList]
  decide

theorem pieces_pipeExports : PipeModules.exports.pieces =
    [.text "module.exports = \x7b ".toList, .marker 0, .text " \x7d;\n".toList] := by
  apply pieces_ofText
  repeat rw [String.toList_ofList]
  decide

theorem pieces_queryHeader : Queries.header.pieces =
    [.text "const \x7b Client \x7d = require('graphql-ld');
const \x7b QueryEngineComunica \x7d = require('graphql-ld-comunica');

const comunicaConfig = \x7b
  sources: ".toList, .marker 0, .text ",
\x7d;

async function executeQuery(definition, variables) \x7b
  const client = new Client(\x7b
    context: definition.context,
    queryEngine: new QueryEngineComunica(comunicaConfig),
  \x7d);
  const \x7b data \x7d = await client.query(\x7b query: definition.query, variables \x7d);
  return data;
\x7d

".toList] := by
  apply pieces_ofText
  repeat rw [String.toList_ofList]
  decide

theorem pieces_queryDefinition : Queries.definition.pieces =
    [.text "const ".toList, .marker 0, .text " = \x7b\n  query: ".toList, .marker 1,
      .text ",\n  context: ".toList, .marker 2, .text ",\n\x7d;\n\n".toList] := by
  apply pieces_ofText
  repeat rw [String.toList_ofList]
  decide

theorem pieces_queryExports : Queries.exports.pieces =
    [.text "module.exports = \x7b ".toList, .marker 0, .text " \x7d;\n".toList] := by
  apply pieces_ofText
  repeat rw [String.toList_ofList]
  decide

theorem pieces_pipeCall : Routes.pipeCall.pieces =
    [.text "    data = await pipeModules.".toList, .marker 0, .text "(data);\n".toList] := by
  apply pieces_ofText
  repeat rw [String.toList_ofList]
  decide

theorem pieces_handler : Routes.handler.pieces =
    [.text "router.".toList, .marker 0, .text "(".toList, .marker 1,
      .text ", async (req, res, next) => \x7b
  try \x7b
    const variables = \x7b ...req.query, ...req.params \x7d;
    let data = await queries.executeQuery(queries.".toList, .marker 2,
      .text ", variables);\n".toList, .marker 3, .text "    res.json(data);
  \x7d catch (err) \x7b
    next(err);
  \x7d
\x7d);

".toList] := by
  apply pieces_ofText
  repeat rw [String.toList_ofList]
  decide

theorem pieces_routeExports : Routes.exports.pieces =
    [.text "module.exports = router;\nmodule.exports.routes = ".toList, .marker 0,
      .text ";\n".toList] := by
  apply pieces_ofText
  repeat rw [String.toList_ofList]
  decide

/-- A definition is rendered if the name is an identifier. -/
theorem render_pipeDefinition (pipe : PipeModule) :
    PipeModules.definition.render [.str pipe.source, .ident pipe.name, .raw pipe.code] =
      if Text.isIdentifier pipe.name then .ok (Generated.pipeDefinition pipe)
      else .error (.invalidIdentifier pipe.name) := by
  rewrite [render_eq, pieces_pipeDefinition, filling_text, filling_marker rfl (Slot.write_str _),
    filling_text]
  cases h : Text.isIdentifier pipe.name with
  | true =>
    rewrite [filling_marker rfl (Slot.write_ident h), filling_text,
      filling_marker rfl (Slot.write_raw _), filling_end]
    simp only [Except.map, if_true]
    delta Generated.pipeDefinition
    simp only [String.append_assoc]
  | false =>
    rewrite [filling_marker_error rfl (Slot.write_ident_error h)]
    rfl

theorem render_pipeExports {names : List String} (h : names ≠ []) :
    PipeModules.exports.render [.raw (", ".intercalate names)] =
      .ok (Generated.pipeExports names) := by
  rewrite [render_eq, pieces_pipeExports, filling_text, filling_marker rfl (Slot.write_raw _),
    filling_end]
  simp only [Except.map]
  delta Generated.pipeExports
  rewrite [if_neg (by simpa using h)]
  simp only [String.append_assoc]

theorem render_queryHeader (sources : List DataSource) :
    Queries.header.render [.json (.arr (sources.map DataSource.toJson))] =
      .ok (Generated.queryHeader sources) := by
  rewrite [render_eq, pieces_queryHeader, filling_text, filling_marker rfl (Slot.write_json _),
    filling_end]
  simp only [Except.map]
  delta Generated.queryHeader
  simp only [String.append_assoc]

theorem render_queryDefinition (query : Query) :
    Queries.definition.render [.ident query.name, .str query.text, .json query.context] =
      if Text.isIdentifier query.name then .ok (Generated.queryDefinition query)
      else .error (.invalidIdentifier query.name) := by
  rewrite [render_eq, pieces_queryDefinition, filling_text]
  cases h : Text.isIdentifier query.name with
  | true =>
    rewrite [filling_marker rfl (Slot.write_ident h), filling_text,
      filling_marker rfl (Slot.write_str _), filling_text,
      filling_marker rfl (Slot.write_json _), filling_end]
    simp only [Except.map, if_true]
    delta Generated.queryDefinition
    simp only [String.append_assoc]
  | false =>
    rewrite [filling_marker_error rfl (Slot.write_ident_error h)]
    rfl

theorem render_queryExports (names : List String) :
    Queries.exports.render [.raw (", ".intercalate (Queries.entryPoint :: names))] =
      .ok (Generated.queryExports names) := by
  rewrite [render_eq, pieces_queryExports, filling_text, filling_marker rfl (Slot.write_raw _),
    filling_end]
  simp only [Except.map]
  delta Generated.queryExports Queries.entryPoint
  simp only [String.append_assoc]

theorem render_pipeCall (name : String) :
    Routes.pipeCall.render [.ident name] =
      if Text.isIdentifier name then .ok (Generated.pipeCall name)
      else .error (.invalidIdentifier name) := by
  rewrite [render_eq, pieces_pipeCall, filling_text]
  cases h : Text.isIdentifier name with
  | true =>
    rewrite [filling_marker rfl (Slot.write_ident h), filling_end]
    simp only [Except.map, if_true]
    delta Generated.pipeCall
    simp only [String.append_assoc]
  | false =>
    rewrite [filling_marker_error rfl (Slot.write_ident_error h)]
    rfl

theorem render_handler (binding : RouteBinding) :
    Routes.handler.render
        [.raw binding.route.method.name, .str binding.route.path, .ident binding.query,
          .raw (String.join (binding.pipes.map Generated.pipeCall))] =
      if Text.isIdentifier binding.query then .ok (Generated.handler binding)
      else .error (.invalidIdentifier binding.query) := by
  rewrite [render_eq, pieces_handler, filling_text, filling_marker rfl (Slot.write_raw _),
    filling_text, filling_marker rfl (Slot.write_str _), filling_text]
  cases h : Text.isIdentifier binding.query with
  | true =>
    rewrite [filling_marker rfl (Slot.write_ident h), filling_text,
      filling_marker rfl (Slot.write_raw _), filling_end]
    simp only [Except.map, if_true]
    delta Generated.handler
    simp only [String.append_assoc]
  | false =>
    rewrite [filling_marker_error rfl (Slot.write_ident_error h)]
    rfl

theorem render_routeExports (routes : List Route) :
    Routes.exports.render [.json (.arr (routes.map Route.toJson))] =
      .ok (Generated.routeExports routes) := by
  rewrite [render_eq, pieces_routeExports, filling_text, filling_marker rfl (Slot.write_json _),
    filling_end]
  simp only [Except.map]
  delta Generated.routeExports
  simp only [String.append_assoc]

end LinkedApi.Writers
