import LinkedApi.Generation.Writers
import LinkedApi.Query

/-!
# The module of the queries

The connection to the data sources, and one definition for each query.
-/

namespace LinkedApi.Writers

namespace Queries

def header : Template := .ofText "const { Client } = require('graphql-ld');
const { QueryEngineComunica } = require('graphql-ld-comunica');

const comunicaConfig = {
  sources: {{0}},
};

async function executeQuery(definition, variables) {
  const client = new Client({
    context: definition.context,
    queryEngine: new QueryEngineComunica(comunicaConfig),
  });
  const { data } = await client.query({ query: definition.query, variables });
  return data;
}

"

def definition : Template := .ofText "const {{0}} = {
  query: {{1}},
  context: {{2}},
};

"

def exports : Template := .ofText "module.exports = { {{0}} };\n"

/-- The function that runs a query; it is exported first. -/
def entryPoint : String := "executeQuery"

end Queries

variable {m : Type → Type} [Monad m]

def beginQueries (sink : Sink m) : Writing m Unit := do
  onBuffer .query (Buffer.start .query)
  let sources := Json.arr ((← get).dataSources.map DataSource.toJson)
  let text ← filled Queries.header [.json sources]
  onBuffer .query do
    Buffer.push text
    Buffer.flush sink .query

/-- Writes the definition of one query. -/
def emitQuery (sink : Sink m) (query : Query) : Writing m Unit := do
  requireOpen .query .entity
  let text ← filled Queries.definition [.ident query.name, .str query.text, .json query.context]
  commit .query query.name
  modify ({ · with lastQuery := some query.name })
  onBuffer .query do
    Buffer.push text
    Buffer.flush sink .query

def closeQueries (sink : Sink m) : Writing m Unit := do
  requireOpen .query .exports
  let list ← exportList (Queries.entryPoint :: (← get).registry.names .query)
  writeExports sink .query (← filled Queries.exports [.raw list])

end LinkedApi.Writers
