import ContinuousQuery.Algebra.Lowering
import ContinuousQuery.Sparql.Query
import ContinuousQuery.Topology.Assembly

/-!
From the text of a query to a topology that evaluates it. Only selections from all
graphs can be evaluated over a stream, and of these only the ones whose operators all
have a processor.
-/

namespace ContinuousQuery

/-- A form of query that cannot be evaluated over a stream. -/
inductive UnsupportedForm where
  | selectFromDataset
  | construct
  | describe
  | ask
deriving DecidableEq, Repr

def UnsupportedForm.text : UnsupportedForm → String
  | .selectFromDataset => "a SELECT query with a dataset clause"
  | .construct => "a CONSTRUCT query"
  | .describe => "a DESCRIBE query"
  | .ask => "an ASK query"

inductive QueryError where
  | parsing
  | unsupportedForm (form : UnsupportedForm)
  | compile (error : CompileError)
  | build (error : Topology.BuildError)
deriving DecidableEq, Repr

def QueryError.message : QueryError → String
  | .parsing => "The query is malformed"
  | .unsupportedForm form =>
    "Only SELECT queries without a dataset clause can be evaluated over a stream, found " ++
      form.text
  | .compile error => error.message
  | .build error => error.message

def Sparql.Query.streamed : Sparql.Query → Except UnsupportedForm GraphPattern
  | .select pattern hasDataset => if hasDataset then .error .selectFromDataset else .ok pattern
  | .construct => .error .construct
  | .describe => .error .describe
  | .ask => .error .ask

structure QueryPlan where
  /-- The names of the results in the order in which they are selected. -/
  columns : List String
  tree : Tree
  compiled : CompiledQuery

namespace QueryPlan

def ofGraphPattern {σ : Type} (source : IdSource σ) (state : σ) (pattern : GraphPattern) :
    Except CompileError QueryPlan := do
  let tree := Tree.ofGraphPattern pattern
  let compiled ← tree.compile source state
  return ⟨tree.columns, tree, compiled⟩

def ofText {σ : Type} (source : IdSource σ) (state : σ) (text : String) :
    Except QueryError QueryPlan :=
  match Sparql.Query.parse? text with
  | none => .error .parsing
  | some query =>
    match query.streamed with
    | .error form => .error (.unsupportedForm form)
    | .ok pattern => (ofGraphPattern source state pattern).mapError .compile

def assemble (plan : QueryPlan) (statementTopic resultTopic : String) :
    Except QueryError Topology :=
  (plan.compiled.assemble statementTopic resultTopic).mapError .build

end QueryPlan

end ContinuousQuery
