/-! The life of a flow graph: it is built, its fields are collected, facts are propagated, and it is cleared. -/

namespace SinkFlow

/-- A stage in the life of a flow graph; the stages follow each other in this order. -/
inductive Phase where
  | empty
  | building
  | fieldsCollected
  | propagated
  | cleared
  deriving DecidableEq, Inhabited

/-- The name of a stage. -/
def Phase.name : Phase → String
  | empty => "Empty"
  | building => "Building"
  | fieldsCollected => "FieldsCollected"
  | propagated => "Propagated"
  | cleared => "Cleared"

end SinkFlow
