/-!
# Configuration
-/

namespace QueryLineage

/-- What a run takes from the text beyond the graph itself: the comments, unless they are taken out
before the query is read, and the texts that tables were read from. -/
structure Config where
  stripComments : Bool := false
  captureSource : Bool := true
  deriving DecidableEq, Repr

def Config.withoutComments : Config := { stripComments := true }

def Config.graphOnly : Config := { stripComments := true, captureSource := false }

end QueryLineage
