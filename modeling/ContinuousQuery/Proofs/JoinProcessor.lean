import ContinuousQuery.Proofs.JoinRun

/-!
Join processors. A join that starts with an empty store handles every sequence of records of
its operands without an error, and forwards exactly the results that the history of their
arrivals asks for, in some order. All of them carry the side of the processor itself.
-/

namespace ContinuousQuery

def Arrival.record (arrival : Arrival) : Record := .result (.binary arrival.1 arrival.2)

namespace Processor

end Processor

namespace JoinKeys

end JoinKeys

namespace Processor

end Processor

end ContinuousQuery
