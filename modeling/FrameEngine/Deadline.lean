import FrameEngine.EngineError
import FrameEngine.Span

/-!
# FrameEngine.Deadline

Work under a deadline.
-/

namespace FrameEngine
namespace Deadline

/-- The result of work that takes the span `after` when `limit` is allowed. Work that ends exactly
at the limit is in time. -/
def within {α : Type} (after limit : Span) (result : Except EngineError α)
    (onElapsed : EngineError) : Except EngineError α :=
  if after ≤ limit then result else .error onElapsed

end Deadline
end FrameEngine
