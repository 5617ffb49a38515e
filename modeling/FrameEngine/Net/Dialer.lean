import FrameEngine.EngineError
import FrameEngine.Settings.Basic

/-!
# FrameEngine.Net.Dialer

How often, and when, a client dials before it gives up. Refusals and attempts that take too long
are tried again after growing delays; all other failures are final at once.
-/

namespace FrameEngine

inductive Attempt where
  | connected
  /-- No answer in time. -/
  | timedOut
  | failed (f : IoFailure)
  deriving DecidableEq

inductive DialVerdict where
  | connected
  /-- Dial again after a delay; and how often this has been done, and why. -/
  | again (delay : Span) (attempts : Nat) (why : IoFailure)
  | gaveUp (e : EngineError)
  deriving DecidableEq

structure Dialer where
  backoff : Backoff
  deriving DecidableEq

namespace Dialer

/-- Before the first attempt. The delays grow up to the longest one for retries on connections, or
stay as they are if they are longer than that. -/
def new (client : ClientSettings) (connection : ConnectionSettings) : Dialer :=
  ⟨.new client.retryDelay (max connection.retry.maxDelay client.retryDelay) client.maxRetries
    (.zero false)⟩

/-- The failure of an attempt that may be tried again, or the error of one that may not. -/
def failure? : Attempt → Except EngineError (Option IoFailure)
  | .connected => .ok none
  | .timedOut => .ok (some (.ofKind .timedOut))
  | .failed f => if f.kind.isDialRetryable then .ok (some f) else .error (.io f)

/-- The error after the last attempt. Where there is one attempt only, its failure is the error. -/
def exhausted (b : Backoff) (f : IoFailure) : EngineError :=
  if b.maxRetries = 0 then
    if f.kind = .timedOut then .connectTimeout else .io f
  else .retriesExhausted b.attempts f

/-- What is done after an attempt, and where the series stands then. -/
def judge (d : Dialer) (a : Attempt) : DialVerdict × Dialer :=
  match failure? a with
  | .ok none => (.connected, d)
  | .error e => (.gaveUp e, d)
  | .ok (some f) =>
    match d.backoff.next? with
    | some (delay, backoff) => (.again delay backoff.attempts f, ⟨backoff⟩)
    | none => (.gaveUp (exhausted d.backoff f), d)

/-- The delays and the result of a series of attempts; no result where they are too few. -/
def run (d : Dialer) : List Attempt → List Span × Option (Except EngineError Unit)
  | [] => ([], none)
  | a :: rest =>
    match d.judge a with
    | (.connected, _) => ([], some (.ok ()))
    | (.gaveUp e, _) => ([], some (.error e))
    | (.again delay _ _, d) =>
      let (delays, result) := run d rest
      (delay :: delays, result)

end Dialer
end FrameEngine
