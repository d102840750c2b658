import Ledger.Services.Requests

/-! # The Lifespan of the Application

    What runs beside the requests: the sweep of `services/idempotency_sweeper.py`,
    started by `api/lifespan.py`.
-/

namespace Ledger

open ReadCommitted

/-- The application settings, as far as the sweep is concerned. -/
structure Settings where
  /-- The maximum in-flight window of a request. -/
  idempotencyMinAgeMinutes : Int := 15

/-- A running `run_forever`. -/
structure Sweeper where
  minAge : Time

/-- Sweep on a fixed interval until cancelled. -/
def runForever (minAge : Time := DEFAULT_MIN_AGE) : Sweeper := { minAge }

/-- One turn of the loop: a pass, in a session of its own.  A pass that raises
    is logged, and the next one comes all the same. -/
def Sweeper.pass (task : Sweeper) : Request := .sweep task.minAge

/-- What startup leaves running. -/
def lifespan (_settings : Settings) : Sweeper := runForever

end Ledger
