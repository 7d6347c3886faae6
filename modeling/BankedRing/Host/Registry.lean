import BankedRing.Host.Controller

/-! Controllers shared by handle. Vectors and polynomials reach their controller through
its lock; a client that dies while holding the lock poisons it for good, and every
later locked step is refused without effect. The owner's direct steps go on. Any step
that traps has died with the lock in its hands. -/
namespace BankedRing

/-- The position of a controller in the registry; it never changes. -/
abbrev Handle := Nat

structure SharedController where
  controller : Controller
  poisoned : Bool
  deriving DecidableEq

abbrev Registry := List SharedController

namespace Registry

abbrev Step := EStateM Error Registry

def add (registry : Registry) (controller : Controller) : Handle × Registry :=
  (registry.length, registry ++ [⟨controller, false⟩])

def controller? (registry : Registry) (handle : Handle) : Option Controller :=
  (registry[handle]?).map (·.controller)

def poison (registry : Registry) (handle : Handle) : Registry :=
  registry.modify handle fun shared => { shared with poisoned := true }

/-- A step of the owner, whatever the state of the lock. -/
def direct {α : Type} (handle : Handle) (step : Controller.Step α) : Step α := fun registry =>
  match registry[handle]? with
  | none => .error (.trapped .outOfRange) registry
  | some shared =>
    let put := fun controller trapped =>
      registry.set handle ⟨controller, shared.poisoned || trapped⟩
    match step shared.controller with
    | .ok value controller => .ok value (put controller false)
    | .error e controller => .error e (put controller e.isTrap)

/-- A step behind the lock. -/
def locked {α : Type} (handle : Handle) (step : Controller.Step α) : Step α := fun registry =>
  match registry[handle]? with
  | some ⟨_, true⟩ => .error .poisoned registry
  | _ => direct handle step registry

end Registry
end BankedRing
