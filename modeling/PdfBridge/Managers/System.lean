import Mathlib.Logic.Function.Basic
import PdfBridge.Managers.Document
import PdfBridge.Managers.WorkerProgram

/-! The whole system: the catalog, the Qdrant points, the storage root and the two execution
slots of the worker, moved by operator requests and by single worker steps in any order. -/
namespace PdfBridge
open Worker Api

inductive Slot where
  | first | second
deriving DecidableEq

/-- A claimed operation with the rest of its program. -/
structure Thread where
  claimed : ClaimedOperation
  program : Prog Unit

structure World where
  shared : Shared
  slots : Slot → Option Thread

inductive Event where
  | upload (x : PreparedAdmission) (committed : Bool)
  | decide (x : DecisionRequest)
  | retry (documentId : Uuid) (actorId : Text 255)
  | delete (documentId : Uuid) (actorId : Text 255)
  | claim (slot : Slot)
  | work (slot : Slot) (input : Input)
  | recoverLeases
  | renewLeases
  | wait (ticks : ℕ)
  | restart

/-- Time that passes besides the step itself. -/
def Event.ticks : Event → ℕ
  | .wait n => n
  | _ => 0

/-- The clock reads differently after every step. -/
def Worker.Shared.tick (σ : Shared) (n : ℕ) : Shared := {σ with now := σ.now + n + 1}

namespace World

def initial : World where
  shared := ⟨0,.empty,.empty,.empty,⟨uuid4 0 0,[],[]⟩⟩
  slots := fun _ => none

def setSlot (w : World) (slot : Slot) (t : Option Thread) : World :=
  {w with slots := Function.update w.slots slot t}

/-- A slot is free once its program has returned. -/
def resume (claimed : ClaimedOperation) : Prog Unit → Option Thread
  | .call r k => some ⟨claimed,.call r k⟩
  | _ => none

/-- Replace the catalog by the result of an accepted mutation. -/
def commit (w : World) (x : Outcome Catalog) : Option World :=
  match x with
  | .ok c => some {w with shared := {w.shared with catalog := c}}
  | .error _ => none

/-- Promote the source object, and commit unless the process stops before. -/
def upload (s : Settings) (w : World) (x : PreparedAdmission) (committed : Bool) :
    Option World :=
  match runMutation (registerAdmission s w.shared.now x w.shared.catalog) with
  | .error _ => none
  | .ok c =>
      let storage := w.shared.storage.write (sourceFile w.shared.now x)
      some {w with shared := {w.shared with
        storage := storage, catalog := if committed then c else w.shared.catalog}}

/-- An idle slot claims the next operation and will run its program. -/
def claim (s : Settings) (enc : Encoding) (w : World) (slot : Slot) : Option World :=
  match w.slots slot with
  | some _ => none
  | none =>
      match claimNext s w.shared.now w.shared.process w.shared.catalog with
      | .ok (some claimed,p,c) => some
          ({w with shared := {w.shared with catalog := c, process := p}}.setSlot slot
            (resume claimed (slotTurn s enc claimed)))
      | _ => none

/-- The next request of a slot, its answer, and the states after it. -/
structure WorkResult where
  request : Request
  answer : Except ServiceError request.Response
  world : World

/-- One request of the thread of a slot. -/
def workStep (s : Settings) (enc : Encoding) (w : World) (slot : Slot) (i : Input) :
    Option WorkResult :=
  match w.slots slot with
  | some ⟨claimed,.call r k⟩ =>
      (exec s enc claimed.ref i w.shared r).map fun x =>
        ⟨r,x.1,{w with shared := x.2}.setSlot slot (resume claimed (k x.1))⟩
  | _ => none

def work (s : Settings) (enc : Encoding) (w : World) (slot : Slot) (i : Input) :
    Option World := (workStep s enc w slot i).map (·.world)

/-- A new worker process starts without threads; the durable rows stay. -/
def restart (w : World) : World where
  shared := {w.shared with process := ⟨uuid4 w.shared.now 0,[],[]⟩}
  slots := fun _ => none

def mapCatalog (w : World) (f : Catalog → Catalog) : World :=
  {w with shared := {w.shared with catalog := f w.shared.catalog}}

/-- The effect of an event, before the clock moves on. -/
def apply (s : Settings) (enc : Encoding) (w : World) : Event → Option World
  | .upload x committed => w.upload s x committed
  | .decide x => w.commit (runMutation (decideDocument s w.shared.now x w.shared.catalog))
  | .retry id actor =>
      w.commit (runMutation (retryDocument w.shared.now id actor w.shared.catalog))
  | .delete id actor =>
      w.commit (runMutation (deleteDocument s w.shared.now id actor w.shared.catalog))
  | .claim slot => w.claim s enc slot
  | .work slot i => w.work s enc slot i
  | .recoverLeases => some (w.mapCatalog (Worker.recoverLeases w.shared.now))
  | .renewLeases => some (w.mapCatalog (Worker.renewLeases s w.shared.now w.shared.process))
  | .wait _ => some w
  | .restart => some w.restart

def step (s : Settings) (enc : Encoding) (w : World) (e : Event) : Option World :=
  (w.apply s enc e).map fun w' => {w' with shared := w'.shared.tick e.ticks}

def run (s : Settings) (enc : Encoding) : World → List Event → Option World
  | w, [] => some w
  | w, e :: es => (w.step s enc e).bind fun w' => run s enc w' es

end World
end PdfBridge
