import PdfBridge.Managers.System

/-! Several worker instances over one catalog. Each instance has its own identity, busy documents
and execution slots; the catalog, the Qdrant points, the storage root and the clock are shared. -/
namespace PdfBridge
open Worker

structure Fleet (ι : Type) where
  now : Time
  catalog : Catalog
  qdrant : Qdrant
  storage : Storage
  process : ι → Process
  slots : ι → Slot → Option Thread

namespace Fleet
variable {ι : Type}

/-- The instances before their first step, with their worker ids. -/
def initial (workerId : ι → Uuid) : Fleet ι where
  now := 0
  catalog := .empty
  qdrant := .empty
  storage := .empty
  process := fun i => ⟨workerId i,[],[]⟩
  slots := fun _ _ => none

/-- The system as one instance sees it. -/
def view (f : Fleet ι) (i : ι) : World :=
  ⟨⟨f.now,f.catalog,f.qdrant,f.storage,f.process i⟩,f.slots i⟩

variable [DecidableEq ι]

/-- The fleet after one instance has moved to another view. -/
def put (f : Fleet ι) (i : ι) (w : World) : Fleet ι where
  now := w.shared.now
  catalog := w.shared.catalog
  qdrant := w.shared.qdrant
  storage := w.shared.storage
  process := Function.update f.process i w.shared.process
  slots := Function.update f.slots i w.slots

/-- One event at one instance. A restarted worker process is another instance with an id of its
own, so that `restart` is not an event of the fleet; a stopped one has no further events. -/
def step (s : Settings) (enc : Encoding) (f : Fleet ι) (i : ι) : Event → Option (Fleet ι)
  | .restart => none
  | e => ((f.view i).step s enc e).map (f.put i)

def run (s : Settings) (enc : Encoding) : Fleet ι → List (ι × Event) → Option (Fleet ι)
  | f, [] => some f
  | f, (i,e) :: es => (f.step s enc i e).bind fun f' => run s enc f' es

end Fleet
end PdfBridge
