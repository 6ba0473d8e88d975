import PdfBridge.Managers.Idempotency
import PdfBridge.Managers.System

/-! The running service: requests that have been received wait for the transition lock, uploads
among them after they were streamed and scanned, while the worker goes on. -/
namespace PdfBridge
open Idempotency

structure Server (s : Settings) where
  world : World
  records : Table IdempotencyRow.key
  waiting : List (Request s)

namespace Server

/-- The steps of the worker and of time; an operator acts through requests. -/
def internal : Event → Bool
  | .upload _ _ | .decide _ | .retry _ _ | .delete _ _ => false
  | _ => true

inductive Event (s : Settings) where
  /-- A request arrives; its upload is streamed and scanned. -/
  | receive (r : Request s)
  /-- A waiting request takes the lock and is served; `fault` says which of its statements raise. -/
  | serve (r : Request s) (fault : ℕ → Option Fault)
  /-- The process stops while an upload is served: its bytes are promoted, its rows are not there. -/
  | crash (x : Api.PreparedAdmission)
  | system (e : PdfBridge.Event)

variable {s : Settings}

def initial : Server s := ⟨World.initial,∅,[]⟩

def service (σ : Server s) : Service :=
  ⟨⟨σ.world.shared.catalog,σ.records⟩,σ.world.shared.storage⟩

/-- The durable state after a request. -/
def serve (canonical : Canonical) (σ : Server s) (r : Request s) (fault : ℕ → Option Fault) :
    Server s :=
  let v := (σ.service.serve canonical ⟨σ.world.shared.now,fault⟩ r).2
  { world := {σ.world with shared := {σ.world.shared with
      catalog := v.rows.catalog, storage := v.storage}.tick 0}
    records := v.rows.records
    waiting := σ.waiting }

/-- Requests do not outlive their process. -/
def remaining (waiting : List (Request s)) : PdfBridge.Event → List (Request s)
  | .restart => []
  | _ => waiting

inductive Step (enc : Encoding) (canonical : Canonical) (σ : Server s) :
    Event s → Server s → Prop where
  | receive (r : Request s) : Step enc canonical σ (.receive r) {σ with waiting := r :: σ.waiting}
  | serve {r : Request s} {before after : List (Request s)}
      (h : σ.waiting = before ++ r :: after) (fault : ℕ → Option Fault) :
      Step enc canonical σ (.serve r fault)
        {σ.serve canonical r fault with waiting := before ++ after}
  | crash {x : Api.PreparedAdmission} {w w' : World}
      (h : σ.world.step s enc (.upload x false) = some w)
      (hrestart : w.step s enc .restart = some w') :
      Step enc canonical σ (.crash x) ⟨w',σ.records,[]⟩
  | system {e : PdfBridge.Event} (he : internal e = true) {w : World}
      (h : σ.world.step s enc e = some w) :
      Step enc canonical σ (.system e) ⟨w,σ.records,remaining σ.waiting e⟩

inductive Reachable (enc : Encoding) (canonical : Canonical) : Server s → Prop where
  | initial : Reachable enc canonical initial
  | step {σ σ' : Server s} {e : Event s} (h : Reachable enc canonical σ)
      (hstep : Step enc canonical σ e σ') : Reachable enc canonical σ'

end Server
end PdfBridge
