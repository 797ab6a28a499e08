import DsfMmu.Api
import DsfMmu.ContextSpecs
import Mathlib.Logic.Relation

namespace DsfMmu

/-- The part of the runtime that decides which block an entry names, and how often. -/
structure Routing where
  allocator : BlockManager
  contexts : KeyedMap CtxHandle Context

namespace MmuRuntime

def routing (mmu : MmuRuntime) : Routing := ⟨mmu.l1Allocator, mmu.contexts⟩

/-- Another routing over the same storage. -/
def withRouting (mmu : MmuRuntime) (r : Routing) : MmuRuntime :=
  { mmu with l1Allocator := r.allocator, contexts := r.contexts }

end MmuRuntime

/-- What is worth telling of a step: a table grew to some length, an allocation ran out of blocks after
so many, or a fork was refused memory right after it had retained a block. -/
inductive Event
  | plain
  | tableGrown (length : Nat)
  | blocksExhausted (taken : Nat)
  | appendRefused
  deriving DecidableEq

namespace Routing

open BlockManager Context

/-- All that the calls of the API do to the allocator and the page tables. -/
inductive Step (r : Routing) : Event → Routing → Prop
  | created {ctx : CtxHandle} {c : Context} (fresh : ctx ≠ nullHandle ∧ r.contexts.find? ctx = none)
      (empty : c.pageTable = .empty) : Step r .plain ⟨r.allocator, r.contexts.insert ctx c⟩
  | destroyed {ctx : CtxHandle} {c : Context} (found : r.contexts.find? ctx = some c) :
      Step r .plain ⟨r.allocator.releaseAll (namedBlocks c.pageTable), r.contexts.erase ctx⟩
  | forked {src ctx : CtxHandle} {c : Context} (found : r.contexts.find? src = some c)
      (fresh : ctx ≠ nullHandle ∧ r.contexts.find? ctx = none) :
      Step r .plain ⟨r.allocator.retainAll (namedBlocks c.pageTable), r.contexts.insert ctx c⟩
  | leaked {src : CtxHandle} {c : Context} {b : Int} (found : r.contexts.find? src = some c)
      (named : b ∈ namedBlocks c.pageTable) (live : 0 < r.allocator.refCounts.entry b) :
      Step r .appendRefused ⟨(r.allocator.retain b).2, r.contexts⟩
  | allocated {ctx : CtxHandle} {c : Context} {ids : List Int} {bm : BlockManager}
      (found : r.contexts.find? ctx = some c) (taken : Taken r.allocator ids bm) :
      Step r (.tableGrown (c.pageTable.entries.length + ids.length)) ⟨bm, r.contexts.insert ctx (c.grown ids)⟩
  | exhausted {ctx : CtxHandle} {c : Context} {ids : List Int} {bm : BlockManager}
      (found : r.contexts.find? ctx = some c) (taken : Taken r.allocator ids bm) :
      Step r (.blocksExhausted ids.length) ⟨bm.releaseAll ids, r.contexts.insert ctx (c.grown ids)⟩
  | released {ctx : CtxHandle} {c : Context} {lvid b : Int} (found : r.contexts.find? ctx = some c)
      (names : c.Names r.allocator lvid b) :
      Step r .plain ⟨(r.allocator.release b).2, r.contexts.insert ctx (c.remapped lvid kUnallocatedBlock)⟩
  | remapped {ctx : CtxHandle} {c : Context} {lvid b new : Int} {bm : BlockManager}
      (found : r.contexts.find? ctx = some c) (names : c.Names r.allocator lvid b)
      (shared : 1 < r.allocator.refCounts.entry b) (taken : Taken r.allocator [new] bm) :
      Step r .plain ⟨(bm.release b).2, r.contexts.insert ctx (c.remapped lvid new)⟩

/-- Steps one after the other, each with an event that is allowed. -/
def Run (allowed : Event → Prop) : Routing → Routing → Prop :=
  Relation.ReflTransGen (fun r r' => ∃ m, allowed m ∧ r.Step m r')

theorem Run.single {allowed : Event → Prop} {r r' : Routing} {m : Event} (hm : allowed m)
    (h : r.Step m r') : Run allowed r r' := Relation.ReflTransGen.single ⟨m, hm, h⟩

/-- An invariant of the allowed steps holds along a run. -/
theorem Run.invariant {allowed : Event → Prop} {I : Routing → Prop} {r r' : Routing}
    (h : Run allowed r r') (start : I r) (keeps : ∀ a m b, I a → allowed m → a.Step m b → I b) : I r' := by
  induction h with
  | refl => exact start
  | tail _ hstep ih =>
    obtain ⟨m, hm, hs⟩ := hstep
    exact keeps _ m _ ih hm hs

/-- The allocator is sound and no context lives at the null address. -/
structure Ok (r : Routing) : Prop where
  allocator : r.allocator.Ok
  handles : r.contexts.find? nullHandle = none

theorem find?_insert_null {contexts : KeyedMap CtxHandle Context} {ctx : CtxHandle} {c : Context}
    (h : contexts.find? nullHandle = none) (hne : ctx ≠ nullHandle) :
    (contexts.insert ctx c).find? nullHandle = none := by
  rw [KeyedMap.find?_insert, if_neg hne.symm]
  exact h

theorem Ok.ne_null {r : Routing} {ctx : CtxHandle} {c : Context} (h : r.Ok)
    (hc : r.contexts.find? ctx = some c) : ctx ≠ nullHandle := by
  intro heq
  subst heq
  rw [h.handles] at hc
  cases hc

theorem Ok.step {r r' : Routing} {m : Event} (h : r.Ok) (hs : r.Step m r') : r'.Ok := by
  cases hs with
  | created fresh _ => exact ⟨h.allocator, find?_insert_null h.handles fresh.1⟩
  | destroyed found =>
    refine ⟨h.allocator.releaseAll _, ?_⟩
    show (r.contexts.erase _).find? nullHandle = none
    rw [KeyedMap.find?_erase, if_neg (h.ne_null found).symm]
    exact h.handles
  | forked _ fresh => exact ⟨h.allocator.retainAll _, find?_insert_null h.handles fresh.1⟩
  | leaked _ _ _ => exact ⟨h.allocator.retain _, h.handles⟩
  | allocated found taken => exact ⟨taken.ok, find?_insert_null h.handles (h.ne_null found)⟩
  | exhausted found taken =>
    exact ⟨taken.ok.releaseAll _, find?_insert_null h.handles (h.ne_null found)⟩
  | released found _ => exact ⟨h.allocator.release _, find?_insert_null h.handles (h.ne_null found)⟩
  | remapped found _ _ taken => exact ⟨taken.ok.release _, find?_insert_null h.handles (h.ne_null found)⟩

/-- How many entries name a block, over all live contexts. -/
def names (r : Routing) (p : Int) : Nat := r.contexts.total (fun c => c.pageTable.names p)

theorem names_insert {contexts : KeyedMap CtxHandle Context} {ctx : CtxHandle} {c : Context} (c' : Context)
    (a b : BlockManager) (p : Int) (hc : contexts.find? ctx = some c) :
    names ⟨a, contexts.insert ctx c'⟩ p + c.pageTable.names p =
      names ⟨b, contexts⟩ p + c'.pageTable.names p :=
  KeyedMap.total_replace c' _ hc

theorem names_insert_fresh {contexts : KeyedMap CtxHandle Context} {ctx : CtxHandle} {c : Context}
    (a b : BlockManager) (p : Int) (hc : contexts.find? ctx = none) :
    names ⟨a, contexts.insert ctx c⟩ p = names ⟨b, contexts⟩ p + c.pageTable.names p :=
  KeyedMap.total_insert_fresh c _ hc

theorem names_erase {contexts : KeyedMap CtxHandle Context} {ctx : CtxHandle} {c : Context}
    (a b : BlockManager) (p : Int) (hc : contexts.find? ctx = some c) :
    names ⟨b, contexts⟩ p = names ⟨a, contexts.erase ctx⟩ p + c.pageTable.names p :=
  KeyedMap.total_erase _ hc

end Routing

end DsfMmu
