import Aether.ServiceContents

/-!
Who owns a page. While the free list is kept, no page is handed out that a client
still owns.
-/
namespace Aether.ServiceOwnership
open Aether.Types Aether.DiskManager Aether.FreeList Aether.Replacers Aether.BufferPool Aether.PoolContents
open Aether.StorageService Aether.Runs Aether.ServiceSteps Aether.ServiceContents

/-- The moves that keep the free list. -/
def KeepsFreeList (s : Service) : Move → Prop
  | .advance client => ∀ h, s.clients[client]? = some h → Keeps s.pool h
  | _ => True

section
variable {s₀ s s' : Service} {l : List PageId} {n i : Nat} {p : PageId}

theorem runs_inOrder (opened : Opened n s₀ l) (runs : Runs Service.next KeepsFreeList s₀ s) : ∃ l', InOrder s l' := by
  refine runs.invariant (fun s => ∃ l', InOrder s l') ⟨l,opened.inOrder⟩ ?_
  rintro s m s' ⟨l',inOrder⟩ fine moved
  exact next_inOrder inOrder (fun i h same here => by subst same; exact fine h here) moved

end

/-- The moves of a client that asks for a page and waits for the answer. -/
def allocates : List Move := [.receive 0 .allocatePage,.advance 0,.advance 0,.answer 0]

/-- The moves of a client that gives a page back. -/
def deallocates (p : PageId) : List Move := [.receive 0 (.deallocatePage p),.advance 0,.answer 0]

/-- A client that deallocates its page twice and asks for two pages. -/
def twice : Option Service :=
  follow Service.next (fun _ _ => True) (.start (.create 2 .create (.lru (.create 2))))
    ([.connect] ++ allocates ++ deallocates 1 ++ deallocates 1 ++ allocates ++ [.receive 0 .allocatePage])

end Aether.ServiceOwnership
