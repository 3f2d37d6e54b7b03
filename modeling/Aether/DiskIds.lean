import Aether.DiskCrash

/-!
The ids of pages. The counter of pages only grows, and ids are taken from below
it: an id that has been handed out stays one of a page that can be read and
written. This lasts as long as the counter does not reach its largest value,
which is also the id that stands for no page, with no free page left.
-/
namespace Aether.DiskIds
open Aether.Bytes Aether.Types Aether.DiskManager Aether.FreeList Aether.DiskStore Aether.Runs

/-- The manager, and the ids that `AllocatePage` has returned. -/
structure World where
  disk : DiskManager
  returned : List PageId

namespace World

/-- A new file. -/
def create : World := { disk := DiskManager.create, returned := [] }

/-- What is returned is noted; a call that throws changes nothing. -/
def next (w : World) (call : Call) : Option World :=
  match perform w.disk call with
  | .ok (.pageId p,disk) => some { disk, returned := p :: w.returned }
  | .ok (_,disk) => some { w with disk }
  | .error _ => some w

/-- No page is freed twice, no free page is written, and a file that is reopened has
    its metadata. -/
def Careful (w : World) : Call → Prop
  | .deallocatePage p => ¬ OnFreeList w.disk p
  | .writePage p _ => ¬ OnFreeList w.disk p
  | .reopen => Header w.disk
  | _ => True

/-- The counter can count one more page where the call adds one. -/
def Room (w : World) : Call → Prop
  | .allocatePage => w.disk.freeListHead = INVALID_PAGE_ID → w.disk.numPages ≠ 0xFFFFFFFF
  | _ => True

/-- Every id returned is one of a page that is neither the metadata nor no page, and
    that can be read, written and then read. -/
def Usable (w : World) : Prop :=
  ∀ p ∈ w.returned, p ≠ 0 ∧ p ≠ INVALID_PAGE_ID ∧ p < w.disk.numPages ∧ (∃ data, w.disk.readPage p = .ok data) ∧
    ∀ data, ∃ disk, w.disk.writePage p data = .ok disk ∧ disk.readPage p = .ok data

end World

/-- A careful call that the counter has room for. -/
def Allowed (w : World) (call : Call) : Prop := w.Careful call ∧ w.Room call

/-! ### What a call keeps -/

/-- The free list is sound, and every id returned is in the file. -/
structure Below (w : World) (l : List PageId) : Prop where
  free : FreeList w.disk l
  inside : ∀ p ∈ w.returned, p ≠ 0 ∧ p < w.disk.numPages

section
variable {w w' : World} {call : Call} {l : List PageId} {d d' : DiskManager} {p : PageId} {data : PageData}

theorem create_below : Below World.create [] := ⟨create_freeList,by simp [World.create]⟩

/-- A page below the counter can be read, written and then read. -/
theorem readPage_below (low : p < d.numPages) : ∃ data, d.readPage p = .ok data := by
  rw [DiskManager.readPage,if_neg (UInt32.not_le.mpr low)]
  exact ⟨_,rfl⟩

theorem readPage_written (low : p < d.numPages) :
    DiskManager.readPage { d with dbIo := d.dbIo.write p data } p = .ok data := by
  have long : p.toNat < (d.dbIo.write p data).length := by
    simp only [DbFile.write]
    omega
  rw [DiskManager.readPage,if_neg (UInt32.not_le.mpr low),DbFile.read,if_pos long]
  simp [DbFile.write]

theorem Below.usable (below : Below w l) : w.Usable := by
  intro p member
  obtain ⟨other,low⟩ := below.inside p member
  exact ⟨other,lt_invalid low,low,readPage_below low,fun data => ⟨_,writePage_ok low,readPage_written low⟩⟩

/-- Where the counter has room, allocation keeps all ids below it. -/
theorem allocate_below (below : Below w l) (room : w.Room .allocatePage) :
    ∃ w' l', w.next .allocatePage = some w' ∧ Below w' l' ∧ w.disk.numPages ≤ w'.disk.numPages := by
  have space : l = [] → w.disk.numPages ≠ INVALID_PAGE_ID := by
    intro none
    exact room ((chain_nil_iff below.free.chain).mp none)
  obtain ⟨p,d',l',allocated,spec⟩ := allocatePage_spec below.free space
  have grows : ∀ q, q < w.disk.numPages → q < d'.numPages := by
    intro q low
    rcases spec.source with ⟨_,count⟩ | ⟨none,_,_,count⟩
    · rwa [count]
    · rw [count,lt_succ_iff (space none)]
      exact .inl low
  have ids : ∀ q ∈ p :: w.returned, q ≠ 0 ∧ q < d'.numPages := by
    intro q member
    rcases List.mem_cons.mp member with rfl | before
    · exact ⟨spec.other,spec.inside⟩
    · exact ⟨(below.inside q before).1,grows q (below.inside q before).2⟩
  refine ⟨{ disk := d', returned := p :: w.returned },l',?_,⟨spec.free,ids⟩,?_⟩
  · rw [World.next,perform,allocated]
    rfl
  · refine UInt32.not_lt.mp (fun less => ?_)
    exact UInt32.lt_irrefl _ (grows _ less)

/-- The step lemma: a careful call that the counter has room for keeps all ids below it. -/
theorem next_below (below : Below w l) (careful : w.Careful call) (room : w.Room call) :
    ∃ w' l', w.next call = some w' ∧ Below w' l' ∧ w.disk.numPages ≤ w'.disk.numPages := by
  cases call with
  | allocatePage => exact allocate_below below room
  | deallocatePage p =>
    by_cases outside : p = 0 ∨ w.disk.numPages ≤ p
    · refine ⟨w,l,?_,below,UInt32.le_refl _⟩
      rw [World.next,perform,deallocatePage_outside outside]
    · obtain ⟨nonzero,low⟩ := not_or.mp outside
      have notFree : p ∉ l := fun member => careful ((onFreeList_iff below.free).mpr member)
      obtain ⟨free,count,_⟩ := deallocatePage_spec below.free (pos_of_ne nonzero) (UInt32.not_le.mp low) notFree
      refine ⟨{ w with disk := w.disk.deallocatePage p },p :: l,rfl,⟨free,?_⟩,?_⟩
      · intro q member
        show q ≠ 0 ∧ q < (w.disk.deallocatePage p).numPages
        rw [count]
        exact below.inside q member
      · exact UInt32.le_of_eq count.symm
  | writePage p data =>
    by_cases low : p < w.disk.numPages
    · have notFree : p ∉ l := fun member => careful ((onFreeList_iff below.free).mpr member)
      refine ⟨{ w with disk := { w.disk with dbIo := w.disk.dbIo.write p data } },l,?_,
        ⟨writePage_spec below.free low notFree data,below.inside⟩,UInt32.le_refl _⟩
      rw [World.next,perform,writePage_ok low]
      rfl
    · refine ⟨w,l,?_,below,UInt32.le_refl _⟩
      rw [World.next,perform,DiskManager.writePage,if_pos (UInt32.not_lt.mp low)]
      rfl
  | readPage p =>
    refine ⟨w,l,?_,below,UInt32.le_refl _⟩
    rw [World.next,perform]
    cases w.disk.readPage p with
    | ok data => rfl
    | error e => rfl
  | reopen =>
    have stored : 0 < w.disk.dbIo.length := by
      rw [below.free.length]
      exact lt_toNat.mp below.free.positive
    refine ⟨w,l,?_,below,UInt32.le_refl _⟩
    rw [World.next,perform,reopen_same careful stored]
    rfl

/-- Without room, the id that stands for no page is returned and the counter is 0. -/
theorem next_wraps (full : ¬ w.Room call) (moved : w.next call = some w') :
    INVALID_PAGE_ID ∈ w'.returned ∧ w'.disk.numPages = 0 ∧ w.disk.numPages = INVALID_PAGE_ID := by
  cases call with
  | allocatePage =>
    obtain ⟨none,last⟩ := Classical.not_imp.mp full
    have last : w.disk.numPages = INVALID_PAGE_ID := not_not.mp last
    obtain ⟨d',done,_,count,_⟩ := DiskCrash.perform_grow none
    rw [World.next,done] at moved
    cases moved
    refine ⟨?_,?_,last⟩
    · rw [last]
      exact List.mem_cons_self
    · show d'.numPages = 0
      rw [count,last]
      rfl
  | deallocatePage p => exact absurd trivial full
  | writePage p data => exact absurd trivial full
  | readPage p => exact absurd trivial full
  | reopen => exact absurd trivial full

/-! ### Runs -/

/-- The run lemma. -/
theorem runs_below (runs : Runs World.next Allowed w w') (below : Below w l) :
    ∃ l', Below w' l' ∧ w.disk.numPages ≤ w'.disk.numPages := by
  induction runs with
  | refl => exact ⟨l,below,UInt32.le_refl _⟩
  | step _ allowed moved ih =>
    obtain ⟨l₁,below₁,le₁⟩ := ih
    obtain ⟨w₂,l₂,step,below₂,le₂⟩ := next_below below₁ allowed.1 allowed.2
    obtain rfl := Option.some.inj (moved.symm.trans step)
    exact ⟨l₂,below₂,UInt32.le_trans le₁ le₂⟩

/-- As long as the counter has room, it never decreases, also from any point of a run
    to a later one, and every id that has been returned can be used. A careful call
    keeps it so exactly when the counter has room for it. -/
theorem ids_do_not_wrap (runs : Runs World.next Allowed World.create w) (later : Runs World.next Allowed w w') :
    w'.Usable ∧ w.disk.numPages ≤ w'.disk.numPages ∧
      ∀ call, w'.Careful call → ∃ w'', w'.next call = some w'' ∧ (w''.Usable ∧ w'.disk.numPages ≤ w''.disk.numPages ↔ w'.Room call) := by
  obtain ⟨l,below,_⟩ := runs_below runs create_below
  obtain ⟨l',below',le⟩ := runs_below later below
  refine ⟨below'.usable,le,fun call careful => ?_⟩
  by_cases room : w'.Room call
  · obtain ⟨w'',l'',step,below'',le'⟩ := next_below below' careful room
    exact ⟨w'',step,fun _ => room,fun _ => ⟨below''.usable,le'⟩⟩
  · obtain ⟨w'',step⟩ : ∃ w'', w'.next call = some w'' := by
      rw [World.next]
      split <;> exact ⟨_,rfl⟩
    obtain ⟨invalid,_⟩ := next_wraps room step
    refine ⟨w'',step,?_,fun fits => absurd fits room⟩
    rintro ⟨usable,_⟩
    exact absurd rfl (usable _ invalid).2.1

/-- A page is allocated, deallocated and allocated again. -/
theorem ids_do_not_wrap_reused : ∃ w : World, w.returned = [1,1] ∧ w.Usable := by
  obtain ⟨w,along,same⟩ : ∃ w, Along World.next Allowed World.create [.allocatePage,.deallocatePage 1,.allocatePage] w ∧ w.returned = [1,1] :=
    ⟨_,⟨⟨trivial,fun _ => by decide⟩,_,rfl,⟨DiskCrash.notFree_of_full rfl 1,trivial⟩,_,rfl,⟨trivial,fun _ => by decide⟩,_,rfl,rfl⟩,rfl⟩
  exact ⟨w,same,(ids_do_not_wrap (runs_of_along along) .refl).1⟩

/-- Allocation alone takes the counter to its largest value. -/
theorem counted : ∀ n, n < 4294967295 → ∃ w, Runs World.next World.Careful World.create w ∧
    w.disk.freeListHead = INVALID_PAGE_ID ∧ w.disk.numPages.toNat = n + 1 ∧ (n ≠ 0 → 1 ∈ w.returned) := by
  intro n
  induction n with
  | zero => exact fun _ => ⟨World.create,.refl,rfl,rfl,fun one => absurd rfl one⟩
  | succ n ih =>
    intro small
    obtain ⟨w,runs,none,count,first⟩ := ih (by omega)
    obtain ⟨d',done,none',count',_⟩ := DiskCrash.perform_grow none
    have step : w.next .allocatePage = some { disk := d', returned := w.disk.numPages :: w.returned } := by rw [World.next,done]
    have careful : w.Careful .allocatePage := trivial
    refine ⟨_,.step runs careful step,none',?_,fun _ => ?_⟩
    · show d'.numPages.toNat = _
      rw [count',UInt32.toNat_add,UInt32.toNat_one,count,Nat.mod_eq_of_lt (by omega)]
    · by_cases zero : n = 0
      · refine List.mem_cons.mpr (.inl (UInt32.toNat_inj.mp ?_))
        rw [count,zero]
        rfl
      · exact List.mem_cons_of_mem _ (first zero)

/-- The next allocation returns `INVALID_PAGE_ID`, the counter starts again at 0, and
    page 1 can no longer be read. -/
theorem counter_wraps : ∃ w w' : World, Runs World.next World.Careful World.create w ∧ w.Careful .allocatePage ∧
    w.next .allocatePage = some w' ∧ INVALID_PAGE_ID ∈ w'.returned ∧ ¬ w.disk.numPages ≤ w'.disk.numPages ∧
    1 ∈ w'.returned ∧ w'.disk.readPage 1 = .error .outOfRange ∧ ¬ w'.Usable := by
  obtain ⟨w,runs,none,count,first⟩ := counted 4294967294 (by omega)
  obtain ⟨d',done,_⟩ := DiskCrash.perform_grow none
  have step : w.next .allocatePage = some { disk := d', returned := w.disk.numPages :: w.returned } := by rw [World.next,done]
  have full : ¬ w.Room .allocatePage := fun room => room none (UInt32.toNat_inj.mp count)
  obtain ⟨invalid,zero,last⟩ := next_wraps full step
  have lost : d'.readPage 1 = .error .outOfRange := by
    rw [DiskManager.readPage,if_pos (by rw [zero]; decide)]
  have one : 1 ∈ w.disk.numPages :: w.returned := List.mem_cons_of_mem _ (first (by omega))
  refine ⟨w,_,runs,trivial,step,invalid,?_,one,lost,?_⟩
  · rw [zero,last]
    decide
  · intro usable
    obtain ⟨_,_,_,⟨_,read⟩,_⟩ := usable 1 one
    rw [lost] at read
    cases read

end
end Aether.DiskIds
