import Mathlib.Tactic
import PageFaultOS.Mm.Kalloc

/-! The page-table code of `mm/vm.cpp`, on physical memory. A `pagetable_t` is the
address of its page, a `pte_t *` the address of a word, and `0` is `NULL`. The
kernel's buffers are lists of bytes: only user frames and tables lie in memory. -/

namespace PageFaultOS
open Exec Exec.Comp ByteMem

/-- An upper bound on the rounds of a loop over the pages of a 64-bit space. -/
def pageRounds : Nat := 2 ^ 52 + 1

/-- The `uint64` value of an `int`. -/
def u64OfInt (n : Nat) : Nat :=
  if n % 2 ^ 32 < 2 ^ 31 then n % 2 ^ 32 else n % 2 ^ 32 + (2 ^ 64 - 2 ^ 32)

/-- One round of the loop in `walk`: the table one level down, or `none` where
`walk` returns `NULL`. -/
def walkLevel (pagetable vaddr : Nat) (alloc : Bool) (level : Nat) : MemComp (Option Nat) := do
  let pte := pagetable + 8 * px level vaddr
  let σ ← read
  if readWord σ.mem pte &&& pteV ≠ 0 then
    pure (some (pte2page (readWord σ.mem pte)))
  else if alloc then do
    let page ← kalloc
    if page = 0 then
      pure none
    else do
      memset page 0 pgsize
      setWord pte (page2pte page ||| pteV)
      pure (some page)
  else
    pure none

def walk (pagetable vaddr : Nat) (alloc : Bool) : MemComp Nat := do
  if maxva ≤ vaddr then
    Comp.panic "get pagetable entry"
  else
    match ← walkLevel pagetable vaddr alloc 2 with
    | none => pure 0
    | some table1 =>
      match ← walkLevel table1 vaddr alloc 1 with
      | none => pure 0
      | some table0 => pure (table0 + 8 * px 0 vaddr)

/-- The test is `*pte && PTE_V`, which holds of every entry other than `0`. -/
def kGetKaddr (kpagetable vaddr : Nat) : MemComp Nat := do
  let pte ← walk kpagetable vaddr false
  if pte = 0 then
    Comp.panic "kernel virtual address"
  else do
    let σ ← read
    if readWord σ.mem pte = 0 then
      Comp.panic "Invalid Page Entry"
    else
      pure (u64 (vaddr % pgsize + pte2page (readWord σ.mem pte)))

/-- One round of the loop of `MapPages`, at `(temp, paddr)`. -/
def mapPagesRound (pagetable last perm : Nat) :
    Nat × Nat → MemComp ((Nat × Nat) ⊕ Int) := fun (temp, paddr) => do
  let pte ← walk pagetable temp true
  if pte = 0 then
    pure (.inr (-1))
  else do
    let σ ← read
    if readWord σ.mem pte ≠ 0 then
      Comp.panic "ramap"
    else do
      setWord pte (page2pte paddr ||| perm ||| pteV)
      if temp = last then
        pure (.inr 0)
      else
        pure (.inl (u64 (temp + pgsize), u64 (paddr + pgsize)))

/-- The test is `*pte && PTE_V`, as in `kGetKaddr`. -/
def mapPages (pagetable vaddr paddr size perm : Nat) : MemComp Int :=
  let last := pgrounddown (u64 (vaddr + size + (2 ^ 64 - 1)))
  loop (mapPagesRound pagetable last perm) pageRounds (pgrounddown vaddr, paddr)

/-- The rest of a round of `vmunmap`, at the entry that `walk` has found. The check is
`*pte && PTE_V`: it rejects the entries that are not `0`. -/
def vmunmapEntry (pte : Nat) (doFree : Bool) (temp : Nat) : MemComp (Nat ⊕ Unit) := do
  let σ ← read
  let entry := readWord σ.mem pte
  if entry ≠ 0 then
    Comp.panic "vmumap: invalid"
  else if pteFlags entry = pteV then
    Comp.panic "vmunmap: not a leaf"
  else do
    if doFree then kfree (pte2page entry)
    setWord pte 0
    pure (.inl (u64 (temp + pgsize)))

/-- One round of the loop of `vmunmap`. -/
def vmunmapRound (pagetable stop : Nat) (doFree : Bool) (temp : Nat) :
    MemComp (Nat ⊕ Unit) := do
  if ¬ temp < stop then
    pure (.inr ())
  else do
    let pte ← walk pagetable temp false
    if pte = 0 then
      Comp.panic "vmunmap: walk"
    else
      vmunmapEntry pte doFree temp

def vmunmap (pagetable vaddr npages : Nat) (doFree : Bool) : MemComp Unit :=
  if vaddr % pgsize ≠ 0 then
    Comp.panic "vmunmap: not aligned"
  else
    loop (vmunmapRound pagetable (u64 (vaddr + npages * pgsize)) doFree) pageRounds vaddr

def uvmDealloc (pagetable kpagetable oldsize newsize : Nat) : MemComp Nat := do
  if oldsize ≤ newsize then
    pure oldsize
  else do
    if pgrounddown newsize < pgrounddown oldsize then do
      let npages := u64OfInt ((pgrounddown oldsize - pgrounddown newsize) / pgsize)
      vmunmap kpagetable (pgrounddown newsize) npages false
      vmunmap pagetable (pgrounddown newsize) npages true
    pure newsize

/-- The rest of a round of `Uvmalloc`, after the first `MapPages` has returned `r`. -/
def uvmallocMapped (pagetable kpagetable oldsize mem temp : Nat) (r : Int) :
    MemComp (Nat ⊕ Nat) := do
  if r ≠ 0 then do
    kfree mem
    let _ ← uvmDealloc pagetable kpagetable temp oldsize
    pure (.inr 0)
  else do
    let r ← mapPages kpagetable temp pgsize mem (pteW ||| pteX ||| pteR)
    if r ≠ 0 then do
      let npages := (temp - oldsize) / pgsize
      vmunmap pagetable oldsize (u64OfInt (npages + 1)) true
      vmunmap kpagetable oldsize (u64OfInt npages) false
      pure (.inr 0)
    else
      pure (.inl (u64 (temp + pgsize)))

/-- The body of the loop of `Uvmalloc`. The calls of `MapPages` hand over `PGSIZE` as the
physical address and the address of the new page as the size. -/
def uvmallocPage (pagetable kpagetable oldsize temp : Nat) : MemComp (Nat ⊕ Nat) := do
  let mem ← kalloc
  if mem = 0 then do
    let _ ← uvmDealloc pagetable kpagetable temp oldsize
    pure (.inr 0)
  else do
    memset mem 0 pgsize
    let r ← mapPages pagetable temp pgsize mem (pteW ||| pteX ||| pteR ||| pteU)
    uvmallocMapped pagetable kpagetable oldsize mem temp r

/-- One round of the loop of `Uvmalloc`. -/
def uvmallocRound (pagetable kpagetable oldsize newsize : Nat) (temp : Nat) :
    MemComp (Nat ⊕ Nat) := do
  if ¬ temp < newsize then
    pure (.inr newsize)
  else
    uvmallocPage pagetable kpagetable oldsize temp

def uvmalloc (pagetable kpagetable oldsize newsize : Nat) : MemComp Nat :=
  if newsize < oldsize then
    pure oldsize
  else
    loop (uvmallocRound pagetable kpagetable (pgrounddown oldsize) newsize) pageRounds
      (pgrounddown oldsize)

/-- The exit `err` of `Uvmcopy`. -/
def uvmcopyErr (newtable knewtable i ki : Nat) : MemComp Int := do
  vmunmap knewtable 0 (ki / pgsize) false
  vmunmap newtable 0 (i / pgsize) true
  pure (-1)

/-- The rest of a round of `Uvmcopy`, after the first `MapPages` has returned `r`. -/
def uvmcopyMapped (newtable knewtable mem flags i ki : Nat) (r : Int) :
    MemComp ((Nat × Nat) ⊕ Int) := do
  if r ≠ 0 then do
    kfree mem
    let r ← uvmcopyErr newtable knewtable i ki
    pure (.inr r)
  else do
    let i := u64 (i + pgsize)
    let r ← mapPages knewtable ki pgsize mem (flags &&& (2 ^ 64 - 1 - pteU))
    if r ≠ 0 then do
      let r ← uvmcopyErr newtable knewtable i ki
      pure (.inr r)
    else
      pure (.inl (i, u64 (ki + pgsize)))

/-- The rest of a round of `Uvmcopy`, at the parent's entry. The calls of `MapPages` have
the same argument order as in `Uvmalloc`. -/
def uvmcopyPage (newtable knewtable entry i ki : Nat) : MemComp ((Nat × Nat) ⊕ Int) := do
  let page := pte2page entry
  let flags := pteFlags entry
  let mem ← kalloc
  if mem = 0 then do
    let r ← uvmcopyErr newtable knewtable i ki
    pure (.inr r)
  else do
    memmove mem page pgsize
    let r ← mapPages newtable i pgsize mem flags
    uvmcopyMapped newtable knewtable mem flags i ki r

/-- One round of the loop of `Uvmcopy`, at `(i, ki)`. -/
def uvmcopyRound (oldtable newtable knewtable size : Nat) :
    Nat × Nat → MemComp ((Nat × Nat) ⊕ Int) := fun (i, ki) => do
  if ¬ i < size then
    pure (.inr 0)
  else do
    let pte ← walk oldtable i false
    if pte = 0 then
      Comp.panic "Uvmcopy: unexist pte"
    else do
      let σ ← read
      let entry := readWord σ.mem pte
      if entry &&& pteV = 0 then
        Comp.panic "Uvmcopy: page not present"
      else
        uvmcopyPage newtable knewtable entry i ki

def uvmcopy (oldtable newtable knewtable size : Nat) : MemComp Int :=
  loop (uvmcopyRound oldtable newtable knewtable size) pageRounds (0, 0)

end PageFaultOS
