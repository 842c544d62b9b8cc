import Nomalloc.Api.PosixApi
import Nomalloc.Core.AllocatorHeap

/-!
# `api/posix_api.c`: a heap of objects

The functions of the library check their arguments, round sizes up and make one call of the allocator;
`mallocx` clears the bytes after it.  `xallocx` is not among them: it may give the object of its caller
back (`Allocator.xallocx_keeps_iff`).

* `mallocx`, `rallocx`, `dallocx`, `sdallocx`
* `PosixOp.request`    the call of the allocator that is made, if any;
* `PosixOp.call`       what is asked of a heap of objects;
* `posix_heap`         every run is one of a heap of objects, which share no byte.
-/

namespace Nomalloc

open Bytes

def MALLOCX_ZERO : ℕ := 0x40

namespace Allocator

/-- `mallocx`; of the flags only `MALLOCX_ZERO` is looked at. -/
def mallocx (s : Allocator) (size flags : ℕ) (env : LibcEnv) : ℕ × Allocator :=
  if flags &&& MALLOCX_ZERO ≠ 0 then
    let (ptr, s) := s.allocatorMalloc size env
    if ptr ≠ 0 then (ptr, s.setMem (fill s.mem ptr size 0)) else (ptr, s)
  else s.allocatorMalloc size env

/-- `rallocx` -/
def rallocx (s : Allocator) (ptr size _flags : ℕ) (env : LibcEnv) : ℕ × Allocator :=
  s.allocatorRealloc ptr size env

/-- `dallocx` -/
def dallocx (s : Allocator) (ptr _flags : ℕ) : Allocator := s.allocatorFree ptr

/-- `sdallocx` -/
def sdallocx (s : Allocator) (ptr _size _flags : ℕ) : Allocator := s.allocatorFree ptr

end Allocator

/-- A call of the library, or a store by anyone. -/
inductive PosixOp where
  | malloc (size : ℕ) (env : LibcEnv)
  | calloc (nmemb size : ℕ) (env : LibcEnv)
  | realloc (ptr size : ℕ) (env : LibcEnv)
  | free (ptr : ℕ)
  | posixMemalign (memptr alignment size : ℕ) (env : LibcEnv)
  | alignedAlloc (alignment size : ℕ) (env : LibcEnv)
  | memalign (alignment size : ℕ) (env : LibcEnv)
  | valloc (sysconf size : ℕ) (env : LibcEnv)
  | pvalloc (sysconf size : ℕ) (env : LibcEnv)
  | mallocx (size flags : ℕ) (env : LibcEnv)
  | rallocx (ptr size flags : ℕ) (env : LibcEnv)
  | dallocx (ptr flags : ℕ)
  | sdallocx (ptr size flags : ℕ)
  | stores (m : Mem)

namespace AllocSys

def posixStep (s : AllocSys) : PosixOp → AllocSys
  | .malloc size env => take s.live (s.a.allocatorMalloc size env)
  | .calloc nmemb size env => take s.live (s.a.allocatorCalloc nmemb size env)
  | .realloc ptr size env =>
    let r := s.a.allocatorRealloc ptr size env
    ⟨r.2, exchanged ptr size r.1 s.live⟩
  | .free ptr => ⟨s.a.allocatorFree ptr, s.live.erase ptr⟩
  | .posixMemalign memptr alignment size env =>
    let r := s.a.posixMemalign memptr alignment size env
    take s.live (r.1.2.getD 0, r.2)
  | .alignedAlloc alignment size env => take s.live (s.a.alignedAlloc alignment size env)
  | .memalign alignment size env => take s.live (s.a.memalign alignment size env)
  | .valloc sysconf size env => take s.live (s.a.valloc sysconf size env)
  | .pvalloc sysconf size env => take s.live (s.a.pvalloc sysconf size env)
  | .mallocx size flags env => take s.live (s.a.mallocx size flags env)
  | .rallocx ptr size flags env =>
    let r := s.a.rallocx ptr size flags env
    ⟨r.2, exchanged ptr size r.1 s.live⟩
  | .dallocx ptr flags => ⟨s.a.dallocx ptr flags, s.live.erase ptr⟩
  | .sdallocx ptr size flags => ⟨s.a.sdallocx ptr size flags, s.live.erase ptr⟩
  | .stores m => ⟨s.a.setMem m, s.live⟩

/-- The pointer that the client gets; `posix_memalign` stores it. -/
def posixReturned (s : AllocSys) : PosixOp → ℕ
  | .malloc size env => (s.a.allocatorMalloc size env).1
  | .calloc nmemb size env => (s.a.allocatorCalloc nmemb size env).1
  | .realloc ptr size env => (s.a.allocatorRealloc ptr size env).1
  | .posixMemalign memptr alignment size env =>
    (s.a.posixMemalign memptr alignment size env).1.2.getD 0
  | .alignedAlloc alignment size env => (s.a.alignedAlloc alignment size env).1
  | .memalign alignment size env => (s.a.memalign alignment size env).1
  | .valloc sysconf size env => (s.a.valloc sysconf size env).1
  | .pvalloc sysconf size env => (s.a.pvalloc sysconf size env).1
  | .mallocx size flags env => (s.a.mallocx size flags env).1
  | .rallocx ptr size flags env => (s.a.rallocx ptr size flags env).1
  | _ => 0

end AllocSys

namespace PosixOp

/-- The call of the allocator that is made. -/
def request : PosixOp → Option AllocOp
  | .malloc size env => some (.malloc size env)
  | .calloc nmemb size env => some (.calloc nmemb size env)
  | .realloc ptr size env => some (.realloc ptr size env)
  | .free ptr => some (.free ptr)
  | .posixMemalign memptr alignment size env =>
    if memptr = 0 ∨ isPowerOfTwo alignment = false ∨ alignment < Allocator.SIZEOF_POINTER ∨
      size = 0 then none
    else some (.alignedAlloc alignment size env)
  | .alignedAlloc alignment size env =>
    if isPowerOfTwo alignment = false then none
    else some (.alignedAlloc alignment (alignUp (atLeastOne size) alignment) env)
  | .memalign alignment size env =>
    if isPowerOfTwo alignment = false then none else some (.alignedAlloc alignment size env)
  | .valloc sysconf size env => some (.alignedAlloc (Allocator.getPageSize sysconf) size env)
  | .pvalloc sysconf size env => some (.alignedAlloc (Allocator.getPageSize sysconf)
    (alignUp size (Allocator.getPageSize sysconf)) env)
  | .mallocx size _ env => some (.malloc size env)
  | .rallocx ptr size _ env => some (.realloc ptr size env)
  | .dallocx ptr _ => some (.free ptr)
  | .sdallocx ptr _ _ => some (.free ptr)
  | .stores m => some (.stores m)

/-- What is asked for. -/
def call : PosixOp → Objects.Call UInt8
  | .malloc size _ => .grant fun p bs => 16 ∣ p ∧ bs.length = atLeastOne size
  | .calloc nmemb size _ =>
    .grant fun p bs => 16 ∣ p ∧ bs = List.replicate (Allocator.totalElements nmemb size) 0
  | .posixMemalign memptr alignment size _ =>
    .grant fun p bs => memptr ≠ 0 ∧ isPowerOfTwo alignment = true ∧ 8 ≤ alignment ∧ 0 < size ∧
      alignment ∣ p ∧ bs.length = size
  | .alignedAlloc alignment size _ =>
    .grant fun p bs => isPowerOfTwo alignment = true ∧ alignment ∣ p ∧ alignment ∣ bs.length ∧
      atLeastOne size ≤ bs.length
  | .memalign alignment size _ =>
    .grant fun p bs => isPowerOfTwo alignment = true ∧ alignment ∣ p ∧ bs.length = atLeastOne size
  | .valloc sysconf size _ =>
    .grant fun p bs => Allocator.getPageSize sysconf ∣ p ∧ bs.length = atLeastOne size
  | .pvalloc sysconf size _ =>
    .grant fun p bs => Allocator.getPageSize sysconf ∣ p ∧ size ≤ bs.length ∧
      (0 < size → Allocator.getPageSize sysconf ∣ bs.length)
  | .mallocx size flags _ =>
    .grant fun p bs => 16 ∣ p ∧ bs.length = atLeastOne size ∧
      (flags &&& MALLOCX_ZERO ≠ 0 → bs.take size = List.replicate size 0)
  | .realloc ptr size _ | .rallocx ptr size _ _ =>
    if ptr = 0 then .grant fun p bs => 16 ∣ p ∧ bs.length = atLeastOne size
    else if size = 0 then .drop ptr
    else .resize ptr size
  | .free ptr | .dallocx ptr _ | .sdallocx ptr _ _ => .drop ptr
  | .stores m => .write fun p bs => bytesAt m p bs.length

/-- What the callers and libc promise, for the call of the allocator that is made. -/
def Legal (s : AllocSys) (op : PosixOp) : Prop := ∀ c ∈ op.request, s.LegalUp c

/-- No sum wraps: neither where sizes are rounded up, nor where room is made for the header. -/
def NoWrap (s : AllocSys) (op : PosixOp) : Prop :=
  (∀ c ∈ op.request, s.NoWrap c) ∧ match op with
    | .alignedAlloc alignment size _ => atLeastOne size + alignment - 1 < wordSize
    | .pvalloc sysconf size _ => size + Allocator.getPageSize sysconf - 1 < wordSize
    | _ => True

end PosixOp

namespace AllocSys

/-- A run as the program sees it. -/
def posixTrace : AllocSys → List PosixOp → List (Objects.Call UInt8 × ℕ)
  | _, [] => []
  | s, op :: ops => (op.call, s.posixReturned op) :: (s.posixStep op).posixTrace ops

/-! ## one call -/

section
variable {s : AllocSys} {env : LibcEnv} {memptr alignment size : ℕ}

/-- The call does to the objects what it was asked for, and the allocator is in order after it. -/
def Serves (s : AllocSys) (op : PosixOp) : Prop :=
  Objects.Step s.objects op.call (s.posixReturned op) (s.posixStep op).objects ∧
    (s.posixStep op).HeldUp

/-- The step and the objects of a call that is passed on as it is. -/
theorem posix_served (h : s.HeldUp) {c : AllocOp} (hop : s.LegalUp c) (hwrap : s.NoWrap c) :
    Objects.Step s.objects c.call (s.returned c) (s.step c).objects ∧ (s.step c).HeldUp :=
  ⟨heap_step h hop hwrap, heldUp_step h hop hwrap⟩

/-- A call of which the allocator is asked for no less than its caller is promised. -/
theorem serves_of_granted {op : PosixOp} {c : AllocOp} {asked promised : ℕ → List UInt8 → Prop}
    (h : s.HeldUp) (hop : s.LegalUp c) (hwrap : s.NoWrap c) (hret : s.posixReturned op = s.returned c)
    (hstep : s.posixStep op = s.step c) (hasked : c.call = .grant asked)
    (hpromised : op.call = .grant promised) (hmono : ∀ p bs, asked p bs → promised p bs) :
    s.Serves op := by
  obtain ⟨hobjects, ht⟩ := posix_served h hop hwrap
  unfold Serves
  rw [hasked] at hobjects
  rw [hret, hstep, hpromised]
  exact ⟨Objects.Step.grant_mono hobjects hmono, ht⟩

/-- A call that is turned down before the allocator hears of it. -/
theorem serves_of_refused {op : PosixOp} {ok : ℕ → List UInt8 → Prop} (h : s.HeldUp)
    (hret : s.posixReturned op = 0) (hstep : s.posixStep op = take s.live (0, s.a))
    (hcall : op.call = .grant ok) : s.Serves op := by
  unfold Serves
  rw [hret, hstep, hcall]
  exact ⟨heap_refused rfl rfl, h⟩

theorem posixMemalign_refused (env : LibcEnv) (hbad : memptr = 0 ∨ isPowerOfTwo alignment = false ∨
    alignment < Allocator.SIZEOF_POINTER ∨ size = 0) :
    (s.a.posixMemalign memptr alignment size env).1.2.getD 0 = 0 ∧
      (s.a.posixMemalign memptr alignment size env).2 = s.a := by
  unfold Allocator.posixMemalign
  by_cases hptr : memptr = 0
  · rw [if_pos hptr]
    exact ⟨rfl, rfl⟩
  rw [if_neg hptr]
  by_cases halign : (!isPowerOfTwo alignment || decide (alignment < Allocator.SIZEOF_POINTER)) = true
  · rw [if_pos halign]
    exact ⟨rfl, rfl⟩
  · have hsize : size = 0 := by
      rw [Bool.or_eq_true, not_or, Bool.not_eq_true', decide_eq_true_iff] at halign
      rcases hbad with hbad | hbad | hbad | hbad
      · exact absurd hbad hptr
      · exact absurd hbad halign.1
      · exact absurd hbad halign.2
      · exact hbad
    rw [if_neg halign, if_pos hsize]
    exact ⟨rfl, rfl⟩

theorem posixMemalign_served (env : LibcEnv) (hgood : ¬ (memptr = 0 ∨ isPowerOfTwo alignment = false ∨
    alignment < Allocator.SIZEOF_POINTER ∨ size = 0)) :
    (s.a.posixMemalign memptr alignment size env).1.2.getD 0 =
        (s.a.allocatorAlignedAlloc alignment size env).1 ∧
      (s.a.posixMemalign memptr alignment size env).2 =
        (s.a.allocatorAlignedAlloc alignment size env).2 := by
  obtain ⟨hptr, hpow, hmin, hsize⟩ : memptr ≠ 0 ∧ ¬ isPowerOfTwo alignment = false ∧
      ¬ alignment < Allocator.SIZEOF_POINTER ∧ size ≠ 0 := by
    simpa only [not_or] using hgood
  have halign : ¬ (!isPowerOfTwo alignment || decide (alignment < Allocator.SIZEOF_POINTER)) = true := by
    rw [Bool.or_eq_true, not_or, Bool.not_eq_true', decide_eq_true_iff]
    exact ⟨hpow, hmin⟩
  unfold Allocator.posixMemalign
  rw [if_neg hptr, if_neg halign, if_neg hsize]
  dsimp only
  by_cases hnull : (s.a.allocatorAlignedAlloc alignment size env).1 = 0
  · rw [if_pos hnull]
    exact ⟨hnull.symm, rfl⟩
  · rw [if_neg hnull]
    exact ⟨rfl, rfl⟩

/-- The client clears the first bytes of an object of its own. -/
theorem object_cleared {t : AllocSys} {p : ℕ} {bs : List UInt8} (h : t.HeldUp)
    (hobj : t.objects p = some bs) (hsize : size ≤ bs.length) :
    (t.step (.stores (fill t.a.mem p size 0))).HeldUp ∧
      (t.step (.stores (fill t.a.mem p size 0))).objects =
        t.objects.put p (List.replicate size 0 ++ bs.drop size) := by
  have hlive : p ∈ t.live := by
    by_contra hnot
    rw [objects_none hnot] at hobj
    cases hobj
  obtain ⟨b, hb, hh⟩ := AllocInv.headed h.2 hlive
  have hbs := hobj
  rw [objects_some hlive] at hbs
  have hbs := Option.some.inj hbs
  have hlen : bs.length = allocatorMallocUsableSize t.a.mem p := by rw [← hbs, length_bytesAt]
  have hwritable : ∀ x, fill t.a.mem p size 0 x ≠ t.a.mem x → t.Writable x := by
    intro x hx
    have hin : p ≤ x ∧ x < p + size := by
      by_contra hout
      exact hx (fill_outside (by omega))
    refine Or.inl ⟨p, hlive, hin.1, ?_⟩
    rw [AllocInv.clientSize_headed h.2 hb hh, ← hh.usable, ← hlen]
    omega
  have hlegal : t.LegalUp (.stores (fill t.a.mem p size 0)) := ⟨trivial, hwritable, h.2.sound⟩
  refine ⟨heldUp_step h hlegal trivial, ?_⟩
  rw [Objects.Step.write_eq (heap_stores h hwritable)]
  funext q
  by_cases hq : q = p
  · subst hq
    rw [hobj, Option.map_some, Objects.put_self, ← hbs, length_bytesAt]
    rw [hlen] at hsize
    exact congrArg some (bytesAt_fill_first hsize)
  · rw [Objects.put_of_ne hq]
    cases hcs : t.objects q with
    | none => rfl
    | some cs =>
      have hqlive : q ∈ t.live := by
        by_contra hnot
        rw [objects_none hnot] at hcs
        cases hcs
      have hapart := h.disjoint p q bs cs hobj hcs (Ne.symm hq)
      have hcs' := hcs
      rw [objects_some hqlive] at hcs'
      have hcs' := Option.some.inj hcs'
      have hlen' : cs.length = allocatorMallocUsableSize t.a.mem q := by rw [← hcs', length_bytesAt]
      rw [Option.map_some, hlen']
      refine congrArg some ?_
      rw [← hcs']
      exact bytesAt_congr fun x hx hx' => fill_outside (by omega)

/-- `mallocx` clears what it was asked for. -/
theorem serves_mallocx (h : s.HeldUp) (flags : ℕ) (hop : s.LegalUp (.malloc size env))
    (hwrap : s.NoWrap (.malloc size env)) : s.Serves (.mallocx size flags env) := by
  obtain ⟨hstep, ht⟩ := posix_served h hop hwrap
  unfold Serves posixStep posixReturned PosixOp.call
  dsimp only
  unfold Allocator.mallocx
  by_cases hzero : flags &&& MALLOCX_ZERO ≠ 0
  · rw [if_pos hzero]
    dsimp only
    have hret : s.returned (.malloc size env) = (s.a.allocatorMalloc size env).1 := rfl
    rcases Objects.Step.grant_cases hstep with ⟨hnull, hsame⟩ | ⟨hp0, hfree, bs, ⟨hdvd, hlen⟩, hput⟩
    · rw [hret] at hnull
      have hstate : s.step (.malloc size env) = take s.live (0, (s.a.allocatorMalloc size env).2) :=
        congrArg (take s.live) (Prod.ext hnull rfl)
      rw [if_neg (not_not_intro hnull), hnull, ← hstate, hsame]
      exact ⟨.refused, ht⟩
    · rw [hret] at hp0 hfree hput hdvd
      have hobj : (s.step (.malloc size env)).objects (s.a.allocatorMalloc size env).1 = some bs := by
        rw [hput, Objects.put_self]
      have hsize : size ≤ bs.length := by
        rw [hlen, atLeastOne_eq]
        exact le_max_left _ _
      obtain ⟨hheld, hobjects⟩ := object_cleared ht hobj hsize
      rw [if_pos hp0]
      refine ⟨?_, hheld⟩
      have hput' : (take s.live ((s.a.allocatorMalloc size env).1,
          (s.a.allocatorMalloc size env).2.setMem (fill (s.a.allocatorMalloc size env).2.mem
            (s.a.allocatorMalloc size env).1 size 0))).objects =
          s.objects.put (s.a.allocatorMalloc size env).1 (List.replicate size 0 ++ bs.drop size) := by
        refine Eq.trans hobjects ?_
        rw [hput]
        exact Function.update_idem ..
      rw [hput']
      refine .granted hp0 hfree ⟨hdvd, ?_, fun _ => List.take_left' List.length_replicate⟩
      rw [List.length_append, List.length_replicate, List.length_drop, ← hlen]
      omega
  · rw [if_neg hzero]
    exact ⟨Objects.Step.grant_mono hstep fun p bs hbs => ⟨hbs.1, hbs.2, fun hc => absurd hc hzero⟩, ht⟩

/-- A size that is rounded up stays one that is asked for. -/
theorem atLeastOne_alignUp {n : ℕ} (ha : 0 < alignment) (hround : n + alignment - 1 < wordSize)
    (hn : 0 < n) : atLeastOne (alignUp n alignment) = alignUp n alignment :=
  if_neg (hn.trans_le (le_alignUp ha hround)).ne'

theorem serves_posixMemalign (h : s.HeldUp)
    (hop : (PosixOp.posixMemalign memptr alignment size env).Legal s)
    (hwrap : (PosixOp.posixMemalign memptr alignment size env).NoWrap s) :
    s.Serves (.posixMemalign memptr alignment size env) := by
  by_cases hbad : memptr = 0 ∨ isPowerOfTwo alignment = false ∨
      alignment < Allocator.SIZEOF_POINTER ∨ size = 0
  · obtain ⟨hret, hstate⟩ := posixMemalign_refused (s := s) env hbad
    have hstep : s.posixStep (.posixMemalign memptr alignment size env) = take s.live (0, s.a) := by
      unfold posixStep
      dsimp only
      rw [hret, hstate]
    exact serves_of_refused h hret hstep rfl
  · have hreq : (PosixOp.posixMemalign memptr alignment size env).request =
        some (.alignedAlloc alignment size env) := if_neg hbad
    obtain ⟨hret, hstate⟩ := posixMemalign_served (s := s) env hbad
    have hstep : s.posixStep (.posixMemalign memptr alignment size env) =
        s.step (.alignedAlloc alignment size env) := by
      unfold posixStep
      dsimp only
      rw [hret, hstate]
      rfl
    refine serves_of_granted h (hop _ hreq) (hwrap.1 _ hreq) hret hstep rfl rfl fun p bs hbs => ?_
    obtain ⟨hptr, hpow, hmin, hsize⟩ : memptr ≠ 0 ∧ ¬ isPowerOfTwo alignment = false ∧
        ¬ alignment < Allocator.SIZEOF_POINTER ∧ size ≠ 0 := by
      simpa only [not_or] using hbad
    rw [show atLeastOne size = size from if_neg hsize] at hbs
    exact ⟨hptr, Bool.of_not_eq_false hpow, not_lt.mp hmin, Nat.pos_of_ne_zero hsize, hbs⟩

theorem serves_memalign (h : s.HeldUp) (hop : (PosixOp.memalign alignment size env).Legal s)
    (hwrap : (PosixOp.memalign alignment size env).NoWrap s) :
    s.Serves (.memalign alignment size env) := by
  by_cases hpow : isPowerOfTwo alignment = false
  · have hnull : s.a.memalign alignment size env = (0, s.a) := if_pos (by rw [hpow]; simp)
    exact serves_of_refused h (congrArg Prod.fst hnull) (congrArg (take s.live) hnull) rfl
  · have hreq : (PosixOp.memalign alignment size env).request =
        some (.alignedAlloc alignment size env) := if_neg hpow
    have htrue := Bool.of_not_eq_false hpow
    have hpos : alignment ≠ 0 := (Nat.pos_of_isPowerOfTwo (isPowerOfTwo_iff.1 htrue)).ne'
    have hserved : s.a.memalign alignment size env =
        s.a.allocatorAlignedAlloc alignment size env := if_neg (by simp [htrue, hpos])
    exact serves_of_granted h (hop _ hreq) (hwrap.1 _ hreq) (congrArg Prod.fst hserved)
      (congrArg (take s.live) hserved) rfl rfl fun p bs hbs => ⟨htrue, hbs⟩

theorem serves_alignedAlloc (h : s.HeldUp) (hop : (PosixOp.alignedAlloc alignment size env).Legal s)
    (hwrap : (PosixOp.alignedAlloc alignment size env).NoWrap s) :
    s.Serves (.alignedAlloc alignment size env) := by
  by_cases hpow : isPowerOfTwo alignment = false
  · have hnull : s.a.alignedAlloc alignment size env = (0, s.a) := if_pos (by rw [hpow]; simp)
    exact serves_of_refused h (congrArg Prod.fst hnull) (congrArg (take s.live) hnull) rfl
  · have hreq : (PosixOp.alignedAlloc alignment size env).request =
        some (.alignedAlloc alignment (alignUp (atLeastOne size) alignment) env) := if_neg hpow
    have htrue := Bool.of_not_eq_false hpow
    have hpos : 0 < alignment := Nat.pos_of_isPowerOfTwo (isPowerOfTwo_iff.1 htrue)
    have hround : atLeastOne size + alignment - 1 < wordSize := hwrap.2
    have hone : 0 < atLeastOne size := by
      rw [atLeastOne_eq]
      omega
    have hserved : s.a.alignedAlloc alignment size env =
        s.a.allocatorAlignedAlloc alignment (alignUp (atLeastOne size) alignment) env :=
      Allocator.alignedAlloc_eq htrue
    refine serves_of_granted h (hop _ hreq) (hwrap.1 _ hreq) (congrArg Prod.fst hserved)
      (congrArg (take s.live) hserved) rfl rfl fun p bs ⟨hdvd, hlen⟩ => ?_
    rw [atLeastOne_alignUp hpos hround hone] at hlen
    exact ⟨htrue, hdvd, hlen ▸ dvd_alignUp hpos hround, hlen ▸ le_alignUp hpos hround⟩

theorem serves_pvalloc {sysconf : ℕ} (h : s.HeldUp) (hop : (PosixOp.pvalloc sysconf size env).Legal s)
    (hwrap : (PosixOp.pvalloc sysconf size env).NoWrap s) : s.Serves (.pvalloc sysconf size env) := by
  have hpos : 0 < Allocator.getPageSize sysconf := by
    unfold Allocator.getPageSize Allocator.PAGE_SIZE_DEFAULT
    split <;> omega
  have hround : size + Allocator.getPageSize sysconf - 1 < wordSize := hwrap.2
  refine serves_of_granted h (hop _ rfl) (hwrap.1 _ rfl) rfl rfl rfl rfl fun p bs ⟨hdvd, hlen⟩ =>
    ⟨hdvd, ?_, fun hsize => ?_⟩
  · rw [hlen, atLeastOne_eq]
    exact le_max_of_le_left (le_alignUp hpos hround)
  · rw [hlen, atLeastOne_alignUp hpos hround hsize]
    exact dvd_alignUp hpos hround

/-- **One call of the library** is one of a heap of objects. -/
theorem posix_step (h : s.HeldUp) {op : PosixOp} (hop : op.Legal s) (hwrap : op.NoWrap s) :
    s.Serves op := by
  cases op with
  | malloc size env => exact posix_served h (hop _ rfl) (hwrap.1 _ rfl)
  | calloc nmemb size env => exact posix_served h (hop _ rfl) (hwrap.1 _ rfl)
  | realloc ptr size env => exact posix_served h (hop _ rfl) (hwrap.1 _ rfl)
  | free ptr => exact posix_served h (hop _ rfl) (hwrap.1 _ rfl)
  | rallocx ptr size flags env => exact posix_served h (hop _ rfl) (hwrap.1 _ rfl)
  | dallocx ptr flags => exact posix_served h (hop _ rfl) (hwrap.1 _ rfl)
  | sdallocx ptr size flags => exact posix_served h (hop _ rfl) (hwrap.1 _ rfl)
  | stores m => exact posix_served h (hop _ rfl) (hwrap.1 _ rfl)
  | valloc sysconf size env => exact posix_served h (hop _ rfl) (hwrap.1 _ rfl)
  | mallocx size flags env => exact serves_mallocx h flags (hop _ rfl) (hwrap.1 _ rfl)
  | posixMemalign memptr alignment size env => exact serves_posixMemalign h hop hwrap
  | memalign alignment size env => exact serves_memalign h hop hwrap
  | alignedAlloc alignment size env => exact serves_alignedAlloc h hop hwrap
  | pvalloc sysconf size env => exact serves_pvalloc h hop hwrap

theorem posix_run (h : s.HeldUp) (ops : List PosixOp)
    (hlegal : Runs.Each AllocSys.posixStep (fun s op => op.Legal s) s ops)
    (hwrap : Runs.Each AllocSys.posixStep (fun s op => op.NoWrap s) s ops) :
    Objects.Run s.objects (s.posixTrace ops) (Runs.after AllocSys.posixStep s ops).objects ∧
      Runs.Always AllocSys.posixStep AllocSys.HeldUp s ops := by
  induction ops generalizing s with
  | nil => exact ⟨.nil, h⟩
  | cons op ops ih =>
    obtain ⟨hop, hops⟩ := hlegal
    obtain ⟨hw, hws⟩ := hwrap
    obtain ⟨hstep, ht⟩ := posix_step h hop hw
    obtain ⟨hrun, halways⟩ := ih ht hops hws
    exact ⟨.cons hstep hrun, h, halways⟩

end

end AllocSys

/-- **The library is a heap of objects.**  In every run of its functions over an allocator that is up,
where no size wraps, each call does to the objects of the program what it was asked for and nothing
else, and at every moment no byte belongs to two objects. -/
theorem posix_heap {s : AllocSys} (hopen : s.Opened) (ops : List PosixOp)
    (hlegal : Runs.Each AllocSys.posixStep (fun s op => op.Legal s) s ops)
    (hwrap : Runs.Each AllocSys.posixStep (fun s op => op.NoWrap s) s ops) :
    Objects.Run (fun _ => none) (s.posixTrace ops) (Runs.after AllocSys.posixStep s ops).objects ∧
      Runs.Always AllocSys.posixStep (fun t => t.objects.Disjoint) s ops := by
  obtain ⟨hrun, halways⟩ := AllocSys.posix_run hopen.heldUp ops hlegal hwrap
  have hempty : s.objects = fun _ => none := by
    funext p
    exact AllocSys.objects_none (by rw [hopen.live]; exact List.not_mem_nil)
  rw [hempty] at hrun
  exact ⟨hrun, halways.mono fun t ht => ht.disjoint⟩

/-- Aligned bytes, cleared bytes, a rounded page, and the aligned bytes go back. -/
def alignedAndCleared : List PosixOp :=
  [.posixMemalign 8 64 100 (libcAt 0x1000), .mallocx 40 MALLOCX_ZERO (libcAt 0x2000),
    .pvalloc 0x1000 100 (libcAt 0x4000), .sdallocx 0x1040 100 0]

theorem posix_heap_alignedAndCleared :
    Objects.Run (fun _ => none) (AllocSys.opened.posixTrace alignedAndCleared)
        (Runs.after AllocSys.posixStep AllocSys.opened alignedAndCleared).objects ∧
      Runs.Always AllocSys.posixStep (fun t => t.objects.Disjoint) AllocSys.opened
        alignedAndCleared := by
  refine posix_heap AllocSys.opened_opened _ ⟨?_, ?_, ?_, ?_, trivial⟩ ⟨?_, ?_, ?_, ?_, trivial⟩
  · rintro c ⟨⟩
    exact ⟨trivial, ⟨by decide, by decide⟩, by decide +kernel⟩
  · rintro c ⟨⟩
    exact ⟨trivial, by show 40 < wordSize; decide, by decide +kernel⟩
  · rintro c ⟨⟩
    exact ⟨trivial, ⟨by decide, by decide⟩, by decide +kernel⟩
  · rintro c ⟨⟩
    exact ⟨trivial, ⟨.inr (by decide +kernel), Allocator.bareApart_of_ne (by decide +kernel)⟩,
      by decide +kernel⟩
  · refine ⟨?_, trivial⟩
    rintro c ⟨⟩
    exact .inr (by decide)
  · refine ⟨?_, trivial⟩
    rintro c ⟨⟩
    exact .inr (.inr (by decide))
  · refine ⟨?_, by show 100 + Allocator.getPageSize 0x1000 - 1 < wordSize; decide⟩
    rintro c ⟨⟩
    exact .inr (by decide)
  · refine ⟨?_, trivial⟩
    rintro c ⟨⟩
    exact trivial

end Nomalloc
