import SuperGlue.Lib.Ring
import SuperGlue.Source.MemMgr.Frames

/-!
# The mapping database of the memory manager

`components/implementation/mem_mgr/naive/__mem_man_rec`: the per-component records with their page
vectors, the tree of mappings threaded through intrusive sibling rings, and the four requests. The
kernel is a parameter: a state and the answers of the `cos_mmap_cntl` and `cos_mmap_introspect`
calls. A result `none` is a failed assertion, a `BUG()`, a wild pointer or a call that never
returns; the manager is gone after it.

The page and slab allocators are represented by their answers, given with each request: whether a
record is found, which one, and how many pages the manager takes for its own use on the way. Such a
page comes from `__page_get`, which pops a frame, asks the kernel to grant it and retries with the
same list on a refusal of -1. The `NULL` siblings that `cslab_mapping_reset` stores are overwritten
by `INIT_LIST` before they are read, and are not modelled.
-/
namespace SuperGlue.Source.MemMgr.Mappings
open Prod Function Option Lib.Ring Frames

abbrev SpdId := Nat
abbrev VAddr := Nat
abbrev MapPtr := Nat

/-- The kernel calls that the manager makes, on a kernel state of any type. -/
structure KernelOps (κ : Type) where
  grant : κ → Int → SpdId → VAddr → Nat → κ × Int
  revoke : κ → SpdId → VAddr → κ × Int
  setRoot : κ → Int → SpdId → VAddr → Nat → κ × Int
  introspectRoot : κ → Int → SpdId → VAddr → Int

structure Mapping where
  flags : Nat
  spdid : SpdId
  addr : VAddr
  f : Nat
  p : Option MapPtr
  c : Option MapPtr
  deriving DecidableEq, Repr

structure CompVas where
  nmaps : Int
  pages : Nat → Option MapPtr

structure State (κ : Type) where
  table : FrameTable
  comps : SpdId → Option CompVas
  maps : MapPtr → Mapping
  /-- The sibling links `_s` and `s_`. -/
  sib : Links MapPtr
  /-- The mapping records that the slab has handed out. -/
  live : Finset MapPtr
  heap : VAddr
  kern : κ

/-- The manager's own component id, `MAPPING_RW` and the page size. -/
def mmSpd : SpdId := 3
def mappingRW : Int := 1
def pageSize : Nat := 4096

/-- `addr >> PAGE_SHIFT`. -/
def pageIdx (addr : VAddr) : Nat := addr / pageSize

/-- What the allocators answer during one `mapping_crt`: the pages taken while a component record,
a mapping record and a vector page are allocated (each with the number of grants tried for it),
whether the component record is found, and the mapping record. -/
structure Env where
  vasPages : List Nat
  vas : Bool
  slabPages : List Nat
  slab : Option MapPtr
  vectPages : List Nat
  deriving Repr

variable {κ : Type} {K : KernelOps κ} {s s' : State κ}

/-! ## Pages for the manager itself -/

/-- The loop of `__page_get` for the heap page `hp`, with the number of grants it may try. -/
def grantOwn (K : KernelOps κ) (hp : VAddr) : Nat → State κ → Option (State κ)
  | 0, _ => none
  | tries + 1, s =>
    match frameAlloc s.table with
    | .ok (some f, t) =>
      let granted := K.grant s.kern mappingRW mmSpd hp f
      if granted.2 = -1 then
        grantOwn K hp tries { s with table := frameDeref t f, kern := granted.1 }
      else
        let rooted := K.setRoot granted.1 mappingRW mmSpd hp f
        if rooted.2 ≠ 0 then none
        else some { s with table := ownPage t f hp, kern := rooted.1 }
    | _ => none

def pageGet (K : KernelOps κ) (tries : Nat) (s : State κ) : Option (State κ) :=
  if s.heap = 0 then none else grantOwn K s.heap tries { s with heap := s.heap + pageSize }

def pagesGet (K : KernelOps κ) : List Nat → State κ → Option (State κ)
  | [], s => some s
  | tries :: rest, s => (pageGet K tries s).bind (pagesGet K rest)

/-- What the allocation of pages does, one round of `__page_get` at a time. -/
inductive PageStep (K : KernelOps κ) : State κ → State κ → Prop where
  | heap (s : State κ) : PageStep K s { s with heap := s.heap + pageSize }
  | retry {s : State κ} {f : Nat} {t : FrameTable} {hp : VAddr}
      (popped : frameAlloc s.table = .ok (some f, t))
      (refused : (K.grant s.kern mappingRW mmSpd hp f).2 = -1) :
      PageStep K s { s with table := frameDeref t f, kern := (K.grant s.kern mappingRW mmSpd hp f).1 }
  | own {s : State κ} {f : Nat} {t : FrameTable} {hp : VAddr} {k : κ} (nonzero : hp ≠ 0)
      (popped : frameAlloc s.table = .ok (some f, t))
      (granted : (K.grant s.kern mappingRW mmSpd hp f).2 ≠ -1)
      (rooted : K.setRoot (K.grant s.kern mappingRW mmSpd hp f).1 mappingRW mmSpd hp f = (k, 0)) :
      PageStep K s { s with table := ownPage t f hp, kern := k }

abbrev PagesTaken (K : KernelOps κ) : State κ → State κ → Prop :=
  Relation.ReflTransGen (PageStep K)

theorem grantOwn_taken {hp : VAddr} {tries : Nat}
    (nonzero : hp ≠ 0) (h : grantOwn K hp tries s = some s') : PagesTaken K s s' := by
  induction tries generalizing s with
  | zero => simp [grantOwn] at h
  | succ tries ih =>
    simp only [grantOwn] at h
    split at h
    next f t popped =>
      split at h
      next refused => exact .head (.retry popped refused) (ih h)
      next granted =>
        simp only [ite_not, ite_none_right_eq_some, some.injEq] at h
        obtain ⟨rooted, rfl⟩ := h
        exact .single (.own nonzero popped granted (Prod.ext rfl rooted))
    · contradiction

theorem pagesGet_taken {pages : List Nat} (h : pagesGet K pages s = some s') : PagesTaken K s s' := by
  induction pages generalizing s with
  | nil =>
    simp only [pagesGet, some.injEq] at h
    exact h ▸ .refl
  | cons tries rest ih =>
    simp only [pagesGet, bind_eq_some_iff] at h
    obtain ⟨mid, first, later⟩ := h
    simp only [pageGet, ite_none_left_eq_some] at first
    exact .head (.heap s) ((grantOwn_taken first.1 first.2).trans (ih later))

/-! ## Component records -/

def mappingLookup (s : State κ) (spd : SpdId) (addr : VAddr) : Option MapPtr :=
  (s.comps spd).bind fun cv => cv.pages (pageIdx addr)

/-- Look the record up, or `cvas_alloc` it; the second component is whether there is one. -/
def cvasGet (K : KernelOps κ) (s : State κ) (spd : SpdId) (env : Env) : Option (State κ × Bool) :=
  match s.comps spd with
  | some _ => some (s, true)
  | none =>
    (pagesGet K env.vasPages s).map fun s =>
      if env.vas then
        ({ s with comps := update s.comps spd (some ⟨0, fun _ => none⟩) }, true)
      else (s, false)

def cvasRef (s : State κ) (spd : SpdId) (cv : CompVas) : State κ :=
  { s with comps := update s.comps spd (some { cv with nmaps := cv.nmaps + 1 }) }

def cvasDeref (s : State κ) (spd : SpdId) : Option (State κ) :=
  match s.comps spd with
  | none => none
  | some cv =>
    if 0 < cv.nmaps then
      let left := if cv.nmaps - 1 = 0 then none else some { cv with nmaps := cv.nmaps - 1 }
      some { s with comps := update s.comps spd left }
    else none

/-- `cvect_add` and `cvect_del` on the page vector of a component. -/
def setPage (s : State κ) (spd : SpdId) (idx : Nat) (m : Option MapPtr) : State κ :=
  let cv := (s.comps spd).map fun cv => { cv with pages := update cv.pages idx m }
  { s with comps := update s.comps spd cv }

/-! ## Making a mapping -/

/-- `mapping_init`, of a record that has just been reset. -/
def mappingInit (s : State κ) (m : MapPtr) (spd : SpdId) (a : VAddr) (p : Option MapPtr) (f : Nat) : State κ :=
  let flags := (p.map fun q => (s.maps q).flags).getD 0
  let sib := s.sib.init m
  let maps := update s.maps m ⟨flags, spd, a, f, p, none⟩
  match p with
  | none => { s with sib := sib, maps := maps }
  | some q =>
    match (maps q).c with
    | none => { s with sib := sib, maps := update maps q { maps q with c := some m } }
    | some c => { s with sib := sib.add c m, maps := maps }

/-- The end of `mapping_crt`, once the kernel has granted the page. -/
def mappingLink (K : KernelOps κ) (s : State κ) (m : MapPtr) (p : Option MapPtr) (f : Nat)
    (dest : SpdId) (addr : VAddr) (env : Env) : Option (State κ × Option MapPtr) :=
  let s := mappingInit { s with live := insert m s.live } m dest addr p f
  if p.isSome ∧ (s.table.frames f).nmaps ≤ 0 then none
  else if ((frameRef s.table f).frames f).nmaps ≤ 0 then none
  else
    (pagesGet K env.vectPages { s with table := frameRef s.table f }).map fun s =>
      (setPage s dest (pageIdx addr) (some m), some m)

/-- `mapping_crt` from the allocation of the mapping record on, with the component counted. -/
def mappingGrant (K : KernelOps κ) (s : State κ) (p : Option MapPtr) (f : Nat) (dest : SpdId)
    (addr : VAddr) (flags : Int) (env : Env) : Option (State κ × Option MapPtr) :=
  match env.slab with
  | none => (cvasDeref s dest).map fun s => (s, none)
  | some m =>
    if m ∈ s.live then none
    else
      let granted := K.grant s.kern flags dest addr f
      if granted.2 ≠ 0 ∧ granted.2 ≠ -1 then
        (cvasDeref { s with kern := granted.1 } dest).map fun s => (s, none)
      else mappingLink K { s with kern := granted.1 } m p f dest addr env

def mappingCrt (K : KernelOps κ) (s : State κ) (p : Option MapPtr) (f : Nat) (dest : SpdId)
    (addr : VAddr) (flags : Int) (env : Env) : Option (State κ × Option MapPtr) :=
  if (p.any fun q => (s.maps q).f != f) ∨ dest = 0 ∨ addr = 0 then none
  else
    match cvasGet K s dest env with
    | none => none
    | some (s, false) => some (s, none)
    | some (s, true) =>
      match s.comps dest with
      | none => none
      | some cv =>
        if (cv.pages (pageIdx addr)).isSome then (cvasDeref s dest).map fun s => (s, none)
        else (pagesGet K env.slabPages (cvasRef s dest cv)).bind fun s =>
          mappingGrant K s p f dest addr flags env

/-- The component of a new mapping has its record, which does not hold the page yet, and is counted;
the slab has answered. -/
inductive Counted (K : KernelOps κ) (s : State κ) (dest : SpdId) (idx : Nat) : State κ → Prop where
  | found {s' : State κ} {cv : CompVas} (record : s.comps dest = some cv)
      (empty : cv.pages idx = none) (taken : PagesTaken K (cvasRef s dest cv) s') :
      Counted K s dest idx s'
  | fresh {s₁ s' : State κ} (absent : s.comps dest = none) (before : PagesTaken K s s₁)
      (taken : PagesTaken K { s₁ with comps := update s₁.comps dest (some ⟨1, fun _ => none⟩) } s') :
      Counted K s dest idx s'

/-- How `mapping_crt` can return. -/
inductive CrtExit (K : KernelOps κ) (s : State κ) (p : Option MapPtr) (f : Nat) (dest : SpdId)
    (addr : VAddr) (flags : Int) : State κ → Option MapPtr → Prop where
  | noRecord {s' : State κ} (absent : s.comps dest = none) (taken : PagesTaken K s s') :
      CrtExit K s p f dest addr flags s' none
  | collision {s' : State κ} (mapped : (mappingLookup s dest addr).isSome)
      (dropped : cvasDeref s dest = some s') : CrtExit K s p f dest addr flags s' none
  | noSlab {s₁ s' : State κ} (counted : Counted K s dest (pageIdx addr) s₁)
      (dropped : cvasDeref s₁ dest = some s') : CrtExit K s p f dest addr flags s' none
  | refused {s₁ s' : State κ} (counted : Counted K s dest (pageIdx addr) s₁)
      (answer : (K.grant s₁.kern flags dest addr f).2 ≠ 0 ∧ (K.grant s₁.kern flags dest addr f).2 ≠ -1)
      (dropped : cvasDeref { s₁ with kern := (K.grant s₁.kern flags dest addr f).1 } dest = some s') :
      CrtExit K s p f dest addr flags s' none
  | created {s₁ s₂ s₃ : State κ} {m : MapPtr} (counted : Counted K s dest (pageIdx addr) s₁)
      (unused : m ∉ s₁.live)
      (answer : (K.grant s₁.kern flags dest addr f).2 = 0 ∨ (K.grant s₁.kern flags dest addr f).2 = -1)
      (linked : s₂ = mappingInit { s₁ with
        live := insert m s₁.live, kern := (K.grant s₁.kern flags dest addr f).1 } m dest addr p f)
      (mapped : p.isSome → 0 < (s₂.table.frames f).nmaps)
      (counts : 0 < ((frameRef s₂.table f).frames f).nmaps)
      (taken : PagesTaken K { s₂ with table := frameRef s₂.table f } s₃) :
      CrtExit K s p f dest addr flags (setPage s₃ dest (pageIdx addr) (some m)) (some m)

variable {addr : VAddr} {flags : Int} {env : Env} {p : Option MapPtr} {dest : SpdId} {result : Option MapPtr}

theorem mappingGrant_exit {s s1 s' : State κ} {f : Nat} (counted : Counted K s dest (pageIdx addr) s1)
    (h : mappingGrant K s1 p f dest addr flags env = some (s', result)) :
    CrtExit K s p f dest addr flags s' result := by
  unfold mappingGrant at h
  split at h
  · simp only [map_eq_some_iff] at h
    obtain ⟨_, dropped, rfl, rfl⟩ := h
    exact .noSlab counted dropped
  split at h
  · contradiction
  rename_i unused
  simp only at h
  split at h
  next answer =>
    simp only [map_eq_some_iff] at h
    obtain ⟨_, dropped, rfl, rfl⟩ := h
    exact .refused counted answer dropped
  next answer =>
    simp only [mappingLink, ite_none_left_eq_some, map_eq_some_iff, not_and, not_le] at h
    obtain ⟨mapped, counts, _, taken, rfl, rfl⟩ := h
    exact .created counted unused (by omega) rfl mapped counts (pagesGet_taken taken)

theorem mappingCrt_exit {f : Nat} (h : mappingCrt K s p f dest addr flags env = some (s', result)) :
    dest ≠ 0 ∧ addr ≠ 0 ∧ CrtExit K s p f dest addr flags s' result := by
  simp only [mappingCrt, ite_none_left_eq_some, not_or] at h
  obtain ⟨⟨-, someone, nonzero⟩, h⟩ := h
  refine ⟨someone, nonzero, ?_⟩
  cases record : s.comps dest with
  | some cv =>
    simp only [cvasGet, record] at h
    split at h
    next mapped =>
      simp only [map_eq_some_iff] at h
      obtain ⟨_, dropped, rfl, rfl⟩ := h
      exact .collision (by simpa [mappingLookup, record] using mapped) dropped
    next empty =>
      obtain ⟨s1, taken, grant⟩ := bind_eq_some_iff.mp h
      have empty : cv.pages (pageIdx addr) = none := by simpa using empty
      exact mappingGrant_exit (.found record empty (pagesGet_taken taken)) grant
  | none =>
    cases before : pagesGet K env.vasPages s with
    | none => simp [cvasGet, record, before] at h
    | some =>
      simp only [cvasGet, record, before, map_some] at h
      cases vas : env.vas with
      | false =>
        simp only [vas] at h
        obtain ⟨rfl, rfl⟩ := h
        exact .noRecord record (pagesGet_taken before)
      | true =>
        simp only [vas, if_true, update_self, cvasRef, update_idem] at h
        obtain ⟨s2, taken, grant⟩ := bind_eq_some_iff.mp h
        exact mappingGrant_exit (.fresh record (pagesGet_taken before) (pagesGet_taken taken)) grant

/-! ## Taking mappings apart -/

/-- The loop of `__mapping_linearize_decendents` from the descendant `c` on; the first of the list
is `first`. -/
def linearizeFrom (first : MapPtr) : Nat → MapPtr → State κ → Option (State κ)
  | 0, _, _ => none
  | fuel + 1, c, s =>
    let last := s.sib.prev first
    let sib := match (s.maps c).c with
      | none => s.sib
      | some gc => s.sib.append last gc
    let s := { s with
      maps := update s.maps c { s.maps c with p := none, c := none }
      sib := sib }
    if s.sib.next c = first then some s else linearizeFrom first fuel (s.sib.next c) s

/-- `__mapping_linearize_decendents`: every descendant is visited once, so that the number of
mappings bounds the loop. -/
def linearizeDecendents (s : State κ) (m : MapPtr) : Option (State κ × Option MapPtr) :=
  let first := (s.maps m).c
  let s := { s with maps := update s.maps m { s.maps m with c := none } }
  match first with
  | none => some (s, none)
  | some first => (linearizeFrom first s.live.card first s).map fun s => (s, some first)

/-- The component's part of `__mapping_destroy`, skipped when the record is gone. -/
def forgetPage (s : State κ) (m : MapPtr) : Option (State κ) :=
  match s.comps (s.maps m).spdid with
  | none => some s
  | some cv =>
    if cv.pages (pageIdx (s.maps m).addr) = some m then
      cvasDeref (setPage s (s.maps m).spdid (pageIdx (s.maps m).addr) none) (s.maps m).spdid
    else none

def mappingDestroy (K : KernelOps κ) (s : State κ) (m : MapPtr) : Option (State κ) :=
  if s.sib.next m ≠ m ∨ (s.maps m).p ≠ none ∨ (s.maps m).c ≠ none then none
  else
    (forgetPage s m).bind fun s =>
      let revoked := K.revoke s.kern (s.maps m).spdid (s.maps m).addr
      if revoked.2 ≠ (s.maps m).f then none
      else
        some { s with
          kern := revoked.1
          table := frameDeref s.table (s.maps m).f
          live := s.live.erase m }

/-- The loop of `mapping_del_children` from the mapping `d` on. -/
def destroyFrom (K : KernelOps κ) : Nat → MapPtr → State κ → Option (State κ)
  | 0, _, _ => none
  | fuel + 1, d, s =>
    let n := s.sib.next d
    (mappingDestroy K { s with sib := s.sib.rem d } d).bind fun s =>
      if n = d then some s else destroyFrom K fuel n s

def mappingDelChildren (K : KernelOps κ) (s : State κ) (m : MapPtr) : Option (State κ) :=
  match linearizeDecendents s m with
  | none => none
  | some (s, none) => some s
  | some (s, some d) => destroyFrom K s.live.card d s

/-- `mapping_del` after its children are gone: leave the parent's ring, then destroy. -/
def mappingUnlink (s : State κ) (m : MapPtr) : State κ :=
  let maps := match (s.maps m).p with
    | none => s.maps
    | some q =>
      if (s.maps q).c = some m then
        let c := if s.sib.next m = m then none else some (s.sib.next m)
        update s.maps q { s.maps q with c := c }
      else s.maps
  { s with maps := update maps m { maps m with p := none }, sib := s.sib.rem m }

def mappingDel (K : KernelOps κ) (s : State κ) (m : MapPtr) : Option (State κ) :=
  (mappingDelChildren K s m).bind fun s => mappingDestroy K (mappingUnlink s m) m

/-! ## The requests -/

def einval : Int := -22
def echild : Int := -10

section
variable (K : KernelOps κ)

def mmanGetPage (s : State κ) (spd : SpdId) (addr : VAddr) (flags : Int)
    (env : Env) : Option (State κ × Int) :=
  match frameAlloc s.table with
  | .error _ => none
  | .ok (none, t) => some ({ s with table := t }, -1)
  | .ok (some f, t) =>
    match mappingCrt K { s with table := t } none f spd addr flags env with
    | none => none
    | some (s, none) => some ({ s with table := frameDeref s.table f }, -1)
    | some (s, some m) =>
      if mappingLookup s spd addr ≠ some m then none
      else
        let rooted := K.setRoot s.kern flags spd addr f
        if rooted.2 ≠ 0 then none
        else some ({ s with table := setRoot s.table f m, kern := rooted.1 }, addr)

def mmanAliasPage (s : State κ) (sSpd : SpdId) (sAddr : VAddr) (dSpd : SpdId)
    (flags : Int) (dAddr : VAddr) (env : Env) : Option (State κ × Int) :=
  match mappingLookup s sSpd sAddr with
  | none =>
    some (s, if K.introspectRoot s.kern flags sSpd sAddr ≠ 0 then echild else einval)
  | some m =>
    match mappingCrt K s (some m) (s.maps m).f dSpd dAddr flags env with
    | none => none
    | some (s, none) => some (s, 0)
    | some (s, some _) => some (s, dAddr)

def mmanRevokePage (s : State κ) (spd : SpdId) (addr : VAddr) : Option (State κ × Int) :=
  match mappingLookup s spd addr with
  | none => some (s, einval)
  | some m => (mappingDelChildren K s m).map fun s => (s, 0)

/-- `mman_release_page`: positive flags name the component to release from. -/
def mmanReleasePage (s : State κ) (spd : SpdId) (addr : VAddr) (flags : Int) :
    Option (State κ × Int) :=
  let spd := if 0 < flags then flags.toNat % 65536 else spd
  match mappingLookup s spd addr with
  | none => some (s, -1)
  | some m => (mappingDel K s m).map fun s => (s, 0)

end

/-- How `mman_get_page` can return. -/
inductive GetExit (K : KernelOps κ) (s : State κ) (spd : SpdId) (addr : VAddr) (flags : Int) :
    State κ → Int → Prop where
  | noFrame : GetExit K s spd addr flags s (-1)
  | failed {f : Nat} {t : FrameTable} {s₁ : State κ} (popped : frameAlloc s.table = .ok (some f, t))
      (exit : CrtExit K { s with table := t } none f spd addr flags s₁ none) :
      GetExit K s spd addr flags { s₁ with table := frameDeref s₁.table f } (-1)
  | got {f : Nat} {t : FrameTable} {s₁ : State κ} {m : MapPtr} {k : κ}
      (popped : frameAlloc s.table = .ok (some f, t)) (nonzero : spd ≠ 0 ∧ addr ≠ 0)
      (exit : CrtExit K { s with table := t } none f spd addr flags s₁ (some m))
      (rooted : K.setRoot s₁.kern flags spd addr f = (k, 0)) :
      GetExit K s spd addr flags { s₁ with table := setRoot s₁.table f m, kern := k } addr

theorem mmanGetPage_exit {spd : SpdId} {ret : Int} (h : mmanGetPage K s spd addr flags env = some (s', ret)) :
    GetExit K s spd addr flags s' ret := by
  unfold mmanGetPage at h
  split at h
  · contradiction
  next t popped =>
    cases h
    rw [frameAlloc_none popped]
    exact .noFrame
  next f t popped =>
    split at h
    · contradiction
    next s1 created =>
      cases h
      exact .failed popped (mappingCrt_exit created).2.2
    next s1 m created =>
      simp only [ite_not, ite_none_right_eq_some] at h
      obtain ⟨_, rooted, rfl, rfl⟩ := h
      obtain ⟨someone, nonzero, exit⟩ := mappingCrt_exit created
      exact .got popped ⟨someone, nonzero⟩ exit (Prod.ext rfl rooted)

/-- How `mman_alias_page` can return. -/
inductive AliasExit (K : KernelOps κ) (s : State κ) (sSpd : SpdId) (sAddr : VAddr) (dSpd : SpdId)
    (flags : Int) (dAddr : VAddr) : State κ → Int → Prop where
  | noSource {ret : Int} (absent : mappingLookup s sSpd sAddr = none) (error : ret < 0) :
      AliasExit K s sSpd sAddr dSpd flags dAddr s ret
  | failed {m : MapPtr} {s₁ : State κ} (found : mappingLookup s sSpd sAddr = some m)
      (exit : CrtExit K s (some m) (s.maps m).f dSpd dAddr flags s₁ none) :
      AliasExit K s sSpd sAddr dSpd flags dAddr s₁ 0
  | aliased {m n : MapPtr} {s₁ : State κ} (found : mappingLookup s sSpd sAddr = some m)
      (nonzero : dSpd ≠ 0 ∧ dAddr ≠ 0)
      (exit : CrtExit K s (some m) (s.maps m).f dSpd dAddr flags s₁ (some n)) :
      AliasExit K s sSpd sAddr dSpd flags dAddr s₁ dAddr

theorem mmanAliasPage_exit {sSpd : SpdId} {sAddr : VAddr} {dSpd : SpdId} {dAddr : VAddr} {ret : Int}
    (h : mmanAliasPage K s sSpd sAddr dSpd flags dAddr env = some (s', ret)) :
    AliasExit K s sSpd sAddr dSpd flags dAddr s' ret := by
  unfold mmanAliasPage at h
  split at h
  next absent =>
    cases h
    refine .noSource absent ?_
    split <;> decide
  next m found =>
    split at h
    · contradiction
    next s1 created =>
      cases h
      exact .failed found (mappingCrt_exit created).2.2
    next s1 n created =>
      cases h
      obtain ⟨someone, nonzero, exit⟩ := mappingCrt_exit created
      exact .aliased found ⟨someone, nonzero⟩ exit

inductive Request where
  | getPage (spd : SpdId) (addr : VAddr) (flags : Int) (env : Env)
  | aliasPage (sSpd : SpdId) (sAddr : VAddr) (dSpd : SpdId) (flags : Int) (dAddr : VAddr) (env : Env)
  | revokePage (spd : SpdId) (addr : VAddr)
  | releasePage (spd : SpdId) (addr : VAddr) (flags : Int)
  deriving Repr

def serve (K : KernelOps κ) (s : State κ) : Request → Option (State κ × Int)
  | .getPage spd addr flags env => mmanGetPage K s spd addr flags env
  | .aliasPage sSpd sAddr dSpd flags dAddr env => mmanAliasPage K s sSpd sAddr dSpd flags dAddr env
  | .revokePage spd addr => mmanRevokePage K s spd addr
  | .releasePage spd addr flags => mmanReleasePage K s spd addr flags

/-- The manager after `mm_init`, with its heap at `heap`. -/
def init (heap : VAddr) (kern : κ) : State κ where
  table := frameInit
  comps := fun _ => none
  maps := fun _ => ⟨0, 0, 0, 0, none, none⟩
  sib := ⟨id, id⟩
  live := ∅
  heap := heap
  kern := kern

def memSystem (K : KernelOps κ) (heap : VAddr) (kern : κ) : Lib.Transition.System (State κ) Request where
  init := init heap kern
  step := fun s request => (serve K s request).map fst

end SuperGlue.Source.MemMgr.Mappings
