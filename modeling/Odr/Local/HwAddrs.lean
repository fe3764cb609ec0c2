/-
# The list of interfaces in memory

`get_hw_addrs` asks the kernel with larger and larger buffers until the length of the answer stays
the same, and makes a linked list of `struct hwa_info` of it, which `free_hwa_info` gives back;
`prhwaddrs_aa19.c` prints the list between the two.  `fill_if_info_list` copies the interfaces of
the list to blocks of their own and gives nothing back.  Here they are programs on a heap.

`prhwaddrs_safe` says that the list is the one that `getHwAddrs` makes of a complete answer of the
kernel, that no block is used that is not allocated, and that the heap is in the end as it was.
`interfaces_settled` says that the loops come to an end once the kernel keeps to its answer, and
how many blocks the daemon keeps.
-/
import Odr.Lib.Heap
import Odr.Local.Interfaces

namespace Odr

open Heap

/-- `EINVAL`. -/
def einval : ℤ := 22

/-- `sizeof(struct ifreq)`. -/
def sizeofIfreq : ℕ := 40

/-- What one call of `SIOCGIFCONF` meets: the addresses that the kernel knows, or an error. -/
inductive GifConf
  | table (t : List Ifreq)
  | fails (errno : ℤ)
deriving DecidableEq

/-- `struct hwa_info` in memory, with its pointers. -/
structure HwaCell (P : Type) where
  ifName : IfName
  ifHaddr : HwAddr
  ifIndex : ℤ
  ipAlias : ℤ
  ipAddr : Option P
  hwaNext : Option P

/-- `struct if_info` in memory, without its place in the list; `none` where nothing has been
written. -/
structure IfInfoCell (P : Type) where
  physicalAddr : Option P
  ipAddr : Option P
  /-- The characters of `if_name`, behind which no NUL is written. -/
  ifName : List Char
  llSockfd : Option ℤ

/-- `struct sockaddr_ll` in memory; `none` where nothing has been written. -/
structure SockaddrLl where
  sllAddr : Option HwAddr
  sllIfindex : Option ℤ

/-- The blocks that are allocated: the buffer for `SIOCGIFCONF` with the requests that have been
written to it, the structures, and memory to which nothing has been written. -/
inductive Block (P : Type)
  | ifreqs (buf : List Ifreq)
  | hwaInfo (c : HwaCell P)
  | sockaddr (sa : Bytes)
  | ifInfo (c : IfInfoCell P)
  | sockaddrLl (sa : SockaddrLl)
  | unset

/-- What `prhwaddrs` prints of an element. -/
structure HwaLine where
  ifName : IfName
  isAlias : Bool
  ipAddr : Option Bytes
  /-- The hardware address, unless it is zero. -/
  hwAddr : Option HwAddr
  ifIndex : ℤ
deriving DecidableEq

/-- The line for an element. -/
def HwaInfo.line (hwa : HwaInfo) : HwaLine :=
  ⟨hwa.ifName, hwa.ipAlias = 1, some hwa.ipAddr,
    if hwa.ifHaddr = 0 then none else some hwa.ifHaddr, hwa.ifIndex⟩

namespace HwaMemory

/-! ## The programs -/

section

variable {P : Type} [DecidableEq P] (A : Allocator P (Block P)) (k : Kernel) (conf : ℕ → GifConf)

/-- The requests in a buffer. -/
def loadIfreqs (buf : P) : Prog P (Block P) (List Ifreq) := do
  match ← load buf with
  | .ifreqs l => pure l
  | _ => stop .fault

/-- The request at an index of the buffer. -/
def loadItem (buf : P) (i : ℕ) : Prog P (Block P) Ifreq := do
  match (← loadIfreqs buf)[i]? with
  | some item => pure item
  | none => stop .fault

/-- Write the request at an index of the buffer. -/
def storeItem (buf : P) (i : ℕ) (item : Ifreq) : Prog P (Block P) Unit := do
  let l ← loadIfreqs buf
  store buf (.ifreqs (l.set i item))

/-- The `struct hwa_info` at an address. -/
def loadHwa (p : P) : Prog P (Block P) (HwaCell P) := do
  match ← load p with
  | .hwaInfo c => pure c
  | _ => stop .fault

/-- Write to the `struct hwa_info` at an address. -/
def modifyHwa (p : P) (f : HwaCell P → HwaCell P) : Prog P (Block P) Unit := do
  let c ← loadHwa p
  store p (.hwaInfo (f c))

/-- The `struct sockaddr` at an address. -/
def loadSockaddr (p : P) : Prog P (Block P) Bytes := do
  match ← load p with
  | .sockaddr sa => pure sa
  | _ => stop .fault

/-- The `struct if_info` at an address. -/
def loadIfInfo (p : P) : Prog P (Block P) (IfInfoCell P) := do
  match ← load p with
  | .ifInfo c => pure c
  | _ => stop .fault

/-- Write to the `struct if_info` at an address. -/
def modifyIfInfo (p : P) (f : IfInfoCell P → IfInfoCell P) : Prog P (Block P) Unit := do
  let c ← loadIfInfo p
  store p (.ifInfo (f c))

/-- The `struct sockaddr_ll` at an address. -/
def loadSockaddrLl (p : P) : Prog P (Block P) SockaddrLl := do
  match ← load p with
  | .sockaddrLl sa => pure sa
  | _ => stop .fault

/-- Write to the `struct sockaddr_ll` at an address. -/
def modifySockaddrLl (p : P) (f : SockaddrLl → SockaddrLl) : Prog P (Block P) Unit := do
  let sa ← loadSockaddrLl p
  store p (.sockaddrLl (f sa))

/-- What a pointer or a field says, unless it is null or nothing has been written to it. -/
def deref {α : Type} : Option α → Prog P (Block P) α
  | some a => pure a
  | none => stop .fault

/-- The loop of `get_hw_addrs` that calls `SIOCGIFCONF`, from the pass `i` on; the kernel writes as
many requests as fit into the buffer.  The buffer and `ifc.ifc_len` are what is left of it. -/
def confLoop : ℕ → ℕ → ℕ → ℕ → Prog P (Block P) (P × ℕ)
  | 0, _, _, _ => stop .fuel
  | fuel + 1, i, len, lastlen => do
      let buf ← alloc A (.ifreqs [])
      match conf i with
      | .fails errno =>
          if errno ≠ einval ∨ lastlen ≠ 0 then stop .exit
          else do
            free buf
            confLoop fuel (i + 1) (len + 10 * sizeofIfreq) lastlen
      | .table t =>
          store buf (.ifreqs (t.take (len / sizeofIfreq)))
          let ifcLen := sizeofIfreq * (t.take (len / sizeofIfreq)).length
          if ifcLen = lastlen then pure (buf, ifcLen)
          else do
            free buf
            confLoop fuel (i + 1) (len + 10 * sizeofIfreq) ifcLen

/-- `*hwapnext = hwa`, where `hwapnext` points to `hwahead` (`none`) or to the `hwa_next` of an
element; the new `hwahead`. -/
def link (hwahead hwapnext : Option P) (hwa : P) : Prog P (Block P) (Option P) :=
  match hwapnext with
  | none => pure (some hwa)
  | some p => do
      modifyHwa p fun c => { c with hwaNext := some hwa }
      pure hwahead

/-- What `Calloc` leaves in a `struct hwa_info`. -/
def callocHwa : HwaCell P := ⟨IfName.cut [], 0, 0, 0, none, none⟩

/-- The loop of `get_hw_addrs` over the requests, from the index `i` on. -/
def hwaLoop (buf : P) : ℕ → ℕ → Option P → Option P → List Char → Prog P (Block P) (Option P)
  | 0, _, hwahead, _, _ => pure hwahead
  | n + 1, i, hwahead, hwapnext, lastname => do
      let hwa ← alloc A (.hwaInfo callocHwa)
      let item ← loadItem buf i
      modifyHwa hwa fun c => { c with ifName := item.ifrName }
      -- the colon is replaced in the buffer
      storeItem buf i { item with ifrName := item.ifrName.device }
      let item ← loadItem buf i
      let ipAlias := if lastname = item.ifrName.str then 1 else 0
      let ifrcopy := item
      let hwahead ← link hwahead hwapnext hwa
      modifyHwa hwa fun c => { c with ipAlias := ipAlias }
      let ipAddr ← alloc A (.sockaddr (List.replicate 16 0))
      modifyHwa hwa fun c => { c with ipAddr := some ipAddr }
      store ipAddr (.sockaddr (item.ifrIfru.take 16))
      let hwaddr := afterIoctl ifrcopy.ifrIfru (k.siocgifhwaddr ifrcopy.ifrName)
      modifyHwa hwa fun c => { c with ifHaddr := hwAddrAt hwaddr 2 }
      let index := afterIoctl hwaddr (k.siocgifindex ifrcopy.ifrName)
      modifyHwa hwa fun c => { c with ifIndex := intAt index 0 }
      hwaLoop buf n (i + 1) hwahead (some hwa) item.ifrName.str

/-- `get_hw_addrs`. -/
def getHwAddrs (fuel : ℕ) : Prog P (Block P) (Option P) := do
  let ifc ← confLoop A conf fuel 0 (100 * sizeofIfreq) 0
  let hwahead ← hwaLoop A k ifc.1 (ifc.2 / sizeofIfreq) 0 none none []
  free ifc.1
  pure hwahead

/-- `Get_hw_addrs`. -/
def getHwAddrsOrQuit (fuel : ℕ) : Prog P (Block P) (Option P) := do
  let hwa ← getHwAddrs A k conf fuel
  if hwa = none then stop .exit else pure hwa

/-- `free_hwa_info`. -/
def freeHwaInfo : ℕ → Option P → Prog P (Block P) Unit
  | _, none => pure ()
  | 0, some _ => stop .fuel
  | fuel + 1, some hwa => do
      match (← loadHwa hwa).ipAddr with
      | some ipAddr => free ipAddr
      | none => pure ()
      let hwanext := (← loadHwa hwa).hwaNext
      free hwa
      freeHwaInfo fuel hwanext

/-- The loop of `prhwaddrs`, with the lines that it prints. -/
def printLoop : ℕ → Option P → Prog P (Block P) (List HwaLine)
  | _, none => pure []
  | 0, some _ => stop .fuel
  | fuel + 1, some hwa => do
      let c ← loadHwa hwa
      let sa ← match c.ipAddr with
        | some p => some <$> loadSockaddr p
        | none => pure none
      let rest ← printLoop fuel c.hwaNext
      pure (⟨c.ifName, c.ipAlias = 1, sa, if c.ifHaddr = 0 then none else some c.ifHaddr,
        c.ifIndex⟩ :: rest)

/-- The entry that `fill_if_info_list` makes of an element of the list.  `malloc` is not checked, so
that its null pointer would be used. -/
def addIfInfo (hwa : HwaCell P) (ipAddr : Bytes) (ifInfoList : List P) :
    Prog P (Block P) (List P) := do
  let tmp ← deref (← malloc A (.ifInfo ⟨none, none, [], none⟩))
  let physicalAddr ← malloc A (.sockaddrLl ⟨none, none⟩)
  modifyIfInfo tmp fun c => { c with physicalAddr := physicalAddr }
  let physicalAddr ← deref physicalAddr
  modifySockaddrLl physicalAddr fun a => { a with sllAddr := some hwa.ifHaddr }
  modifySockaddrLl physicalAddr fun a => { a with sllIfindex := some hwa.ifIndex }
  let sa ← malloc A .unset
  modifyIfInfo tmp fun c => { c with ipAddr := sa }
  store (← deref sa) (.sockaddr ipAddr)
  modifyIfInfo tmp fun c => { c with ifName := hwa.ifName.str }
  modifyIfInfo tmp fun c => { c with llSockfd := some 0 }
  -- `list_add`
  pure (tmp :: ifInfoList)

/-- The loop of `fill_if_info_list`, which adds entries at the head of `if_info_list`. -/
def fillLoop : ℕ → Option P → List P → Prog P (Block P) (List P)
  | _, none, ifInfoList => pure ifInfoList
  | 0, some _, _ => stop .fuel
  | fuel + 1, some hwa, ifInfoList => do
      let c ← loadHwa hwa
      -- `Sock_ntop` reads the address of every element
      let ipAddr ← loadSockaddr (← deref c.ipAddr)
      let ifInfoList ← if c.ifName.entered then addIfInfo A c ipAddr ifInfoList else pure ifInfoList
      fillLoop fuel (← loadHwa hwa).hwaNext ifInfoList

/-- `fill_if_info_list`, which gives back neither the list nor the two blocks that it allocates
first. -/
def fillIfInfoList (fuel : ℕ) : Prog P (Block P) (List P) := do
  let _ ← malloc A .unset
  let _ ← malloc A .unset
  let hwahead ← getHwAddrsOrQuit A k conf fuel
  fillLoop A fuel hwahead []

/-- What the senders read of the entries, from the end of `if_info_list` on. -/
def readIfInfoList : List P → Prog P (Block P) (List IfInfo)
  | [] => pure []
  | tmp :: entries => do
      let physicalAddr ← loadSockaddrLl (← deref (← loadIfInfo tmp).physicalAddr)
      let sllAddr ← deref physicalAddr.sllAddr
      let sllIfindex ← deref physicalAddr.sllIfindex
      let rest ← readIfInfoList entries
      pure (⟨sllAddr, sllIfindex⟩ :: rest)

/-- `main` of `prhwaddrs_aa19.c`. -/
def prhwaddrs (fuel : ℕ) : Prog P (Block P) (List HwaLine) := do
  let hwahead ← getHwAddrsOrQuit A k conf fuel
  let lines ← printLoop fuel hwahead
  freeHwaInfo fuel hwahead
  pure lines

end

/-! ## Chains -/

/-- An element of the list: its block, the block of its address, and what it holds. -/
structure Entry (P : Type) where
  hwa : P
  ipAddr : P
  info : HwaInfo

section

variable {P : Type}

/-- The first element, or the pointer behind the chain. -/
def firstOf : List (Entry P) → Option P → Option P
  | [], next => next
  | e :: _, _ => some e.hwa

/-- The last element. -/
def lastOf (es : List (Entry P)) : Option P := es.getLast?.map Entry.hwa

/-- The `struct hwa_info` of an element. -/
def Entry.cell (e : Entry P) (next : Option P) : HwaCell P :=
  ⟨e.info.ifName, e.info.ifHaddr, e.info.ifIndex, e.info.ipAlias, some e.ipAddr, next⟩

/-- The blocks of a chain that ends in the pointer `next`. -/
def chain : List (Entry P) → Option P → List (P × Block P)
  | [], _ => []
  | e :: es, next =>
      (e.hwa, .hwaInfo (e.cell (firstOf es next))) :: (e.ipAddr, .sockaddr e.info.ipAddr) ::
        chain es next

variable {es es' : List (Entry P)} {next : Option P}

lemma firstOf_append : firstOf (es ++ es') next = firstOf es (firstOf es' next) := by
  cases es <;> rfl

lemma chain_append : chain (es ++ es') next = chain es (firstOf es' next) ++ chain es' next := by
  induction es with
  | nil => rfl
  | cons e es ih => rw [List.cons_append, chain, chain, ih, firstOf_append]; rfl

lemma length_chain : (chain es next).length = 2 * es.length := by
  induction es with
  | nil => rfl
  | cons e es ih =>
    rw [chain, List.length_cons, List.length_cons, List.length_cons, ih]
    omega

/-- An entry of `if_info_list`: its three blocks, and the element of which it has been made. -/
structure IfEntry (P : Type) where
  tmp : P
  physicalAddr : P
  ipAddr : P
  info : HwaInfo

/-- The blocks of an entry. -/
def IfEntry.blocks (e : IfEntry P) : List (P × Block P) :=
  [(e.ipAddr, .sockaddr e.info.ipAddr),
    (e.physicalAddr, .sockaddrLl ⟨some e.info.ifHaddr, some e.info.ifIndex⟩),
    (e.tmp, .ifInfo ⟨some e.physicalAddr, some e.ipAddr, e.info.ifName.str, some 0⟩)]

/-- What the senders read of an entry. -/
def IfEntry.ifInfo (e : IfEntry P) : IfInfo := ⟨e.info.ifHaddr, e.info.ifIndex⟩

lemma length_blocks (es : List (IfEntry P)) :
    (es.flatMap IfEntry.blocks).length = 3 * es.length := by
  induction es with
  | nil => rfl
  | cons e es ih =>
    rw [List.flatMap_cons, List.length_append, ih, List.length_cons]
    change 3 + 3 * es.length = _
    omega

end

/-! ## The commands -/

section

variable {P β : Type} [DecidableEq P] {A : Allocator P (Block P)} {k : Kernel} {conf : ℕ → GifConf}
  {stops : Stop → Prop} {h₀ : P → Option (Block P)} {cells l₁ l₂ : List (P × Block P)}
  {buf p : P} {l : List Ifreq} {c : HwaCell P} {sa : Bytes} {i : ℕ} {item : Ifreq}
  {Q : β → List (P × Block P) → Prop}

omit [DecidableEq P] in
lemma meets_loadIfreqs {f : List Ifreq → Prog P (Block P) β} (hmem : (buf, .ifreqs l) ∈ cells)
    (hf : Meets stops h₀ cells (f l) Q) : Meets stops h₀ cells (loadIfreqs buf >>= f) Q := by
  rw [loadIfreqs, bind_assoc]
  exact meets_load hmem (by rwa [pure_bind])

omit [DecidableEq P] in
lemma meets_loadItem {f : Ifreq → Prog P (Block P) β} (hmem : (buf, .ifreqs l) ∈ cells)
    (hi : l[i]? = some item) (hf : Meets stops h₀ cells (f item) Q) :
    Meets stops h₀ cells (loadItem buf i >>= f) Q := by
  rw [loadItem, bind_assoc]
  refine meets_loadIfreqs hmem ?_
  rw [hi]
  rwa [pure_bind]

omit [DecidableEq P] in
lemma meets_loadHwa {f : HwaCell P → Prog P (Block P) β} (hmem : (p, .hwaInfo c) ∈ cells)
    (hf : Meets stops h₀ cells (f c) Q) : Meets stops h₀ cells (loadHwa p >>= f) Q := by
  rw [loadHwa, bind_assoc]
  exact meets_load hmem (by rwa [pure_bind])

omit [DecidableEq P] in
lemma meets_loadSockaddr {f : Bytes → Prog P (Block P) β} (hmem : (p, .sockaddr sa) ∈ cells)
    (hf : Meets stops h₀ cells (f sa) Q) : Meets stops h₀ cells (loadSockaddr p >>= f) Q := by
  rw [loadSockaddr, bind_assoc]
  exact meets_load hmem (by rwa [pure_bind])

omit [DecidableEq P] in
lemma meets_loadIfInfo {f : IfInfoCell P → Prog P (Block P) β} {c : IfInfoCell P}
    (hmem : (p, .ifInfo c) ∈ cells) (hf : Meets stops h₀ cells (f c) Q) :
    Meets stops h₀ cells (loadIfInfo p >>= f) Q := by
  rw [loadIfInfo, bind_assoc]
  exact meets_load hmem (by rwa [pure_bind])

omit [DecidableEq P] in
lemma meets_loadSockaddrLl {f : SockaddrLl → Prog P (Block P) β} {a : SockaddrLl}
    (hmem : (p, .sockaddrLl a) ∈ cells) (hf : Meets stops h₀ cells (f a) Q) :
    Meets stops h₀ cells (loadSockaddrLl p >>= f) Q := by
  rw [loadSockaddrLl, bind_assoc]
  exact meets_load hmem (by rwa [pure_bind])

omit [DecidableEq P] in
lemma meets_deref {α : Type} {f : α → Prog P (Block P) β} {a : α}
    (hf : Meets stops h₀ cells (f a) Q) : Meets stops h₀ cells (deref (some a) >>= f) Q := by
  rwa [deref, pure_bind]

lemma meets_storeItem {f : Unit → Prog P (Block P) β} (l₁ : List (P × Block P))
    (hf : Meets stops h₀ (l₁ ++ (buf, .ifreqs (l.set i item)) :: l₂) (f ()) Q) :
    Meets stops h₀ (l₁ ++ (buf, .ifreqs l) :: l₂) (storeItem buf i item >>= f) Q := by
  rw [storeItem, bind_assoc]
  exact meets_loadIfreqs (by simp) (meets_store l₁ hf)

lemma meets_modifyHwa {f : Unit → Prog P (Block P) β} {g : HwaCell P → HwaCell P}
    (l₁ : List (P × Block P))
    (hf : Meets stops h₀ (l₁ ++ (p, .hwaInfo (g c)) :: l₂) (f ()) Q) :
    Meets stops h₀ (l₁ ++ (p, .hwaInfo c) :: l₂) (modifyHwa p g >>= f) Q := by
  rw [modifyHwa, bind_assoc]
  exact meets_loadHwa (by simp) (meets_store l₁ hf)

lemma meets_modifyIfInfo {f : Unit → Prog P (Block P) β} {g : IfInfoCell P → IfInfoCell P}
    {c : IfInfoCell P} (l₁ : List (P × Block P))
    (hf : Meets stops h₀ (l₁ ++ (p, .ifInfo (g c)) :: l₂) (f ()) Q) :
    Meets stops h₀ (l₁ ++ (p, .ifInfo c) :: l₂) (modifyIfInfo p g >>= f) Q := by
  rw [modifyIfInfo, bind_assoc]
  exact meets_loadIfInfo (by simp) (meets_store l₁ hf)

lemma meets_modifySockaddrLl {f : Unit → Prog P (Block P) β} {g : SockaddrLl → SockaddrLl}
    {a : SockaddrLl} (l₁ : List (P × Block P))
    (hf : Meets stops h₀ (l₁ ++ (p, .sockaddrLl (g a)) :: l₂) (f ()) Q) :
    Meets stops h₀ (l₁ ++ (p, .sockaddrLl a) :: l₂) (modifySockaddrLl p g >>= f) Q := by
  rw [modifySockaddrLl, bind_assoc]
  exact meets_loadSockaddrLl (by simp) (meets_store l₁ hf)

/-- The pointer at the end of the chain is set. -/
lemma meets_link {f : Option P → Prog P (Block P) β} {es : List (Entry P)} {hwa : P}
    (l₁ : List (P × Block P))
    (hf : Meets stops h₀ (l₁ ++ chain es (some hwa)) (f (firstOf es (some hwa))) Q) :
    Meets stops h₀ (l₁ ++ chain es none) (link (firstOf es none) (lastOf es) hwa >>= f) Q := by
  rcases List.eq_nil_or_concat' es with rfl | ⟨es', e, rfl⟩
  · exact hf
  · have hlast : lastOf (es' ++ [e]) = some e.hwa := by simp [lastOf]
    rw [firstOf_append] at hf ⊢
    rw [hlast, link, bind_assoc]
    rw [chain_append, ← List.append_assoc] at hf ⊢
    refine meets_modifyHwa (l₁ ++ chain es' (some e.hwa)) ?_
    rwa [pure_bind]

omit [DecidableEq P] in
/-- The two blocks of a new element belong to the end of the chain. -/
lemma perm_new (x y z : P × Block P) (l : List (P × Block P)) :
    (x :: y :: z :: l).Perm (z :: (l ++ [y, x])) :=
  calc (x :: y :: z :: l).Perm (z :: ([x, y] ++ l)) := @List.perm_middle _ z [x, y] l
    _ |>.Perm (z :: (l ++ [x, y])) := List.perm_append_comm.cons z
    _ |>.Perm (z :: (l ++ [y, x])) := ((List.Perm.swap y x []).append_left l).cons z

/-- The loop appends an element for each of the `n` requests from the index `i` on. -/
lemma meets_hwaLoop {n : ℕ} {es : List (Entry P)} {lastname : List Char}
    (hroom : Affords stops h₀ A (2 * (es.length + n) + 1)) (hn : i + n ≤ l.length) :
    Meets stops h₀ ((buf, .ifreqs l) :: chain es none)
      (hwaLoop A k buf n i (firstOf es none) (lastOf es) lastname) fun hwahead cells =>
        ∃ l' es', hwahead = firstOf es' none ∧ cells.Perm ((buf, .ifreqs l') :: chain es' none) ∧
          es'.map Entry.info
            = es.map Entry.info ++ Odr.hwaLoop k lastname ((l.drop i).take n) := by
  induction n generalizing i l es lastname with
  | zero =>
    rw [hwaLoop]
    exact meets_pure ⟨l, es, rfl, .rfl, by simp [Odr.hwaLoop]⟩
  | succ n ih =>
    have hi : i < l.length := by omega
    obtain ⟨item, hitem⟩ : ∃ item, l[i]? = some item := ⟨l[i], List.getElem?_eq_getElem hi⟩
    have hset : (l.set i { item with ifrName := item.ifrName.device })[i]?
        = some { item with ifrName := item.ifrName.device } := List.getElem?_set_self hi
    have hitems : (l.drop i).take (n + 1) = item :: (l.drop (i + 1)).take n := by
      rw [List.drop_eq_getElem_cons hi, List.take_succ_cons]
      rw [List.getElem?_eq_getElem hi, Option.some.injEq] at hitem
      rw [hitem]
    rw [hwaLoop]
    refine meets_alloc (hroom.mono (by rw [List.length_cons, length_chain]; omega)) fun hwa => ?_
    refine meets_loadItem (by simp) hitem ?_
    refine meets_modifyHwa [] ?_
    refine meets_storeItem [_] ?_
    refine meets_loadItem (by simp) hset ?_
    refine meets_link [_, _] ?_
    refine meets_modifyHwa [] ?_
    refine meets_alloc (hroom.mono ?_) fun ipAddr => ?_
    · simp only [List.nil_append, List.append_eq, List.length_append, List.length_cons,
        List.length_nil, length_chain]
      omega
    refine meets_modifyHwa [_] ?_
    refine meets_store [] ?_
    refine meets_modifyHwa [_] ?_
    refine meets_modifyHwa [_] ?_
    obtain ⟨e, he⟩ : ∃ e : Entry P, e = ⟨hwa, ipAddr, item.hwaInfo k
      (if lastname = item.ifrName.device.str then 1 else 0)⟩ := ⟨_, rfl⟩
    have hlast : some hwa = lastOf (es ++ [e]) := by simp [lastOf, he]
    have hfirst : firstOf es (some hwa) = firstOf (es ++ [e]) none := by
      rw [firstOf_append, he]
      rfl
    have hchain : chain (es ++ [e]) none = chain es (some hwa) ++ chain [e] none := by
      rw [chain_append, he]
      rfl
    have hrest := @ih (l.set i { item with ifrName := item.ifrName.device }) (i + 1) (es ++ [e])
      item.ifrName.device.str
      (hroom.mono (by rw [List.length_append, List.length_singleton]; omega))
      (by rw [List.length_set]; omega)
    rw [← hfirst, ← hlast, hchain] at hrest
    refine (hrest.imp ?_).perm ?_
    · rintro hwahead cells' ⟨l', es', hhead, hperm, hinfo⟩
      refine ⟨l', es', hhead, hperm, hinfo.trans ?_⟩
      rw [hitems, Odr.hwaLoop, List.drop_set_of_lt (Nat.lt_succ_self i), List.map_append,
        List.append_assoc, he]
      rfl
    · rw [he]
      exact perm_new _ _ _ _

/-- A buffer in which an answer no longer than one that fitted a smaller buffer lies holds all of
it. -/
lemma take_of_lastlen {t : List Ifreq} {len lastlen : ℕ} (hlen : lastlen + sizeofIfreq ≤ len)
    (heq : sizeofIfreq * (t.take (len / sizeofIfreq)).length = lastlen) :
    t.take (len / sizeofIfreq) = t := by
  simp only [sizeofIfreq, List.length_take] at hlen heq ⊢
  exact List.take_of_length_le (by omega)

/-- The answer that `get_hw_addrs` goes on with is a complete one. -/
lemma meets_confLoop (hexit : stops .exit) (hfuel : stops .fuel) {fuel len lastlen : ℕ}
    (hlen : lastlen + sizeofIfreq ≤ len) :
    Meets stops h₀ [] (confLoop A conf fuel i len lastlen) fun ifc cells =>
      ∃ t, (∃ j, conf j = .table t) ∧ ifc.2 = sizeofIfreq * t.length ∧
        cells = [(ifc.1, .ifreqs t)] := by
  induction fuel generalizing i len lastlen with
  | zero => exact meets_stop hfuel
  | succ fuel ih =>
    have hsize : 0 < sizeofIfreq := by decide
    rw [confLoop]
    refine meets_alloc (Or.inl hexit) fun buf => ?_
    rcases hi : conf i with t | errno
    · refine meets_store [] ?_
      dsimp only
      split
      · next heq =>
        have htake := take_of_lastlen hlen heq
        refine meets_pure ⟨t, ⟨i, hi⟩, ?_, ?_⟩
        · rw [htake]
        · rw [htake]
          rfl
      · refine meets_free [] (ih ?_)
        have hle := Nat.mul_div_le len sizeofIfreq
        have hmin : (t.take (len / sizeofIfreq)).length ≤ len / sizeofIfreq :=
          List.length_take_le _ _
        have hmul := Nat.mul_le_mul_left sizeofIfreq hmin
        omega
    · dsimp only
      split
      · exact meets_stop hexit
      · exact meets_free [] (ih (by omega))

/-- From the pass `j` on the kernel keeps to one answer; before it has no answer for a buffer as
small as those that it is given. -/
structure Settled (conf : ℕ → GifConf) (j : ℕ) (t : List Ifreq) : Prop where
  before : ∀ i < j, conf i = .fails einval
  after : ∀ i, j ≤ i → conf i = .table t

/-- Then the loop comes to an end. -/
lemma meets_confLoop_settled {j : ℕ} {t : List Ifreq} (hs : Settled conf j t)
    (hroom : Affords stops h₀ A 0) {fuel lastlen : ℕ}
    (hlast : i ≤ j ∧ lastlen = 0 ∧ j - i + t.length + 2 ≤ fuel ∨
      j < i ∧ lastlen = sizeofIfreq * min t.length (90 + 10 * i) ∧ t.length - i + 1 ≤ fuel) :
    Meets stops h₀ [] (confLoop A conf fuel i (sizeofIfreq * (100 + 10 * i)) lastlen)
      fun ifc cells => ∃ t', t' = t ∧ ifc.2 = sizeofIfreq * t'.length ∧
        cells = [(ifc.1, .ifreqs t')] := by
  induction fuel generalizing i lastlen with
  | zero => omega
  | succ fuel ih =>
    have hsize : 0 < sizeofIfreq := by decide
    have hdiv : sizeofIfreq * (100 + 10 * i) / sizeofIfreq = 100 + 10 * i :=
      Nat.mul_div_cancel_left _ hsize
    have hnext : sizeofIfreq * (100 + 10 * i) + 10 * sizeofIfreq
        = sizeofIfreq * (100 + 10 * (i + 1)) := by ring
    rw [confLoop]
    refine meets_alloc hroom fun buf => ?_
    rcases lt_or_ge i j with hij | hij
    · rw [hs.before i hij]
      have h0 : lastlen = 0 := by omega
      rw [hnext]
      dsimp only
      rw [if_neg (by simp [h0])]
      exact meets_free [] (ih (Or.inl (by omega)))
    · rw [hs.after i hij, hdiv, hnext]
      refine meets_store [] ?_
      dsimp only
      split
      · next heq =>
        have htake : t.take (100 + 10 * i) = t := by
          refine List.take_of_length_le ?_
          simp only [sizeofIfreq, List.length_take] at heq hlast
          omega
        rw [htake]
        exact meets_pure ⟨t, rfl, rfl, rfl⟩
      · next hne =>
        refine meets_free [] (ih (Or.inr ?_))
        simp only [sizeofIfreq, List.length_take] at hne hlast ⊢
        omega

variable {R : List Ifreq → Prop} {es : List (Entry P)} {fuel : ℕ}

/-- `get_hw_addrs` makes the list of a complete answer and keeps no other block. -/
lemma meets_getHwAddrs
    (hconf : Meets stops h₀ [] (confLoop A conf fuel 0 (100 * sizeofIfreq) 0) fun ifc cells =>
      ∃ t, R t ∧ ifc.2 = sizeofIfreq * t.length ∧ cells = [(ifc.1, .ifreqs t)])
    (hroom : ∀ t, R t → Affords stops h₀ A (2 * t.length + 1)) :
    Meets stops h₀ [] (getHwAddrs A k conf fuel) fun hwahead cells =>
      ∃ t es, R t ∧ hwahead = firstOf es none ∧ cells.Perm (chain es none) ∧
        es.map Entry.info = Odr.getHwAddrs k t := by
  refine hconf.bind fun ifc cells => ?_
  rintro ⟨t, hR, hlen, rfl⟩
  rw [hlen, Nat.mul_div_cancel_left _ (by decide)]
  have hloop := @meets_hwaLoop P _ A k stops h₀ ifc.1 t 0 t.length [] [] (by simpa using hroom t hR)
    (Nat.zero_add _).le
  refine hloop.bind ?_
  rintro hwahead cells ⟨l', es, rfl, hperm, hinfo⟩
  refine Meets.perm (meets_free [] ?_) hperm
  refine meets_pure ⟨t, es, hR, rfl, .rfl, hinfo.trans ?_⟩
  rw [List.drop_zero, List.take_length]
  rfl

omit [DecidableEq P] in
/-- The loop of `prhwaddrs` prints the list. -/
lemma meets_printLoop (hfuel : stops .fuel ∨ es.length ≤ fuel) (hsub : chain es none ⊆ cells) :
    Meets stops h₀ cells (printLoop fuel (firstOf es none)) fun lines cells' =>
      cells' = cells ∧ lines = es.map fun e => e.info.line := by
  induction es generalizing fuel with
  | nil =>
    rw [firstOf, printLoop]
    exact meets_pure ⟨rfl, rfl⟩
  | cons e es ih =>
    cases fuel with
    | zero =>
      rw [firstOf, printLoop]
      exact meets_stop (hfuel.resolve_right (by simp))
    | succ fuel =>
      rw [chain, List.cons_subset, List.cons_subset] at hsub
      rw [firstOf, printLoop]
      refine meets_loadHwa hsub.1 ?_
      dsimp only [Entry.cell]
      rw [map_eq_pure_bind, bind_assoc]
      refine meets_loadSockaddr hsub.2.1 ?_
      rw [pure_bind]
      refine (ih (hfuel.imp_right Nat.le_of_succ_le_succ) hsub.2.2).bind ?_
      rintro rest cells' ⟨rfl, rfl⟩
      exact meets_pure ⟨rfl, rfl⟩

/-- `free_hwa_info` gives every block of the list back. -/
lemma meets_freeHwaInfo (hfuel : stops .fuel ∨ es.length ≤ fuel) :
    Meets stops h₀ (chain es none) (freeHwaInfo fuel (firstOf es none)) fun _ cells =>
      cells = [] := by
  induction es generalizing fuel with
  | nil =>
    rw [firstOf, freeHwaInfo]
    exact meets_pure rfl
  | cons e es ih =>
    cases fuel with
    | zero =>
      rw [firstOf, freeHwaInfo]
      exact meets_stop (hfuel.resolve_right (by simp))
    | succ fuel =>
      rw [firstOf, chain, freeHwaInfo]
      refine meets_loadHwa List.mem_cons_self ?_
      dsimp only [Entry.cell]
      refine meets_free [_] ?_
      refine meets_loadHwa List.mem_cons_self ?_
      exact meets_free [] (ih (hfuel.imp_right Nat.le_of_succ_le_succ))

lemma length_getHwAddrs (k : Kernel) (t : List Ifreq) : (Odr.getHwAddrs k t).length = t.length := by
  simpa using congrArg List.length (map_getHwAddrs k t)

/-- `Get_hw_addrs` returns a list with elements. -/
lemma meets_getHwAddrsOrQuit
    (hconf : Meets stops h₀ [] (confLoop A conf fuel 0 (100 * sizeofIfreq) 0) fun ifc cells =>
      ∃ t, R t ∧ ifc.2 = sizeofIfreq * t.length ∧ cells = [(ifc.1, .ifreqs t)])
    (hroom : ∀ t, R t → Affords stops h₀ A (2 * t.length + 1))
    (hexit : stops .exit ∨ ∀ t, R t → t ≠ []) :
    Meets stops h₀ [] (getHwAddrsOrQuit A k conf fuel) fun hwahead cells =>
      ∃ t es, R t ∧ hwahead = firstOf es none ∧ cells.Perm (chain es none) ∧
        es.map Entry.info = Odr.getHwAddrs k t ∧ es.length = t.length := by
  rw [getHwAddrsOrQuit]
  refine (meets_getHwAddrs hconf hroom).bind ?_
  rintro hwahead cells ⟨t, es, hR, rfl, hperm, hinfo⟩
  have hlen : es.length = t.length := by
    have h := congrArg List.length hinfo
    rwa [List.length_map, length_getHwAddrs] at h
  cases es with
  | nil =>
    have ht : t = [] := List.length_eq_zero_iff.mp hlen.symm
    rw [firstOf, if_pos rfl]
    exact meets_stop (hexit.resolve_right fun h => h t hR ht)
  | cons e es =>
    rw [if_neg (by simp [firstOf])]
    exact meets_pure ⟨t, e :: es, hR, rfl, hperm, hinfo, hlen⟩

/-- `prhwaddrs` prints the list of a complete answer and gives back all that it has allocated. -/
lemma meets_prhwaddrs
    (hconf : Meets stops h₀ [] (confLoop A conf fuel 0 (100 * sizeofIfreq) 0) fun ifc cells =>
      ∃ t, R t ∧ ifc.2 = sizeofIfreq * t.length ∧ cells = [(ifc.1, .ifreqs t)])
    (hroom : ∀ t, R t → Affords stops h₀ A (2 * t.length + 1))
    (hexit : stops .exit ∨ ∀ t, R t → t ≠ [])
    (hfuel : stops .fuel ∨ ∀ t, R t → t.length ≤ fuel) :
    Meets stops h₀ [] (prhwaddrs A k conf fuel) fun lines cells =>
      cells = [] ∧ ∃ t, R t ∧ lines = (Odr.getHwAddrs k t).map HwaInfo.line := by
  rw [prhwaddrs]
  refine (meets_getHwAddrsOrQuit hconf hroom hexit).bind ?_
  rintro hwahead cells ⟨t, es, hR, rfl, hperm, hinfo, hlen⟩
  have hwalk : stops .fuel ∨ es.length ≤ fuel := hfuel.imp_right fun h => hlen ▸ h t hR
  refine Meets.perm ?_ hperm
  refine (meets_printLoop hwalk (List.Subset.refl _)).bind ?_
  rintro lines cells' ⟨rfl, rfl⟩
  refine (meets_freeHwaInfo hwalk).bind ?_
  rintro _ cells' rfl
  refine meets_pure ⟨rfl, t, hR, ?_⟩
  rw [← hinfo, List.map_map]
  rfl

/-- A new entry has three blocks. -/
lemma meets_addIfInfo {f : List P → Prog P (Block P) β} {ifInfoList : List P}
    (hroom : HasRoom h₀ A (cells.length + 2))
    (hf : ∀ e : IfEntry P, e.info = ⟨c.ifName, c.ifHaddr, c.ifIndex, c.ipAlias, sa⟩ →
      Meets stops h₀ (e.blocks ++ cells) (f (e.tmp :: ifInfoList)) Q) :
    Meets stops h₀ cells (addIfInfo A c sa ifInfoList >>= f) Q := by
  simp only [addIfInfo, bind_assoc]
  refine meets_malloc (hroom.mono (by omega)) fun tmp => ?_
  refine meets_deref ?_
  refine meets_malloc (hroom.mono (by simp)) fun physicalAddr => ?_
  refine meets_modifyIfInfo [_] ?_
  refine meets_deref ?_
  refine meets_modifySockaddrLl [] ?_
  refine meets_modifySockaddrLl [] ?_
  refine meets_malloc (hroom.mono (by simp)) fun ipAddr => ?_
  refine meets_modifyIfInfo [_, _] ?_
  refine meets_deref ?_
  refine meets_store [] ?_
  refine meets_modifyIfInfo [_, _] ?_
  refine meets_modifyIfInfo [_, _] ?_
  rw [pure_bind]
  exact hf ⟨tmp, physicalAddr, ipAddr, _⟩ rfl

/-- The loop of `fill_if_info_list` enters what is to be entered. -/
lemma meets_fillLoop (acc : List (IfEntry P)) {kept : List (P × Block P)} {n : ℕ}
    (hroom : HasRoom h₀ A n) (hfuel : es.length ≤ fuel) (hsub : chain es none ⊆ kept)
    (hn : kept.length
      + 3 * (acc.length + ((es.map Entry.info).filter fun i => i.ifName.entered).length) ≤ n + 1) :
    Meets stops h₀ (acc.flatMap IfEntry.blocks ++ kept)
      (fillLoop A fuel (firstOf es none) (acc.map IfEntry.tmp)) fun ifInfoList cells =>
        ∃ acc' : List (IfEntry P), ifInfoList = acc'.map IfEntry.tmp ∧
          cells = acc'.flatMap IfEntry.blocks ++ kept ∧
          acc'.reverse.map IfEntry.info = acc.reverse.map IfEntry.info
            ++ (es.map Entry.info).filter fun i => i.ifName.entered := by
  induction es generalizing fuel acc with
  | nil =>
    rw [firstOf, fillLoop]
    exact meets_pure ⟨acc, rfl, rfl, by simp⟩
  | cons e es ih =>
    obtain ⟨fuel, rfl⟩ : ∃ m, fuel = m + 1 := Nat.exists_eq_add_one.mpr (by
      rw [List.length_cons] at hfuel
      omega)
    rw [chain, List.cons_subset, List.cons_subset] at hsub
    rw [List.map_cons, List.filter_cons] at hn ⊢
    rw [firstOf, fillLoop]
    refine meets_loadHwa (List.mem_append_right _ hsub.1) ?_
    refine meets_deref ?_
    refine meets_loadSockaddr (List.mem_append_right _ hsub.2.1) ?_
    by_cases he : e.info.ifName.entered = true
    · rw [if_pos he] at hn ⊢
      rw [List.length_cons] at hn
      rw [Entry.cell, if_pos he]
      refine meets_addIfInfo (hroom.mono ?_) fun e' he' => ?_
      · rw [List.length_append, length_blocks]
        omega
      refine meets_loadHwa (List.mem_append_right _ (List.mem_append_right _ hsub.1)) ?_
      have hrest := ih (e' :: acc) (Nat.le_of_succ_le_succ hfuel) hsub.2.2
        (by rw [List.length_cons]; omega)
      rw [List.flatMap_cons, List.append_assoc] at hrest
      refine hrest.imp ?_
      rintro ifInfoList cells ⟨acc', rfl, rfl, hinfo⟩
      refine ⟨acc', rfl, rfl, hinfo.trans ?_⟩
      simp [he']
    · rw [if_neg he] at hn ⊢
      rw [Entry.cell, if_neg he, pure_bind]
      refine meets_loadHwa (List.mem_append_right _ hsub.1) ?_
      exact ih acc (Nat.le_of_succ_le_succ hfuel) hsub.2.2 hn

omit [DecidableEq P] in
/-- The senders find in the entries what `fill_if_info_list` has written. -/
lemma meets_readIfInfoList {es : List (IfEntry P)} (hsub : es.flatMap IfEntry.blocks ⊆ cells) :
    Meets stops h₀ cells (readIfInfoList (es.map IfEntry.tmp)) fun ifs cells' =>
      cells' = cells ∧ ifs = es.map IfEntry.ifInfo := by
  induction es with
  | nil => exact meets_pure ⟨rfl, rfl⟩
  | cons e es ih =>
    rw [List.flatMap_cons, List.append_subset] at hsub
    rw [List.map_cons, readIfInfoList]
    obtain ⟨-, hll, htmp⟩ : (_ ∈ cells ∧ _ ∈ cells ∧ _ ∈ cells) := by
      simpa [IfEntry.blocks] using hsub.1
    refine meets_loadIfInfo htmp ?_
    refine meets_deref ?_
    refine meets_loadSockaddrLl hll ?_
    refine meets_deref ?_
    refine meets_deref ?_
    refine (ih hsub.2).bind ?_
    rintro rest cells' ⟨rfl, rfl⟩
    exact meets_pure ⟨rfl, rfl⟩

/-- `fill_if_info_list` enters the interfaces of the answer; its first two blocks, the list and the
entries stay allocated. -/
lemma meets_fillIfInfoList {t : List Ifreq} (ht : t ≠ []) (hfuel : t.length ≤ fuel)
    (hconf : ∀ h₁, HasRoom h₁ A 0 →
      Meets stops h₁ [] (confLoop A conf fuel 0 (100 * sizeofIfreq) 0) fun ifc cells =>
        ∃ t', t' = t ∧ ifc.2 = sizeofIfreq * t'.length ∧ cells = [(ifc.1, .ifreqs t')])
    (hroom : HasRoom h₀ A
      (2 * t.length + 3 * (Odr.fillIfInfoList (Odr.getHwAddrs k t)).length + 3)) :
    Meets stops h₀ [] (fillIfInfoList A k conf fuel) fun ifInfoList cells =>
      ∃ (es : List (IfEntry P)) (kept : List (P × Block P)), ifInfoList = es.map IfEntry.tmp ∧
        cells = es.flatMap IfEntry.blocks ++ kept ∧
        es.reverse.map IfEntry.ifInfo = Odr.fillIfInfoList (Odr.getHwAddrs k t) ∧
        kept.length = 2 * t.length + 2 := by
  rw [fillIfInfoList]
  refine meets_malloc (hroom.mono (Nat.zero_le _)) fun hwahead => ?_
  refine meets_malloc (hroom.mono (by simp)) fun hwa => ?_
  have hget : ∀ h₁, Owns h₀ [(hwa, .unset), (hwahead, .unset)] h₁ →
      Meets stops h₁ [] (getHwAddrsOrQuit A k conf fuel) fun hwahead cells =>
        ∃ t' es, t' = t ∧ hwahead = firstOf es none ∧ cells.Perm (chain es none) ∧
          es.map Entry.info = Odr.getHwAddrs k t' ∧ es.length = t'.length := by
    intro h₁ ho
    have hroom₁ : HasRoom h₁ A (2 * t.length + 1) :=
      HasRoom.trans (hroom.mono (by simp)) ho
    refine meets_getHwAddrsOrQuit (hconf h₁ (hroom₁.mono (Nat.zero_le _))) ?_ (Or.inr ?_)
    · rintro _ rfl
      exact Or.inr hroom₁
    · rintro _ rfl
      exact ht
  refine (Meets.frame hget).bind ?_
  rintro _ _ ⟨l, rfl, t', es, rfl, rfl, hperm, hinfo, hlen⟩
  refine (Meets.imp (meets_fillLoop [] hroom (hlen ▸ hfuel)
    (List.subset_append_left _ [(hwa, .unset), (hwahead, .unset)]) ?_) ?_).perm
      (hperm.append_right _)
  · rw [hinfo, List.length_append, length_chain, hlen, Odr.fillIfInfoList, List.length_map]
    simp
    omega
  · rintro ifInfoList cells ⟨acc, rfl, rfl, hacc⟩
    refine ⟨acc, _, rfl, rfl, ?_, ?_⟩
    · rw [Odr.fillIfInfoList, ← hinfo]
      have hmap := congrArg (List.map fun i => IfInfo.mk i.ifHaddr i.ifIndex) hacc
      rw [List.map_map] at hmap
      exact hmap
    · rw [List.length_append, length_chain, hlen]
      rfl

end

/-! ## The interfaces of the machine -/

section

variable {P : Type} [DecidableEq P]

/-- **The listing is complete, and nothing is left behind.** Whatever the kernel answers and however
its answers change, and whatever the heap holds: when `prhwaddrs` comes to its end it has printed
the list that `get_hw_addrs` makes of a complete answer of the kernel, and the heap is as it was.
Otherwise the process has ended itself or is still in a loop; no block is ever used that is not
allocated, or given back twice. -/
theorem prhwaddrs_safe (A : Allocator P (Block P)) (k : Kernel) (conf : ℕ → GifConf) (fuel : ℕ)
    (h₀ : P → Option (Block P)) :
    (∃ t j, conf j = .table t ∧ prhwaddrs A k conf fuel h₀
        = .ok ((Odr.getHwAddrs k t).map HwaInfo.line, h₀)) ∨
      prhwaddrs A k conf fuel h₀ = .error .exit ∨ prhwaddrs A k conf fuel h₀ = .error .fuel := by
  have hmeets : Meets (· ≠ .fault) h₀ [] (prhwaddrs A k conf fuel) fun lines cells =>
      cells = [] ∧ ∃ t, (∃ j, conf j = .table t) ∧
        lines = (Odr.getHwAddrs k t).map HwaInfo.line :=
    meets_prhwaddrs (meets_confLoop (by decide) (by decide) (by decide))
      (fun t _ => Or.inl (by decide)) (Or.inl (by decide)) (Or.inl (by decide))
  rcases hmeets.result with ⟨lines, heq, t, ⟨j, ht⟩, rfl⟩ | ⟨e, heq, he⟩
  · exact Or.inl ⟨t, j, ht, heq⟩
  · cases e with
    | exit => exact Or.inr (Or.inl heq)
    | fuel => exact Or.inr (Or.inr heq)
    | fault => exact absurd rfl he

/-- **The loops come to an end.** If from some pass on the kernel keeps to one answer that is not
empty, and there is room for two blocks for each of its addresses, three for each interface that is
to be entered and four more, then `prhwaddrs` comes to its end and has printed this answer, and
`fill_if_info_list` comes to its end, the senders find in its entries the interfaces of this answer,
and it keeps two blocks for each address, three for each interface entered and two more. -/
theorem interfaces_settled (A : Allocator P (Block P)) (k : Kernel) {conf : ℕ → GifConf} {j : ℕ}
    {t : List Ifreq} (hs : Settled conf j t) (ht : t ≠ []) {h₀ : P → Option (Block P)}
    (hroom : ∀ cells h, Owns h₀ cells h →
      cells.length ≤ 2 * t.length + 3 * (Odr.fillIfInfoList (Odr.getHwAddrs k t)).length + 3 →
      A.malloc h ≠ none)
    {fuel : ℕ} (hfuel : j + t.length + 2 ≤ fuel) :
    prhwaddrs A k conf fuel h₀ = .ok ((Odr.getHwAddrs k t).map HwaInfo.line, h₀) ∧
      ∃ ifInfoList h cells, fillIfInfoList A k conf fuel h₀ = .ok (ifInfoList, h) ∧
        readIfInfoList ifInfoList.reverse h
          = .ok (Odr.fillIfInfoList (Odr.getHwAddrs k t), h) ∧
        Owns h₀ cells h ∧
        cells.length
          = 2 * t.length + 3 * (Odr.fillIfInfoList (Odr.getHwAddrs k t)).length + 2 := by
  have hconf : ∀ h₁, HasRoom h₁ A 0 → Meets (fun _ => False) h₁ []
      (confLoop A conf fuel 0 (100 * sizeofIfreq) 0) fun ifc cells =>
        ∃ t', t' = t ∧ ifc.2 = sizeofIfreq * t'.length ∧ cells = [(ifc.1, .ifreqs t')] :=
    fun h₁ hr => meets_confLoop_settled hs (Or.inr hr) (Or.inl (by omega))
  have hroom : HasRoom h₀ A
      (2 * t.length + 3 * (Odr.fillIfInfoList (Odr.getHwAddrs k t)).length + 3) := hroom
  constructor
  · have hmeets := meets_prhwaddrs (k := k) (hconf h₀ (hroom.mono (Nat.zero_le _)))
      (by
        rintro _ rfl
        exact Or.inr (hroom.mono (by omega)))
      (Or.inr (by
        rintro _ rfl
        exact ht))
      (Or.inr (by
        rintro _ rfl
        omega))
    rcases hmeets.result with ⟨lines, heq, _, rfl, rfl⟩ | ⟨e, -, he⟩
    · exact heq
    · exact he.elim
  · have hfill := meets_fillIfInfoList ht (by omega) hconf hroom
    obtain ⟨hok, herr⟩ := hfill h₀ (owns_nil.mpr rfl)
    rcases heq : fillIfInfoList A k conf fuel h₀ with e | ⟨ifInfoList, h⟩
    · exact (herr e heq).elim
    obtain ⟨cells, howns, es, kept, rfl, rfl, hifs, hlen⟩ := hok ifInfoList h heq
    refine ⟨_, h, _, rfl, ?_, howns, ?_⟩
    · have hsub : es.reverse.flatMap IfEntry.blocks ⊆ es.flatMap IfEntry.blocks ++ kept := by
        intro c hc
        obtain ⟨e, he, hc⟩ := List.mem_flatMap.mp hc
        exact List.mem_append_left _ (List.mem_flatMap.mpr ⟨e, List.mem_reverse.mp he, hc⟩)
      obtain ⟨ifs, hread, rfl⟩ := (meets_readIfInfoList hsub).reads howns
      rw [← List.map_reverse, hread, hifs]
    · have hes := congrArg List.length hifs
      rw [List.length_map, List.length_reverse] at hes
      rw [List.length_append, length_blocks, hlen, hes]
      omega

end

/-- Twenty addresses. -/
def twentyBlocks : Allocator ℕ (Block ℕ) where
  malloc h := (List.range 20).find? fun p => (h p).isNone
  fresh h p hp := by simpa using List.find?_some hp

/-- One of them is in use. -/
def oneBlock : ℕ → Option (Block ℕ) := fun p => if p = 0 then some (.sockaddr []) else none

/-- The first call fails. -/
def retried : ℕ → GifConf
  | 0 => .fails einval
  | _ + 1 => .table twoAddresses

/-- Three interfaces, one of them with two addresses. -/
theorem interfaces_settled_four :
    ∃ lines ifInfoList h,
      prhwaddrs twentyBlocks threeInterfaces retried 7 oneBlock = .ok (lines, oneBlock) ∧
        lines.map HwaLine.isAlias = [false, false, false, true] ∧
        fillIfInfoList twentyBlocks threeInterfaces retried 7 oneBlock = .ok (ifInfoList, h) ∧
        readIfInfoList ifInfoList.reverse h = .ok ([⟨0, 3⟩, ⟨0, 3⟩], h) := by
  have hs : Settled retried 1 twoAddresses := by
    constructor
    · intro i hi
      obtain rfl : i = 0 := by omega
      rfl
    · rintro (_ | i) hi
      · omega
      · rfl
  have hroom : ∀ cells h, Owns oneBlock cells h →
      cells.length ≤ 2 * twoAddresses.length
        + 3 * (Odr.fillIfInfoList (Odr.getHwAddrs threeInterfaces twoAddresses)).length + 3 →
      twentyBlocks.malloc h ≠ none := by
    intro cells h ho hlen hnone
    have hused := List.find?_eq_none.mp hnone
    have hsub : List.range 20 ⊆ 0 :: cells.map Prod.fst := by
      intro p hp
      by_contra hnot
      obtain ⟨h0, hp'⟩ := not_or.mp (fun hm => hnot (List.mem_cons.mpr hm))
      exact hused p hp (by simp [ho.rest p hp', oneBlock, h0])
    have hle := (List.nodup_range.subperm hsub).length_le
    have hinterfaces :
        (Odr.fillIfInfoList (Odr.getHwAddrs threeInterfaces twoAddresses)).length = 2 := by
      decide
    have haddresses : twoAddresses.length = 4 := rfl
    simp only [List.length_range, List.length_cons, List.length_map] at hle
    omega
  obtain ⟨h₁, ifInfoList, h, -, h₂, h₃, -⟩ :=
    interfaces_settled twentyBlocks threeInterfaces hs (by decide) hroom
      (show 1 + twoAddresses.length + 2 ≤ 7 by decide)
  exact ⟨_, ifInfoList, h, h₁, by decide, h₂, h₃⟩

end HwaMemory

end Odr
