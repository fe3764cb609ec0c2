/-
# The interfaces a daemon sends on

`get_hw_addrs` asks the kernel for the addresses of the machine and makes one element of a list
for each, with the name, the hardware address and the index of its interface.  An address may
carry a label such as `eth1:1`; what stands before the colon is the name of the interface, and an
element is marked `ip_alias` if that name is also the one of the element before it.
`fill_if_info_list` keeps the elements whose name does not begin with `lo` or `eth0`, and
`send_ll_msg` and `broadcast_ll_msg` send a frame for every element they find.

So an interface other than `lo` and `eth0` gets one frame if it has one address and its name does
not begin like theirs (`oneFrameEach_iff`).  The mark tells a further address from the first one
(`nodup_iff_unmarked`), but nothing reads it.  To the senders the entries of one interface are all
the same (`eq_of_mem_fillIfInfoList`).
-/
import Odr.Local.RawFrame

namespace Odr

open Buffer

/-! ## The listing -/

/-- An interface name, `char[IF_NAME]` with a NUL. -/
@[ext] structure IfName where
  /-- The characters before the NUL. -/
  str : List Char
  length_le : str.length ≤ 15
  no_nul : '\x00' ∉ str
deriving Repr

instance : DecidableEq IfName := fun _ _ => decidable_of_iff _ IfName.ext_iff.symm

/-- The name that is left of a text. -/
def IfName.cut (s : List Char) : IfName where
  str := (s.takeWhile (· ≠ '\x00')).take 15
  length_le := List.length_take_le 15 _
  no_nul := by
    intro h
    have h' := List.mem_takeWhile_imp (List.mem_of_mem_take h)
    simp at h'

/-- The name with its colon, if it has one, replaced by a NUL. -/
def IfName.device (n : IfName) : IfName where
  str := n.str.takeWhile (· ≠ ':')
  length_le := (List.takeWhile_prefix _).length_le.trans n.length_le
  no_nul := fun h => n.no_nul ((List.takeWhile_prefix _).subset h)

/-- `struct ifreq`: a name, and a union that holds an address or the answer to an `ioctl`. -/
structure Ifreq where
  ifrName : IfName
  ifrIfru : Bytes
deriving DecidableEq, Repr

/-- `struct hwa_info`. -/
structure HwaInfo where
  ifName : IfName
  ifHaddr : HwAddr
  ifIndex : ℤ
  ipAlias : ℤ
  ipAddr : Bytes
deriving DecidableEq, Repr

/-- What the kernel writes into the union for an interface name, or `none` if the `ioctl`
fails. -/
structure Kernel where
  siocgifhwaddr : IfName → Option Bytes
  siocgifindex : IfName → Option Bytes

/-- The union after an `ioctl`; a failure is only reported. -/
def afterIoctl (ifru : Bytes) : Option Bytes → Bytes
  | some answer => put ifru 0 answer
  | none => ifru

/-- One element of the list. -/
def Ifreq.hwaInfo (k : Kernel) (item : Ifreq) (ipAlias : ℤ) : HwaInfo :=
  let hwaddr := afterIoctl item.ifrIfru (k.siocgifhwaddr item.ifrName.device)
  let index := afterIoctl hwaddr (k.siocgifindex item.ifrName.device)
  ⟨item.ifrName, hwAddrAt hwaddr 2, intAt index 0, ipAlias, item.ifrIfru.take 16⟩

/-- The loop of `get_hw_addrs`. -/
def hwaLoop (k : Kernel) : List Char → List Ifreq → List HwaInfo
  | _, [] => []
  | lastname, item :: items =>
      let name := item.ifrName.device.str
      item.hwaInfo k (if lastname = name then 1 else 0) :: hwaLoop k name items

/-- `get_hw_addrs`, from the requests that `SIOCGIFCONF` returns. -/
def getHwAddrs (k : Kernel) (ifcReq : List Ifreq) : List HwaInfo := hwaLoop k [] ifcReq

/-- `Get_hw_addrs`, which ends the process if the list is empty. -/
def getHwAddrsOrQuit (k : Kernel) (ifcReq : List Ifreq) : Option (List HwaInfo) :=
  if getHwAddrs k ifcReq = [] then none else some (getHwAddrs k ifcReq)

/-- `strncmp(s, t, n) == 0`, for strings without a NUL. -/
def strncmpEq (s t : List Char) (n : ℕ) : Prop := s.take n = t.take n

instance (s t : List Char) (n : ℕ) : Decidable (strncmpEq s t n) :=
  inferInstanceAs (Decidable (_ = _))

/-- The test of `fill_if_info_list`. -/
def IfName.entered (n : IfName) : Bool :=
  ¬strncmpEq n.str ['l', 'o'] 2 ∧ ¬strncmpEq n.str ['e', 't', 'h', '0'] 4

/-- `fill_if_info_list`, from the list of `Get_hw_addrs`.  An entry is added at the head of
`if_info_list`, and the senders read it from the end. -/
def fillIfInfoList (hwahead : List HwaInfo) : List IfInfo :=
  (hwahead.filter fun hwa => hwa.ifName.entered).map fun hwa => ⟨hwa.ifHaddr, hwa.ifIndex⟩

/-! ## One frame for each interface -/

/-- The name of an interface that is neither loopback nor `eth0`. -/
def IfName.ForOdr (n : IfName) : Prop :=
  n.device.str ≠ ['l', 'o'] ∧ n.device.str ≠ ['e', 't', 'h', '0']

instance (n : IfName) : Decidable n.ForOdr := inferInstanceAs (Decidable (_ ∧ _))

/-- The index of a listed interface that is neither loopback nor `eth0`. -/
def Physical (hwahead : List HwaInfo) (ix : ℤ) : Prop :=
  ∃ hwa ∈ hwahead, hwa.ifIndex = ix ∧ hwa.ifName.ForOdr

/-- The number of frames that were put on an interface between two states of the log. -/
def sentOn (ix : ℤ) (log log' : List Frame) : ℕ :=
  (log'.drop log.length).countP fun f => f.ifindex = ix

/-- `send_ll_msg` puts one frame on the interface it is given, and `broadcast_ll_msg` one on each
interface but the receiving one. -/
def OneFrameEach (hwahead : List HwaInfo) : Prop :=
  ∀ ix, Physical hwahead ix → ∀ (res : ℕ → ℤ) (packet : OdrPack) (log : List Frame),
    (∀ hw, sentOn ix log (sendLlMsg res (fillIfInfoList hwahead) packet hw ix log).1 = 1) ∧
      ∀ recvIf, recvIf ≠ ix →
        sentOn ix log (broadcastLlMsg res (fillIfInfoList hwahead) packet recvIf log).1 = 1

/-- What the kernel says about the interfaces it lists: each of them has an index, and no two have
the same one. -/
structure Kernel.Knows (k : Kernel) (items : List Ifreq) : Prop where
  index : ∀ item ∈ items, ∃ answer, k.siocgifindex item.ifrName.device = some answer ∧
    answer.length = 4
  unique : ∀ a ∈ items, ∀ b ∈ items,
    k.siocgifindex a.ifrName.device = k.siocgifindex b.ifrName.device →
      a.ifrName.device = b.ifrName.device

section

variable {k : Kernel} {items : List Ifreq} {ix : ℤ}

/-- The entry for an address. -/
def Ifreq.ifInfo (k : Kernel) (item : Ifreq) : IfInfo :=
  ⟨(item.hwaInfo k 0).ifHaddr, (item.hwaInfo k 0).ifIndex⟩

/-- The index that `get_hw_addrs` reads for an address. -/
def Ifreq.index (k : Kernel) (item : Ifreq) : ℤ := (item.ifInfo k).sllIfindex

/-- Up to the marks, the elements of the list depend on one address each. -/
lemma map_getHwAddrs (k : Kernel) (items : List Ifreq) :
    (getHwAddrs k items).map (fun hwa => (hwa.ifName, IfInfo.mk hwa.ifHaddr hwa.ifIndex))
      = items.map fun item => (item.ifrName, item.ifInfo k) := by
  rw [getHwAddrs]
  generalize ([] : List Char) = lastname
  induction items generalizing lastname with
  | nil => rfl
  | cons item items ih =>
    rw [hwaLoop, List.map_cons, List.map_cons, ih]
    rfl

lemma fillIfInfoList_getHwAddrs (k : Kernel) (items : List Ifreq) :
    fillIfInfoList (getHwAddrs k items)
      = (items.filter fun item => item.ifrName.entered).map (Ifreq.ifInfo k) := by
  have hfill : fillIfInfoList (getHwAddrs k items)
      = (((getHwAddrs k items).map fun hwa =>
          (hwa.ifName, IfInfo.mk hwa.ifHaddr hwa.ifIndex)).filter fun x => x.1.entered).map
            Prod.snd := by
    simp [fillIfInfoList, List.filter_map, Function.comp_def]
  rw [hfill, map_getHwAddrs, List.filter_map, List.map_map]
  rfl

lemma indices_fillIfInfoList (k : Kernel) (items : List Ifreq) :
    (fillIfInfoList (getHwAddrs k items)).map IfInfo.sllIfindex
      = (items.filter fun item => item.ifrName.entered).map (Ifreq.index k) := by
  rw [fillIfInfoList_getHwAddrs, List.map_map]
  rfl

lemma physical_getHwAddrs :
    Physical (getHwAddrs k items) ix ↔
      ∃ item ∈ items, item.index k = ix ∧ item.ifrName.ForOdr := by
  have hlist : Physical (getHwAddrs k items) ix ↔
      ∃ x ∈ (getHwAddrs k items).map fun hwa => (hwa.ifName, IfInfo.mk hwa.ifHaddr hwa.ifIndex),
        x.2.sllIfindex = ix ∧ x.1.ForOdr := by
    simp [Physical]
  rw [hlist, map_getHwAddrs]
  simp [Ifreq.index]

/-- A loop over the entries that sends for one with the index, and for no other one on its
interface, gives one frame for each entry with the index. -/
lemma sentOn_sendLoop {test : IfInfo → Bool} {mk : IfInfo → Frame}
    (h : ∀ i, test i ∧ (mk i).ifindex = ix ↔ i.sllIfindex = ix) (res : ℕ → ℤ)
    (ifs : List IfInfo) (log : List Frame) (ret : ℤ) :
    sentOn ix log (sendLoop res test mk ifs log ret).1 = (ifs.map IfInfo.sllIfindex).count ix := by
  rw [sentOn, sendLoop_fst, List.drop_left, List.countP_map, List.countP_filter, List.count,
    List.countP_map]
  refine List.countP_congr fun i _ => ?_
  simpa [and_comm] using h i

lemma sentOn_sendLlMsg (res : ℕ → ℤ) (ifs : List IfInfo) (packet : OdrPack) (hw : HwAddr)
    (log : List Frame) :
    sentOn ix log (sendLlMsg res ifs packet hw ix log).1
      = (ifs.map IfInfo.sllIfindex).count ix :=
  sentOn_sendLoop (fun i => by simp [eq_comm]) res ifs log 0

lemma sentOn_broadcastLlMsg (res : ℕ → ℤ) (ifs : List IfInfo) (packet : OdrPack) {recvIf : ℤ}
    (hne : recvIf ≠ ix) (log : List Frame) :
    sentOn ix log (broadcastLlMsg res ifs packet recvIf log).1
      = (ifs.map IfInfo.sllIfindex).count ix := by
  refine sentOn_sendLoop (fun i => ?_) res ifs log 0
  simp only [decide_eq_true_eq, and_iff_right_iff_imp]
  rintro rfl
  exact hne

/-- One frame each means one entry each. -/
lemma oneFrameEach_iff_count :
    OneFrameEach (getHwAddrs k items) ↔
      ∀ item ∈ items, item.ifrName.ForOdr →
        ((items.filter fun a => a.ifrName.entered).map (Ifreq.index k)).count (item.index k)
          = 1 := by
  rw [OneFrameEach]
  constructor
  · intro h item hmem hodr
    have hone := (h _ (physical_getHwAddrs.mpr ⟨item, hmem, rfl, hodr⟩) 0 Lab.blankPack []).1 0
    rwa [sentOn_sendLlMsg, indices_fillIfInfoList] at hone
  · intro h ix hphys res packet log
    obtain ⟨item, hmem, rfl, hodr⟩ := physical_getHwAddrs.mp hphys
    have hone := h item hmem hodr
    rw [← indices_fillIfInfoList] at hone
    refine ⟨fun hw => ?_, fun recvIf hne => ?_⟩
    · rw [sentOn_sendLlMsg, hone]
    · rw [sentOn_broadcastLlMsg _ _ _ hne, hone]

/-! ## Names -/

variable {n n' : IfName}

/-- What a name begins with is seen before the colon. -/
lemma prefix_device {l : List Char} (hl : ':' ∉ l) : l <+: n.device.str ↔ l <+: n.str := by
  have hpre : n.device.str <+: n.str := List.takeWhile_prefix _
  refine ⟨fun h => h.trans hpre, ?_⟩
  rintro ⟨rest, hrest⟩
  have hall : ∀ c ∈ l, decide (c ≠ ':') = true := by
    intro c hc
    simpa using ne_of_mem_of_not_mem hc hl
  have hdevice : n.device.str = l ++ rest.takeWhile (· ≠ ':') := by
    simp only [IfName.device, ← hrest]
    exact List.takeWhile_append_of_pos hall
  rw [hdevice]
  exact List.prefix_append _ _

lemma entered_iff : n.entered ↔ ¬['l', 'o'] <+: n.str ∧ ¬['e', 't', 'h', '0'] <+: n.str := by
  rw [IfName.entered, decide_eq_true_iff, List.prefix_iff_eq_take, List.prefix_iff_eq_take]
  simp only [strncmpEq, List.take_succ_cons, List.take_zero, List.length_cons, List.length_nil,
    zero_add, Nat.reduceAdd, eq_comm]

/-- The test is one of the interface. -/
lemma entered_iff_device :
    n.entered ↔ ¬['l', 'o'] <+: n.device.str ∧ ¬['e', 't', 'h', '0'] <+: n.device.str := by
  rw [entered_iff, prefix_device (by decide), prefix_device (by decide)]

lemma entered_congr (h : n.device = n'.device) (hn : n.entered) : n'.entered :=
  entered_iff_device.mpr (h ▸ entered_iff_device.mp hn)

lemma forOdr_of_entered (hn : n.entered) : n.ForOdr := by
  obtain ⟨hlo, heth⟩ := entered_iff_device.mp hn
  exact ⟨fun h => hlo (h ▸ List.prefix_rfl), fun h => heth (h ▸ List.prefix_rfl)⟩

/-! ## The condition -/

/-- No interface other than `lo` and `eth0` has two addresses, and none has a name that begins like
theirs. -/
structure Plain (items : List Ifreq) : Prop where
  single : ((items.filter fun a => a.ifrName.ForOdr).map fun a => a.ifrName.device).Nodup
  not_hidden : ∀ item ∈ items, item.ifrName.ForOdr →
    ¬['l', 'o'] <+: item.ifrName.str ∧ ¬['e', 't', 'h', '0'] <+: item.ifrName.str

lemma plain_iff :
    Plain items ↔
      ((items.filter fun a => a.ifrName.ForOdr).map fun a => a.ifrName.device).Nodup ∧
        ∀ item ∈ items, item.ifrName.ForOdr → item.ifrName.entered := by
  refine ⟨fun h => ⟨h.single, fun a ha hodr => ?_⟩, fun h => ⟨h.1, fun a ha hodr => ?_⟩⟩
  · exact entered_iff.mpr (h.not_hidden a ha hodr)
  · exact entered_iff.mp (h.2 a ha hodr)

/-- Addresses have the same index if they are of the same interface. -/
lemma index_eq_iff (hk : k.Knows items) {a b : Ifreq} (ha : a ∈ items) (hb : b ∈ items) :
    a.index k = b.index k ↔ a.ifrName.device = b.ifrName.device := by
  have hindex : ∀ item ∈ items, ∃ answer, k.siocgifindex item.ifrName.device = some answer ∧
      answer.length = 4 ∧ item.index k = intOfBytes answer := by
    intro item hmem
    obtain ⟨answer, hanswer, hlen⟩ := hk.index item hmem
    refine ⟨answer, hanswer, hlen, ?_⟩
    simp [Ifreq.index, Ifreq.ifInfo, Ifreq.hwaInfo, hanswer, afterIoctl, intAt, slice, put, ← hlen]
  obtain ⟨x, hx, hxlen, hax⟩ := hindex a ha
  obtain ⟨y, hy, hylen, hby⟩ := hindex b hb
  constructor
  · intro h
    have hxy : x = y := by
      rw [← bytesOfInt_intOfBytes hxlen, ← bytesOfInt_intOfBytes hylen, ← hax, ← hby, h]
    exact hk.unique a ha b hb (by rw [hx, hy, hxy])
  · intro h
    rw [h, hy] at hx
    rw [hax, hby, Option.some_injective _ hx]

/-- The indices are distinct if the interfaces are. -/
lemma nodup_index_iff (hk : k.Knows items) (p : Ifreq → Bool) :
    ((items.filter p).map (Ifreq.index k)).Nodup ↔
      ((items.filter p).map fun a => a.ifrName.device).Nodup := by
  rw [List.Nodup, List.Nodup, List.pairwise_map, List.pairwise_map]
  refine List.Pairwise.iff_of_mem fun {a b} ha hb => not_congr ?_
  exact index_eq_iff hk (List.mem_of_mem_filter ha) (List.mem_of_mem_filter hb)

/-- **The entries of an interface are copies of one entry**, as far as the kernel knows the hardware
addresses of the interfaces: the senders' list is one that `Network.ifindex_unique` describes. -/
theorem eq_of_mem_fillIfInfoList (hk : k.Knows items)
    (hhw : ∀ item ∈ items, ∃ answer, k.siocgifhwaddr item.ifrName.device = some answer ∧
      8 ≤ answer.length) :
    ∀ i ∈ fillIfInfoList (getHwAddrs k items), ∀ j ∈ fillIfInfoList (getHwAddrs k items),
      i.sllIfindex = j.sllIfindex → i = j := by
  intro i hi j hj h
  rw [fillIfInfoList_getHwAddrs] at hi hj
  obtain ⟨a, ha, rfl⟩ := List.mem_map.mp hi
  obtain ⟨b, hb, rfl⟩ := List.mem_map.mp hj
  have ha := List.mem_of_mem_filter ha
  have hb := List.mem_of_mem_filter hb
  have hdevice := (index_eq_iff hk ha hb).mp h
  obtain ⟨answer, hanswer, hlen⟩ := hhw a ha
  -- the address is read from the bytes of the answer, whatever was in the union before
  have hread : ∀ item : Ifreq, item.ifrName.device = a.ifrName.device →
      (item.ifInfo k).sllAddr = hwAddrAt answer 2 := by
    intro item hitem
    have htake : (put item.ifrIfru 0 answer).take 8 = answer.take 8 := by
      simp [put, List.take_append_of_le_length hlen]
    simp only [Ifreq.ifInfo, Ifreq.hwaInfo, hitem, hanswer, afterIoctl, hwAddrAt]
    rw [slice_congr htake le_rfl]
  have haddr : (a.ifInfo k).sllAddr = (b.ifInfo k).sllAddr := by
    rw [hread a rfl, hread b hdevice.symm]
  have hext : ∀ x y : IfInfo, x.sllAddr = y.sllAddr → x.sllIfindex = y.sllIfindex → x = y := by
    rintro ⟨_, _⟩ ⟨_, _⟩ rfl rfl
    rfl
  exact hext _ _ haddr h

/-- The entries are those of the interfaces other than `lo` and `eth0`. -/
lemma filter_entered (h : ∀ item ∈ items, item.ifrName.ForOdr → item.ifrName.entered) :
    items.filter (fun a => a.ifrName.entered) = items.filter fun a => a.ifrName.ForOdr := by
  refine List.filter_congr fun a ha => Bool.eq_iff_iff.mpr ?_
  rw [decide_eq_true_iff]
  exact ⟨forOdr_of_entered, h a ha⟩

end

/-- **When an interface gets one frame.** For every listing that `Get_hw_addrs` returns, a send and
a broadcast put one frame on each interface other than `lo` and `eth0` if and only if no such
interface has two addresses, and none has a name that begins with `lo` or `eth0`. -/
theorem oneFrameEach_iff (k : Kernel) (items : List Ifreq) (hk : k.Knows items)
    (hwahead : List HwaInfo) (hlist : getHwAddrsOrQuit k items = some hwahead) :
    OneFrameEach hwahead ↔ Plain items := by
  have hhead : hwahead = getHwAddrs k items := by
    rw [getHwAddrsOrQuit] at hlist
    split at hlist
    · simp at hlist
    · exact (Option.some_injective _ hlist).symm
  rw [hhead, oneFrameEach_iff_count, plain_iff]
  constructor
  · intro hone
    have hentered : ∀ item ∈ items, item.ifrName.ForOdr → item.ifrName.entered := by
      intro item hmem hodr
      -- the entry that is counted is one of the same interface
      have hcount := hone item hmem hodr
      obtain ⟨b, hb, hidx⟩ := List.mem_map.mp (List.count_pos_iff.mp (hcount ▸ Nat.one_pos))
      obtain ⟨hbmem, hbentered⟩ := List.mem_filter.mp hb
      exact entered_congr ((index_eq_iff hk hbmem hmem).mp hidx) hbentered
    refine ⟨?_, hentered⟩
    rw [← nodup_index_iff hk, List.nodup_iff_count_eq_one]
    intro ix hix
    obtain ⟨item, hmem, rfl⟩ := List.mem_map.mp hix
    obtain ⟨hmem, hodr⟩ := List.mem_filter.mp hmem
    rw [← filter_entered hentered]
    exact hone item hmem (of_decide_eq_true hodr)
  · rintro ⟨hnodup, hentered⟩ item hmem hodr
    rw [filter_entered hentered]
    refine List.nodup_iff_count_eq_one.mp ((nodup_index_iff hk _).mpr hnodup) _ ?_
    exact List.mem_map_of_mem (List.mem_filter.mpr ⟨hmem, decide_eq_true hodr⟩)

/-- A kernel with the interfaces `lo`, `eth0` and `eth1`. -/
def threeInterfaces : Kernel where
  siocgifhwaddr := fun _ => none
  siocgifindex := fun n =>
    if n.str = ['l', 'o'] then some [1, 0, 0, 0]
    else if n.str = ['e', 't', 'h', '0'] then some [2, 0, 0, 0]
    else if n.str = ['e', 't', 'h', '1'] then some [3, 0, 0, 0]
    else none

/-- A listing with one address of each. -/
def oneAddress : List Ifreq :=
  [⟨.cut ['l', 'o'], []⟩, ⟨.cut ['e', 't', 'h', '0'], []⟩, ⟨.cut ['e', 't', 'h', '1'], []⟩]

/-- A listing with an alias of `eth1`. -/
def twoAddresses : List Ifreq := oneAddress ++ [⟨.cut ['e', 't', 'h', '1', ':', '1'], []⟩]

lemma knows_twoAddresses : threeInterfaces.Knows twoAddresses where
  index := by
    intro item hmem
    have hsome : ∀ item ∈ twoAddresses, ((threeInterfaces.siocgifindex item.ifrName.device).map
        List.length) = some 4 := by decide
    obtain ⟨answer, hanswer, hlen⟩ := Option.map_eq_some_iff.mp (hsome item hmem)
    exact ⟨answer, hanswer, hlen⟩
  unique := by decide

lemma knows_oneAddress : threeInterfaces.Knows oneAddress where
  index := fun item hmem => knows_twoAddresses.index item (List.mem_append_left _ hmem)
  unique := fun a ha b hb =>
    knows_twoAddresses.unique a (List.mem_append_left _ ha) b (List.mem_append_left _ hb)

/-- With one address each, `eth1` gets one frame. -/
theorem oneFrameEach_oneAddress : OneFrameEach (getHwAddrs threeInterfaces oneAddress) :=
  (oneFrameEach_iff threeInterfaces oneAddress knows_oneAddress _ rfl).mpr
    ⟨by decide, by decide⟩

/-- With an alias it gets two. -/
theorem alias_doubles :
    ¬∀ (k : Kernel) (items : List Ifreq), k.Knows items → ∀ hwahead,
      getHwAddrsOrQuit k items = some hwahead → OneFrameEach hwahead := by
  intro h
  have heth1 : Physical (getHwAddrs threeInterfaces twoAddresses) 3 :=
    physical_getHwAddrs.mpr ⟨⟨.cut ['e', 't', 'h', '1'], []⟩, by decide⟩
  have hone := (h _ _ knows_twoAddresses _ rfl 3 heth1 0 Lab.blankPack []).1 0
  exact absurd hone (by decide)

/-! ## The mark -/

/-- The addresses of an interface are listed one after the other. -/
def Grouped : List Ifreq → Prop
  | [] => True
  | a :: items =>
      (∀ b rest, items = b :: rest → b.ifrName.device ≠ a.ifrName.device →
        ∀ c ∈ rest, c.ifrName.device ≠ a.ifrName.device) ∧ Grouped items

/-- No element of an interface other than `lo` and `eth0` is marked as an alias. -/
def Unmarked (hwahead : List HwaInfo) : Prop :=
  ∀ hwa ∈ hwahead, hwa.ifName.ForOdr → hwa.ipAlias = 0

section

variable {k : Kernel} {items : List Ifreq}

lemma unmarked_cons (item : Ifreq) (lastname : List Char) :
    Unmarked (hwaLoop k lastname (item :: items)) ↔
      (item.ifrName.ForOdr → lastname ≠ item.ifrName.device.str) ∧
        Unmarked (hwaLoop k item.ifrName.device.str items) := by
  rw [hwaLoop]
  simp only [Unmarked, List.forall_mem_cons]
  refine and_congr_left fun _ => imp_congr_right fun _ => ?_
  simp [Ifreq.hwaInfo]

lemma forOdr_congr {n n' : IfName} (h : n.device = n'.device) (hn : n.ForOdr) : n'.ForOdr := by
  rw [IfName.ForOdr, h] at hn
  exact hn

/-- After an address the elements are marked as long as they are of the same interface. -/
lemma unmarked_iff_of_grouped (a : Ifreq) (hgroup : Grouped (a :: items)) :
    Unmarked (hwaLoop k a.ifrName.device.str items) ↔
      (((a :: items).filter fun b => b.ifrName.ForOdr).map fun b => b.ifrName.device).Nodup := by
  induction items generalizing a with
  | nil =>
    have hnil : Unmarked (hwaLoop k a.ifrName.device.str []) := by simp [hwaLoop, Unmarked]
    by_cases ha : a.ifrName.ForOdr
    · simp [hnil, ha]
    · simp [hnil, ha]
  | cons b items ih =>
    rw [unmarked_cons, ih b hgroup.2]
    by_cases ha : a.ifrName.ForOdr
    · have hcons : (a :: b :: items).filter (fun b => b.ifrName.ForOdr)
          = a :: (b :: items).filter fun b => b.ifrName.ForOdr :=
        List.filter_cons_of_pos (decide_eq_true ha)
      rw [hcons, List.map_cons, List.nodup_cons]
      refine and_congr_left fun _ => ⟨fun hne hmem => ?_, fun hnot hb heq => ?_⟩
      · obtain ⟨c, hc, hca⟩ := List.mem_map.mp hmem
        obtain ⟨hc, hodr⟩ := List.mem_filter.mp hc
        -- whatever comes back was there all the time
        have hba : b.ifrName.device = a.ifrName.device := by
          rcases List.mem_cons.mp hc with rfl | hc
          · exact hca
          · by_contra hba
            exact hgroup.1 b items rfl hba c hc hca
        exact hne (forOdr_congr hba.symm ha) (congrArg IfName.str hba.symm)
      · refine hnot (List.mem_map.mpr ⟨b, ?_, (IfName.ext heq).symm⟩)
        exact List.mem_filter.mpr ⟨List.mem_cons_self, decide_eq_true hb⟩
    · have hcons : (a :: b :: items).filter (fun b => b.ifrName.ForOdr)
          = (b :: items).filter fun b => b.ifrName.ForOdr :=
        List.filter_cons_of_neg (by simpa using ha)
      rw [hcons]
      exact and_iff_right fun hb heq => ha (forOdr_congr (IfName.ext heq).symm hb)

/-- **The mark would do.** If the kernel lists the addresses of an interface one after the other,
no interface other than `lo` and `eth0` has two addresses if and only if no element of one is
marked as an alias. -/
theorem nodup_iff_unmarked (k : Kernel) (items : List Ifreq) (hgroup : Grouped items)
    (hname : ∀ item ∈ items, item.ifrName.device.str ≠ []) :
    ((items.filter fun a => a.ifrName.ForOdr).map fun a => a.ifrName.device).Nodup ↔
      Unmarked (getHwAddrs k items) := by
  rw [getHwAddrs]
  rcases items with _ | ⟨a, items⟩
  · simp [hwaLoop, Unmarked]
  · have hfirst : a.ifrName.ForOdr → [] ≠ a.ifrName.device.str :=
      fun _ => (hname a List.mem_cons_self).symm
    rw [unmarked_cons, unmarked_iff_of_grouped a hgroup]
    exact (and_iff_right hfirst).symm

end

end Odr
