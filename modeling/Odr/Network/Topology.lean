/-
# The network

A network of `k` machines running the daemon.  Their interfaces are joined by links: `link`
says which link the interface with a given hardware address is attached to, so that a link
may join two interfaces or be a segment shared by many.  The fields after `link` say what
holds of hardware: no two interfaces have the same hardware address, none has the broadcast
address, and the indices of a node's interfaces are positive and distinct.

Nothing is said of a `Network` about how its nodes are named.  In a `NamedNetwork` the nodes
have distinct keys and each recognises its own address and no other; the results that rest on
this are stated of it.

A frame reaches, as one copy each, the interfaces on the link of the interface it leaves
from: all the others if it is broadcast, the one with the destination address if it is not.
-/
import Odr.Source.Handled

namespace Odr

/-- A network of `k` nodes. -/
structure Network (k : ℕ) where
  rs : Resolver
  host : Fin k → Host
  /-- The link that the interface with an address is attached to. -/
  link : HwAddr → ℕ
  hw_unique : ∀ n m, ∀ i ∈ (host n).ifInfoList, ∀ j ∈ (host m).ifInfoList,
    i.sllAddr = j.sllAddr → n = m ∧ i = j
  hw_ne_broadcast : ∀ n, ∀ i ∈ (host n).ifInfoList, i.sllAddr ≠ broadcastAddr
  ifindex_unique : ∀ n, ∀ i ∈ (host n).ifInfoList, ∀ j ∈ (host n).ifInfoList,
    i.sllIfindex = j.sllIfindex → i = j
  ifindex_pos : ∀ n, ∀ i ∈ (host n).ifInfoList, 0 < i.sllIfindex

/-- A network whose nodes have distinct keys and recognise their own addresses. -/
structure NamedNetwork (k : ℕ) extends Network k where
  key_injective : Function.Injective fun n => getIndexFromIp rs (host n).canIp.str
  hostname_ok : ∀ n, (host n).hostnameOk = true
  self_ip : ∀ n, (host n).selfIpStr = (host n).canIp

instance {k : ℕ} : CoeOut (NamedNetwork k) (Network k) := ⟨NamedNetwork.toNetwork⟩

/-- A copy of a frame on its way to an interface of the node `dst`.  `cause` names the client
request that set off the chain of packets this frame belongs to; no node reads it. -/
structure Transit (k : ℕ) where
  dst : Fin k
  ifindex : ℤ
  hwSrc : HwAddr
  pack : OdrPack
  cause : Fin k × UnAddr
deriving DecidableEq

namespace Network

variable {k : ℕ} (nw : Network k)

/-- The interfaces of a node. -/
abbrev ifs (n : Fin k) : List IfInfo := (nw.host n).ifInfoList

/-- The canonical address of a node. -/
abbrev addr (n : Fin k) : CanIp := (nw.host n).canIp

/-- The key of an address. -/
abbrev idx (ip : CanIp) : ℤ := getIndexFromIp nw.rs ip.str

/-- The key of a node. -/
def key (n : Fin k) : ℤ := nw.idx (nw.addr n)

/-- Node `m` has an interface with this hardware address. -/
def Owns (m : Fin k) (hw : HwAddr) : Prop := ∃ i ∈ nw.ifs m, i.sllAddr = hw

instance (m : Fin k) (hw : HwAddr) : Decidable (nw.Owns m hw) :=
  inferInstanceAs (Decidable (∃ i ∈ nw.ifs m, i.sllAddr = hw))

/-- Two distinct nodes are adjacent when they have interfaces on one link. -/
def graph : SimpleGraph (Fin k) where
  Adj n m := n ≠ m ∧ ∃ i ∈ nw.ifs n, ∃ j ∈ nw.ifs m, nw.link i.sllAddr = nw.link j.sllAddr
  symm := by
    constructor
    rintro n m ⟨hne, i, hi, j, hj, hl⟩
    exact ⟨hne.symm, j, hj, i, hi, hl.symm⟩
  loopless := by
    constructor
    rintro n ⟨hne, -⟩
    exact hne rfl

instance (n m : Fin k) : Decidable (nw.graph.Adj n m) :=
  inferInstanceAs (Decidable (n ≠ m ∧ ∃ i ∈ nw.ifs n, ∃ j ∈ nw.ifs m,
    nw.link i.sllAddr = nw.link j.sllAddr))

/-- Whether the interface `j` receives the frame. -/
def receives (f : Frame) (j : IfInfo) : Bool :=
  nw.link j.sllAddr = nw.link f.hSource ∧ j.sllAddr ≠ f.hSource ∧
    (f.hDest = broadcastAddr ∨ f.hDest = j.sllAddr)

/-- The copies of a list of frames that the links carry. -/
def transmit (cause : Fin k × UnAddr) (frames : List Frame) : List (Transit k) :=
  frames.flatMap fun f => (List.finRange k).flatMap fun m =>
    (((nw.ifs m).dedup).filter (nw.receives f)).map fun j =>
      ⟨m, j.sllIfindex, f.hSource, f.pack, cause⟩

variable {nw}

lemma mem_transmit {cause : Fin k × UnAddr} {frames : List Frame} {t : Transit k} :
    t ∈ nw.transmit cause frames ↔ ∃ f ∈ frames, ∃ j ∈ nw.ifs t.dst, nw.receives f j ∧
      t.ifindex = j.sllIfindex ∧ t.hwSrc = f.hSource ∧ t.pack = f.pack ∧ t.cause = cause := by
  simp only [transmit, List.mem_flatMap, List.mem_finRange, true_and, List.mem_map,
    List.mem_filter, List.mem_dedup]
  constructor
  · rintro ⟨f, hf, m, j, ⟨hj, hr⟩, rfl⟩
    exact ⟨f, hf, j, hj, hr, rfl, rfl, rfl, rfl⟩
  · rintro ⟨f, hf, j, hj, hr, h₁, h₂, h₃, h₄⟩
    exact ⟨f, hf, t.dst, j, ⟨hj, hr⟩, by cases t; simp_all⟩

/-- A copy carries the packet of one of the frames. -/
lemma exists_frame_of_mem_transmit {cause : Fin k × UnAddr} {frames : List Frame} {t : Transit k}
    (ht : t ∈ nw.transmit cause frames) : ∃ g ∈ frames, t.pack = g.pack := by
  obtain ⟨g, hg, -, -, -, -, -, hpack, -⟩ := mem_transmit.mp ht
  exact ⟨g, hg, hpack⟩

lemma Owns.unique {n m : Fin k} {hw : HwAddr} (hn : nw.Owns n hw) (hm : nw.Owns m hw) :
    n = m := by
  obtain ⟨i, hi, rfl⟩ := hn
  obtain ⟨j, hj, hij⟩ := hm
  exact (nw.hw_unique n m i hi j hj hij.symm).1

/-- A node that lists its interfaces once lists the one with an index once. -/
lemma filter_index_eq_singleton {n : Fin k} (hifs : (nw.ifs n).Nodup) {j : IfInfo}
    (hj : j ∈ nw.ifs n) :
    (nw.ifs n).filter (fun i => j.sllIfindex = i.sllIfindex) = [j] := by
  have hperm : List.Perm ((nw.ifs n).filter fun i => j.sllIfindex = i.sllIfindex) [j] := by
    refine (List.perm_ext_iff_of_nodup (hifs.filter _) (List.nodup_singleton j)).mpr fun i => ?_
    rw [List.mem_filter, List.mem_singleton, decide_eq_true_eq]
    constructor
    · rintro ⟨hi, heq⟩
      exact nw.ifindex_unique n i hi j hj heq.symm
    · rintro rfl
      exact ⟨hj, rfl⟩
  exact List.perm_singleton.mp hperm

/-! ## Networks whose nodes know who they are -/

variable {nw : NamedNetwork k}

lemma key_inj {n m : Fin k} (h : nw.key n = nw.key m) : n = m := nw.key_injective h

lemma isSelfDest_eq_one {n : Fin k} {ip : CanIp} :
    isSelfDest (nw.host n) ip = 1 ↔ ip = nw.addr n := by
  rw [isSelfDest, if_pos (nw.hostname_ok n), nw.self_ip n]
  split
  · next h => simp [h]
  · next h => simpa using Ne.symm h

lemma isSelfDest_eq_zero {n : Fin k} {ip : CanIp} :
    isSelfDest (nw.host n) ip = 0 ↔ ip ≠ nw.addr n := by
  rw [isSelfDest, if_pos (nw.hostname_ok n), nw.self_ip n]
  split
  · next h => simp [h]
  · next h => simpa using Ne.symm h

lemma isSelfSrc_eq_one {n : Fin k} {ip : CanIp} :
    isSelfSrc (nw.host n) ip = 1 ↔ ip = nw.addr n := isSelfDest_eq_one

lemma isSelfSrc_eq_zero {n : Fin k} {ip : CanIp} :
    isSelfSrc (nw.host n) ip = 0 ↔ ip ≠ nw.addr n := isSelfDest_eq_zero

lemma isSelfSrc_ne_zero {n : Fin k} {ip : CanIp} :
    isSelfSrc (nw.host n) ip ≠ 0 ↔ ip = nw.addr n := by
  rw [Ne, isSelfSrc_eq_zero, not_not]

lemma isSelfDest_ne_zero {n : Fin k} {ip : CanIp} :
    isSelfDest (nw.host n) ip ≠ 0 ↔ ip = nw.addr n := isSelfSrc_ne_zero

lemma addr_inj {n m : Fin k} (h : nw.addr n = nw.addr m) : n = m :=
  key_inj (congrArg nw.idx h)

end Network

end Odr
