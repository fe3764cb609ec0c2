/-
# Laboratory networks

A small network is given by the list of its links, each of which joins two nodes.  The node
`n` is the machine `vm(n+1)` with the address `10.0.0.(n+1)`, and the link with the number `l`
attaches the interface `2l+1` of its first node to the interface `2l+2` of its second; the
number of an interface is both its index and its hardware address.

All concrete runs of this development are runs of such networks.
-/
import Odr.Network.Step

namespace Odr

namespace Lab

/-- The text of the address of a node. -/
def ipText (n : ℕ) : List Char := ['1', '0', '.', '0', '.', '0', '.', Nat.digitChar (n + 1)]

/-- The name service of the laboratory: the last digit of an address is the machine's number,
and the text of a request is already in dotted form. -/
def resolver : Resolver where
  getnameinfo text j :=
    if j.val = 0 then 118 else if j.val = 1 then 109
    else if j.val = 2 then Int8.ofInt (text.getLastD '0').toNat else 0
  sockNtop b := (b.takeWhile (· ≠ 0)).map fun c => Char.ofNat c.toNat

/-- The address of a node. -/
def ip (n : ℕ) : CanIp := CanIp.cut (ipText n)

lemma getIndexFromIp_ip (n : Fin 9) : getIndexFromIp resolver (ip n).str = n.val + 1 := by
  revert n
  decide

variable {k : ℕ}

/-- The interface with a number. -/
def iface (c : ℕ) : IfInfo := ⟨BitVec.ofNat 48 c, c⟩

/-- The interfaces of a node. -/
def ifaces (links : List (Fin k × Fin k)) (n : Fin k) : List IfInfo :=
  links.zipIdx.flatMap fun x =>
    (if x.1.1 = n then [iface (2 * x.2 + 1)] else []) ++
      (if x.1.2 = n then [iface (2 * x.2 + 2)] else [])

/-- The node that an interface belongs to. -/
def ownerNode (links : List (Fin k × Fin k)) (c : ℕ) : Option (Fin k) :=
  (links[(c - 1) / 2]?).map fun x => if c % 2 = 1 then x.1 else x.2

lemma exists_of_mem_ifaces {links : List (Fin k × Fin k)} {n : Fin k} {i : IfInfo}
    (hi : i ∈ ifaces links n) :
    ∃ c, 0 < c ∧ c < 2 * links.length + 1 ∧ i = iface c ∧ ownerNode links c = some n := by
  obtain ⟨⟨⟨a, b⟩, l⟩, hx, hi⟩ := List.mem_flatMap.mp hi
  obtain ⟨-, hl, hab⟩ := List.mem_zipIdx hx
  simp only [Nat.zero_add, Nat.sub_zero] at hl hab
  have hget : links[l]? = some (a, b) := by rw [List.getElem?_eq_getElem hl, hab]
  rcases List.mem_append.mp hi with hi | hi
  · split at hi
    · next hn =>
      have hidx : (2 * l + 1 - 1) / 2 = l := by omega
      refine ⟨2 * l + 1, by omega, by omega, by simpa using hi, ?_⟩
      rw [ownerNode, hidx, hget, ← hn]
      simp
    · simp at hi
  · split at hi
    · next hn =>
      have hidx : (2 * l + 2 - 1) / 2 = l := by omega
      refine ⟨2 * l + 2, by omega, by omega, by simpa using hi, ?_⟩
      rw [ownerNode, hidx, hget, ← hn]
      simp
    · simp at hi

lemma iface_inj {c d : ℕ} (hc : c < 2 ^ 47) (hd : d < 2 ^ 47)
    (h : (iface c).sllAddr = (iface d).sllAddr) : c = d := by
  have h' := congrArg BitVec.toNat h
  simp only [iface, BitVec.toNat_ofNat] at h'
  omega

/-- The network with these links and this staleness parameter. -/
def network (hk : k ≤ 9) (sp : ℤ) (links : List (Fin k × Fin k))
    (hlen : links.length < 2 ^ 40) : NamedNetwork k where
  rs := resolver
  host n := ⟨ifaces links n, true, ip n, ip n, sp⟩
  link hw := (hw.toNat - 1) / 2
  key_injective n m h := by
    have hn := getIndexFromIp_ip (Fin.castLE hk n)
    have hm := getIndexFromIp_ip (Fin.castLE hk m)
    simp only [Fin.val_castLE] at hn hm
    simp only [hn, hm] at h
    exact Fin.ext (by omega)
  hostname_ok _ := rfl
  self_ip _ := rfl
  hw_unique n m i hi j hj h := by
    obtain ⟨c, -, hc, rfl, hn⟩ := exists_of_mem_ifaces hi
    obtain ⟨d, -, hd, rfl, hm⟩ := exists_of_mem_ifaces hj
    obtain rfl := iface_inj (by omega) (by omega) h
    exact ⟨Option.some_injective _ (hn.symm.trans hm), rfl⟩
  hw_ne_broadcast n i hi h := by
    obtain ⟨c, -, hc, rfl, -⟩ := exists_of_mem_ifaces hi
    have h' := congrArg BitVec.toNat h
    simp only [iface, broadcastAddr, BitVec.toNat_ofNat, BitVec.toNat_allOnes] at h'
    omega
  ifindex_unique n i hi j hj h := by
    obtain ⟨c, -, -, rfl, -⟩ := exists_of_mem_ifaces hi
    obtain ⟨d, -, -, rfl, -⟩ := exists_of_mem_ifaces hj
    simp only [iface, Nat.cast_inj] at h
    rw [h]
  ifindex_pos n i hi := by
    obtain ⟨c, hc, -, rfl, -⟩ := exists_of_mem_ifaces hi
    simpa [iface] using hc

/-- Two nodes. -/
def pair : NamedNetwork 2 := network (by decide) 5 [(0, 1)] (by decide)

/-- Three nodes in a row. -/
def line : NamedNetwork 3 := network (by decide) 5 [(0, 1), (1, 2)] (by decide)

/-- Three nodes, each linked to the two others. -/
def triangle : NamedNetwork 3 := network (by decide) 5 [(0, 1), (0, 2), (1, 2)] (by decide)

/-- A triangle and a fourth node linked to one of its corners. -/
def kite : NamedNetwork 4 := network (by decide) 5 [(0, 1), (0, 2), (1, 2), (1, 3)] (by decide)

/-- What `source_packet` holds at the start. -/
def blankPack : OdrPack :=
  ⟨.other 0, CanIp.cut [], CanIp.cut [], ⟨0, 0, 0, 0⟩, ⟨0, 0, 0⟩, List.replicate 32 0, 0⟩

/-- A daemon that has just started. -/
def freshNode : Node :=
  ⟨[], fun _ => 0, 1, 0, 0, List.replicate 32 0, List.replicate 32 0, none, blankPack⟩

/-- A network whose daemons have just started. -/
def start : Net k := ⟨fun _ => freshNode, [], 0⟩

lemma start_initial : (start : Net k).Initial :=
  ⟨fun _ => ⟨rfl, fun _ => rfl, rfl, rfl, rfl, rfl, rfl, rfl⟩, rfl⟩

/-- The request for the time of a node. -/
def ask (d : ℕ) : OdrReq := ⟨(ipText d).map fun c => UInt8.ofNat c.toNat, 0⟩

/-- The client `c` of the node `n` asks for the time of the node `d`. -/
def asks (n c d : ℕ) : Label (k + 1) := .request (Fin.ofNat (k + 1) n) (.client c) (ask d)

/-- The client asks with `forced_discovery` set. -/
def forces (n c d : ℕ) : Label (k + 1) :=
  .request (Fin.ofNat (k + 1) n) (.client c) { ask d with forcedDiscovery := 1 }

/-- The time server answers at once, and clients are there to receive. -/
def answering (time : Bytes) : UnixIo := ⟨1, 1, some time⟩

/-- The state that a list of steps leads to. -/
def after (nw : Network k) (ls : List (Label k)) : Net k := (nw.system.exec start ls).getD start

lemma exec_after {nw : Network k} {ls : List (Label k)}
    (h : (nw.system.exec start ls).isSome) : nw.system.exec start ls = some (after nw ls) := by
  obtain ⟨σ, hσ⟩ := Option.isSome_iff_exists.mp h
  rw [after, hσ]
  rfl

/-- The trace ends with the state before the last step. -/
lemma trace_after {nw : Network k} {ls : List (Label k)}
    (h : (nw.system.exec start ls).isSome) (l : Label k) :
    nw.system.trace start (ls ++ [l]) = nw.system.trace start ls ++ [(after nw ls, l)] :=
  Transition.System.trace_snoc (exec_after h) l

/-- A list of allowed steps is a run. -/
lemma run_after {nw : Network k} {ok : Net k → Label k → Prop} {ls : List (Label k)}
    (h : (nw.system.exec start ls).isSome)
    (hok : ∀ x ∈ nw.system.trace start ls, ok x.1 x.2) :
    nw.system.Run ok (nw.system.trace start ls) (after nw ls) := by
  simpa using Transition.System.run_exec (.start start_initial) hok (exec_after h)

lemma reach_after {nw : Network k} {ok : Net k → Label k → Prop} {ls : List (Label k)}
    (h : (nw.system.exec start ls).isSome)
    (hok : ∀ x ∈ nw.system.trace start ls, ok x.1 x.2) : nw.system.Reach ok (after nw ls) :=
  (run_after h hok).reach

end Lab

end Odr
