/-
# Packets as bytes

`send_ll_msg` and `broadcast_ll_msg` copy the `struct odr_pack` in memory behind an Ethernet header
and send all of it; the receiver lays the structure over what has come.  `Encodes b q` says that the
buffer `b` holds the packet `q`: every field at its offset, the addresses terminated, with anything
behind the terminator and in the padding.

A packet whose numbers fit into an `int` is read back as it was written (`packIn_eq`).  Memory that
holds the packet `p` holds what `process_pack` makes of it once it has assigned to its fields
(`encodes_storePack`), and memory that held anything holds the packet of a request once `main` has
filled it in (`encodes_dataMemory`, `encodes_rreqMemory`).
-/
import Odr.Local.ReceiveBuffer

namespace Odr

open Buffer

/-! ## Numbers, addresses and headers -/

/-- The value of a C `int`. -/
def IsInt (x : ℤ) : Prop := -2 ^ 31 ≤ x ∧ x < 2 ^ 31

lemma isInt_small {x : ℤ} (h₁ : -2 ^ 31 ≤ x) (h₂ : x ≤ 17) : IsInt x := ⟨h₁, by omega⟩

lemma intOfBytes_bytesOfInt {x : ℤ} (hx : IsInt x) : intOfBytes (bytesOfInt x) = x := by
  obtain ⟨h₁, h₂⟩ := hx
  simp only [intOfBytes, bytesOfInt, List.foldr, UInt8.toNat_ofNat', Int.bmod]
  omega

lemma isInt_intOfBytes (b : Bytes) : IsInt (intOfBytes b) := by
  rw [IsInt, intOfBytes]
  simp only [Int.bmod]
  omega

/-- The six bytes of a hardware address, the highest first. -/
def hwBytes (hw : HwAddr) : Bytes :=
  let n := hw.toNat
  [.ofNat (n / 2 ^ 40), .ofNat (n / 2 ^ 32), .ofNat (n / 2 ^ 24), .ofNat (n / 2 ^ 16),
    .ofNat (n / 2 ^ 8), .ofNat n]

lemma hwAddr_hwBytes (hw : HwAddr) :
    BitVec.ofNat 48 ((hwBytes hw).foldl (fun acc c => 256 * acc + c.toNat) 0) = hw := by
  have hlt := hw.isLt
  apply BitVec.eq_of_toNat_eq
  simp only [hwBytes, List.foldl, UInt8.toNat_ofNat', BitVec.toNat_ofNat]
  omega

/-- The bytes of a text. -/
def textBytes (s : List Char) : Bytes := s.map fun c => UInt8.ofNat c.toNat

/-- A text of one-byte characters. -/
def Latin (s : List Char) : Prop := ∀ c ∈ s, c.toNat < 256

instance (s : List Char) : Decidable (Latin s) :=
  decidable_of_iff (s.all fun c => c.toNat < 256) (by simp [Latin])

/-- The fifteen bytes of an address field: fourteen bytes of the memory in which the text stands,
terminated behind its last character, and a NUL. -/
def addrField (ip : CanIp) (junk : Fin 14 → UInt8) : Bytes :=
  (textBytes ip.str ++ 0 :: List.ofFn junk).take 14 ++ [0]

lemma length_addrField (ip : CanIp) (junk : Fin 14 → UInt8) : (addrField ip junk).length = 15 := by
  simp only [addrField, List.length_append, List.length_take, List.length_cons, List.length_ofFn,
    List.length_nil]
  omega

/-- The field is terminated behind the text. -/
lemma prefix_addrField (ip : CanIp) (junk : Fin 14 → UInt8) :
    textBytes ip.str ++ [0] <+: addrField ip junk := by
  have hlen : (textBytes ip.str).length ≤ 14 := by
    rw [textBytes, List.length_map]
    exact ip.length_le
  rw [addrField, List.take_append, List.take_of_length_le hlen, List.append_assoc]
  refine (List.prefix_append_right_inj _).mpr ?_
  rcases Nat.lt_or_ge (textBytes ip.str).length 14 with h | h
  · obtain ⟨n, hn⟩ := Nat.exists_eq_succ_of_ne_zero (Nat.sub_ne_zero_of_lt h)
    rw [hn, List.take_succ_cons]
    exact ⟨_, rfl⟩
  · rw [Nat.sub_eq_zero_of_le h]
    exact List.prefix_rfl

/-- The bytes of a text without a NUL are not zero. -/
lemma ne_zero_of_mem_textBytes {s : List Char} (hs : Latin s) (hnul : '\x00' ∉ s) {c : UInt8}
    (hc : c ∈ textBytes s) : c ≠ 0 := by
  obtain ⟨a, ha, rfl⟩ := List.mem_map.mp hc
  intro h0
  have h1 := congrArg UInt8.toNat h0
  rw [UInt8.toNat_ofNat', Nat.mod_eq_of_lt (hs a ha)] at h1
  have ha0 : a = '\x00' := Char.toNat_inj.mp h1
  exact hnul (ha0 ▸ ha)

/-- A terminated text is read as far as its end. -/
lemma textAt_of_prefix {b : Bytes} {off : ℕ} {s : List Char} (hs : Latin s) (hnul : '\x00' ∉ s)
    (h : textBytes s ++ [0] <+: slice b off 15) : textAt b off = s := by
  have h16 : slice b off 15 <+: slice b off 16 := by
    rw [slice, slice]
    exact List.take_prefix_take_left (by decide)
  obtain ⟨rest, hrest⟩ := h.trans h16
  have hne : ∀ c ∈ textBytes s, decide (c ≠ 0) = true :=
    fun c hc => decide_eq_true (ne_zero_of_mem_textBytes hs hnul hc)
  have hid : ∀ c ∈ s, Char.ofNat (UInt8.ofNat c.toNat).toNat = c := by
    intro c hc
    rw [UInt8.toNat_ofNat', Nat.mod_eq_of_lt (hs c hc), Char.ofNat_toNat]
  have htake : (textBytes s ++ ([0] ++ rest)).takeWhile (· ≠ 0) = textBytes s := by
    rw [List.takeWhile_append_of_pos hne]
    simp
  rw [textAt, ← hrest, List.append_assoc, htake, textBytes, List.map_map]
  exact (List.map_congr_left hid).trans (List.map_id s)

/-! ## What a buffer holds -/

/-- The buffer holds the packet, but for its addresses. -/
structure EncodesRest (b : Bytes) (q : OdrPack) : Prop where
  length : b.length = ethPackSize
  type : slice b 14 4 = bytesOfInt q.type.toInt
  rreqHop : slice b 50 4 = bytesOfInt q.rreq.hop
  rreqId : slice b 54 4 = bytesOfInt q.rreq.broadcastId
  rreqForce : slice b 58 4 = bytesOfInt q.rreq.forceDiscovery
  rrepSent : slice b 62 4 = bytesOfInt q.rreq.rrepSent
  rrepHop : slice b 66 4 = bytesOfInt q.rrep.hop
  rrepId : slice b 70 4 = bytesOfInt q.rrep.broadcastId
  rrepForce : slice b 74 4 = bytesOfInt q.rrep.forceDiscovery
  payload : slice b 78 64 = q.payload
  srcDest : slice b 142 4 = bytesOfInt q.srcDest

/-- The buffer holds the packet. -/
structure Encodes (b : Bytes) (q : OdrPack) : Prop extends EncodesRest b q where
  dest : textBytes q.destCanIpStr.str ++ [0] <+: slice b 18 15
  src : textBytes q.srcCanIpStr.str ++ [0] <+: slice b 33 15

/-- The packet fits into `struct odr_pack`, but for its addresses. -/
structure OdrPack.FitsRest (q : OdrPack) : Prop where
  typeInt : IsInt q.type.toInt
  type : PackType.ofInt q.type.toInt = q.type
  rreqHop : IsInt q.rreq.hop
  rreqId : IsInt q.rreq.broadcastId
  rreqForce : IsInt q.rreq.forceDiscovery
  rrepSent : IsInt q.rreq.rrepSent
  rrepHop : IsInt q.rrep.hop
  rrepId : IsInt q.rrep.broadcastId
  rrepForce : IsInt q.rrep.forceDiscovery
  payload : q.payload.length = 64
  srcDest : IsInt q.srcDest

/-- The packet fits into `struct odr_pack`. -/
structure OdrPack.Fits (q : OdrPack) : Prop extends OdrPack.FitsRest q where
  dest : Latin q.destCanIpStr.str
  src : Latin q.srcCanIpStr.str

section

variable {b : Bytes} {p q : OdrPack}

lemma intAt_of_slice {off : ℕ} {x : ℤ} (h : slice b off 4 = bytesOfInt x) (hx : IsInt x) :
    intAt b off = x := by
  rw [intAt, h, intOfBytes_bytesOfInt hx]

lemma Encodes.textAt_dest (h : Encodes b q) (hq : q.Fits) : textAt b 18 = q.destCanIpStr.str :=
  textAt_of_prefix hq.dest q.destCanIpStr.no_nul h.dest

lemma Encodes.textAt_src (h : Encodes b q) (hq : q.Fits) : textAt b 33 = q.srcCanIpStr.str :=
  textAt_of_prefix hq.src q.srcCanIpStr.no_nul h.src

/-- **A packet is read back as it was written.** -/
lemma packIn_eq (h : Encodes b q) (hq : q.Fits) : packIn b = q := by
  rw [packIn, h.textAt_dest hq, h.textAt_src hq, cut_str, cut_str, intAt_of_slice h.type hq.typeInt,
    hq.type, intAt_of_slice h.rreqHop hq.rreqHop, intAt_of_slice h.rreqId hq.rreqId,
    intAt_of_slice h.rreqForce hq.rreqForce, intAt_of_slice h.rrepSent hq.rrepSent,
    intAt_of_slice h.rrepHop hq.rrepHop, intAt_of_slice h.rrepId hq.rrepId,
    intAt_of_slice h.rrepForce hq.rrepForce, h.payload, intAt_of_slice h.srcDest hq.srcDest]

/-- Any memory holds the packet that is read there, but for its addresses. -/
lemma encodesRest_packIn (hb : b.length = ethPackSize) : EncodesRest b (packIn b) := by
  have hint : ∀ off, off + 4 ≤ ethPackSize → slice b off 4 = bytesOfInt (intAt b off) :=
    fun off hoff => (bytesOfInt_intAt (hb ▸ hoff)).symm
  exact ⟨hb, (hint 14 (by decide)).trans (by rw [packIn_type, PackType.toInt_ofInt]),
    hint 50 (by decide), hint 54 (by decide), hint 58 (by decide), hint 62 (by decide),
    hint 66 (by decide), hint 70 (by decide), hint 74 (by decide), rfl, hint 142 (by decide)⟩

lemma fitsRest_packIn (hb : b.length = ethPackSize) : (packIn b).FitsRest := by
  refine ⟨?_, ?_, isInt_intOfBytes _, isInt_intOfBytes _, isInt_intOfBytes _, isInt_intOfBytes _,
    isInt_intOfBytes _, isInt_intOfBytes _, isInt_intOfBytes _, ?_, isInt_intOfBytes _⟩
  · rw [packIn_type, PackType.toInt_ofInt]
    exact isInt_intOfBytes _
  · rw [packIn_type, PackType.toInt_ofInt]
  · exact length_slice (by rw [hb]; decide)

/-! ## Assigning to the fields -/

/-- Writes inside the buffer that lie apart. -/
structure Clear (ws : List (ℕ × Bytes)) : Prop where
  inside : ∀ w ∈ ws, w.1 + w.2.length ≤ ethPackSize
  pairwise : ws.Pairwise fun v w => Apart v.1 v.2.length w

lemma Clear.slice_int {ws : List (ℕ × Bytes)} (hws : Clear ws) (hb : b.length = ethPackSize)
    {off : ℕ} {x : ℤ} (hmem : (off, bytesOfInt x) ∈ ws) :
    slice (puts b ws) off 4 = bytesOfInt x :=
  slice_puts_of_mem (fun w hw => hb ▸ hws.inside w hw) hws.pairwise hmem

lemma Clear.slice_of_apart {ws : List (ℕ × Bytes)} (hws : Clear ws)
    (hb : b.length = ethPackSize) {off k : ℕ} (hd : ∀ w ∈ ws, Apart off k w) :
    slice (puts b ws) off k = slice b off k :=
  slice_puts_of_apart (fun w hw => hb ▸ hws.inside w hw) hd

lemma Clear.length {ws : List (ℕ × Bytes)} (hws : Clear ws) (hb : b.length = ethPackSize) :
    (puts b ws).length = ethPackSize :=
  (length_puts fun w hw => hb ▸ hws.inside w hw).trans hb

lemma clear_assignedFields (hq : q.payload.length = 64) : Clear (assignedFields q) := by
  constructor
  · simp [assignedFields, length_bytesOfInt, hq, ethPackSize]
  · simp [assignedFields, length_bytesOfInt, hq, Apart]

/-- **`process_pack` in place.** The memory of the packet `p` holds the packet `q` once the fields
that `process_pack` assigns to are those of `q`, if `q` has the other fields of `p`. -/
lemma encodes_storePack (h : Encodes b p) (hq : q.payload.length = 64)
    (hdest : q.destCanIpStr = p.destCanIpStr) (hsrc : q.srcCanIpStr = p.srcCanIpStr)
    (hid : q.rreq.broadcastId = p.rreq.broadcastId)
    (hforce : q.rreq.forceDiscovery = p.rreq.forceDiscovery) : Encodes (storePack b q) q := by
  have hclear := clear_assignedFields hq
  have hint : ∀ {off x}, (off, bytesOfInt x) ∈ assignedFields q →
      slice (storePack b q) off 4 = bytesOfInt x := hclear.slice_int h.length
  have hkeep : ∀ {off k}, (∀ w ∈ assignedFields q, Apart off k w) →
      slice (storePack b q) off k = slice b off k := hclear.slice_of_apart h.length
  have hpay : slice (storePack b q) 78 64 = q.payload := by
    rw [← hq]
    exact slice_puts_of_mem (w := (78, q.payload)) (fun w hw => h.length ▸ hclear.inside w hw)
      hclear.pairwise (by simp [assignedFields])
  refine ⟨⟨hclear.length h.length, hint (by simp [assignedFields]), hint (by simp [assignedFields]),
    ?_, ?_, hint (by simp [assignedFields]), hint (by simp [assignedFields]),
    hint (by simp [assignedFields]), hint (by simp [assignedFields]), hpay,
    hint (by simp [assignedFields])⟩, ?_, ?_⟩
  · rw [hkeep (by simp [assignedFields, length_bytesOfInt, hq, Apart]), h.rreqId, hid]
  · rw [hkeep (by simp [assignedFields, length_bytesOfInt, hq, Apart]), h.rreqForce, hforce]
  · rw [hkeep (by simp [assignedFields, length_bytesOfInt, hq, Apart]), hdest]
    exact h.dest
  · rw [hkeep (by simp [assignedFields, length_bytesOfInt, hq, Apart]), hsrc]
    exact h.src

/-! ## The packet that `main` fills in -/

/-- The assignments to the address fields, and the type that `main` sets first. -/
def addrWrites (dest src : CanIp) (junk junk' : Fin 14 → UInt8) : List (ℕ × Bytes) :=
  [(18, addrField dest junk), (33, addrField src junk'), (14, bytesOfInt PackType.rreq.toInt)]

/-- The assignments before `send_payload`. -/
def dataWrites : List (ℕ × Bytes) :=
  [(14, bytesOfInt PackType.data.toInt), (142, bytesOfInt 1)]

/-- The assignments before `broadcast_ll_msg`. -/
def rreqWrites (broadcastNo : ℤ) : List (ℕ × Bytes) :=
  [(14, bytesOfInt PackType.rreq.toInt), (50, bytesOfInt 1), (54, bytesOfInt broadcastNo),
    (58, bytesOfInt 0), (62, bytesOfInt 0), (66, bytesOfInt (-1)), (70, bytesOfInt (-1)),
    (74, bytesOfInt (-1))]

section

variable (rs : Resolver) (h : Host) (s : Node) (req : OdrReq) (junk junk' : Fin 14 → UInt8)

/-- The memory of `source_packet` when `send_payload` is called. -/
def dataMemory (b : Bytes) : Bytes :=
  puts (puts b (addrWrites (.cut (requestDest rs s req)) h.canIp junk junk')) dataWrites

/-- The memory of `source_packet` at the end of the request. -/
def rreqMemory (b : Bytes) : Bytes :=
  let b₁ := if skipDiscovery rs s req then dataMemory rs h s req junk junk' b
    else puts b (addrWrites (.cut (requestDest rs s req)) h.canIp junk junk')
  puts b₁ (rreqWrites s.runningBroadcastNo)

end

lemma encodes_addrWrites (h : EncodesRest b p) (dest src : CanIp) (junk junk' : Fin 14 → UInt8) :
    Encodes (puts b (addrWrites dest src junk junk'))
      { p with type := .rreq, destCanIpStr := dest, srcCanIpStr := src } := by
  have hclear : Clear (addrWrites dest src junk junk') := by
    constructor
    · simp [addrWrites, length_bytesOfInt, length_addrField, ethPackSize]
    · simp [addrWrites, length_bytesOfInt, length_addrField, Apart]
  have hkeep : ∀ {off k}, (∀ w ∈ addrWrites dest src junk junk', Apart off k w) →
      slice (puts b (addrWrites dest src junk junk')) off k = slice b off k :=
    hclear.slice_of_apart h.length
  have haddr : ∀ {off ip j}, (off, addrField ip j) ∈ addrWrites dest src junk junk' →
      textBytes ip.str ++ [0] <+: slice (puts b (addrWrites dest src junk junk')) off 15 := by
    intro off ip j hmem
    have hs := slice_puts_of_mem (b := b) (fun w hw => h.length ▸ hclear.inside w hw)
      hclear.pairwise hmem
    rw [length_addrField] at hs
    rw [hs]
    exact prefix_addrField ip j
  have hrest : ∀ {off k}, 48 ≤ off → slice (puts b (addrWrites dest src junk junk')) off k
      = slice b off k := by
    intro off k hoff
    refine hkeep ?_
    simp only [addrWrites, List.mem_cons, List.not_mem_nil, or_false, forall_eq_or_imp, forall_eq,
      Apart, length_addrField, length_bytesOfInt]
    omega
  exact ⟨⟨hclear.length h.length, hclear.slice_int h.length (by simp [addrWrites]),
    (hrest (by decide)).trans h.rreqHop, (hrest (by decide)).trans h.rreqId,
    (hrest (by decide)).trans h.rreqForce, (hrest (by decide)).trans h.rrepSent,
    (hrest (by decide)).trans h.rrepHop, (hrest (by decide)).trans h.rrepId,
    (hrest (by decide)).trans h.rrepForce, (hrest (by decide)).trans h.payload,
    (hrest (by decide)).trans h.srcDest⟩,
    haddr (j := junk) (by simp [addrWrites]),
    haddr (j := junk') (by simp [addrWrites])⟩

lemma encodes_dataWrites (h : Encodes b p) :
    Encodes (puts b dataWrites) { p with type := .data, srcDest := 1 } := by
  have hclear : Clear dataWrites := by
    constructor
    · simp [dataWrites, length_bytesOfInt, ethPackSize]
    · simp [dataWrites, length_bytesOfInt, Apart]
  have hkeep : ∀ {off k}, 18 ≤ off → off + k ≤ 142 →
      slice (puts b dataWrites) off k = slice b off k := by
    intro off k h₁ h₂
    refine hclear.slice_of_apart h.length ?_
    simp only [dataWrites, List.mem_cons, List.not_mem_nil, or_false, forall_eq_or_imp, forall_eq,
      Apart, length_bytesOfInt]
    omega
  refine ⟨⟨hclear.length h.length, hclear.slice_int h.length (by simp [dataWrites]),
    (hkeep (by decide) (by decide)).trans h.rreqHop, (hkeep (by decide) (by decide)).trans h.rreqId,
    (hkeep (by decide) (by decide)).trans h.rreqForce,
    (hkeep (by decide) (by decide)).trans h.rrepSent,
    (hkeep (by decide) (by decide)).trans h.rrepHop, (hkeep (by decide) (by decide)).trans h.rrepId,
    (hkeep (by decide) (by decide)).trans h.rrepForce,
    (hkeep (by decide) (by decide)).trans h.payload,
    hclear.slice_int h.length (by simp [dataWrites])⟩, ?_, ?_⟩
  · rw [hkeep (by decide) (by decide)]
    exact h.dest
  · rw [hkeep (by decide) (by decide)]
    exact h.src

lemma encodes_rreqWrites (h : Encodes b p) (n : ℤ) :
    Encodes (puts b (rreqWrites n))
      { p with type := .rreq, rreq := ⟨1, n, 0, 0⟩, rrep := ⟨-1, -1, -1⟩ } := by
  have hclear : Clear (rreqWrites n) := by
    constructor
    · simp [rreqWrites, length_bytesOfInt, ethPackSize]
    · simp [rreqWrites, length_bytesOfInt, Apart]
  have hint : ∀ {off x}, (off, bytesOfInt x) ∈ rreqWrites n →
      slice (puts b (rreqWrites n)) off 4 = bytesOfInt x := hclear.slice_int h.length
  have hkeep : ∀ {off k}, (18 ≤ off ∧ off + k ≤ 50) ∨ 78 ≤ off →
      slice (puts b (rreqWrites n)) off k = slice b off k := by
    intro off k hoff
    refine hclear.slice_of_apart h.length ?_
    simp only [rreqWrites, List.mem_cons, List.not_mem_nil, or_false, forall_eq_or_imp, forall_eq,
      Apart, length_bytesOfInt]
    omega
  refine ⟨⟨hclear.length h.length, hint (by simp [rreqWrites]), hint (by simp [rreqWrites]),
    hint (by simp [rreqWrites]), hint (by simp [rreqWrites]), hint (by simp [rreqWrites]),
    hint (by simp [rreqWrites]), hint (by simp [rreqWrites]), hint (by simp [rreqWrites]),
    (hkeep (by decide)).trans h.payload, (hkeep (by decide)).trans h.srcDest⟩, ?_, ?_⟩
  · rw [hkeep (by decide)]
    exact h.dest
  · rw [hkeep (by decide)]
    exact h.src

section

variable (rs : Resolver) (h : Host) {s : Node} (req : OdrReq) (junk junk' : Fin 14 → UInt8)

/-- The memory of a request that is answered from the table. -/
lemma encodes_dataMemory (hb : EncodesRest b s.sourcePacket) :
    Encodes (dataMemory rs h s req junk junk' b) (dataPack rs h s req) :=
  encodes_dataWrites (encodes_addrWrites hb _ _ junk junk')

/-- The memory of a request at its end. -/
lemma encodes_rreqMemory (hb : EncodesRest b s.sourcePacket) :
    Encodes (rreqMemory rs h s req junk junk' b) (rreqPack rs h s req) := by
  rw [rreqMemory, rreqPack]
  by_cases hskip : skipDiscovery rs s req = true
  · rw [if_pos hskip, if_pos hskip]
    exact encodes_rreqWrites (encodes_dataMemory rs h req junk junk' hb) s.runningBroadcastNo
  · rw [if_neg hskip, if_neg hskip]
    exact encodes_rreqWrites (encodes_addrWrites hb _ _ junk junk') s.runningBroadcastNo

lemma latin_cut {s : List Char} (hs : Latin s) : Latin (CanIp.cut s).str :=
  fun c hc => hs c ((List.takeWhile_prefix _).subset (List.mem_of_mem_take hc))

lemma fits_dataPack (hs : s.sourcePacket.FitsRest) (hip : Latin h.canIp.str)
    (hdest : Latin (requestDest rs s req)) : (dataPack rs h s req).Fits := by
  have h₁ : IsInt 1 := isInt_small (by decide) (by decide)
  have h₂ : IsInt 2 := isInt_small (by decide) (by decide)
  exact ⟨⟨h₂, rfl, hs.rreqHop, hs.rreqId, hs.rreqForce, hs.rrepSent, hs.rrepHop, hs.rrepId,
    hs.rrepForce, hs.payload, h₁⟩, latin_cut hdest, hip⟩

lemma fits_rreqPack (hs : s.sourcePacket.FitsRest) (hip : Latin h.canIp.str)
    (hdest : Latin (requestDest rs s req)) (hn : IsInt s.runningBroadcastNo) :
    (rreqPack rs h s req).Fits := by
  have h₀ : IsInt 0 := isInt_small (by decide) (by decide)
  have h₁ : IsInt 1 := isInt_small (by decide) (by decide)
  have h₂ : IsInt (-1) := isInt_small (by decide) (by decide)
  have hdir : IsInt (rreqPack rs h s req).srcDest := by
    rw [rreqPack]
    dsimp only
    split
    · exact h₁
    · exact hs.srcDest
  exact ⟨⟨h₀, rfl, h₁, hn, h₀, h₀, h₂, h₂, h₂, hs.payload, hdir⟩, latin_cut hdest, hip⟩

end

/-! ## The frame -/

/-- What is handed to the link layer: the Ethernet header, with the protocol number `0x999`, and the
packet that the memory holds. -/
def frameBytes (g : Frame) (b : Bytes) : Bytes :=
  hwBytes g.hDest ++ hwBytes g.hSource ++ [9, 153] ++ b.drop 14

lemma slice_frameBytes (g : Frame) {off k : ℕ} (h : 14 ≤ off) :
    slice (frameBytes g b) off k = slice b off k := by
  have hlen : (hwBytes g.hDest ++ hwBytes g.hSource ++ [9, 153]).length = 14 := rfl
  rw [slice, slice, frameBytes, List.drop_append, List.drop_of_length_le (hlen.trans_le h),
    List.nil_append, List.drop_drop, hlen, Nat.add_sub_cancel' h]

lemma encodes_frameBytes (g : Frame) (h : Encodes b q) : Encodes (frameBytes g b) q := by
  have hs : ∀ {off k}, 14 ≤ off → slice (frameBytes g b) off k = slice b off k :=
    slice_frameBytes g
  refine ⟨⟨?_, (hs (by decide)).trans h.type, (hs (by decide)).trans h.rreqHop,
    (hs (by decide)).trans h.rreqId, (hs (by decide)).trans h.rreqForce,
    (hs (by decide)).trans h.rrepSent, (hs (by decide)).trans h.rrepHop,
    (hs (by decide)).trans h.rrepId, (hs (by decide)).trans h.rrepForce,
    (hs (by decide)).trans h.payload, (hs (by decide)).trans h.srcDest⟩, ?_, ?_⟩
  · have hlen : (hwBytes g.hDest ++ hwBytes g.hSource ++ [9, 153]).length = 14 := rfl
    rw [frameBytes, List.length_append, hlen, List.length_drop, h.length, ethPackSize]
  · rw [hs (by decide)]
    exact h.dest
  · rw [hs (by decide)]
    exact h.src

lemma hwAddrAt_dest (g : Frame) (b : Bytes) : hwAddrAt (frameBytes g b) 0 = g.hDest :=
  hwAddr_hwBytes g.hDest

lemma hwAddrAt_source (g : Frame) (b : Bytes) : hwAddrAt (frameBytes g b) 6 = g.hSource :=
  hwAddr_hwBytes g.hSource

end

end Odr
