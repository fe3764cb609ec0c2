/-
# The receive buffer

`main` receives every frame into one buffer of `ETH_PACK_SIZE` bytes and hands `process_pack` a
pointer into it.  `recvfrom` overwrites as many bytes as the frame has, at most the whole buffer,
and none if it fails; its result is not looked at.  `process_pack` rewrites the packet in place.

The offsets are those of `struct odr_pack` behind an Ethernet header of 14 bytes, with the two
bytes of padding that align `rreq`; integers are stored as the machine stores them, the lowest
byte first.  An address field is read as a string, which need not end inside the field:
`inet_pton` decides on 16 characters, since no address has more than 15.
-/
import Odr.Lib.Buffer
import Odr.Local.Socket
import Odr.Source.TracedPack

namespace Odr

open Buffer

/-- `ETH_PACK_SIZE`. -/
def ethPackSize : ℕ := 146

/-- The bytes of a 32 bit `int`, the lowest first. -/
def bytesOfInt (x : ℤ) : Bytes :=
  let n := (x % 2 ^ 32).toNat
  [.ofNat n, .ofNat (n / 256), .ofNat (n / 65536), .ofNat (n / 16777216)]

/-- The `int` at an offset. -/
def intAt (b : Bytes) (off : ℕ) : ℤ := intOfBytes (slice b off 4)

/-- The string at an offset, as far as `inet_pton` reads it. -/
def textAt (b : Bytes) (off : ℕ) : List Char :=
  ((slice b off 16).takeWhile (· ≠ 0)).map fun c => Char.ofNat c.toNat

/-- The hardware address at an offset. -/
def hwAddrAt (b : Bytes) (off : ℕ) : HwAddr :=
  BitVec.ofNat 48 ((slice b off 6).foldl (fun acc c => 256 * acc + c.toNat) 0)

/-- The type with a number. -/
def PackType.ofInt (t : ℤ) : PackType :=
  if t = 0 then .rreq else if t = 1 then .rrep else if t = 2 then .data else .other t

/-- The number of a type. -/
def PackType.toInt : PackType → ℤ
  | .rreq => 0
  | .rrep => 1
  | .data => 2
  | .other t => t

/-- The packet in the buffer. -/
def packIn (b : Bytes) : OdrPack where
  type := .ofInt (intAt b 14)
  destCanIpStr := .cut (textAt b 18)
  srcCanIpStr := .cut (textAt b 33)
  rreq := ⟨intAt b 50, intAt b 54, intAt b 58, intAt b 62⟩
  rrep := ⟨intAt b 66, intAt b 70, intAt b 74⟩
  payload := slice b 78 64
  srcDest := intAt b 142

/-- The fields that `process_pack` assigns to, with their offsets. -/
def assignedFields (q : OdrPack) : List (ℕ × Bytes) :=
  [(14, bytesOfInt q.type.toInt), (50, bytesOfInt q.rreq.hop), (62, bytesOfInt q.rreq.rrepSent),
    (66, bytesOfInt q.rrep.hop), (70, bytesOfInt q.rrep.broadcastId),
    (74, bytesOfInt q.rrep.forceDiscovery), (78, q.payload), (142, bytesOfInt q.srcDest)]

/-- The buffer once `process_pack` has left the packet as `q`. -/
def storePack (b : Bytes) (q : OdrPack) : Bytes :=
  (assignedFields q).foldl (fun b w => put b w.1 w.2) b

/-- What `main` keeps from one frame to the next. -/
structure LinkState where
  node : Node
  buffer : Bytes
  /-- `recv_addr->sll_ifindex`. -/
  recvIf : ℤ

/-- What `recvfrom` gives: the bytes of a frame and the index of the interface, or an error. -/
abbrev Received := Option (Bytes × ℤ)

/-- The buffer after a receive. -/
def LinkState.bufferAfter (m : LinkState) : Received → Bytes
  | none => m.buffer
  | some (data, _) => recvInto m.buffer data ethPackSize

/-- The interface after a receive. -/
def LinkState.recvIfAfter (m : LinkState) : Received → ℤ
  | none => m.recvIf
  | some (_, ifIndex) => ifIndex

section

variable (rs : Resolver) (h : Host) (res : ℕ → ℤ) (junk : RtblRead) (io : UnixIo) (clk : ℕ → ℤ)

/-- What `process_pack` makes of a buffer. -/
def processBuffer (s : Node) (b : Bytes) (recvIf : ℤ) : Traced :=
  processPackAt h res junk (getIndexFromIp rs (textAt b 33)) (getIndexFromIp rs (textAt b 18)) io
    clk s (packIn b) (hwAddrAt b 6) recvIf

/-- The branch of `main` for the link layer. -/
def mainLink (m : LinkState) (rx : Received) : LinkState × Traced :=
  let b := m.bufferAfter rx
  let tr := processBuffer rs h res junk io clk m.node b (m.recvIfAfter rx)
  (⟨tr.out.node, storePack b tr.out.pack, m.recvIfAfter rx⟩, tr)

end

/-! ## Integers -/

lemma exists_of_length_four {l : Bytes} (h : l.length = 4) : ∃ x y z w, l = [x, y, z, w] := by
  obtain _ | ⟨x, _ | ⟨y, _ | ⟨z, _ | ⟨w, _ | ⟨v, l⟩⟩⟩⟩⟩ := l
  · simp at h
  · simp at h
  · simp at h
  · simp at h
  · exact ⟨x, y, z, w, rfl⟩
  · simp at h

/-- The highest byte decides whether an `int` is large or negative. -/
lemma intOfBytes_top {l : Bytes} (h : l.length = 4) {w : UInt8} (hw : l[3]? = some w) :
    (w = 127 → maxh < intOfBytes l) ∧ (w = 128 → intOfBytes l < 0) := by
  obtain ⟨x, y, z, w', rfl⟩ := exists_of_length_four h
  obtain rfl : w' = w := by simpa using hw
  have hx := x.toNat_lt
  have hy := y.toNat_lt
  have hz := z.toNat_lt
  constructor
  · rintro rfl
    simp only [intOfBytes, maxh, List.foldr, Int.bmod]
    have : (127 : UInt8).toNat = 127 := rfl
    omega
  · rintro rfl
    simp only [intOfBytes, List.foldr, Int.bmod]
    have : (128 : UInt8).toNat = 128 := rfl
    omega

/-- Reading the bytes of an `int` and writing them back. -/
lemma bytesOfInt_intOfBytes {l : Bytes} (h : l.length = 4) : bytesOfInt (intOfBytes l) = l := by
  obtain ⟨x, y, z, w, rfl⟩ := exists_of_length_four h
  have hx := x.toNat_lt
  have hy := y.toNat_lt
  have hz := z.toNat_lt
  have hw := w.toNat_lt
  have hmod : (intOfBytes [x, y, z, w] % 2 ^ 32).toNat =
      x.toNat + 256 * (y.toNat + 256 * (z.toNat + 256 * w.toNat)) := by
    simp only [intOfBytes, List.foldr, Int.bmod]
    omega
  have hbyte : ∀ (n : ℕ) (c : UInt8), n % 256 = c.toNat → UInt8.ofNat n = c := by
    intro n c hn
    rw [← UInt8.toNat_inj, UInt8.toNat_ofNat']
    exact hn
  rw [bytesOfInt, hmod]
  clear hmod
  congr
  · exact hbyte _ _ (by omega)
  · exact hbyte _ _ (by omega)
  · exact hbyte _ _ (by omega)
  · exact hbyte _ _ (by omega)

lemma length_bytesOfInt (x : ℤ) : (bytesOfInt x).length = 4 := rfl

lemma bytesOfInt_intAt {b : Bytes} {off : ℕ} (h : off + 4 ≤ b.length) :
    bytesOfInt (intAt b off) = slice b off 4 :=
  bytesOfInt_intOfBytes (length_slice h)

@[simp] lemma PackType.toInt_ofInt (t : ℤ) : (PackType.ofInt t).toInt = t := by
  rw [PackType.ofInt]
  split_ifs with h₀ h₁ h₂
  · exact h₀.symm
  · exact h₁.symm
  · exact h₂.symm
  · rfl

section

variable (b : Bytes)

lemma packIn_type : (packIn b).type = .ofInt (intAt b 14) := rfl

lemma packIn_destCanIpStr : (packIn b).destCanIpStr = .cut (textAt b 18) := rfl

lemma packIn_srcCanIpStr : (packIn b).srcCanIpStr = .cut (textAt b 33) := rfl

lemma packIn_rreqHop : (packIn b).rreq.hop = intAt b 50 := rfl

lemma packIn_broadcastId : (packIn b).rreq.broadcastId = intAt b 54 := rfl

lemma packIn_rrepSent : (packIn b).rreq.rrepSent = intAt b 62 := rfl

lemma packIn_rrepHop : (packIn b).rrep.hop = intAt b 66 := rfl

lemma packIn_srcDest : (packIn b).srcDest = intAt b 142 := rfl

end

/-! ## The buffer from one frame to the next -/

lemma length_recvInto {buf : Bytes} (hbuf : buf.length = ethPackSize) (data : Bytes) :
    (recvInto buf data ethPackSize).length = ethPackSize := by
  rw [recvInto, List.length_append, List.length_take, List.length_drop, hbuf]
  omega

/-- Behind the frame the buffer has what was there before. -/
lemma getElem?_recvInto {buf data : Bytes} {i : ℕ} (hlen : data.length ≤ ethPackSize)
    (hi : data.length ≤ i) : (recvInto buf data ethPackSize)[i]? = buf[i]? := by
  rw [recvInto, List.take_of_length_le hlen, min_eq_right hlen,
    List.getElem?_append_right hi, List.getElem?_drop]
  congr 1
  omega

/-- A frame that fills the buffer leaves nothing of what was there. -/
lemma recvInto_of_le {buf data : Bytes} (hbuf : buf.length = ethPackSize)
    (hlen : ethPackSize ≤ data.length) :
    recvInto buf data ethPackSize = data.take ethPackSize := by
  rw [recvInto, min_eq_left hlen, ← hbuf, List.drop_length, List.append_nil]

/-- Storing an unchanged packet leaves the buffer as it is. -/
lemma storePack_packIn {b : Bytes} (hb : b.length = ethPackSize) : storePack b (packIn b) = b := by
  have hfield : ∀ off, off + 4 ≤ ethPackSize → put b off (bytesOfInt (intAt b off)) = b := by
    intro off hoff
    rw [bytesOfInt_intAt (hb ▸ hoff), put_slice (hb ▸ hoff)]
  have hpayload : put b 78 (slice b 78 64) = b := put_slice (by rw [hb]; decide)
  simp only [storePack, assignedFields, packIn, PackType.toInt_ofInt, List.foldl_cons,
    List.foldl_nil]
  rw [hfield 14 (by decide), hfield 50 (by decide), hfield 62 (by decide), hfield 66 (by decide),
    hfield 70 (by decide), hfield 74 (by decide), hpayload, hfield 142 (by decide)]

lemma length_strncpy {dst src : Bytes} {n : ℕ} (h : n ≤ dst.length) :
    (strncpy dst src n).length = dst.length := by
  simp only [strncpy, List.length_append, List.length_replicate, List.length_drop,
    List.length_take]
  omega

lemma length_storePack {b : Bytes} (hb : b.length = ethPackSize) {q : OdrPack}
    (hq : q.payload.length = 64) : (storePack b q).length = ethPackSize := by
  have hput : ∀ {b c : Bytes} {off : ℕ}, b.length = ethPackSize → off + c.length ≤ ethPackSize →
      (put b off c).length = ethPackSize := by
    intro b c off hb hoff
    rw [length_put (hb ▸ hoff), hb]
  have hstep : ∀ (ws : List (ℕ × Bytes)) (b : Bytes), b.length = ethPackSize →
      (∀ w ∈ ws, w.1 + w.2.length ≤ ethPackSize) →
      (ws.foldl (fun b w => put b w.1 w.2) b).length = ethPackSize := by
    intro ws
    induction ws with
    | nil => exact fun b hb _ => hb
    | cons w ws ih =>
      intro b hb hws
      exact ih _ (hput hb (hws w List.mem_cons_self)) fun v hv => hws v (List.mem_cons_of_mem w hv)
  refine hstep _ b hb ?_
  simp [assignedFields, length_bytesOfInt, hq, ethPackSize]

end Odr
