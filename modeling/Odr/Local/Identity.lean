/-
# Who is meant

A packet names its destination and its source by their dotted forms, and a daemon recognises
itself by comparing these with its own.  On the way the text goes through buffers of several
sizes: `msg_send` copies 15 bytes, `main` keeps 14 characters, and `is_self_dest` gives
`inet_ntop` a buffer of 14 bytes.  A dotted form has from 7 to 15 characters.

The comparison is right for an own address of at most 13 characters; a longer one does not fit in
the 14 bytes with its NUL, and what is compared is whatever the stack held.  A destination of 15
characters leaves `msg_send` without a NUL, and if `main` then reads on into what the stack of the
client held, it does not read an address at all.
-/
import Odr.Source.Inet
import Odr.Network.Lab

namespace Odr

/-- A host to which the resolver gives this address; `unspecified` is in `self_ip_str` before
`inet_ntop`. -/
def Host.withAddress (h : Host) (x : InAddr) (unspecified : CanIp) : Host :=
  { h with hostnameOk := true, selfIpStr := inetNtop x 14 unspecified, canIp := getCanIp x }

/-- A machine with the address `a` takes itself for the destination of a request for `b` exactly
if it is, whatever is in the memory that is not initialised. -/
def DestExact (a b : InAddr) : Prop :=
  ∀ (rs : Resolver) (h h' : Host) (s : Node) (stack : Bytes) (flag : ℤ) (inAddr : InAddr)
    (selfIpStr : CanIp), rs.Reads inAddr → stack.length = 32 →
    (isSelfDest (h.withAddress a selfIpStr)
      (rreqPack rs h' s (msgSend stack (dotted b) flag)).destCanIpStr = 1 ↔ a = b)

/-- A machine with the address `a` takes itself for the source of a request made on the machine
with the address `b` exactly if it is. -/
def SrcExact (a b : InAddr) : Prop :=
  ∀ (rs : Resolver) (h h' : Host) (s : Node) (req : OdrReq) (selfIpStr selfIpStr' : CanIp),
    isSelfSrc (h.withAddress a selfIpStr)
      (rreqPack rs (h'.withAddress b selfIpStr') s req).srcCanIpStr = 1 ↔ a = b

/-- A resolver with this address in the memory that `malloc` gives. -/
def finding (unspecified : InAddr) : Resolver :=
  ⟨fun _ _ => 0, fun msg => dotted ((inetAton (textOfBytes msg)).getD unspecified)⟩

lemma reads_finding (unspecified : InAddr) : (finding unspecified).Reads unspecified := fun _ => rfl

section

variable {a b : InAddr} {h h' : Host} {c : CanIp}

/-! ## The comparison -/

lemma isSelfDest_withAddress {unspecified : CanIp} :
    isSelfDest (h.withAddress a unspecified) c = 1 ↔ inetNtop a 14 unspecified = c := by
  simp only [isSelfDest, Host.withAddress, if_true]
  by_cases heq : inetNtop a 14 unspecified = c
  · simp [heq]
  · simp [heq]

lemma inetNtop_of_le (ha : (dotted a).length ≤ 13) (unspecified : CanIp) :
    inetNtop a 14 unspecified = .cut (dotted a) :=
  if_pos (Nat.succ_le_succ ha)

/-- The address does not fit in `self_ip_str`, and the answer may be wrong. -/
lemma exists_wrong (ha : 13 < (dotted a).length) (b : InAddr) (c : CanIp) :
    ∃ unspecified, ¬(isSelfDest (h.withAddress a unspecified) c = 1 ↔ a = b) := by
  have hnot : ∀ unspecified, inetNtop a 14 unspecified = unspecified :=
    fun unspecified => if_neg (by omega)
  simp only [isSelfDest_withAddress, hnot]
  rcases eq_or_ne a b with rfl | hab
  · by_cases hc : c = .cut []
    · exact ⟨.cut ['1'], fun hiff => absurd (hc.symm.trans (hiff.mpr rfl).symm) (by decide)⟩
    · exact ⟨.cut [], fun hiff => hc (hiff.mpr rfl).symm⟩
  · exact ⟨c, fun hiff => hab (hiff.mp rfl)⟩

lemma str_cut_dotted (x : InAddr) : (CanIp.cut (dotted x)).str = (dotted x).take 14 := by
  have hnul : (dotted x).takeWhile (· ≠ '\x00') = dotted x := by
    rw [List.takeWhile_eq_self_iff]
    intro d hd
    simpa using (isText_dotted x d hd).1
  exact congrArg (List.take 14) hnul

/-- Fourteen characters tell a dotted form of at most 13 from all others. -/
lemma cut_dotted_eq_iff (ha : (dotted a).length ≤ 13) :
    CanIp.cut (dotted a) = .cut (dotted b) ↔ a = b := by
  refine ⟨fun heq => ?_, fun heq => by rw [heq]⟩
  have hstr := congrArg CanIp.str heq
  rw [str_cut_dotted, str_cut_dotted, List.take_of_length_le (by omega)] at hstr
  have hlen := congrArg List.length hstr
  rw [List.length_take] at hlen
  rw [List.take_of_length_le (by omega)] at hstr
  exact dotted_injective hstr

/-! ## The text of a request -/

variable {s : Node} {stack : Bytes} {flag : ℤ}

/-- The string that `main` reads, if that of `msg_send` is not longer than 31 characters. -/
lemma textOfBytes_strncpy {msg : Bytes} {text : List Char} (htext : IsText text)
    (hlen : text.length < 32) (hmsg : msg.takeWhile (· ≠ 0) = bytesOfText text) :
    textOfBytes (strncpy s.msg msg 32) = text := by
  rw [textOfBytes, takeWhile_strncpy (by rwa [hmsg, bytesOfText, List.length_map]), hmsg]
  exact map_bytesOfText htext

/-- With a NUL in time `main` reads the text of the client. -/
lemma text_msgSend (hlen : (dotted b).length ≤ 14) :
    textOfBytes (strncpy s.msg (msgSend stack (dotted b) flag).msg 32) = dotted b := by
  have hstring := takeWhile_bytesOfText (isText_dotted b)
  refine textOfBytes_strncpy (isText_dotted b) (hlen.trans_lt (by decide)) ?_
  rw [msgSend, takeWhile_strncpy, hstring]
  rw [hstring, bytesOfText, List.length_map]
  exact Nat.lt_succ_of_le hlen

/-- Without one it may read a letter behind it. -/
lemma text_msgSend_junk (hlen : (dotted b).length = 15)
    (hjunk : (stack.drop 15).takeWhile (· ≠ 0) = [120]) :
    textOfBytes (strncpy s.msg (msgSend stack (dotted b) flag).msg 32) = dotted b ++ ['x'] := by
  have hstring := takeWhile_bytesOfText (isText_dotted b)
  have htext : IsText (dotted b ++ ['x']) := by
    intro d hd
    rcases List.mem_append.mp hd with hd | hd
    · exact isText_dotted b d hd
    · rw [List.mem_singleton.mp hd]
      decide
  refine textOfBytes_strncpy htext (by rw [List.length_append, hlen]; decide) ?_
  rw [msgSend, takeWhile_strncpy_full, hstring, hjunk, bytesOfText, bytesOfText, List.map_append]
  · rfl
  · rw [hstring, bytesOfText, List.length_map, hlen]

/-! ## Both ends -/

lemma destExact_iff :
    DestExact a b ↔ (dotted a).length ≤ 13 ∧ (dotted b).length ≤ 14 := by
  constructor
  · intro hexact
    have ha : (dotted a).length ≤ 13 := by
      by_contra hlong
      let h : Host := ⟨[], true, .cut [], .cut [], 0⟩
      obtain ⟨unspecified, hwrong⟩ := exists_wrong (h := h) (not_le.mp hlong) b
        (rreqPack (finding b) h Lab.freshNode (msgSend (.replicate 32 0) (dotted b) 0)).destCanIpStr
      exact hwrong (hexact _ h h _ _ 0 b unspecified (reads_finding b) List.length_replicate)
    refine ⟨ha, ?_⟩
    by_contra hlong
    -- `inet_aton` fails, and the memory for the address holds that of the machine
    have hlen : (dotted b).length = 15 := le_antisymm (length_dotted b) (by omega)
    let h : Host := ⟨[], true, .cut [], .cut [], 0⟩
    let stack : Bytes := .replicate 15 0 ++ [120] ++ .replicate 16 0
    have htext : textOfBytes (strncpy Lab.freshNode.msg (msgSend stack (dotted b) 0).msg 32) = _ :=
      text_msgSend_junk hlen rfl
    have hdest : (rreqPack (finding a) h Lab.freshNode (msgSend stack (dotted b) 0)).destCanIpStr =
        .cut (dotted a) := by
      simp only [rreqPack, requestDest, reads_finding a _, htext, inetAton_dotted_append,
        Option.getD_none]
    have hself := (hexact (finding a) h h Lab.freshNode stack 0 a (.cut []) (reads_finding a)
      rfl).mp (isSelfDest_withAddress.mpr ((inetNtop_of_le ha _).trans hdest.symm))
    rw [hself, hlen] at ha
    exact absurd ha (by decide)
  · rintro ⟨ha, hb⟩ rs h h' s stack flag inAddr unspecified hreads hstack
    have hdest : (rreqPack rs h' s (msgSend stack (dotted b) flag)).destCanIpStr =
        .cut (dotted b) := by
      simp only [rreqPack, requestDest, hreads _, text_msgSend hb, inetAton_dotted,
        Option.getD_some]
    rw [hdest, isSelfDest_withAddress, inetNtop_of_le ha, cut_dotted_eq_iff ha]

lemma srcExact_iff : SrcExact a b ↔ (dotted a).length ≤ 13 := by
  constructor
  · intro hexact
    by_contra hlong
    let h : Host := ⟨[], true, .cut [], .cut [], 0⟩
    obtain ⟨unspecified, hwrong⟩ := exists_wrong (h := h) (not_le.mp hlong) b (getCanIp b)
    exact hwrong (hexact Lab.resolver h h Lab.freshNode (Lab.ask 0) unspecified (.cut []))
  · intro ha rs h h' s req unspecified unspecified'
    have hsrc : (rreqPack rs (h'.withAddress b unspecified') s req).srcCanIpStr =
        .cut (dotted b) := rfl
    rw [hsrc, isSelfSrc, isSelfDest_withAddress, inetNtop_of_le ha, cut_dotted_eq_iff ha]

end

/-- **When a machine knows who is meant.** With the memory that is not initialised holding
whatever it does, `is_self_dest` is right about a destination `b` if and only if the dotted form
of the own address has at most 13 characters and that of `b` at most 14, and `is_self_src` is
right about a source if and only if that of the own address has at most 13. -/
theorem identity_exact_iff (a b : InAddr) :
    (DestExact a b ↔ (dotted a).length ≤ 13 ∧ (dotted b).length ≤ 14) ∧
      (SrcExact a b ↔ (dotted a).length ≤ 13) :=
  ⟨destExact_iff, srcExact_iff⟩

/-- The machine `130.245.156.21` need not know that it is meant. -/
theorem own_address_not_recognised :
    ¬DestExact ⟨130, 245, 156, 21⟩ ⟨130, 245, 156, 21⟩ := by
  intro hexact
  have hself := (hexact (finding ⟨0, 0, 0, 0⟩) ⟨[], true, .cut [], .cut [], 0⟩
    ⟨[], true, .cut [], .cut [], 0⟩ Lab.freshNode (.replicate 32 0) 0 ⟨0, 0, 0, 0⟩ (.cut [])
    (reads_finding _) rfl).mpr rfl
  exact absurd hself (by decide +kernel)

end Odr
