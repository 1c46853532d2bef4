import Mathlib.Algebra.Order.Ring.Nat
import Mathlib.Data.List.GetD
import Mathlib.Data.List.Nodup

/-! Bulk reception, from `usb/usb_hardware.c`: a read of some length, and the packets that come in
    meanwhile.

    The callback counts no more bytes of a packet than are still wanted, but copies all of them. Where a
    packet is longer than that, the rest of it lies behind the buffer of the caller. -/

namespace Usb

/-! ### The code -/

structure Packet where
  ep : UInt8
  data : List UInt8

/-- What one `usb_poll` hands over: a packet of at most 64 bytes for each endpoint at most. -/
structure Poll where
  packets : List Packet
  nodup : (packets.map Packet.ep).Nodup
  size_le : ∀ p ∈ packets, p.data.length ≤ 64

/-- `memcpy` to an address. -/
def memcpy (mem : ℕ → UInt8) (dest : ℕ) (data : List UInt8) : ℕ → UInt8 :=
  fun a => if dest ≤ a then data.getD (a - dest) (mem a) else mem a

/-- The variables of a read, the memory, and the packets that the earlier callback was given. -/
structure Recv where
  read_ep : UInt8
  read_offset : ℕ
  read_remaining : ℕ
  mem : ℕ → UInt8
  passed : List Packet

/-- `usb_recv_cb`; address 0 is `NULL`. -/
def usbRecvCb (s : Recv) (p : Packet) : Recv :=
  if p.ep ≠ s.read_ep then { s with passed := s.passed ++ [p] }
  else
    let valid_bytes := min p.data.length s.read_remaining
    { s with
      mem := memcpy s.mem s.read_offset p.data
      read_offset := if p.data.length = 0 then 0 else s.read_offset + valid_bytes
      read_remaining := s.read_remaining - valid_bytes }

/-- `while (read_offset && read_remaining)`, and the polls that come after it. -/
def recvLoop : Recv → List Poll → Recv × List Poll
  | s, [] => (s, [])
  | s, poll :: polls =>
    if s.read_offset ≠ 0 ∧ s.read_remaining ≠ 0 then recvLoop (poll.packets.foldl usbRecvCb s) polls
    else (s, poll :: polls)

/-- `usb_recv`, as far as it has come with these polls. -/
def usbRecv (mem : ℕ → UInt8) (ep : UInt8) (packet length : ℕ) (polls : List Poll) : Recv :=
  (recvLoop ⟨ep, packet, length, mem, []⟩ polls).1

/-- What `usb_recv` returns. -/
def bytesRead (length : ℕ) (s : Recv) : ℕ := length - s.read_remaining

/-! ### What it is for -/

/-- The packet of an endpoint. -/
def Poll.packet? (poll : Poll) (ep : UInt8) : Option (List UInt8) :=
  (poll.packets.find? fun p => p.ep = ep).map Packet.data

/-- The packets of an endpoint. -/
def packetsFor (ep : UInt8) (polls : List Poll) : List (List UInt8) := polls.filterMap (·.packet? ep)

/-- The bytes that are received while some are wanted; an empty packet ends the read. -/
def received : ℕ → List (List UInt8) → List UInt8
  | _, [] => []
  | wanted, p :: ps => if wanted = 0 ∨ p = [] then [] else p ++ received (wanted - p.length) ps

/-- The first bytes received are in the buffer in order, their number is returned, and nothing else is
    written. -/
def InPlace (ep : UInt8) (packet length : ℕ) (polls : List Poll) : Prop :=
  ∀ mem, let stored := (received length (packetsFor ep polls)).take length
    (usbRecv mem ep packet length polls).mem = memcpy mem packet stored ∧
      bytesRead length (usbRecv mem ep packet length polls) = stored.length

/-- No packet is longer than what is still wanted when it arrives. -/
def Fits : ℕ → List (List UInt8) → Prop
  | _, [] => True
  | wanted, p :: ps => wanted = 0 ∨ p = [] ∨ (p.length ≤ wanted ∧ Fits (wanted - p.length) ps)

/-! ### Copies -/

variable {mem : ℕ → UInt8} {ep : UInt8}

theorem memcpy_nil (mem : ℕ → UInt8) (dest : ℕ) : memcpy mem dest [] = mem := by
  funext a
  exact ite_self _

/-- A copy behind a copy. -/
theorem memcpy_append (mem : ℕ → UInt8) (dest : ℕ) (p q : List UInt8) :
    memcpy (memcpy mem dest p) (dest + p.length) q = memcpy mem dest (p ++ q) := by
  funext a
  unfold memcpy
  by_cases hlow : dest ≤ a
  · rw [if_pos hlow, if_pos hlow]
    by_cases hp : a - dest < p.length
    · rw [if_neg (by omega), List.getD_append _ _ _ _ hp]
    · rw [List.getD_append_right _ _ _ _ (Nat.le_of_not_lt hp), Nat.sub_sub]
      by_cases hq : dest + p.length ≤ a
      · rw [if_pos hq, List.getD_eq_default p _ (Nat.le_of_not_lt hp)]
      · omega
  · rw [if_neg hlow, if_neg hlow, if_neg (by omega)]

/-- More bytes are another copy, over some memory. -/
theorem memcpy_take_iff (dest n : ℕ) (data : List UInt8) :
    (∀ mem, memcpy mem dest data = memcpy mem dest (data.take n)) ↔ data.length ≤ n := by
  constructor
  · intro h
    by_contra hlong
    have hn : n < data.length := Nat.lt_of_not_le hlong
    have hbyte := congrFun (h fun _ => data.getD n 0 + 1) (dest + n)
    unfold memcpy at hbyte
    rw [if_pos (Nat.le_add_right dest n), if_pos (Nat.le_add_right dest n), Nat.add_sub_cancel_left,
      List.getD_eq_default (data.take n) _ (by rw [List.length_take]; exact Nat.min_le_left _ _),
      List.getD_eq_getElem _ _ hn, List.getD_eq_getElem _ _ hn] at hbyte
    exact absurd hbyte.symm (by simp)
  · intro h mem
    rw [List.take_of_length_le h]

/-! ### A poll -/

/-- Packets for other endpoints leave the read as it is. -/
theorem foldl_others : ∀ (ps : List Packet) (s : Recv), (∀ p ∈ ps, p.ep ≠ s.read_ep) →
    ps.foldl usbRecvCb s = { s with passed := s.passed ++ ps }
  | [], s, _ => by rw [List.append_nil]; rfl
  | p :: ps, s, h => by
    rw [List.foldl_cons, usbRecvCb, if_pos (h p List.mem_cons_self)]
    refine (foldl_others ps { s with passed := s.passed ++ [p] } fun q hq => h q (List.mem_cons_of_mem p hq)).trans ?_
    rw [List.append_assoc]
    rfl

/-- What a packet for the read does. -/
def take (s : Recv) (data : List UInt8) (passed : List Packet) : Recv :=
  { s with
    mem := memcpy s.mem s.read_offset data
    read_offset := if data.length = 0 then 0 else s.read_offset + min data.length s.read_remaining
    read_remaining := s.read_remaining - min data.length s.read_remaining
    passed := passed }

theorem foldl_nodup : ∀ (ps : List Packet) (s : Recv), (ps.map Packet.ep).Nodup →
    ∃ passed, ps.foldl usbRecvCb s =
      match (ps.find? fun p => p.ep = s.read_ep).map Packet.data with
      | none => { s with passed := passed }
      | some data => take s data passed
  | [], s, _ => ⟨s.passed, rfl⟩
  | p :: ps, s, h => by
    obtain ⟨hp, hps⟩ := List.nodup_cons.mp h
    by_cases heq : p.ep = s.read_ep
    · refine ⟨s.passed ++ ps, ?_⟩
      simp only [List.find?_cons, decide_eq_true heq, Option.map_some]
      rw [List.foldl_cons, usbRecvCb, if_neg (not_not.mpr heq)]
      refine foldl_others ps (take s p.data s.passed) fun q hq hsame => hp ?_
      rw [heq]
      exact hsame ▸ List.mem_map_of_mem hq
    · simp only [List.find?_cons, decide_eq_false heq]
      rw [List.foldl_cons, usbRecvCb, if_pos heq]
      exact foldl_nodup ps { s with passed := s.passed ++ [p] } hps

/-! ### The read -/

theorem received_zero (ps : List (List UInt8)) : received 0 ps = [] := by
  cases ps with
  | nil => rfl
  | cons p ps => exact if_pos (.inl rfl)

/-- All bytes received are copied, and as many are counted as were wanted. -/
theorem recvLoop_received : ∀ (polls : List Poll) (s : Recv), s.read_offset ≠ 0 →
    (recvLoop s polls).1.mem =
        memcpy s.mem s.read_offset (received s.read_remaining (packetsFor s.read_ep polls)) ∧
      (recvLoop s polls).1.read_remaining =
        s.read_remaining - (received s.read_remaining (packetsFor s.read_ep polls)).length
  | [], s, _ => ⟨(memcpy_nil _ _).symm, rfl⟩
  | poll :: polls, s, hoffset => by
    rw [recvLoop]
    by_cases hwanted : s.read_remaining = 0
    · rw [if_neg (fun hf => hf.2 hwanted), hwanted, received_zero, memcpy_nil]
      exact ⟨rfl, rfl⟩
    rw [if_pos ⟨hoffset, hwanted⟩]
    obtain ⟨passed, hpoll⟩ := foldl_nodup poll.packets s poll.nodup
    rw [hpoll]
    cases hnext : poll.packet? s.read_ep with
    | none =>
      have hpackets : packetsFor s.read_ep (poll :: polls) = packetsFor s.read_ep polls := by
        rw [packetsFor, List.filterMap_cons, hnext]
        rfl
      unfold Poll.packet? at hnext
      rw [hpackets, hnext]
      exact recvLoop_received polls { s with passed := passed } hoffset
    | some data =>
      have hpackets : packetsFor s.read_ep (poll :: polls) = data :: packetsFor s.read_ep polls := by
        rw [packetsFor, List.filterMap_cons, hnext]
        rfl
      unfold Poll.packet? at hnext
      rw [hpackets, hnext, received]
      show (recvLoop (take s data passed) polls).1.mem = _ ∧ _
      by_cases hempty : data = []
      · have hstop : recvLoop (take s [] passed) polls = (take s [] passed, polls) := by
          cases polls with
          | nil => rfl
          | cons => exact if_neg fun hf => hf.1 rfl
        rw [if_pos (.inr hempty), hempty, hstop]
        refine ⟨rfl, ?_⟩
        show s.read_remaining - min 0 s.read_remaining = _
        rw [Nat.zero_min]
        rfl
      · have hlen : data.length ≠ 0 := fun hf => hempty (List.length_eq_zero_iff.mp hf)
        obtain ⟨hmem, hleft⟩ := recvLoop_received polls (take s data passed) (by
          show (if data.length = 0 then 0 else s.read_offset + min data.length s.read_remaining) ≠ 0
          rw [if_neg hlen]
          omega)
        have hremaining : (take s data passed).read_remaining = s.read_remaining - data.length := by
          show s.read_remaining - min data.length s.read_remaining = _
          omega
        rw [hremaining] at hmem hleft
        rw [if_neg (not_or.mpr ⟨hwanted, hempty⟩), hmem, hleft, List.length_append, Nat.sub_sub,
          ← memcpy_append]
        refine ⟨?_, rfl⟩
        show memcpy (memcpy s.mem s.read_offset data)
          (if data.length = 0 then 0 else s.read_offset + min data.length s.read_remaining) _ = _
        rw [if_neg hlen]
        by_cases hle : data.length ≤ s.read_remaining
        · rw [Nat.min_eq_left hle]
          rfl
        · rw [show s.read_remaining - data.length = 0 by omega]
          rw [received_zero, received_zero, memcpy_nil, memcpy_nil]

theorem received_length_le_iff : ∀ (ps : List (List UInt8)) (wanted : ℕ),
    (received wanted ps).length ≤ wanted ↔ Fits wanted ps
  | [], _ => iff_of_true (Nat.zero_le _) trivial
  | p :: ps, wanted => by
    rw [received, Fits]
    by_cases hend : wanted = 0 ∨ p = []
    · rw [if_pos hend]
      exact iff_of_true (Nat.zero_le _) (hend.imp_right .inl)
    · rw [if_neg hend, List.length_append, ← received_length_le_iff ps]
      obtain ⟨hwanted, hempty⟩ := not_or.mp hend
      rw [or_iff_right hwanted, or_iff_right hempty]
      omega

/-- A read puts the bytes in place, whatever the memory holds, if and only if no packet for it is longer
    than what is still wanted when it arrives. -/
theorem usbRecv_inPlace_iff (ep : UInt8) (packet length : ℕ) (polls : List Poll) (h : packet ≠ 0) :
    InPlace ep packet length polls ↔ Fits length (packetsFor ep polls) := by
  rw [← received_length_le_iff, ← memcpy_take_iff packet]
  refine forall_congr' fun mem => ?_
  have hmem : (usbRecv mem ep packet length polls).mem =
      memcpy mem packet (received length (packetsFor ep polls)) :=
    (recvLoop_received polls ⟨ep, packet, length, mem, []⟩ h).1
  have hleft : (usbRecv mem ep packet length polls).read_remaining =
      length - (received length (packetsFor ep polls)).length :=
    (recvLoop_received polls ⟨ep, packet, length, mem, []⟩ h).2
  have hread : bytesRead length (usbRecv mem ep packet length polls) =
      ((received length (packetsFor ep polls)).take length).length := by
    rw [bytesRead, hleft, List.length_take]
    omega
  rw [hmem]
  exact and_iff_left hread

/-- A packet, alone in a poll. -/
def onePacket (ep : UInt8) (data : List UInt8) (h : data.length ≤ 64) : Poll :=
  ⟨[⟨ep, data⟩], List.nodup_singleton ep, fun _ hp => List.mem_singleton.mp hp ▸ h⟩

theorem two_packets : InPlace 2 0x1000 3 [onePacket 2 [1, 2] (by decide), onePacket 2 [3] (by decide)] ↔
    Fits 3 (packetsFor 2 [onePacket 2 [1, 2] (by decide), onePacket 2 [3] (by decide)]) :=
  usbRecv_inPlace_iff 2 0x1000 3 _ (by decide)

/-- The second packet is one byte too long. -/
theorem behind_the_buffer : ¬∀ ep packet length polls, packet ≠ 0 → InPlace ep packet length polls := by
  intro hall
  have hplace := hall 2 0x1000 3 [onePacket 2 [1, 2] (by decide), onePacket 2 [3, 4] (by decide)] (by decide)
  have hbyte := congrFun (hplace fun _ => 0).1 0x1003
  exact absurd hbyte (by decide)

end Usb
