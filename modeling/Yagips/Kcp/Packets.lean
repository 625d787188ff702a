import Yagips.Kcp.Liveness
import Yagips.Wire.Overrun

/-!
# Packets over a link

`Session::sendPacket` hands its packets to KCP and a pass of `SessionMain` takes them from it. Under the
same keys at both ends, what is taken are the packets that were sent.
-/
namespace Yagips.Kcp

open Yagips.Lib
open Yagips.Wire.Build
open Yagips.Wire.RoundTrip

/-- A packet, the key it is sent under, and what the static buffer of the sender holds. -/
structure Outgoing where
  packet : Wire.Frame.Packet
  key : Option (Vector UInt8 4096)
  buf : Vector UInt8 4096

/-- `sendPacket` hands these bytes to KCP. -/
def Outgoing.Hands (o : Outgoing) (bytes : Bytes) : Prop :=
  sendPacket o.buf (o.key.map (·.toList)) o.packet = .ok (some bytes)

/-- A pass that takes these bytes under the same key parses the packet, whatever its buffer and its packet
held before. -/
def Outgoing.Parsed (o : Outgoing) (bytes : Bytes) : Prop :=
  ∀ pktBuf q, ∃ r, receivePacket pktBuf (o.key.map (·.toList)) q bytes = .ok (0, r) ∧
    r.opcode = o.packet.opcode ∧ r.header = o.packet.header ∧ r.data = o.packet.data

theorem Outgoing.Hands.parsed {o : Outgoing} {bytes : Bytes} (h : o.Hands bytes) : o.Parsed bytes := by
  have hfits : 12 + o.packet.header.length + o.packet.data.length ≤ 4096 := by
    by_contra hlong
    obtain ⟨f, hf⟩ := @Wire.Overrun.build_overruns o.packet o.buf.toList (by
      rw [frame_length, Vector.length_toList]
      omega)
    rw [Outgoing.Hands, sendPacket, hf] at h
    cases h
  have hlen := frame_length o.packet
  obtain ⟨c, hc, hsent, hopen⟩ := send_frame o.packet hfits o.key o.buf
  have hsame : c = bytes := by
    rw [Outgoing.Hands, hsent] at h
    exact Option.some.inj (Except.ok.inj h)
  subst hsame
  have hsmall : (frame o.packet).length < 2 ^ 64 := by omega
  intro pktBuf q
  obtain ⟨r, hr, hparts⟩ := parse_frame o.packet q (by omega) (by omega) hsmall
  have hstore := storeAt_append (a := []) (b := pktBuf.toList) (c := c) (by
    rw [Vector.length_toList]
    omega)
  rw [List.nil_append] at hstore
  refine ⟨r, ?_, hparts⟩
  rw [receivePacket, show storeAt pktBuf.toList 0 c = _ from hstore, ok_bind]
  simp only [List.nil_append, hopen, ok_bind]
  rw [hc, sliceAt_prefix, ok_bind, dif_pos hsmall, hr]

theorem all_parsed {outgoing : List Outgoing} {sent : List Message}
    (h : List.Forall₂ (fun o m => o.Hands m.bytes) outgoing sent) :
    List.Forall₂ Outgoing.Parsed outgoing (sent.map Message.bytes) := by
  rw [List.forall₂_map_right_iff]
  exact h.imp fun _ _ hands => hands.parsed

/-- Where one end sends packets, what the other end takes parses to the first of them, in order and under any
loss, repetition and reordering; and from there all of them can still be taken. -/
theorem packets_arrive {conv : UInt64} {c c' : Config} (hwnd : c'.rcvwnd.toInt < 2 ^ 16) {l : Link}
    (h : Reaches (opened conv c c') l) {outgoing : List Outgoing}
    (hsent : List.Forall₂ (fun o m => o.Hands m.bytes) outgoing l.near.sent) :
    List.Forall₂ Outgoing.Parsed (outgoing.take l.far.got.length) l.far.got ∧
      ∃ l', Reaches l l' ∧ l'.near.sent = l.near.sent ∧ List.Forall₂ Outgoing.Parsed outgoing l'.far.got := by
  have hall := all_parsed hsent
  have hinv := (opened_invariant conv c c').reaches h
  refine ⟨?_, ?_⟩
  · have htake := List.forall₂_take l.far.got.length hall
    rwa [← List.prefix_iff_eq_take.mp hinv.delivered] at htake
  · obtain ⟨-, hfar⟩ := reaches_settings h
    have hfarWnd : l.far.kcp.rcv.rcvWnd.toNat < 2 ^ 16 := by
      rw [show l.far.kcp.rcv.rcvWnd = (c'.opened conv).rcv.rcvWnd from congrArg Settings.rcvWnd hfar]
      exact c'.opened_rcvWnd conv (by decide) hwnd
    obtain ⟨l', honward, hgot⟩ := delivers hinv hfarWnd
    exact ⟨l', honward.reaches, honward.near, hgot ▸ hall⟩

/-- A packet with no data, under no key. -/
def pingPacket : Outgoing where
  packet := { opcode := 7, header := [0x18, 0x01], data := [] }
  key := none
  buf := .replicate 4096 0

def pingMessage : Message := ⟨frame pingPacket.packet, by decide +kernel⟩

def pingSent : Link :=
  let l := opened 7 (sessionConfig 100) (sessionConfig 100)
  { l with near := l.near.send pingMessage }

theorem packets_arrive_ping :
    List.Forall₂ Outgoing.Parsed ([pingPacket].take pingSent.far.got.length) pingSent.far.got ∧
      ∃ l', Reaches pingSent l' ∧ l'.near.sent = pingSent.near.sent ∧ List.Forall₂ Outgoing.Parsed [pingPacket] l'.far.got := by
  have hsent : pingSent.near.sent = [pingMessage] := by decide +kernel
  have hhands : pingPacket.Hands pingMessage.bytes := by
    rw [Outgoing.Hands]
    decide +kernel
  exact packets_arrive (by decide) (Relation.ReflTransGen.single (.near (.send _ pingMessage)))
    (hsent ▸ .cons hhands .nil)

end Yagips.Kcp
