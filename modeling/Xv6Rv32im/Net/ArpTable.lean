import Xv6Rv32im.Net.Stack

/-!
# The ARP table

`arp_rx` puts every reply in the first free entry, also one from an address that has an entry.  The
table follows the replies exactly as long as no address replies twice.
-/

namespace Xv6Rv32im.Net.NetStack

open Tcp (load16 load32 toggleEndian16 toggleEndian32)
open Function List Option

abbrev Reply := BitVec 32 × List (BitVec 8)

variable {k : NetStack} {h : List Reply} {ip : BitVec 32}

def replyIn (k : NetStack) (m : Mbuf) : List Reply :=
  let hdr := (m.pop (BitVec.ofNat 32 ARP_HDR_SIZE)).1.getD 0
  if toggleEndian16 (load16 k.mem (hdr + 6)) = ARP_OR_REPLY then
    [(toggleEndian32 (load32 k.mem (hdr + 14)), frame k.mem (hdr + 8) 6)]
  else []

/-- The states after these replies; other code leaves the table alone. -/
inductive Learned : List Reply → NetStack → Prop where
  | init : Learned [] NetStack.init
  | elsewhere {h : List Reply} {k k' : NetStack} : Learned h k → k'.arp = k.arp → Learned h k'
  | arpRx {h : List Reply} {k : NetStack} (m : Mbuf) : Learned h k →
    Learned (h ++ k.replyIn m) (k.arpRx m)
  | arpResolve {h : List Reply} {k : NetStack} (ip : BitVec 32) : Learned h k →
    Learned h (k.arpResolve ip).2.2

/-- The MAC address of the latest reply of an address, other than zero. -/
def latest (h : List Reply) (ip : BitVec 32) : Option (List (BitVec 8)) :=
  (h.reverse.find? fun r => r.1 = ip ∧ r.2 ≠ ETHERNET_ADDR_ANY).map Prod.snd

structure FollowsReplies (k : NetStack) (h : List Reply) : Prop where
  single : ∀ i < ARP_TABLE_SIZE, ∀ j < ARP_TABLE_SIZE, (k.arp i).used = true →
    (k.arp j).used = true → (k.arp i).ipAddr = (k.arp j).ipAddr → i = j
  found : ∀ ip mac, latest h ip = some mac → (k.arpResolve ip).1 = 1 ∧ (k.arpResolve ip).2.1 = mac
  unknown : ∀ ip, latest h ip = none → (k.arpResolve ip).1 = 0

structure Stores (k : NetStack) (h : List Reply) : Prop where
  room : h.length < ARP_TABLE_SIZE
  entry : ∀ i r, h[i]? = some r → k.arp i = ⟨true, r.1, r.2⟩
  free : ∀ i < ARP_TABLE_SIZE, h.length ≤ i → (k.arp i).used = false

theorem arpTx_arp (k : NetStack) (op : BitVec 16) (hwAddr dstMac : List (BitVec 8))
    (dstIp : BitVec 32) : (k.arpTx op hwAddr dstMac dstIp).arp = k.arp := by
  unfold arpTx mbufAlloc ethernetTx
  grind [panic, store, mbufFree]

theorem arpResolve_arp (k : NetStack) (ip : BitVec 32) : (k.arpResolve ip).2.2.arp = k.arp := by
  unfold arpResolve
  grind [arpTx_arp]

theorem arpRx_arp (k : NetStack) (m : Mbuf) : k.replyIn m = [] ∧ (k.arpRx m).arp = k.arp ∨
      ∃ r, k.replyIn m = [r] ∧ ∀ i, k.arpTableGetUnused = some i →
        (k.arpRx m).arp = update k.arp i ⟨true, r.1, r.2⟩ := by
  unfold arpRx replyIn
  dsimp only
  generalize (m.pop (BitVec.ofNat 32 ARP_HDR_SIZE)).1.getD 0 = hdr
  have mem : (k.see hdr ARP_HDR_SIZE).mem = k.mem := rfl
  have unseen : (k.see hdr ARP_HDR_SIZE).arpTableGetUnused = k.arpTableGetUnused := by
    unfold arpTableGetUnused
    rfl
  rw [mem, unseen]
  by_cases reply : toggleEndian16 (load16 k.mem (hdr + 6)) = ARP_OR_REPLY
  · refine .inr ⟨_, if_pos reply, fun i unused => ?_⟩
    rw [if_neg (by rw [reply]; decide), if_pos reply, unused]
    rfl
  · refine .inl ⟨if_neg reply, ?_⟩
    rw [if_neg reply]
    split
    · exact arpTx_arp ..
    · rfl

theorem Stores.unused (stores : k.Stores h) : k.arpTableGetUnused = some h.length := by
  refine find?_range_eq_some.mpr ⟨?_, mem_range.mpr stores.room, fun j below => ?_⟩
  · rw [stores.free _ stores.room (Nat.le_refl _)]
    rfl
  · rw [stores.entry j _ (getElem?_eq_getElem below)]
    rfl

theorem Learned.stores (learned : Learned h k) (room : h.length < ARP_TABLE_SIZE) : k.Stores h := by
  induction learned with
  | init => exact ⟨room, nofun, fun _ _ _ => rfl⟩
  | elsewhere _ same ih =>
    obtain ⟨room, entry, free⟩ := ih room
    exact ⟨room, same ▸ entry, same ▸ free⟩
  | arpResolve ip _ ih =>
    obtain ⟨room, entry, free⟩ := ih room
    exact ⟨room, by rwa [arpResolve_arp], by rwa [arpResolve_arp]⟩
  | @arpRx h k m _ ih =>
    rw [length_append] at room
    have stores := ih (by omega)
    rcases k.arpRx_arp m with ⟨none, same⟩ | ⟨r, one, learns⟩
    · rw [none, append_nil]
      exact ⟨stores.room, same ▸ stores.entry, same ▸ stores.free⟩
    · have table := learns _ stores.unused
      rw [one] at room ⊢
      refine ⟨by rwa [length_append], fun i r' isAt => ?_, fun i lt above => ?_⟩
      · rw [table]
        rcases eq_or_ne i h.length with rfl | ne
        · obtain rfl := some.inj (getElem?_concat_length.symm.trans isAt)
          exact update_self ..
        · rw [update_of_ne ne]
          have below : i < h.length := by
            obtain ⟨lt, -⟩ := List.getElem?_eq_some_iff.mp isAt
            rw [length_append, length_singleton] at lt
            omega
          exact stores.entry i r' (getElem?_append_left below ▸ isAt)
      · rw [length_append, length_singleton] at above
        rw [table, update_of_ne (by omega)]
        exact stores.free i lt (by omega)

section

variable (stores : k.Stores h) (nodup : (h.map Prod.fst).Nodup)

include nodup

/-- Where no address replies twice, its only reply is the latest. -/
theorem latest_eq {r : Reply} (mem : r ∈ h) :
    latest h r.1 = if r.2 = ETHERNET_ADDR_ANY then none else some r.2 := by
  have only {r'} (mem' : r' ∈ h) (same : r'.1 = r.1) : r' = r :=
    inj_on_of_nodup_map nodup mem' mem same
  unfold latest
  cases found : h.reverse.find? _ with
  | none =>
    rw [find?_eq_none] at found
    have zero := found r (mem_reverse.mpr mem)
    simp only [true_and, decide_not, Bool.not_eq_true', decide_eq_false_iff_not, not_not] at zero
    rw [if_pos (by simpa using zero), map_none]
  | some r' =>
    have isSome := find?_some found
    obtain ⟨same, other⟩ := of_decide_eq_true isSome
    rw [only (mem_reverse.mp (mem_of_find?_eq_some found)) same] at other ⊢
    rw [if_neg other, map_some]

include stores

theorem Stores.follows : k.FollowsReplies h := by
  have used {i} (lt : i < ARP_TABLE_SIZE) (isUsed : (k.arp i).used = true) :
      ∃ r, h[i]? = some r ∧ k.arp i = ⟨true, r.1, r.2⟩ := by
    rcases Nat.lt_or_ge i h.length with below | above
    · exact ⟨_, getElem?_eq_getElem below, stores.entry i _ (getElem?_eq_getElem below)⟩
    · rw [stores.free i lt above] at isUsed
      cases isUsed
  have lookup ip : (∃ mac, latest h ip = some mac ∧ (k.arpResolve ip).1 = 1 ∧
      (k.arpResolve ip).2.1 = mac) ∨ latest h ip = none ∧ (k.arpResolve ip).1 = 0 := by
    unfold arpResolve
    cases found : k.arpTableSelect ip with
    | none =>
      refine .inr ⟨?_, by rw [stores.unused]⟩
      rw [latest, map_eq_none_iff, find?_eq_none]
      intro r mem
      obtain ⟨i, isAt⟩ := getElem?_of_mem (mem_reverse.mp mem)
      have lt := (List.getElem?_eq_some_iff.mp isAt).1.trans stores.room
      have other := find?_range_eq_none.mp found i lt
      rw [stores.entry i r isAt] at other
      simp at other
      simp [other]
    | some i =>
      obtain ⟨isEntry, lt, -⟩ := find?_range_eq_some.mp found
      obtain ⟨isUsed, same⟩ := Bool.and_eq_true_iff.mp isEntry
      obtain ⟨r, isAt, entry⟩ := used (mem_range.mp lt) isUsed
      rw [entry] at same
      obtain rfl := eq_of_beq same
      dsimp only
      rw [latest_eq nodup (mem_of_getElem? isAt), entry]
      split
      · exact .inr ⟨rfl, rfl⟩
      · exact .inl ⟨_, rfl, rfl, rfl⟩
  refine ⟨fun i first j second usedI usedJ same => ?_, fun ip mac isLatest => ?_, fun ip none => ?_⟩
  · obtain ⟨r, isAt, entry⟩ := used first usedI
    obtain ⟨r', isAt', entry'⟩ := used second usedJ
    rw [entry, entry'] at same
    have lt : i < (h.map Prod.fst).length := by
      rw [length_map]
      exact (List.getElem?_eq_some_iff.mp isAt).1
    refine (List.getElem?_inj lt nodup).mp ?_
    rw [getElem?_map, getElem?_map, isAt, isAt']
    exact congrArg some same
  · rcases lookup ip with ⟨mac', isLatest', resolved⟩ | ⟨none, -⟩
    · rwa [some.inj (isLatest.symm.trans isLatest')]
    · cases isLatest.symm.trans none
  · rcases lookup ip with ⟨mac', isLatest, -⟩ | ⟨-, zero⟩
    · cases isLatest.symm.trans none
    · exact zero

end

/-- Where no address has replied twice and the table is not full, lookups follow the replies. -/
theorem lookups_follow_replies (learned : Learned h k) (nodup : (h.map Prod.fst).Nodup)
    (room : h.length < ARP_TABLE_SIZE) : k.FollowsReplies h :=
  (learned.stores room).follows nodup

/-- An ARP reply from 10.0.2.2 with this MAC address lies in memory. -/
def replyFrom (mac : BitVec 8) (k : NetStack) : NetStack :=
  let reply : List (BitVec 8) := [0, 0, 0, 0, 0, 0, 0, 2, mac, 0, 0, 0, 0, 0, 10, 0, 2, 2]
  { k with nic := { k.nic with mem := fun a => reply.getD (a - 12) 0 } }

theorem Learned.hears (learned : Learned h k) (mac : BitVec 8) :
    Learned (h ++ (replyFrom mac k).replyIn (.alloc 0 0)) ((replyFrom mac k).arpRx (.alloc 0 0)) :=
  .arpRx _ (.elsewhere learned rfl)

theorem lookups_follow_replies_one : ∃ h k, h.length = 1 ∧ Learned h k ∧ k.FollowsReplies h := by
  have learned := Learned.init.hears 1
  exact ⟨_, _, by decide, learned, lookups_follow_replies learned (by decide) (by decide)⟩

/-- The address replies again with another MAC address, and lookups find the old one. -/
theorem stale_entry_found : ∃ h k, Learned h k ∧ latest h 0x0a000202 = some [2, 0, 0, 0, 0, 0] ∧
    (k.arpResolve 0x0a000202).2.1 = [1, 0, 0, 0, 0, 0] ∧ ¬k.FollowsReplies h := by
  have newest : latest (([] ++ (replyFrom 1 init).replyIn (.alloc 0 0)) ++ (replyFrom 2
      ((replyFrom 1 init).arpRx (.alloc 0 0))).replyIn (.alloc 0 0)) 0x0a000202 =
      some [2, 0, 0, 0, 0, 0] := by
    decide +kernel
  have stale : (arpResolve ((replyFrom 2 ((replyFrom 1 init).arpRx (.alloc 0 0))).arpRx
      (.alloc 0 0)) 0x0a000202).2.1 = [1, 0, 0, 0, 0, 0] := by
    decide +kernel
  refine ⟨_, _, (Learned.init.hears 1).hears 2, newest, stale, fun follows => ?_⟩
  exact absurd (stale.symm.trans (follows.found _ _ newest).2) (by decide)

end Xv6Rv32im.Net.NetStack
