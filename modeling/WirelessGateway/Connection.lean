import Mathlib.Data.Finset.Card
import Mathlib.Data.List.FinRange
import Mathlib.Logic.Function.Basic
import WirelessGateway.Types
import WirelessGateway.Lib.Linked
import WirelessGateway.Lib.Runs

namespace WirelessGateway.Connection

open Lib.Linked Lib.Runs
open WirelessGateway.Types (ConnPtr)

abbrev Mac := BitVec 48

abbrev Ip4 := UInt32

abbrev linksMaxAmount : Nat := 4

abbrev LinkPtr := Fin linksMaxAmount

/-- link_t, with the connections whose delegates are subscribed to its event. -/
structure Link where
  ip : Ip4
  mac : Mac
  event : List ConnPtr

structure Links where
  pool : LinkPtr → Link
  free : List LinkPtr
  active : List LinkPtr

inductive Peer
  | failed
  | inet (addr : Ip4)
  | inet6 (words : Fin 8 → UInt16)
  | other

def isIpv4ToV6Mapped (words : Fin 8 → UInt16) : Bool :=
  words 0 == 0 && words 1 == 0 && words 2 == 0 && words 3 == 0 && words 4 == 0 &&
    words 5 == 0xffff

def Peer.ip4 : Peer → Option Ip4
  | .inet addr => some addr
  | .inet6 words =>
    if isIpv4ToV6Mapped words then some ((words 6).toUInt32 ||| (words 7).toUInt32 <<< 16) else none
  | .failed | .other => none

/-- What the handlers ask for: the end of a connection, of a station that is
known by its MAC, and of one that is known by its association. -/
inductive Action
  | triggerClose (conn : ConnPtr)
  | disconnectStaByMac (mac : Mac)
  | deauthSta (aid : UInt16)
  deriving DecidableEq

inductive Event
  | apStaConnected (mac : Mac) (aid : UInt16)
  | apStaIpAssigned (ip : Ip4) (mac : Mac)
  | apStaDisconnected (mac : Mac)
  | wsOpen (conn : ConnPtr) (peer : Peer)
  | freeConn (conn : ConnPtr)

def linkIpMatch (link : Link) (ip : Ip4) : Bool := link.ip == ip

def linkMacMatch (link : Link) (mac : Mac) : Bool := link.mac == mac

def Links.findIp (s : Links) (ip : Ip4) : Option LinkPtr :=
  s.active.find? (fun l => linkIpMatch (s.pool l) ip)

def Links.findMac (s : Links) (mac : Mac) : Option LinkPtr :=
  s.active.find? (fun l => linkMacMatch (s.pool l) mac)

def Links.setLink (s : Links) (l : LinkPtr) (link : Link) : Links :=
  { s with pool := Function.update s.pool l link }

def Links.insertActive (s : Links) (l : LinkPtr) : Links :=
  { s with free := s.free.erase l, active := s.active.erase l ++ [l] }

def Links.insertFree (s : Links) (l : LinkPtr) : Links :=
  { s with free := s.free.erase l ++ [l], active := s.active.erase l }

def Links.raiseClear (s : Links) (l : LinkPtr) : Links × List Action :=
  (s.setLink l { s.pool l with event := [] }, (s.pool l).event.map .triggerClose)

def socketLinkSubscribe (s : Links) (peer : Peer) (delegate : ConnPtr) : Links × Bool :=
  match peer.ip4.bind s.findIp with
  | some l => (s.setLink l { s.pool l with event := (s.pool l).event ++ [delegate] }, true)
  | none => (s, false)

def eventUnsubscribe (s : Links) (delegate : ConnPtr) : Links :=
  { s with pool := fun l => { s.pool l with event := (s.pool l).event.erase delegate } }

def ipEventHandler (s : Links) (ip : Ip4) (mac : Mac) : Links × List Action :=
  match s.findMac mac with
  | none => match s.free with
    | l :: _ => ((s.setLink l { s.pool l with ip := ip, mac := mac }).insertActive l, [])
    -- we must never get here
    | [] => (s, [.disconnectStaByMac mac])
  | some l =>
    if (s.pool l).ip = ip then (s, [])
    else (s.setLink l { s.pool l with ip := ip }).raiseClear l

def apStaDisconnected (s : Links) (mac : Mac) : Links × List Action :=
  match s.findMac mac with
  | some l => ((s.raiseClear l).1.insertFree l, (s.raiseClear l).2)
  | none => (s, [])

def apStaConnected (s : Links) (mac : Mac) (aid : UInt16) : Links × List Action :=
  (s, if s.free.isEmpty || (s.findMac mac).isSome then [.deauthSta aid] else [])

def Links.handle (s : Links) : Event → Links × List Action
  | .apStaConnected mac aid => apStaConnected s mac aid
  | .apStaIpAssigned ip mac => ipEventHandler s ip mac
  | .apStaDisconnected mac => apStaDisconnected s mac
  | .wsOpen conn peer => ((socketLinkSubscribe s peer conn).1, [])
  | .freeConn conn => (eventUnsubscribe s conn, [])

def Action.closed : Action → Option ConnPtr
  | .triggerClose conn => some conn
  | .disconnectStaByMac _ | .deauthSta _ => none

def Links.closes (s : Links) (e : Event) : List ConnPtr := (s.handle e).2.filterMap Action.closed

/-- Ghost state of a station: its address, and when it was assigned. -/
structure Address where
  ip : Ip4
  since : Nat

/-- An open connection, with ghost state: when it was opened and how often it
was told to close. -/
structure Conn where
  peer : Peer
  openedAt : Nat
  closes : Nat

/-- The links and the connections, with ghost state: the associated stations,
those that hold an address, their addresses, and the number of events. -/
structure Net where
  links : Links
  conns : ConnPtr → Option Conn
  associated : Finset Mac
  holders : Finset Mac
  assigned : Mac → Option Address
  clock : Nat

def Net.assign (x : Net) (ip : Ip4) (mac : Mac) : Mac → Option Address :=
  match x.assigned mac with
  | some a =>
    if a.ip = ip then x.assigned else Function.update x.assigned mac (some ⟨ip, x.clock⟩)
  | none => Function.update x.assigned mac (some ⟨ip, x.clock⟩)

def Net.countCloses (x : Net) (closed : List ConnPtr) : ConnPtr → Option Conn :=
  fun c => (x.conns c).map (fun conn => { conn with closes := conn.closes + closed.count c })

def Net.after (x : Net) (e : Event) : Net :=
  let x' := { x with
    links := (x.links.handle e).1
    conns := x.countCloses (x.links.closes e)
    clock := x.clock + 1 }
  match e with
  | .apStaConnected mac _ => { x' with associated := insert mac x.associated }
  | .apStaIpAssigned ip mac =>
    { x' with holders := insert mac x.holders, assigned := x.assign ip mac }
  | .apStaDisconnected mac => { x' with
      associated := x.associated.erase mac
      holders := x.holders.erase mac
      assigned := Function.update x.assigned mac none }
  | .wsOpen conn peer =>
    { x' with conns := Function.update x'.conns conn (some ⟨peer, x.clock, 0⟩) }
  | .freeConn conn => { x' with conns := Function.update x'.conns conn none }

/-- A connection is allocated when its handshake comes, and freed while it is
there. -/
def Net.step (x : Net) (e : Event) : Option (Except Empty Net) :=
  match e with
  | .wsOpen conn _ => if (x.conns conn).isNone then some (.ok (x.after e)) else none
  | .freeConn conn => if (x.conns conn).isSome then some (.ok (x.after e)) else none
  | .apStaConnected .. | .apStaIpAssigned .. | .apStaDisconnected .. => some (.ok (x.after e))

def Net.init : Net where
  links := ⟨fun _ => ⟨0, 0, []⟩, List.finRange linksMaxAmount, []⟩
  conns _ := none
  associated := ∅
  holders := ∅
  assigned _ := none
  clock := 0

def machine : Machine Net Event Empty where
  init x := x = Net.init
  step := Net.step

theorem step_after {x y : Net} {e : Event} (h : machine.Step x e y) : y = x.after e := by
  simp only [Machine.Step, machine, Net.step] at h
  split at h
  · split at h
    · exact (Except.ok.inj (Option.some.inj h)).symm
    · cases h
  · split at h
    · exact (Except.ok.inj (Option.some.inj h)).symm
    · cases h
  all_goals exact (Except.ok.inj (Option.some.inj h)).symm

@[simp] theorem after_links (x : Net) (e : Event) : (x.after e).links = (x.links.handle e).1 := by
  cases e <;> rfl

@[simp] theorem after_clock (x : Net) (e : Event) : (x.after e).clock = x.clock + 1 := by
  cases e <;> rfl

section Steps

variable {s t : Links} {e : Event} {acts : List Action} {l : LinkPtr} {mac : Mac} {ip : Ip4}

theorem findMac_some (h : s.findMac mac = some l) : l ∈ s.active ∧ (s.pool l).mac = mac := by
  refine ⟨List.mem_of_find?_eq_some h, ?_⟩
  simpa [linkMacMatch] using List.find?_some h

theorem findMac_eq_none : s.findMac mac = none ↔ ∀ l ∈ s.active, (s.pool l).mac ≠ mac := by
  simp [Links.findMac, linkMacMatch, List.find?_eq_none]

theorem findIp_some (h : s.findIp ip = some l) : l ∈ s.active ∧ (s.pool l).ip = ip := by
  refine ⟨List.mem_of_find?_eq_some h, ?_⟩
  simpa [linkIpMatch] using List.find?_some h

theorem findIp_none (h : s.findIp ip = none) (hl : l ∈ s.active) : (s.pool l).ip ≠ ip := by
  simpa [linkIpMatch] using List.find?_eq_none.1 h l hl

inductive Handles (s : Links) : Event → Links → List Action → Prop
  | connected (mac : Mac) (aid : UInt16) :
      Handles s (.apStaConnected mac aid) s (apStaConnected s mac aid).2
  | taken (ip : Ip4) (mac : Mac) (l : LinkPtr) (rest : List LinkPtr) (hmac : s.findMac mac = none)
      (hfree : s.free = l :: rest) : Handles s (.apStaIpAssigned ip mac)
        ((s.setLink l { s.pool l with ip := ip, mac := mac }).insertActive l) []
  | dropped (ip : Ip4) (mac : Mac) (hmac : s.findMac mac = none) (hfree : s.free = []) :
      Handles s (.apStaIpAssigned ip mac) s [.disconnectStaByMac mac]
  | kept (mac : Mac) (l : LinkPtr) (hmac : s.findMac mac = some l) :
      Handles s (.apStaIpAssigned (s.pool l).ip mac) s []
  | changed (ip : Ip4) (mac : Mac) (l : LinkPtr) (hmac : s.findMac mac = some l)
      (hip : (s.pool l).ip ≠ ip) : Handles s (.apStaIpAssigned ip mac)
        (s.setLink l { s.pool l with ip := ip, event := [] }) ((s.pool l).event.map .triggerClose)
  | released (mac : Mac) (l : LinkPtr) (hmac : s.findMac mac = some l) :
      Handles s (.apStaDisconnected mac) ((s.setLink l { s.pool l with event := [] }).insertFree l)
        ((s.pool l).event.map .triggerClose)
  | unknown (mac : Mac) (hmac : s.findMac mac = none) : Handles s (.apStaDisconnected mac) s []
  | subscribed (conn : ConnPtr) (peer : Peer) (ip : Ip4) (l : LinkPtr) (hpeer : peer.ip4 = some ip)
      (hip : s.findIp ip = some l) : Handles s (.wsOpen conn peer)
        (s.setLink l { s.pool l with event := (s.pool l).event ++ [conn] }) []
  | unlinked (conn : ConnPtr) (peer : Peer) (hip : peer.ip4.bind s.findIp = none) :
      Handles s (.wsOpen conn peer) s []
  | freed (conn : ConnPtr) : Handles s (.freeConn conn) (eventUnsubscribe s conn) []

theorem handle_handles (s : Links) (e : Event) : Handles s e (s.handle e).1 (s.handle e).2 := by
  cases e with
  | apStaConnected mac aid => exact .connected mac aid
  | apStaIpAssigned ip mac =>
      simp only [Links.handle, ipEventHandler]
      split
      next hmac =>
        split
        next l rest hfree => exact .taken ip mac l rest hmac hfree
        next hfree => exact .dropped ip mac hmac hfree
      next l hmac =>
        split
        next hip =>
          rw [← hip]
          exact .kept mac l hmac
        next hip =>
          have hset : (s.setLink l { s.pool l with ip := ip }).raiseClear l =
              (s.setLink l { s.pool l with ip := ip, event := [] },
                (s.pool l).event.map .triggerClose) := by
            simp [Links.raiseClear, Links.setLink]
          rw [hset]
          exact .changed ip mac l hmac hip
  | apStaDisconnected mac =>
      simp only [Links.handle, apStaDisconnected]
      split
      next l hmac => exact .released mac l hmac
      next hmac => exact .unknown mac hmac
  | wsOpen conn peer =>
      simp only [Links.handle, socketLinkSubscribe]
      split
      next l hl =>
        obtain ⟨ip, hpeer, hip⟩ := Option.bind_eq_some_iff.1 hl
        exact .subscribed conn peer ip l hpeer hip
      next hip => exact .unlinked conn peer hip
  | freeConn conn => exact .freed conn

end Steps

section Pool

variable {s t : Links} {e : Event} {acts : List Action}

/-- Every link is once in one of the lists, and no two active ones are of the
same station. -/
structure Pooled (s : Links) : Prop where
  links : (s.free ++ s.active).Perm (List.finRange linksMaxAmount)
  macs : ∀ l ∈ s.active, ∀ l' ∈ s.active, (s.pool l).mac = (s.pool l').mac → l = l'

theorem Pooled.nodup (h : Pooled s) : (s.free ++ s.active).Nodup :=
  h.links.nodup_iff.2 (List.nodup_finRange _)

theorem Pooled.not_active (h : Pooled s) {l : LinkPtr} (hl : l ∈ s.free) : l ∉ s.active :=
  fun hactive => List.disjoint_of_nodup_append h.nodup hl hactive

theorem Pooled.length (h : Pooled s) : s.free.length + s.active.length = linksMaxAmount := by
  have hlen := h.links.length_eq
  rwa [List.length_append, List.length_finRange] at hlen

theorem Pooled.findMac_eq_some (h : Pooled s) {mac : Mac} {l : LinkPtr} :
    s.findMac mac = some l ↔ l ∈ s.active ∧ (s.pool l).mac = mac := by
  refine ⟨findMac_some, fun ⟨hl, hmac⟩ => ?_⟩
  cases hfind : s.findMac mac with
  | none => exact absurd hmac (findMac_eq_none.1 hfind l hl)
  | some k =>
      obtain ⟨hk, hsame⟩ := findMac_some hfind
      rw [h.macs k hk l hl (hsame.trans hmac.symm)]

theorem pooled_init : Pooled Net.init.links := by
  refine ⟨?_, ?_⟩
  · simp [Net.init]
  · simp [Net.init]

theorem Pooled.take (h : Pooled s) {l : LinkPtr} {link : Link} (hl : l ∈ s.free)
    (hmac : s.findMac link.mac = none) : Pooled ((s.setLink l link).insertActive l) := by
  have hne : l ∉ s.active := h.not_active hl
  have hother : ∀ k ∈ s.active, k ≠ l := fun k hk he => hne (he ▸ hk)
  refine ⟨(perm_toLast_right h.nodup (List.mem_append_left _ hl)).trans h.links, ?_⟩
  intro j hj k hk he
  simp only [Links.insertActive, Links.setLink, List.erase_of_not_mem hne, List.mem_append,
    List.mem_singleton] at hj hk he
  rcases hj with hj | rfl
  · rcases hk with hk | rfl
    · rw [Function.update_of_ne (hother j hj), Function.update_of_ne (hother k hk)] at he
      exact h.macs j hj k hk he
    · rw [Function.update_of_ne (hother j hj), Function.update_self] at he
      exact absurd he (findMac_eq_none.1 hmac j hj)
  · rcases hk with hk | rfl
    · rw [Function.update_of_ne (hother k hk), Function.update_self] at he
      exact absurd he.symm (findMac_eq_none.1 hmac k hk)
    · rfl

theorem setLink_mac {l k : LinkPtr} {link : Link} (hmac : link.mac = (s.pool l).mac) :
    ((s.setLink l link).pool k).mac = (s.pool k).mac := by
  by_cases hk : k = l
  · subst hk
    simp [Links.setLink, hmac]
  · simp [Links.setLink, Function.update_of_ne hk]

theorem Pooled.setLink (h : Pooled s) {l : LinkPtr} {link : Link}
    (hmac : link.mac = (s.pool l).mac) : Pooled (s.setLink l link) := by
  refine ⟨h.links, fun j hj k hk he => h.macs j hj k hk ?_⟩
  rwa [setLink_mac hmac, setLink_mac hmac] at he

theorem Pooled.release (h : Pooled s) {l : LinkPtr} (hl : l ∈ s.active) :
    Pooled (s.insertFree l) := by
  refine ⟨(perm_toLast_left h.nodup (List.mem_append_right _ hl)).trans h.links, ?_⟩
  intro j hj k hk he
  exact h.macs j (List.mem_of_mem_erase hj) k (List.mem_of_mem_erase hk) he

theorem Handles.pooled (hm : Handles s e t acts) (h : Pooled s) : Pooled t := by
  cases hm with
  | connected | dropped | kept | unknown | unlinked => exact h
  | taken ip mac l rest hmac hfree => exact h.take (by simp [hfree]) hmac
  | changed ip mac l hmac hip => exact h.setLink rfl
  | released mac l hmac =>
      have hset := @Pooled.setLink s h l { s.pool l with event := [] } rfl
      exact hset.release (findMac_some hmac).1
  | subscribed conn peer ip l hpeer hip => exact h.setLink rfl
  | freed conn => exact ⟨h.links, h.macs⟩

theorem pooled_reachable {x : Net} (h : Reachable machine x) : Pooled x.links := by
  refine h.invariant (I := fun x => Pooled x.links) ?_ ?_
  · rintro x rfl
    exact pooled_init
  · intro x e y _ hx hstep
    rw [step_after hstep, after_links]
    exact (handle_handles x.links e).pooled hx

end Pool

section Admission

/-- At most so many stations are associated as there are links, and a station
gets an address while it is associated. -/
def Admits (x : Net) : Event → Prop
  | .apStaConnected mac _ => (insert mac x.associated).card ≤ linksMaxAmount
  | .apStaIpAssigned _ mac => mac ∈ x.associated
  | .apStaDisconnected _ | .wsOpen .. | .freeConn _ => True

structure Admitted (x : Net) : Prop where
  card : x.associated.card ≤ linksMaxAmount
  macs : ∀ l ∈ x.links.active, (x.links.pool l).mac ∈ x.associated

theorem admitted_init : Admitted Net.init := ⟨by simp [Net.init], by simp [Net.init]⟩

theorem Admitted.links {x y : Net} (h : Admitted x) (hassociated : y.associated = x.associated)
    (hactive : ∀ l ∈ y.links.active,
      l ∈ x.links.active ∧ (y.links.pool l).mac = (x.links.pool l).mac) : Admitted y := by
  refine ⟨hassociated ▸ h.card, fun l hl => ?_⟩
  obtain ⟨hlx, hmac⟩ := hactive l hl
  rw [hassociated, hmac]
  exact h.macs l hlx

theorem admitted_step {x : Net} {e : Event} (hp : Pooled x.links) (hx : Admitted x)
    (he : Admits x e) : Admitted (x.after e) := by
  have hm := handle_handles x.links e
  have hlinks := after_links x e
  generalize hs : (x.links.handle e).1 = t at hm hlinks
  generalize (x.links.handle e).2 = acts at hm
  clear hs
  cases hm with
  | connected mac aid =>
      refine ⟨he, fun l hl => ?_⟩
      rw [hlinks] at hl ⊢
      exact Finset.mem_insert_of_mem (hx.macs l hl)
  | taken ip mac l rest hmac hfree =>
      refine ⟨hx.card, fun k hk => ?_⟩
      rw [hlinks] at hk ⊢
      simp only [Links.insertActive, Links.setLink, List.mem_append, List.mem_singleton] at hk ⊢
      by_cases hkl : k = l
      · subst hkl
        rw [Function.update_self]
        exact he
      · rw [Function.update_of_ne hkl]
        exact hx.macs k (List.mem_of_mem_erase (hk.resolve_right hkl))
  | dropped | kept | unlinked | freed =>
      refine hx.links rfl (fun l hl => ?_)
      rw [hlinks] at hl ⊢
      exact ⟨hl, rfl⟩
  | changed | subscribed =>
      refine hx.links rfl (fun l hl => ?_)
      rw [hlinks] at hl ⊢
      exact ⟨hl, setLink_mac rfl⟩
  | released mac l hmac =>
      obtain ⟨hl, rfl⟩ := findMac_some hmac
      refine ⟨(Finset.card_le_card (Finset.erase_subset _ _)).trans hx.card, fun k hk => ?_⟩
      rw [hlinks] at hk ⊢
      have hmem := (List.nodup_append.1 hp.nodup).2.1.mem_erase_iff.1 hk
      have hsame : ((x.links.setLink l { x.links.pool l with event := [] }).pool k).mac =
          (x.links.pool k).mac := setLink_mac rfl
      simp only [Links.insertFree, hsame]
      exact Finset.mem_erase.2 ⟨fun he => hmem.1 (hp.macs k hmem.2 l hl he), hx.macs k hmem.2⟩
  | unknown mac hmac =>
      refine ⟨(Finset.card_le_card (Finset.erase_subset _ _)).trans hx.card, fun k hk => ?_⟩
      rw [hlinks] at hk ⊢
      exact Finset.mem_erase.2 ⟨findMac_eq_none.1 hmac k hk, hx.macs k hk⟩

theorem exists_free {x : Net} (hp : Pooled x.links) (hx : Admitted x) {mac : Mac}
    (hmac : mac ∈ x.associated) (hnone : x.links.findMac mac = none) : x.links.free ≠ [] := by
  intro hfree
  have hactive : x.links.active.length = linksMaxAmount := by
    have hlen := hp.length
    rwa [hfree, List.length_nil, Nat.zero_add] at hlen
  have hinj : (x.links.active.map (fun l => (x.links.pool l).mac)).Nodup :=
    (List.nodup_append.1 hp.nodup).2.1.map_on hp.macs
  have hsub : insert mac (x.links.active.map (fun l => (x.links.pool l).mac)).toFinset ⊆
      x.associated := by
    intro m hm
    rcases Finset.mem_insert.1 hm with rfl | hm
    · exact hmac
    · obtain ⟨l, hl, rfl⟩ := List.mem_map.1 (List.mem_toFinset.1 hm)
      exact hx.macs l hl
  have hnew : mac ∉ (x.links.active.map (fun l => (x.links.pool l).mac)).toFinset := by
    intro hm
    obtain ⟨l, hl, he⟩ := List.mem_map.1 (List.mem_toFinset.1 hm)
    exact findMac_eq_none.1 hnone l hl he
  have hcard := (Finset.card_le_card hsub).trans hx.card
  rw [Finset.card_insert_of_notMem hnew, List.toFinset_card_of_nodup hinj, List.length_map,
    hactive] at hcard
  omega

theorem not_dropped {x : Net} (hp : Pooled x.links) (hx : Admitted x) {e : Event}
    (he : Admits x e) (mac : Mac) : .disconnectStaByMac mac ∉ (x.links.handle e).2 := by
  have hm := handle_handles x.links e
  generalize (x.links.handle e).1 = t at hm
  generalize hacts : (x.links.handle e).2 = acts at hm
  intro hdrop
  cases hm with
  | connected m aid =>
      simp only [apStaConnected] at hdrop
      split at hdrop
      · simp at hdrop
      · cases hdrop
  | dropped ip m hmac hfree => exact exists_free hp hx he hmac hfree
  | changed | released => simp at hdrop
  | _ => cases hdrop

/-- In every order of events each link is once in one of the lists, the active
ones belong to different associated stations, and the pool does not run out. -/
theorem links_pool {x y : Net} {es : List Event} (hx : machine.init x)
    (h : Along machine (fun z e _ => Admits z e) x es y) :
    (y.links.free ++ y.links.active).Perm (List.finRange linksMaxAmount) ∧
    (y.links.active.map (fun l => (y.links.pool l).mac)).Nodup ∧
    (∀ l ∈ y.links.active, (y.links.pool l).mac ∈ y.associated) ∧
    ∀ e, Admits y e → ∀ mac, .disconnectStaByMac mac ∉ (y.links.handle e).2 := by
  have hp := pooled_reachable (h.reachable (.init hx))
  have hy : Admitted y := by
    refine h.invariant (.init hx) (hx ▸ admitted_init) ?_
    intro z e w hr hz hstep he
    rw [step_after hstep]
    exact admitted_step (pooled_reachable hr) hz he
  exact ⟨hp.links, (List.nodup_append.1 hp.nodup).2.1.map_on hp.macs, hy.macs,
    fun e he mac => not_dropped hp hy he mac⟩

instance (x : Net) (e : Event) : Decidable (Admits x e) :=
  match e with
  | .apStaConnected mac _ => inferInstanceAs (Decidable ((insert mac x.associated).card ≤ _))
  | .apStaIpAssigned _ mac => inferInstanceAs (Decidable (mac ∈ x.associated))
  | .apStaDisconnected _ | .wsOpen .. | .freeConn _ => .isTrue trivial

theorem links_pool_five : ∃ y : Net, y.links.active = [1, 2, 3, 0] ∧
    (y.links.free ++ y.links.active).Perm (List.finRange linksMaxAmount) ∧
    ∀ e, Admits y e → ∀ mac, .disconnectStaByMac mac ∉ (y.links.handle e).2 := by
  have h : machine.check (fun x e => decide (Admits x e)) (fun y => y.links.active == [1, 2, 3, 0])
      Net.init [.apStaConnected 1 1, .apStaConnected 2 2, .apStaConnected 3 3, .apStaConnected 4 4,
        .apStaIpAssigned 10 1, .apStaIpAssigned 11 2, .apStaIpAssigned 12 3, .apStaIpAssigned 13 4,
        .apStaDisconnected 1, .apStaConnected 5 1, .apStaIpAssigned 14 5] = true := by
    decide +kernel
  obtain ⟨y, hrun, hy⟩ := exists_of_check h
  have hadmits := hrun.imp (fun _ _ _ hs => of_decide_eq_true hs)
  obtain ⟨hperm, -, -, hdrop⟩ := links_pool rfl hadmits
  exact ⟨y, by simpa using hy, hperm, hdrop⟩

end Admission


end WirelessGateway.Connection
