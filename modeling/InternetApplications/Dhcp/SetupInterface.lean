import InternetApplications.Dhcp.LeaseTimers

namespace InternetApplications.Dhcp

open ByteMemory TagScan Executions Client

/-- What requests that succeed do to an interface, in whatever way the kernel keeps it. Another
address or netmask takes the routes of the interface with it, the same one changes nothing. -/
structure Kernel (κ : Type) where
  siocsifaddr : UInt32 → κ → κ
  siocsifnetmask : UInt32 → κ → κ
  siocaddrt : UInt32 → κ → κ
  addr : κ → UInt32
  netmask : κ → UInt32
  gateways : κ → List UInt32
  addr_siocsifaddr : ∀ x k, addr (siocsifaddr x k) = x
  siocsifaddr_same : ∀ k, siocsifaddr (addr k) k = k
  gateways_siocsifaddr : ∀ x k, addr k ≠ x → gateways (siocsifaddr x k) = []
  addr_siocsifnetmask : ∀ x k, addr (siocsifnetmask x k) = addr k
  netmask_siocsifnetmask : ∀ x k, netmask (siocsifnetmask x k) = x
  siocsifnetmask_same : ∀ k, siocsifnetmask (netmask k) k = k
  gateways_siocsifnetmask : ∀ x k, netmask k ≠ x → gateways (siocsifnetmask x k) = []
  addr_siocaddrt : ∀ g k, addr (siocaddrt g k) = addr k
  netmask_siocaddrt : ∀ g k, netmask (siocaddrt g k) = netmask k
  mem_gateways_siocaddrt : ∀ g k, g ∈ gateways (siocaddrt g k)

namespace Kernel

variable {κ : Type} (K : Kernel κ)

def carryOut (k : κ) : Request → κ
  | .siocsifaddr addr => K.siocsifaddr addr k
  | .siocsifnetmask netmask => K.siocsifnetmask netmask k
  | .siocaddrt gateway => K.siocaddrt gateway k

def setupInterface (k : κ) (host : Host) (dhcpAck : DhcpT) : Except Fault κ := do
  let requests ← setupRequests host dhcpAck
  return requests.foldl K.carryOut k

end Kernel

def routerOption (dhcpAck : DhcpT) : Option UInt32 :=
  match getDhcpOption dhcpAck optionRouter with
  | .ok (len, value) =>
    if len ≠ 0 ∧ len.toNat % 4 = 0 then (derefWord dhcpAck value).toOption else none
  | .error _ => none

section Property

variable {κ : Type} (K : Kernel κ)

structure SetUp (k : κ) (dhcpAck : DhcpT) : Prop where
  addr : K.addr k = dhcpAck.yiaddr
  netmask : optionWord dhcpAck optionSubnetMask = some (K.netmask k)
  gateway : ∃ g ∈ K.gateways k, routerOption dhcpAck = some g

structure LeftAlone (k k' : κ) : Prop where
  addr : K.addr k' = K.addr k
  netmask : K.netmask k' = K.netmask k
  gateways : K.gateways k' = K.gateways k

def AllOrNothing (k : κ) (host : Host) (dhcpAck : DhcpT) : Prop :=
  ∃ k', K.setupInterface k host dhcpAck = .ok k' ∧ (LeftAlone K k k' ∨ SetUp K k' dhcpAck)

def NetmaskSet (host : Host) (dhcpAck : DhcpT) : Prop :=
  host.setAddr ∧ (∃ netmask, wordOption dhcpAck optionSubnetMask = .ok (some netmask)) ∧ host.setNetmask

def GatewaySet (host : Host) (dhcpAck : DhcpT) : Prop :=
  NetmaskSet host dhcpAck ∧ (∃ gateway, wordOption dhcpAck optionRouter = .ok (some gateway)) ∧
    host.addRoute

def LooksInside (host : Host) (dhcpAck : DhcpT) : Prop :=
  (host.setAddr → ∃ r : Option UInt32, wordOption dhcpAck optionSubnetMask = .ok r) ∧
    (NetmaskSet host dhcpAck → ∃ r : Option UInt32, wordOption dhcpAck optionRouter = .ok r)

/-- The routine does nothing or everything, or sets no more than the interface already has. -/
def Harmless (k : κ) (host : Host) (dhcpAck : DhcpT) : Prop :=
  LooksInside host dhcpAck ∧
    (¬host.setAddr ∨ GatewaySet host dhcpAck ∨
      (K.addr k = dhcpAck.yiaddr ∧
        (NetmaskSet host dhcpAck → optionWord dhcpAck optionSubnetMask = some (K.netmask k))))

end Property

section Words

variable {p : DhcpT} {tag : UInt8} {r : Option UInt32} {w : UInt32}

theorem wordOption_cases (h : wordOption p tag = .ok r) :
    ∃ len value, getDhcpOption p tag = .ok (len, value) ∧
      (len ≠ 4 ∧ r = none ∨ len = 4 ∧ ∃ w, r = some w ∧ derefWord p value = .ok w) := by
  obtain ⟨⟨len, value⟩, hl, h⟩ := bind_eq_ok.mp h
  obtain ⟨⟨len', o⟩, hg, hl⟩ := bind_eq_ok.mp hl
  cases hl
  refine ⟨len, o, hg, ?_⟩
  simp only at h
  split at h
  · rename_i hlen
    cases h
    exact .inl ⟨hlen, rfl⟩
  · rename_i hlen
    obtain ⟨w, hw, h⟩ := bind_eq_ok.mp h
    cases h
    refine .inr ⟨not_not.mp hlen, w, rfl, ?_⟩
    cases o with
    | none => cases hw
    | some o => exact hw

/-- What the routine reads is what a careful reader does. -/
theorem optionWord_of_wordOption (h : wordOption p tag = .ok r) : optionWord p tag = r := by
  obtain ⟨len, value, hg, ⟨hlen, rfl⟩ | ⟨rfl, w, rfl, hw⟩⟩ := wordOption_cases h
  · simp only [optionWord, hg, hlen, if_false]
  · simp only [optionWord, hg, hw, if_true]
    rfl

theorem routerOption_of_wordOption (h : wordOption p optionRouter = .ok (some w)) :
    routerOption p = some w := by
  obtain ⟨len, value, hg, ⟨-, hr⟩ | ⟨rfl, w', hr, hw⟩⟩ := wordOption_cases h
  · cases hr
  · cases hr
    have hfour : (4 : UInt8) ≠ 0 ∧ (4 : UInt8).toNat % 4 = 0 := by decide
    simp only [routerOption, hg, hw]
    rw [if_pos hfour]
    rfl

end Words

section Stages

variable {κ : Type} {K : Kernel κ} {k k' : κ} {host : Host} {dhcpAck : DhcpT}
  {netmask gateway : UInt32}

theorem LeftAlone.refl : LeftAlone K k k := ⟨rfl, rfl, rfl⟩

/-- A change of the address leaves no gateway. -/
theorem address_harmless : (LeftAlone K k (K.siocsifaddr dhcpAck.yiaddr k) ∨
    SetUp K (K.siocsifaddr dhcpAck.yiaddr k) dhcpAck) ↔ K.addr k = dhcpAck.yiaddr := by
  constructor
  · intro h
    by_contra hne
    rcases h with hsame | hset
    · exact hne (hsame.addr.symm.trans (K.addr_siocsifaddr _ k))
    · obtain ⟨g, hg, -⟩ := hset.gateway
      rw [K.gateways_siocsifaddr _ k hne] at hg
      cases hg
  · intro h
    rw [← h, K.siocsifaddr_same]
    exact .inl .refl

theorem netmask_harmless : (LeftAlone K k (K.siocsifnetmask netmask (K.siocsifaddr dhcpAck.yiaddr k)) ∨
      SetUp K (K.siocsifnetmask netmask (K.siocsifaddr dhcpAck.yiaddr k)) dhcpAck) ↔
    K.addr k = dhcpAck.yiaddr ∧ netmask = K.netmask k := by
  have hgateways : ¬(K.addr k = dhcpAck.yiaddr ∧ netmask = K.netmask k) →
      K.gateways (K.siocsifnetmask netmask (K.siocsifaddr dhcpAck.yiaddr k)) = [] := by
    intro hne
    by_cases hmask : K.netmask (K.siocsifaddr dhcpAck.yiaddr k) = netmask
    · rw [← hmask, K.siocsifnetmask_same]
      apply K.gateways_siocsifaddr
      intro haddr
      rw [← haddr, K.siocsifaddr_same] at hmask
      exact hne ⟨haddr, hmask.symm⟩
    · exact K.gateways_siocsifnetmask _ _ hmask
  constructor
  · intro h
    by_contra hne
    rcases h with hsame | hset
    · have haddr := hsame.addr
      have hmask := hsame.netmask
      rw [K.addr_siocsifnetmask, K.addr_siocsifaddr] at haddr
      rw [K.netmask_siocsifnetmask] at hmask
      exact hne ⟨haddr.symm, hmask⟩
    · obtain ⟨g, hg, -⟩ := hset.gateway
      rw [hgateways hne] at hg
      cases hg
  · rintro ⟨haddr, rfl⟩
    rw [← haddr, K.siocsifaddr_same, K.siocsifnetmask_same]
    exact .inl .refl

theorem setupInterface_refused (ha : host.setAddr = false) :
    K.setupInterface k host dhcpAck = .ok k := by
  rw [Kernel.setupInterface, setupRequests, ha]
  rfl

theorem setupInterface_address (ha : host.setAddr = true) (hn : ¬NetmaskSet host dhcpAck)
    (hm : ∃ r : Option UInt32, wordOption dhcpAck optionSubnetMask = .ok r) :
    K.setupInterface k host dhcpAck = .ok (K.siocsifaddr dhcpAck.yiaddr k) := by
  obtain ⟨r, hr⟩ := hm
  rw [Kernel.setupInterface, setupRequests, ha, hr]
  cases r with
  | none => rfl
  | some netmask =>
    cases hset : host.setNetmask with
    | false => rfl
    | true => exact absurd ⟨ha, ⟨netmask, hr⟩, hset⟩ hn

theorem setupInterface_netmask (ha : host.setAddr = true)
    (hm : wordOption dhcpAck optionSubnetMask = .ok (some netmask)) (hn : host.setNetmask = true)
    (hg : ¬GatewaySet host dhcpAck)
    (hr : ∃ r : Option UInt32, wordOption dhcpAck optionRouter = .ok r) :
    K.setupInterface k host dhcpAck =
      .ok (K.siocsifnetmask netmask (K.siocsifaddr dhcpAck.yiaddr k)) := by
  obtain ⟨r, hr⟩ := hr
  rw [Kernel.setupInterface, setupRequests, ha, hm, hn, hr]
  cases r with
  | none => rfl
  | some gateway =>
    cases hadd : host.addRoute with
    | false => rfl
    | true => exact absurd ⟨⟨ha, ⟨netmask, hm⟩, hn⟩, ⟨gateway, hr⟩, hadd⟩ hg

theorem setupInterface_all (hg : GatewaySet host dhcpAck) :
    ∃ k', K.setupInterface k host dhcpAck = .ok k' ∧ SetUp K k' dhcpAck := by
  obtain ⟨⟨ha, ⟨netmask, hm⟩, hn⟩, ⟨gateway, hr⟩, hadd⟩ := hg
  refine ⟨K.siocaddrt gateway (K.siocsifnetmask netmask (K.siocsifaddr dhcpAck.yiaddr k)), ?_, ?_⟩
  · rw [Kernel.setupInterface, setupRequests, ha, hm, hn, hr, hadd]
    rfl
  · constructor
    · rw [K.addr_siocaddrt, K.addr_siocsifnetmask, K.addr_siocsifaddr]
    · rw [K.netmask_siocaddrt, K.netmask_siocsifnetmask, optionWord_of_wordOption hm]
    · exact ⟨gateway, K.mem_gateways_siocaddrt _ _, routerOption_of_wordOption hr⟩

theorem setupInterface_inside (h : K.setupInterface k host dhcpAck = .ok k') :
    LooksInside host dhcpAck := by
  obtain ⟨requests, h, -⟩ := bind_eq_ok.mp h
  constructor
  · intro ha
    rw [setupRequests, ha] at h
    obtain ⟨r, hr, -⟩ := bind_eq_ok.mp h
    exact ⟨r, hr⟩
  · rintro ⟨ha, ⟨netmask, hm⟩, hn⟩
    rw [setupRequests, ha, hm, hn] at h
    obtain ⟨_, hmask, h⟩ := bind_eq_ok.mp h
    cases hmask
    obtain ⟨r, hr, -⟩ := bind_eq_ok.mp h
    exact ⟨r, hr⟩

theorem allOrNothing_of_ok (h : K.setupInterface k host dhcpAck = .ok k') :
    AllOrNothing K k host dhcpAck ↔ LeftAlone K k k' ∨ SetUp K k' dhcpAck := by
  constructor
  · rintro ⟨k'', hset, hresult⟩
    cases h.symm.trans hset
    exact hresult
  · intro hresult
    exact ⟨k', h, hresult⟩

end Stages

/-- The interface is set up as a whole or left alone exactly when the routine does nothing or
everything, or the interface already had what it sets. -/
theorem all_or_nothing_iff {κ : Type} (K : Kernel κ) (k : κ) (host : Host) (dhcpAck : DhcpT) :
    AllOrNothing K k host dhcpAck ↔ Harmless K k host dhcpAck := by
  by_cases hlooks : LooksInside host dhcpAck
  swap
  · refine iff_of_false ?_ fun h ↦ hlooks h.1
    rintro ⟨k', hset, -⟩
    exact hlooks (setupInterface_inside hset)
  cases ha : host.setAddr with
  | false =>
    refine iff_of_true ⟨k, setupInterface_refused ha, .inl .refl⟩ ⟨hlooks, .inl ?_⟩
    rw [ha]
    exact Bool.false_ne_true
  | true =>
    by_cases hg : GatewaySet host dhcpAck
    · obtain ⟨k', hset, hup⟩ := setupInterface_all (K := K) (k := k) hg
      exact iff_of_true ⟨k', hset, .inr hup⟩ ⟨hlooks, .inr (.inl hg)⟩
    by_cases hn : NetmaskSet host dhcpAck
    · obtain ⟨netmask, hm⟩ := hn.2.1
      rw [allOrNothing_of_ok (setupInterface_netmask ha hm hn.2.2 hg (hlooks.2 hn)), netmask_harmless]
      simp [Harmless, hlooks, ha, hg, hn, optionWord_of_wordOption hm]
    · rw [allOrNothing_of_ok (setupInterface_address ha hn (hlooks.1 ha)), address_harmless]
      simp [Harmless, hlooks, ha, hg, hn]

section Linux

structure Nic where
  addr : UInt32
  netmask : UInt32
  gateways : List UInt32
deriving DecidableEq, Repr

def classMask (addr : UInt32) : UInt32 :=
  if addr = 0 then 0
  else if addr < 0x80000000 then 0xFF000000
  else if addr < 0xC0000000 then 0xFFFF0000
  else if addr < 0xE0000000 then 0xFFFFFF00
  else 0xFFFFFFFF

def linux : Kernel Nic where
  siocsifaddr x k := if k.addr = x then k else ⟨x, classMask x, []⟩
  siocsifnetmask x k := if k.netmask = x then k else ⟨k.addr, x, []⟩
  siocaddrt g k := ⟨k.addr, k.netmask, g :: k.gateways⟩
  addr := Nic.addr
  netmask := Nic.netmask
  gateways := Nic.gateways
  addr_siocsifaddr x k := by
    split
    · assumption
    · rfl
  siocsifaddr_same k := if_pos rfl
  gateways_siocsifaddr x k h := by rw [if_neg h]
  addr_siocsifnetmask x k := by split <;> rfl
  netmask_siocsifnetmask x k := by
    split
    · assumption
    · rfl
  siocsifnetmask_same k := if_pos rfl
  gateways_siocsifnetmask x k h := by rw [if_neg h]
  addr_siocaddrt _ _ := rfl
  netmask_siocaddrt _ _ := rfl
  mem_gateways_siocaddrt _ _ := List.mem_cons_self

def twoRouters : DhcpT :=
  write (write DhcpT.zero 16 (wordBytes 0xC0A80002)) dhcpFixedNonUdp
    (encode [⟨optionDhcpMessageType, [dhcpack]⟩, ⟨optionSubnetMask, wordBytes subnetMask⟩,
      ⟨optionRouter, wordBytes 0xC0A80001 ++ wordBytes 0xC0A800FE⟩, endField])

/-- The address and the netmask are new, and there is no gateway. -/
theorem set_up_halfway : routerOption twoRouters = some 0xC0A80001 ∧
    linux.setupInterface ⟨0, 0, []⟩ (quietHost 0 0) twoRouters = .ok ⟨0xC0A80002, subnetMask, []⟩ ∧
    ¬AllOrNothing linux ⟨0, 0, []⟩ (quietHost 0 0) twoRouters := by
  have hset : linux.setupInterface ⟨0, 0, []⟩ (quietHost 0 0) twoRouters =
      .ok ⟨0xC0A80002, subnetMask, []⟩ := by decide +kernel
  refine ⟨by decide +kernel, hset, ?_⟩
  rw [allOrNothing_of_ok hset]
  rintro (hsame | hup)
  · exact absurd hsame.addr (by decide)
  · obtain ⟨g, hg, -⟩ := hup.gateway
    cases hg

end Linux

end InternetApplications.Dhcp
