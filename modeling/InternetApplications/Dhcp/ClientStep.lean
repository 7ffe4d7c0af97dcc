import InternetApplications.Dhcp.Client
import InternetApplications.Dhcp.Reply

namespace InternetApplications.Dhcp

open ByteMemory TagScan Executions

section Lookups

variable {p : DhcpT} {before after : List Field} {f : Field} {value : OptionValue} {w : UInt32}

theorem Carries.lookupOption (h : Carries p (before ++ f :: after))
    (hne : ∀ g ∈ before, g.tag ≠ f.tag) (hv : f.value = wordBytes w) :
    ∃ o, lookupOption value p f.tag = .ok (4, some (p, o)) ∧
      pointedWord (some (p, o)) = .ok w := by
  obtain ⟨o, hg, hw⟩ := h.word hne hv
  exact ⟨o, lookupOption_of_ok hg value, hw⟩

theorem Carries.wordOption {fields : List Field} {tag : UInt8} (h : Carries p fields)
    (hf : fields.find? (fun f ↦ f.tag = tag) = some f) (hv : f.value = wordBytes w) :
    wordOption p tag = .ok (some w) := by
  obtain ⟨htag, before, after, rfl, hne⟩ := List.find?_eq_some_iff_append.mp hf
  obtain rfl : f.tag = tag := by simpa using htag
  have hne' : ∀ g ∈ before, g.tag ≠ f.tag := fun g hg ↦ by simpa using hne g hg
  obtain ⟨o, hl, hw⟩ : ∃ o, Dhcp.lookupOption none p f.tag = .ok (4, some (p, o)) ∧
      pointedWord (some (p, o)) = .ok w := h.lookupOption hne' hv
  rw [Dhcp.wordOption, hl, ok_bind]
  simp only [ne_eq, not_true_eq_false, if_false]
  rw [readPointedWord_eq, hw]
  rfl

end Lookups

namespace Client

variable {c c' : Client} {dhcp : DhcpT} {value value' : OptionValue} {state : ℤ}

theorem takeOffer_ok (h : c.takeOffer dhcp = .ok (c', value)) :
    ∃ identifier, pointedWord value = .ok identifier ∧
      c' = (c.setIdentifier identifier).setYiaddr dhcp.yiaddr := by
  obtain ⟨⟨len, v⟩, hl, h⟩ := bind_eq_ok.mp h
  obtain ⟨identifier, hw, h⟩ := bind_eq_ok.mp h
  cases h
  exact ⟨identifier, hw, rfl⟩

theorem takeAck_ok (h : c.takeAck dhcp value = .ok (state, c')) :
    (state = 1 ∧ c' = c) ∨
      (state = 0 ∧ ∃ identifier, c' = c.setIdentifier identifier) := by
  obtain ⟨⟨len, v⟩, -, h⟩ := bind_eq_ok.mp h
  obtain ⟨type, -, h⟩ := bind_eq_ok.mp h
  simp only at h
  split at h
  · cases h
    exact .inl ⟨rfl, rfl⟩
  · obtain ⟨⟨len', v'⟩, -, h⟩ := bind_eq_ok.mp h
    obtain ⟨identifier, -, h⟩ := bind_eq_ok.mp h
    cases h
    exact .inr ⟨rfl, identifier, rfl⟩

theorem setupRequests_ok {host : Host} {requests : List Request}
    (h : setupRequests host dhcp = .ok requests) (c : Client) :
    requests.foldl carryOut c = if host.setAddr then c.siocsifaddr dhcp.yiaddr else c := by
  rw [setupRequests] at h
  cases hset : host.setAddr with
  | false =>
    rw [hset] at h
    cases h
    rfl
  | true =>
    rw [hset] at h
    obtain ⟨netmask, -, h⟩ := bind_eq_ok.mp h
    cases netmask with
    | none =>
      cases h
      rfl
    | some netmask =>
      simp only at h
      split at h
      · cases h
        rfl
      · obtain ⟨gateway, -, h⟩ := bind_eq_ok.mp h
        cases gateway with
        | none =>
          cases h
          rfl
        | some gateway =>
          simp only at h
          split at h
          · cases h
            rfl
          · cases h
            rfl

theorem setupInterface_ok {host : Host} (h : c.setupInterface host dhcp = .ok c') :
    c' = if host.setAddr then c.siocsifaddr dhcp.yiaddr else c := by
  obtain ⟨requests, hrequests, h⟩ := bind_eq_ok.mp h
  cases h
  exact setupRequests_ok hrequests c

end Client

namespace ReadsReply

variable {q b : DhcpT} {state : UInt8} {yiaddr : UInt32} {leased : Bool} {c : Client}
  {value : OptionValue}

theorem takes (h : ReadsReply q b state yiaddr leased) : c.Takes q ↔ b.xid = c.xid := by
  rw [Client.Takes, h.xid]
  exact and_iff_right h.opcode

theorem lookupIdentifier (h : ReadsReply q b state yiaddr leased) (value : OptionValue) :
    ∃ o, lookupOption value q optionDhcpServerIdentifier = .ok (4, some (q, o)) ∧
      pointedWord (some (q, o)) = .ok dhcpServerIpAddress :=
  (show Carries q ([⟨optionDhcpMessageType, [state]⟩] ++
      ⟨optionDhcpServerIdentifier, wordBytes dhcpServerIpAddress⟩ :: _) from h.carries).lookupOption
    (by simp; decide) rfl

theorem takeOffer (h : ReadsReply q b state yiaddr leased) (c : Client) :
    ∃ o, c.takeOffer q =
      .ok ((c.setIdentifier dhcpServerIpAddress).setYiaddr yiaddr, some (q, o)) := by
  obtain ⟨o, hl, hw⟩ := h.lookupIdentifier none
  refine ⟨o, ?_⟩
  rw [Client.takeOffer, hl, ok_bind]
  simp only
  rw [readPointedWord_eq, hw, ok_bind, h.yiaddr]
  rfl

theorem lookupType (h : ReadsReply q b state yiaddr leased) (value : OptionValue) :
    lookupOption value q optionDhcpMessageType = .ok (1, some (q, 2)) ∧
      pointedByte (some (q, 2)) = .ok state := by
  obtain ⟨hg, hv⟩ := (show Carries q (⟨optionDhcpMessageType, [state]⟩ :: _) from h.carries).first
  constructor
  · exact lookupOption_of_ok hg value
  · rw [pointedByte, derefByte, if_pos (by decide), hv]

theorem takeAck (h : ReadsReply q b state yiaddr leased) (c : Client) (value : OptionValue) :
    c.takeAck q value =
      .ok (if state = dhcpnak then (1, c)
        else (0, c.setIdentifier dhcpServerIpAddress)) := by
  obtain ⟨hl, ht⟩ := h.lookupType value
  rw [Client.takeAck, hl, ok_bind]
  simp only
  rw [readPointedByte_eq, ht, ok_bind]
  split
  · rfl
  · obtain ⟨o, hl', hw⟩ := h.lookupIdentifier (some (q, 2))
    rw [hl', ok_bind]
    simp only
    rw [readPointedWord_eq, hw]
    rfl

theorem carries_leased (h : ReadsReply q b state yiaddr true) (hs : state ≠ dhcpnak) :
    Carries q (identityFields state ++ networkFields ++ leaseFields ++ [endField]) := by
  have hcarries := h.carries
  rw [replyFields, if_neg hs, if_pos rfl] at hcarries
  simpa only [List.append_assoc] using hcarries

theorem setupInterface (h : ReadsReply q b state yiaddr true) (hs : state ≠ dhcpnak) {host : Host}
    (ha : host.setAddr) (hn : host.setNetmask) (hr : host.addRoute) (c : Client) :
    c.setupInterface host q = .ok (c.siocsifaddr yiaddr) := by
  have hmask : wordOption q optionSubnetMask = .ok (some subnetMask) :=
    (h.carries_leased hs).wordOption rfl rfl
  have hrouter : wordOption q optionRouter = .ok (some routerIpAddress) :=
    (h.carries_leased hs).wordOption rfl rfl
  rw [Client.setupInterface, setupRequests, ha, hmask, hn, hrouter, hr, h.yiaddr]
  rfl

theorem setAlarm (h : ReadsReply q b state yiaddr true) (hs : state ≠ dhcpnak) (host : Host)
    (c : Client) : c.setAlarm host q =
      .ok ((c.setTimes (UInt32.ofNat ipAddressLeaseTime) (UInt32.ofNat t1RenewalTime)
        (UInt32.ofNat t2RebindTime)).alarm host.now (UInt32.ofNat t1RenewalTime)) := by
  have hlease : wordOption q optionIpAddressLeaseTime =
      .ok (some (UInt32.ofNat ipAddressLeaseTime)) := (h.carries_leased hs).wordOption rfl rfl
  have ht1 : wordOption q optionIpT1RenewalTime = .ok (some (UInt32.ofNat t1RenewalTime)) :=
    (h.carries_leased hs).wordOption rfl rfl
  have ht2 : wordOption q optionIpT2RebindTime = .ok (some (UInt32.ofNat t2RebindTime)) :=
    (h.carries_leased hs).wordOption rfl rfl
  rw [Client.setAlarm, hlease, ok_bind]
  simp only [ht1, ht2, ok_bind]
  rfl

end ReadsReply

end InternetApplications.Dhcp
