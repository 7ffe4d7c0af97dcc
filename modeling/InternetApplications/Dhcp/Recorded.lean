import InternetApplications.Dhcp.ClientProcess

namespace InternetApplications.Dhcp

open ByteMemory TagScan Executions Tracing Traced

/-- The routines that look into the options, with a record of what they use there. -/
abbrev Reading (π α : Type) := Traced (OptionUse π) Fault α

section Server

variable (s : Server) (env : Env)

theorem requestedIp_result (dhcp : DhcpT) (t : LeaseTable) (now : ℕ) :
    (requestedIp dhcp t now : Reading ℕ (Option UInt32)).result = requestedIp dhcp t now := by
  rw [requestedIp, result_bind]
  refine bind_congr (m := Except Fault) ?_
  rintro ⟨len, value⟩
  simp only [result_ite, result_bind, result_pure]
  rfl

theorem yourIpAddress_result (dhcp : DhcpT) (t : LeaseTable) (state : UInt8) :
    (yourIpAddress dhcp t env state : Reading ℕ (Option UInt32 × LeaseTable)).result =
      yourIpAddress dhcp t env state := by
  rw [yourIpAddress, yourIpAddress]
  simp only [result_ite, result_bind, result_lift, requestedIp_result]
  congr 2
  refine bind_congr (m := Except Fault) fun requested ↦ ?_
  cases requested with
  | some ip => rfl
  | none =>
    rw [result_bind]
    refine bind_congr (m := Except Fault) ?_
    rintro ⟨r, offerIp, t'⟩
    exact result_ite _ _ _

theorem fillOptions_result (dhcp : DhcpT) (state : UInt8) (msgType : Option ℕ) :
    (fillOptions dhcp state msgType : Reading ℕ (DhcpT × ℕ)).result =
      fillOptions dhcp state msgType := by
  rw [fillOptions, fillOptions]
  simp only [result_ite, result_bind, result_pure]
  rfl

theorem constructDhcpPacket_result (state : UInt8) :
    (constructDhcpPacket s env state : Reading ℕ (Server × ℕ)).result =
      constructDhcpPacket s env state := by
  rw [constructDhcpPacket, constructDhcpPacket]
  simp only [result_bind, yourIpAddress_result]
  refine bind_congr (m := Except Fault) ?_
  rintro ⟨yiaddr, t⟩
  cases yiaddr with
  | none => rfl
  | some y =>
    simp only [result_bind, fillOptions_result, result_pure]
    rfl

theorem selectedServer_result (dhcp : DhcpT) :
    (selectedServer dhcp : Reading ℕ (Option ℕ)).result = selectedServer dhcp := by
  rw [selectedServer, result_bind]
  refine bind_congr (m := Except Fault) ?_
  rintro ⟨len, value⟩
  simp only [result_ite, result_bind, result_pure]
  rfl

theorem unicastSetup_result :
    (s.unicastSetup env : Reading ℕ Server).result = s.unicastSetup env := by
  rw [Server.unicastSetup, Server.unicastSetup, result_ite, result_bind, requestedIp_result]
  congr 1
  refine bind_congr (m := Except Fault) fun requested ↦ ?_
  cases requested <;> rfl

theorem dhcpHandleDiscover_result :
    (s.dhcpHandleDiscover env : Reading ℕ (Server × Option Sent)).result =
      s.dhcpHandleDiscover env := by
  simp only [Server.dhcpHandleDiscover, result_bind, unicastSetup_result,
    constructDhcpPacket_result, result_pure]
  rfl

theorem answerRequest_result (ip : UInt32) :
    (s.answerRequest env ip : Reading ℕ (Server × Option Sent)).result = s.answerRequest env ip := by
  simp only [Server.answerRequest, result_bind, constructDhcpPacket_result, result_pure]
  rfl

theorem dhcpHandleRequest_result :
    (s.dhcpHandleRequest env : Reading ℕ (Server × Option Sent)).result =
      s.dhcpHandleRequest env := by
  rw [Server.dhcpHandleRequest, Server.dhcpHandleRequest, result_bind, selectedServer_result]
  refine bind_congr (m := Except Fault) fun selected ↦ ?_
  cases selected with
  | none => rfl
  | some identifier =>
    simp only [result_ite, result_bind, unicastSetup_result, answerRequest_result]
    rfl

theorem dhcpHandleRelease_result :
    (s.dhcpHandleRelease : Reading ℕ (Server × Option Sent)).result = s.dhcpHandleRelease := by
  rw [Server.dhcpHandleRelease, Server.dhcpHandleRelease, result_bind, selectedServer_result]
  refine bind_congr (m := Except Fault) fun selected ↦ ?_
  cases selected with
  | none => rfl
  | some identifier =>
    rw [result_bind, result_lift]
    rfl

theorem dhcpHandleInform_result :
    (s.dhcpHandleInform env : Reading ℕ (Server × Option Sent)).result =
      s.dhcpHandleInform env := by
  simp only [Server.dhcpHandleInform, result_bind, constructDhcpPacket_result, result_pure]
  rfl

theorem receivedType_result (dhcp : DhcpT) :
    (receivedType dhcp : Reading ℕ (Option UInt8)).result = receivedType dhcp := by
  rw [receivedType, receivedType, result_ite, result_bind]
  congr 1
  refine bind_congr (m := Except Fault) ?_
  rintro ⟨len, value⟩
  simp only [result_ite, result_bind, result_pure]
  rfl

theorem mainLoop_result (i : Input) :
    (mainLoop s i : Reading ℕ (Server × Option Sent)).result = mainLoop s i := by
  rw [mainLoop, mainLoop, result_bind, receivedType_result]
  refine bind_congr (m := Except Fault) fun type ↦ ?_
  cases type with
  | none => rfl
  | some type =>
    simp only [result_ite, dhcpHandleDiscover_result, dhcpHandleRequest_result,
      dhcpHandleRelease_result, dhcpHandleInform_result, result_pure]
    rfl

end Server

section Client

variable (c : Client) (host : Host) (dhcpAck : DhcpT)

theorem wordOption_result (tag : UInt8) :
    (wordOption dhcpAck tag : Reading (DhcpT × ℕ) (Option UInt32)).result =
      wordOption dhcpAck tag := by
  rw [wordOption, result_bind]
  refine bind_congr (m := Except Fault) ?_
  rintro ⟨len, value⟩
  simp only [result_ite, result_bind, result_pure]
  rfl

theorem takeOffer_result (dhcpOffer : DhcpT) :
    (c.takeOffer dhcpOffer : Reading (DhcpT × ℕ) (Client × OptionValue)).result =
      c.takeOffer dhcpOffer := by
  simp only [Client.takeOffer, result_bind, result_pure]
  rfl

theorem takeAck_result (value : OptionValue) :
    (c.takeAck dhcpAck value : Reading (DhcpT × ℕ) (ℤ × Client)).result =
      c.takeAck dhcpAck value := by
  simp only [Client.takeAck, result_ite, result_bind, result_pure]
  rfl

theorem setupRequests_result :
    (setupRequests host dhcpAck : Reading (DhcpT × ℕ) (List Request)).result =
      setupRequests host dhcpAck := by
  rw [setupRequests, setupRequests, result_ite, result_bind, wordOption_result]
  congr 1
  refine bind_congr (m := Except Fault) fun netmask ↦ ?_
  cases netmask with
  | none => rfl
  | some netmask =>
    simp only [result_ite, result_bind, wordOption_result]
    congr 1
    refine bind_congr (m := Except Fault) fun gateway ↦ ?_
    cases gateway with
    | none => rfl
    | some gateway => exact result_ite _ _ _

theorem setupInterface_result :
    (c.setupInterface host dhcpAck : Reading (DhcpT × ℕ) Client).result =
      c.setupInterface host dhcpAck := by
  simp only [Client.setupInterface, result_bind, setupRequests_result, result_pure]
  rfl

theorem setAlarm_result :
    (c.setAlarm host dhcpAck : Reading (DhcpT × ℕ) Client).result = c.setAlarm host dhcpAck := by
  rw [Client.setAlarm, Client.setAlarm, result_bind, wordOption_result]
  refine bind_congr (m := Except Fault) fun leaseTime ↦ ?_
  cases leaseTime with
  | none => rfl
  | some leaseTime =>
    simp only [result_bind, wordOption_result, result_pure]
    rfl

theorem settle_result (state : ℤ) (call : Command) :
    (c.settle host state dhcpAck call : Reading (DhcpT × ℕ) Progress).result =
      c.settle host state dhcpAck call := by
  cases call with
  | release | inform => rfl
  | discover =>
    simp only [Client.settle, result_ite, result_bind, setupInterface_result, setAlarm_result,
      result_pure]
    rfl
  | renew | rebind =>
    simp only [Client.settle, result_ite, result_bind, setAlarm_result, result_pure]
    rfl

theorem resume_result (d : Delivery) (phase : Phase) :
    (c.resume d phase : Reading (DhcpT × ℕ) Progress).result = c.resume d phase := by
  cases phase with
  | menu | rediscover => rfl
  | awaitOffer dhcpOffer dhcpAck =>
    simp only [Client.resume, result_ite, result_bind, takeOffer_result, result_pure]
    rfl
  | awaitAck call dhcpAck value =>
    simp only [Client.resume, result_ite, result_bind, takeAck_result, settle_result, result_pure]
    rfl

end Client

end InternetApplications.Dhcp
