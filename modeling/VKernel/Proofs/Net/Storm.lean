import VKernel.Lib.Budget
import VKernel.Proofs.Net.Lan

/-!
# `VKernel.Proofs.Net.Storm`: how many frames the hosts send

`lan_no_storm` counts the frames of a run: two for each request that is asked for, one for each
request that arrives, and those that somebody else sends. Replies lead to nothing, so two hosts
cannot keep each other busy.

The invariant is `Counted`: the frames on the wire and those that the calls in progress may still
send are within the bound. A step of a call pays for its frame from its own budget
(`step_budget`), and only a request to the device adds one (`dispatch_budget`).
-/

set_option autoImplicit false

namespace VKernel.Proofs.Net

open VKernel.Lib VKernel.Net

variable {H : Type} {devices : H → Nat → Option NetDevice}
variable {m n : Lan H} {h : H}

/-- The frames that a call may still send. -/
def SendPhase.budget : SendPhase → Nat
  | .lookup => 2
  | .request => 2
  | .polling => 1
  | .found _ => 1

/-- The frames that the calls of a host may still send. The reply of the receive task is one. -/
def Host.budget (host : Host) : Nat :=
  (host.calls.map fun c => SendPhase.budget c.phase).sum + host.rx.toList.length

/-- A step of a call takes the frame that it sends from what it may still send. -/
theorem step_budget (c : SendCall) (dev : NetDevice) (a : Answers) (arp : ArpState)
    (ipv4 : Ipv4State) :
    (c.step arp ipv4 dev a).frame.toList.length +
        (c.step arp ipv4 dev a).next.elim 0 (fun d => SendPhase.budget d.phase) ≤
      SendPhase.budget c.phase := by
  have hone : ∀ frame : Option (List UInt8), frame.toList.length ≤ 1 := by
    rintro (_ | frame)
    · exact Nat.zero_le 1
    · exact Nat.le_refl 1
  rw [SendCall.step]
  cases hphase : c.phase with
  | lookup =>
    -- What is left is the message, and the request before it if the cache has no answer.
    cases arp.cacheLookupLocked c.params.dstIp with
    | none => exact Nat.le_refl 2
    | some mac => exact Nat.le_succ 1
  | request =>
    dsimp only
    split
    · exact Nat.succ_le_succ (hone _)
    · exact Nat.le_succ_of_le (hone _)
  | polling =>
    dsimp only
    split
    · exact Nat.zero_le 1
    · cases arp.cacheLookupLocked c.params.dstIp with
      | none => exact Nat.le_refl 1
      | some mac => exact Nat.le_refl 1
  | found dstMac => exact hone _

/-- A frame leads to one frame at most, and to none unless it is a request to the device. -/
theorem dispatch_budget (host : Host) (dev : NetDevice) (devId : Nat) (b : Buffers)
    (frame : List UInt8) :
    (VKernel.Net.dispatchFrame host devId dev b frame).frame.toList.length +
        (VKernel.Net.dispatchFrame host devId dev b frame).rx.toList.length ≤
      if (VKernel.Net.dispatchFrame host devId dev b frame).asked then 1 else 0 := by
  have hone : ∀ {α : Type} (o : Option α), o.toList.length ≤ 1 := by
    rintro α (_ | x)
    · exact Nat.zero_le 1
    · exact Nat.le_refl 1
  rw [VKernel.Net.dispatchFrame]
  split
  · exact Nat.le_refl 0
  · split
    · rw [VKernel.Net.arpObserveFrame]
      cases parseArpFrame frame with
      | none => exact Nat.le_refl 0
      | some parsed =>
        dsimp only [Option.elim_some]
        split
        · exact hone _
        · exact Nat.le_refl 0
    · split
      · rw [VKernel.Net.ipv4ObserveFrame]
        split
        · dsimp only
          split
          · exact (Nat.zero_add _).trans_le (hone _)
          · exact Nat.le_refl 0
        · exact Nat.le_refl 0
      · exact Nat.le_refl 0

section Counting

variable [DecidableEq H] [Fintype H]

/-- The frames on the wire and those that may still come, against the requests. -/
def Counted (m : Lan H) : Prop :=
  m.wire.length + ∑ h, Host.budget (m.hosts h) ≤
    m.foreign.length + 2 * m.pings.length + m.answered

/-- When one host changes, only its summand does. -/
theorem budget_update {host : Host} (hn : n.hosts = Function.update m.hosts h host) :
    ∑ k, Host.budget (n.hosts k) + Host.budget (m.hosts h) =
      ∑ k, Host.budget (m.hosts k) + Host.budget host := by
  rw [hn]
  exact sum_party_update Host.budget m.hosts h host

/-- A step of a call keeps the count. -/
theorem Counted.afterCall (hc : Counted m) {r : CallStep} {put : Host → Host}
    (hput : r.frame.toList.length + Host.budget (put { m.hosts h with ipv4 := r.ipv4 }) ≤
      Host.budget (m.hosts h)) : Counted (m.afterCall h r put) := by
  have hsum := budget_update (m := m) (n := m.afterCall h r put) rfl
  have hwire : (m.afterCall h r put).wire.length = m.wire.length + r.frame.toList.length :=
    List.length_append
  have hforeign : (m.afterCall h r put).foreign = m.foreign := rfl
  have hpings : (m.afterCall h r put).pings = m.pings := rfl
  have hanswered : (m.afterCall h r put).answered = m.answered := rfl
  unfold Counted at *
  rw [hwire, hforeign, hpings, hanswered]
  omega

/-- Each step keeps the count. -/
theorem Counted.step (hc : Counted m) (hi : LanInv devices m) {op : LanOp H}
    (hstep : m.next devices op = some n) : Counted n := by
  cases op with
  | configure h devId ip =>
    obtain ⟨dev, hdev, hstep⟩ := Option.bind_eq_some_iff.mp hstep
    obtain ⟨ipv4, hipv4, hn⟩ := Option.map_eq_some_iff.mp hstep
    have hhosts : n.hosts = Function.update m.hosts h { m.hosts h with ipv4 := ipv4 } := by
      rw [← hn]
    have hsum : ∑ k, Host.budget (n.hosts k) + Host.budget (m.hosts h) =
        ∑ k, Host.budget (m.hosts k) + Host.budget (m.hosts h) :=
      (budget_update hhosts).trans rfl
    unfold Counted at *
    rw [Nat.add_right_cancel hsum, ← hn]
    exact hc
  | ping h devId b dstIp identifier sequence payload =>
    obtain ⟨dev, hdev, hn⟩ := Option.map_eq_some_iff.mp hstep
    generalize hcall : startEcho (m.hosts h).ipv4 devId dev b ICMP_ECHO_REQUEST zeroIpv4 dstIp
      identifier sequence payload = call at hn
    have hhosts : n.hosts = Function.update m.hosts h
        { m.hosts h with calls := (m.hosts h).calls ++ call.toList } := by
      rw [← hn]
    have hsum := budget_update hhosts
    -- The new call may send two frames.
    have hnew : Host.budget { m.hosts h with calls := (m.hosts h).calls ++ call.toList } ≤
        Host.budget (m.hosts h) + 2 := by
      cases call with
      | none =>
        rw [Option.toList_none, List.append_nil]
        exact Nat.le_add_right _ 2
      | some c =>
        obtain ⟨ip, -, rfl⟩ := startEcho_some hcall
        simp only [Host.budget, Option.toList_some, List.map_append, List.sum_append,
          List.map_cons, List.map_nil, List.sum_cons, List.sum_nil, SendPhase.budget]
        omega
    have hpings : n.pings.length = m.pings.length + 1 := by
      rw [← hn]
      exact List.length_cons
    have hrest : n.wire = m.wire ∧ n.foreign = m.foreign ∧ n.answered = m.answered := by
      rw [← hn]
      exact ⟨rfl, rfl, rfl⟩
    unfold Counted at *
    rw [hrest.1, hrest.2.1, hrest.2.2]
    omega
  | call h i a =>
    obtain ⟨c, hcall, hstep⟩ := Option.bind_eq_some_iff.mp hstep
    obtain ⟨dev, hdev, rfl⟩ := Option.map_eq_some_iff.mp hstep
    refine hc.afterCall ?_
    have hbudget := step_budget c dev a (m.hosts h).arp (m.hosts h).ipv4
    cases hrest : (c.step (m.hosts h).arp (m.hosts h).ipv4 dev a).next with
    | none =>
      rw [hrest, Option.elim_none] at hbudget
      have hsum := sum_map_eraseIdx (fun c : SendCall => SendPhase.budget c.phase) hcall
      simp only [Host.budget, Option.elim_none]
      omega
    | some rest =>
      rw [hrest, Option.elim_some] at hbudget
      have hsum := sum_map_set (fun c : SendCall => SendPhase.budget c.phase) hcall rest
      simp only [Host.budget, Option.elim_some]
      omega
  | reply h a =>
    obtain ⟨c, hcall, hstep⟩ := Option.bind_eq_some_iff.mp hstep
    obtain ⟨dev, hdev, rfl⟩ := Option.map_eq_some_iff.mp hstep
    refine hc.afterCall ?_
    simp only [Host.budget, hcall, Option.toList_some, List.length_singleton]
    -- The reply finds its address, so it sends one frame and is done.
    rcases (hi.hosts h).ready c hcall with ⟨hphase, -⟩ | ⟨mac, hphase⟩
    · simp only [SendCall.step, hphase, Option.toList_some, Option.toList_none,
        List.length_singleton, List.length_nil]
      omega
    · have hbudget := step_budget c dev a (m.hosts h).arp (m.hosts h).ipv4
      have hnext : (c.step (m.hosts h).arp (m.hosts h).ipv4 dev a).next = none := by
        rw [SendCall.step, hphase]
      rw [hnext, hphase] at hbudget
      rw [hnext, Option.toList_none, List.length_nil]
      have hone : SendPhase.budget (.found mac) = 1 := rfl
      omega
  | deliver h devId i b =>
    rw [Lan.next] at hstep
    split at hstep
    · cases hstep
    · rename_i hidle
      obtain ⟨frame, hframe, hstep⟩ := Option.bind_eq_some_iff.mp hstep
      obtain ⟨dev, hdev, hn⟩ := Option.map_eq_some_iff.mp hstep
      have hnone : (m.hosts h).rx = none := by
        rwa [Option.not_isSome_iff_eq_none] at hidle
      -- What the frame leads to is paid for by the count of requests.
      have hbudget := dispatch_budget (m.hosts h) dev devId b frame
      generalize hr : VKernel.Net.dispatchFrame (m.hosts h) devId dev b frame = r at hn hbudget
      have hhosts : n.hosts = Function.update m.hosts h
          { m.hosts h with arp := r.arp, rx := r.rx } := by
        rw [← hn]
      have hsum := budget_update hhosts
      have hnew : Host.budget { m.hosts h with arp := r.arp, rx := r.rx } =
          Host.budget (m.hosts h) + r.rx.toList.length := by
        simp only [Host.budget, hnone, Option.toList_none, List.length_nil, Nat.add_zero]
      have hwire : n.wire.length = m.wire.length + r.frame.toList.length := by
        rw [← hn]
        exact List.length_append
      have hanswered : n.answered = m.answered + if r.asked then 1 else 0 := by rw [← hn]
      have hrest : n.foreign = m.foreign ∧ n.pings = m.pings := by
        rw [← hn]
        exact ⟨rfl, rfl⟩
      unfold Counted at *
      rw [hwire, hanswered, hrest.1, hrest.2]
      omega
  | foreign frame =>
    cases hstep
    unfold Counted at *
    simp only [List.length_append, List.length_cons, List.length_nil]
    omega

/-- In every such run, a host sends at most two frames for each request that is asked for, and
one for each request that arrives. Replies lead to nothing. -/
theorem lan_no_storm (m : Lan H) (hm : ((lanSystem devices).restrict EchoFits).Reachable m) :
    m.wire.length ≤ m.foreign.length + 2 * m.pings.length + m.answered := by
  have hcount : Counted m := by
    refine hm.invariant (fun m hinit => ?_) fun _ _ _ hs h hstep =>
      h.step (LanInv.of_reachable hs) hstep.2
    rw [show m = Lan.initial from hinit]
    have hidle : ∀ k, Host.budget ((Lan.initial : Lan H).hosts k) = 0 := fun _ => rfl
    unfold Counted
    rw [Finset.sum_congr rfl fun k _ => hidle k, Finset.sum_const_zero]
    exact Nat.zero_le _
  unfold Counted at hcount
  omega

/-- The run of the ping. -/
theorem lan_no_storm_ping : ∃ m, ((lanSystem twoHosts).restrict EchoFits).Reachable m ∧
    m.wire.length = 4 ∧ 4 ≤ m.foreign.length + 2 * m.pings.length + 2 := by
  obtain ⟨m, hreach, hwire, hanswered, -⟩ := pingRun_reachable
  have hcount := lan_no_storm m hreach
  rw [hwire, hanswered] at hcount
  exact ⟨m, hreach, hwire, hcount⟩

end Counting

end VKernel.Proofs.Net
